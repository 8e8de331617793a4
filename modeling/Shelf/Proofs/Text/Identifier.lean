import Shelf.Proofs.Decimal.Digits
import Shelf.Proofs.Text.Token

/-!
Identifiers, and tokens that are made of them.

An identifier is a word of ASCII letters, digits and underscores that does not begin with a digit.
A token is plain when the pieces between its dots are identifiers, and without a dot it is one
identifier itself.

    price    meta.color_2    _x        plain
    .price    a..b    2x    a.    -x    refused
-/

namespace Shelf.Text

/-- A word of ASCII letters, digits and underscores, with no digit in front. -/
structure IsIdentifier (cs : List Char) : Prop where
  nonempty : cs ≠ []
  word : ∀ c ∈ cs, c.isAlphanum = true ∨ c = '_'
  lead : ∀ c, cs.head? = some c → c.isDigit = false

/-- Identifiers joined by single dots. -/
def IsDotted (cs : List Char) : Prop := ∀ part ∈ cs.splitOn '.', IsIdentifier part

/-! ### Characters -/

theorem isTokenLead_iff {c : Char} : isTokenLead c = true ↔ c.isAlpha = true ∨ c = '_' := by
  have hupper : ('A' ≤ c && c ≤ 'Z') = c.isUpper := (Bool.decide_and _ _).symm
  have hlower : ('a' ≤ c && c ≤ 'z') = c.isLower := rfl
  rw [isTokenLead, hupper, hlower, Bool.or_eq_true, beq_iff_eq]
  rfl

theorem isTokenBody_iff {c : Char} : isTokenBody c = true ↔ c.isAlphanum = true ∨ c = '_' := by
  have hdigit : ('0' ≤ c && c ≤ '9') = c.isDigit := rfl
  rw [isTokenBody, hdigit, Bool.or_eq_true, isTokenLead_iff, Char.isAlphanum, Bool.or_eq_true,
    or_right_comm]

/-- Where the leads of identifiers stand among the characters. -/
theorem toNat_of_isTokenLead {c : Char} (h : isTokenLead c = true) :
    (65 ≤ c.toNat ∧ c.toNat ≤ 90) ∨ (97 ≤ c.toNat ∧ c.toNat ≤ 122) ∨ c.toNat = 95 := by
  simp only [isTokenLead, Bool.or_eq_true, Bool.and_eq_true, decide_eq_true_eq, beq_iff_eq,
    Char.le_def, UInt32.le_iff_toNat_le] at h
  rcases h with (h | h) | rfl
  · exact .inl h
  · exact .inr (.inl h)
  · exact .inr (.inr rfl)

theorem isDigit_of_isTokenLead {c : Char} (h : isTokenLead c = true) : c.isDigit = false := by
  have hlead := toNat_of_isTokenLead h
  refine Bool.eq_false_iff.2 fun hdigit => ?_
  simp only [Char.isDigit, Bool.and_eq_true, decide_eq_true_eq, ge_iff_le, UInt32.le_iff_toNat_le]
    at hdigit
  change 48 ≤ c.toNat ∧ c.toNat ≤ 57 at hdigit
  omega

theorem isTokenLead_of_isTokenBody {c : Char} (h : isTokenBody c = true) (hc : c.isDigit = false) :
    isTokenLead c = true := by
  have hdigit : ('0' ≤ c && c ≤ '9') = c.isDigit := rfl
  rwa [isTokenBody, hdigit, hc, Bool.or_false] at h

theorem isBlank_of_isTokenLead {c : Char} (h : isTokenLead c = true) : isBlank c = false := by
  have hlead := toNat_of_isTokenLead h
  simp only [isBlank, Bool.or_eq_false_iff, Bool.and_eq_false_iff, decide_eq_false_iff_not,
    beq_eq_false_iff_ne]
  omega

theorem isBlank_of_isTokenChar {c : Char} (h : isTokenChar c = true) : isBlank c = false := by
  rw [isTokenChar, isTokenBody, Bool.or_eq_true, Bool.or_eq_true, beq_iff_eq] at h
  rcases h with (hlead | hdigit) | rfl
  · exact isBlank_of_isTokenLead hlead
  · exact isBlank_of_isDigit hdigit
  · decide

/-! ### Scans -/

/-- Within an identifier a scan without a dot goes on as long as it meets letters, digits and
underscores. -/
theorem foldl_step_inside_iff : ∀ {cs : List Char}, '.' ∉ cs →
    (cs.foldl TokenScan.step .inside = .inside ↔ ∀ c ∈ cs, isTokenBody c = true)
  | [],      _ => iff_of_true rfl fun _ hc => absurd hc List.not_mem_nil
  | c :: cs, h => by
    obtain ⟨hc, hcs⟩ := List.ne_and_not_mem_of_not_mem_cons h
    rw [List.foldl_cons, List.forall_mem_cons, TokenScan.step]
    cases hbody : isTokenBody c with
    | true => rw [if_pos rfl, foldl_step_inside_iff hcs, and_iff_right rfl]
    | false =>
      rw [if_neg Bool.false_ne_true, if_neg (Ne.symm hc), foldl_step_refused]
      exact iff_of_false TokenScan.noConfusion fun hall => Bool.false_ne_true hall.1

theorem isIdentifier_cons_iff {c : Char} {cs : List Char} :
    IsIdentifier (c :: cs) ↔ isTokenLead c = true ∧ ∀ d ∈ cs, isTokenBody d = true := by
  constructor
  · rintro ⟨-, hword, hlead⟩
    obtain ⟨hc, hcs⟩ := List.forall_mem_cons.1 hword
    exact ⟨isTokenLead_of_isTokenBody (isTokenBody_iff.2 hc) (hlead c rfl),
      fun d hd => isTokenBody_iff.2 (hcs d hd)⟩
  · rintro ⟨hc, hcs⟩
    have hbody : isTokenBody c = true := by rw [isTokenBody, hc, Bool.true_or]
    refine ⟨List.cons_ne_nil c cs, fun d hd => isTokenBody_iff.1 ?_, fun d hd => ?_⟩
    · rcases List.mem_cons.1 hd with rfl | hd
      · exact hbody
      · exact hcs d hd
    · obtain rfl := Option.some.inj hd
      exact isDigit_of_isTokenLead hc

/-- A scan without a dot ends inside an identifier when it has met one. -/
theorem foldl_step_start_iff_of_undotted {cs : List Char} (h : '.' ∉ cs) :
    cs.foldl TokenScan.step .start = .inside ↔ IsIdentifier cs := by
  cases cs with
  | nil => exact iff_of_false TokenScan.noConfusion fun hcs => hcs.nonempty rfl
  | cons c cs =>
    rw [List.foldl_cons, TokenScan.step, isIdentifier_cons_iff]
    cases hlead : isTokenLead c with
    | true =>
      rw [if_pos rfl, and_iff_right rfl]
      exact foldl_step_inside_iff (List.not_mem_of_not_mem_cons h)
    | false =>
      rw [if_neg Bool.false_ne_true, foldl_step_refused]
      exact iff_of_false TokenScan.noConfusion fun hall => Bool.false_ne_true hall.1

/-- A dot has to end an identifier, and the scan starts again behind it. -/
theorem foldl_step_dot_iff {front back : List Char} :
    (front ++ '.' :: back).foldl TokenScan.step .start = .inside ↔
      front.foldl TokenScan.step .start = .inside ∧
        back.foldl TokenScan.step .start = .inside := by
  rw [List.foldl_append, List.foldl_cons]
  cases front.foldl TokenScan.step .start with
  | inside => exact (and_iff_right rfl).symm
  | start =>
    have hdot : TokenScan.start.step '.' = .refused := rfl
    rw [hdot, foldl_step_refused]
    exact iff_of_false TokenScan.noConfusion fun hall => TokenScan.noConfusion hall.1
  | refused =>
    rw [TokenScan.step, foldl_step_refused]
    exact iff_of_false TokenScan.noConfusion fun hall => TokenScan.noConfusion hall.1

theorem foldl_step_start_iff (cs : List Char) :
    cs.foldl TokenScan.step .start = .inside ↔ IsDotted cs := by
  by_cases hdot : '.' ∈ cs
  · obtain ⟨front, back, hcs, hfront⟩ := List.eq_append_cons_of_mem hdot
    have hshorter : back.length < cs.length := by
      rw [hcs, List.length_append, List.length_cons]
      omega
    rw [hcs, foldl_step_dot_iff, foldl_step_start_iff_of_undotted hfront, foldl_step_start_iff back,
      IsDotted, IsDotted, List.splitOn_append_cons_self_of_not_mem hfront, List.forall_mem_cons]
  · rw [foldl_step_start_iff_of_undotted hdot, IsDotted, List.splitOn_eq_singleton hdot,
      List.forall_mem_singleton]
termination_by cs.length

/-! ### Plain tokens -/

/-- The plain tokens are identifiers joined by single dots. -/
theorem isPlainToken_iff {token : String} : isPlainToken token = true ↔ IsDotted token.toList := by
  rw [isPlainToken, decide_eq_true_iff, foldl_step_start_iff]

theorem toList_ne_nil_of_isPlainToken {token : String} (h : isPlainToken token = true) :
    token.toList ≠ [] := by
  intro hnil
  rw [isPlainToken, hnil] at h
  exact absurd h (by decide)

theorem IsIdentifier.undotted {cs : List Char} (h : IsIdentifier cs) : '.' ∉ cs := by
  intro hdot
  rcases h.word '.' hdot with hword | hword
  · exact absurd hword (by decide)
  · exact absurd hword (by decide)

/-- The plain tokens without a dot are the identifiers. -/
theorem isPlainToken_and_undotted_iff {token : String} :
    isPlainToken token = true ∧ '.' ∉ token.toList ↔ IsIdentifier token.toList := by
  rw [isPlainToken, decide_eq_true_iff]
  constructor
  · rintro ⟨hend, hdot⟩
    exact (foldl_step_start_iff_of_undotted hdot).1 hend
  · intro h
    exact ⟨(foldl_step_start_iff_of_undotted h.undotted).2 h, h.undotted⟩

end Shelf.Text
