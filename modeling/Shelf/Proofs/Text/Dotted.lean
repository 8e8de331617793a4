import Shelf.Proofs.Filter.FromParams
import Shelf.Proofs.Text.Identifier

/-!
Tokens that pass the check.

A token passes when it is a row of identifiers joined by single dots. So there is nothing in it that
a storage could read as syntax, a dot always stands between two tokens that pass by themselves, and
any two tokens that pass may be joined by a dot.

    price    meta.color_2    _x                     pass
    $where    a[0]    a b    .price    a..b    a.    refused
-/

namespace Shelf

namespace Text

variable {token other : String}

/-- Characters that may mean something to a storage or cannot be seen: the sigil of operators,
brackets, blanks, control characters, and whatever is not ASCII. -/
def IsForeign (c : Char) : Prop :=
  c = '$' ∨ c ∈ ['(', ')', '[', ']', '{', '}', '<', '>'] ∨ isBlank c = true ∨
    c.toNat < 0x20 ∨ 0x7F ≤ c.toNat

theorem toNat_of_isTokenChar {c : Char} (h : isTokenChar c = true) :
    0x2E ≤ c.toNat ∧ c.toNat < 0x7F := by
  rw [isTokenChar, isTokenBody, Bool.or_eq_true, Bool.or_eq_true, beq_iff_eq] at h
  rcases h with (hlead | hdigit) | rfl
  · have := toNat_of_isTokenLead hlead
    omega
  · simp only [Bool.and_eq_true, decide_eq_true_eq, Char.le_def, UInt32.le_iff_toNat_le] at hdigit
    change 48 ≤ c.toNat ∧ c.toNat ≤ 57 at hdigit
    omega
  · decide

theorem not_isForeign_of_isTokenChar {c : Char} (h : isTokenChar c = true) : ¬ IsForeign c := by
  obtain ⟨hlow, hhigh⟩ := toNat_of_isTokenChar h
  rintro (rfl | hbracket | hblank | hcontrol | hbeyond)
  · exact absurd h (by decide)
  · have hnone : ['(', ')', '[', ']', '{', '}', '<', '>'].any isTokenChar = false := by rfl
    exact Bool.false_ne_true (hnone ▸ List.any_eq_true.2 ⟨c, hbracket, h⟩)
  · rw [isBlank_of_isTokenChar h] at hblank
    exact Bool.false_ne_true hblank
  · omega
  · omega

/-! ### Dots -/

/-- Tokens joined by a dot are plain when each of them is. -/
theorem isPlainToken_join_iff : isPlainToken (token ++ "." ++ other) = true ↔
    isPlainToken token = true ∧ isPlainToken other = true := by
  have hchars : (token ++ "." ++ other).toList = token.toList ++ '.' :: other.toList := by
    rw [String.toList_append, String.toList_append, List.append_assoc]
    rfl
  simp only [isPlainToken, decide_eq_true_iff, hchars, foldl_step_dot_iff]

/-- No dot stands at either end of a plain token. -/
theorem ne_nil_of_dot {front back : List Char} (h : isPlainToken token = true)
    (hdot : token.toList = front ++ '.' :: back) : front ≠ [] ∧ back ≠ [] := by
  rw [isPlainToken, decide_eq_true_iff, hdot, foldl_step_dot_iff] at h
  constructor
  · rintro rfl
    exact TokenScan.noConfusion h.1
  · rintro rfl
    exact TokenScan.noConfusion h.2

theorem isPlainToken_ofList_iff {part : List Char} (h : '.' ∉ part) :
    isPlainToken (.ofList part) = true ↔ IsIdentifier part := by
  rw [isPlainToken, decide_eq_true_iff, String.toList_ofList, foldl_step_start_iff_of_undotted h]

/-- The plain tokens are rows of identifiers joined by dots. -/
theorem isPlainToken_iff_exists_segments : isPlainToken token = true ↔
    ∃ segments : List String, segments ≠ [] ∧ (∀ s ∈ segments, IsIdentifier s.toList) ∧
      token = ".".intercalate segments := by
  rw [isPlainToken_iff, IsDotted]
  constructor
  · intro h
    refine ⟨(token.toList.splitOn '.').map String.ofList, ?_, ?_, ?_⟩
    · exact fun hnil => List.splitOn_ne_nil '.' token.toList (List.map_eq_nil_iff.1 hnil)
    · rw [List.forall_mem_map]
      intro part hpart
      rw [String.toList_ofList]
      exact h part hpart
    · have hchars : ['.'].intercalate (token.toList.splitOn '.') = token.toList :=
        List.intercalate_splitOn '.'
      have hparts : ((token.toList.splitOn '.').map String.ofList).map String.toList =
          token.toList.splitOn '.' := by
        rw [List.map_map]
        exact (List.map_congr_left fun part _ => String.toList_ofList).trans (List.map_id _)
      rw [← String.toList_inj, String.toList_intercalate, hparts]
      exact hchars.symm
  · rintro ⟨segments, hsome, hall, rfl⟩
    have hsplit : (".".intercalate segments).toList.splitOn '.' = segments.map String.toList := by
      rw [String.toList_intercalate]
      refine List.splitOn_intercalate '.' ?_ (mt List.map_eq_nil_iff.1 hsome)
      rw [List.forall_mem_map]
      exact fun s hs => (hall s hs).undotted
    rw [hsplit, List.forall_mem_map]
    exact hall

end Text

/-! ### The check -/

/-- How a token is checked. It passes when it is a row of identifiers joined by dots, and otherwise
it is refused by name. -/
structure TokenChecked (token : String) : Prop where
  passes_iff : checkToken token = .ok () ↔ ∃ segments : List String, segments ≠ [] ∧
    (∀ s ∈ segments, Text.IsIdentifier s.toList) ∧ token = ".".intercalate segments
  refused : checkToken token ≠ .ok () → checkToken token = .error (.controlSyntax token)
  clean : checkToken token = .ok () → ∀ c ∈ token.toList, ¬ Text.IsForeign c
  ends : checkToken token = .ok () →
    token.toList.head? ≠ some '.' ∧ token.toList.getLast? ≠ some '.'
  pieces : checkToken token = .ok () →
    ∀ part ∈ token.toList.splitOn '.', part ≠ [] ∧ checkToken (.ofList part) = .ok ()
  joins : ∀ other, checkToken (token ++ "." ++ other) = .ok () ↔
    checkToken token = .ok () ∧ checkToken other = .ok ()

/-- Every token is checked by the rule of the dotted identifiers. -/
theorem tokenChecked (token : String) : TokenChecked token := by
  refine ⟨?_, ?_, ?_, ?_, ?_, ?_⟩
  · rw [checkToken_eq_ok, Text.isPlainToken_iff_exists_segments]
  · intro h
    rw [ne_eq, checkToken_eq_ok] at h
    rw [checkToken, if_neg h]
  · intro h c hc
    have hplain := checkToken_eq_ok.1 h
    exact Text.not_isForeign_of_isTokenChar (Text.isTokenChar_of_isPlainToken hplain c hc)
  · intro h
    have hplain := checkToken_eq_ok.1 h
    constructor
    · intro hhead
      obtain ⟨back, hback⟩ := List.head?_eq_some_iff.1 hhead
      exact (Text.ne_nil_of_dot hplain (hback.trans (List.nil_append _).symm)).1 rfl
    · intro hlast
      obtain ⟨front, hfront⟩ := List.getLast?_eq_some_iff.1 hlast
      exact (Text.ne_nil_of_dot hplain hfront).2 rfl
  · intro h part hpart
    have hsegment := Text.isPlainToken_iff.1 (checkToken_eq_ok.1 h) part hpart
    rw [checkToken_eq_ok, Text.isPlainToken_ofList_iff hsegment.undotted]
    exact ⟨hsegment.nonempty, hsegment⟩
  · intro other
    rw [checkToken_eq_ok, checkToken_eq_ok, checkToken_eq_ok, Text.isPlainToken_join_iff]

example : checkToken "price\n" = .error (.controlSyntax "price\n") := by rfl

end Shelf
