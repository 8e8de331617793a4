import Shelf.Proofs.Decimal.Digits
import Shelf.Proofs.Decimal.Operations

/-!
Texts that are read as numbers.

There is no blank in a numeral, so it stands as it is when it is trimmed. A numeral is read as the
floating-point number that is nearest to it, also where that is decided by its first digit alone.
Whatever reads as a count reads as a number as well, and the number is the one that the count is
converted to.

    text      count    number
    25        25       25.0
    -0        0        -0.0
    2.5e1              25.0
    " 25"
-/

namespace Shelf.Decimal

/-! ### Digits -/

theorem digitsValue_cons (d : Char) (ds : List Char) :
    digitsValue (d :: ds) = 10 ^ ds.length * (d.toNat - '0'.toNat) + digitsValue ds := by
  rw [digitsValue, digitsValue, ← Nat.ofDigitChars_eq_foldl, ← Nat.ofDigitChars_eq_foldl,
    Nat.ofDigitChars_cons, Nat.ofDigitChars_eq_ofDigitChars_zero, mul_zero, zero_add]

/-- Zeros in front do not count. -/
theorem digitsValue_dropWhile_zero : ∀ ds : List Char,
    digitsValue (ds.dropWhile (· = '0')) = digitsValue ds
  | []      => rfl
  | d :: ds => by
    by_cases hd : d = '0'
    · rw [List.dropWhile_cons_of_pos (by simpa using hd), digitsValue_dropWhile_zero ds,
        digitsValue_cons, hd, Nat.sub_self, mul_zero, zero_add]
    · rw [List.dropWhile_cons_of_neg (by simpa using hd)]

/-- A row without a zero in front is as large as its length says. -/
theorem pow_length_le_digitsValue {d : Char} (hdigit : d.isDigit = true) (hd : d ≠ '0')
    (ds : List Char) : 10 ^ ds.length ≤ digitsValue (d :: ds) := by
  have hlarge : 1 ≤ d.toNat - '0'.toNat := by
    have hlow : 48 ≤ d.toNat := (Char.isDigit_iff_toNat.1 hdigit).1
    have hne : d.toNat ≠ '0'.toNat := fun hsame => hd (Char.toNat_inj.1 hsame)
    change 1 ≤ d.toNat - 48
    change d.toNat ≠ 48 at hne
    omega
  calc 10 ^ ds.length
      = 10 ^ ds.length * 1 := (mul_one _).symm
    _ ≤ 10 ^ ds.length * (d.toNat - '0'.toNat) := Nat.mul_le_mul_left _ hlarge
    _ ≤ digitsValue (d :: ds) := digitsValue_cons d ds ▸ Nat.le_add_right _ _

theorem digitsValue_lt_pow_length : ∀ {ds : List Char}, (∀ c ∈ ds, c.isDigit = true) →
    digitsValue ds < 10 ^ ds.length
  | [],      _ => Nat.one_pos
  | d :: ds, h => by
    have hrest := digitsValue_lt_pow_length (List.forall_mem_cons.1 h).2
    have hsmall : d.toNat - '0'.toNat ≤ 9 := by
      have hhigh : d.toNat ≤ 57 := (Char.isDigit_iff_toNat.1 (h d List.mem_cons_self)).2
      change d.toNat - 48 ≤ 9
      omega
    calc digitsValue (d :: ds)
        = 10 ^ ds.length * (d.toNat - '0'.toNat) + digitsValue ds := digitsValue_cons d ds
      _ < 10 ^ ds.length * 9 + 10 ^ ds.length :=
        Nat.add_lt_add_of_le_of_lt (Nat.mul_le_mul_left _ hsmall) hrest
      _ = 10 ^ (d :: ds).length := by
        rw [List.length_cons, pow_succ]
        ring

/-! ### No blanks -/

/-- A text without blanks. -/
def Solid (cs : List Char) : Prop := ∀ c ∈ cs, Text.isBlank c = false

theorem Solid.of_spanSign {cs : List Char} (h : Solid (spanSign cs).2) : Solid cs := by
  unfold spanSign at h
  split at h
  · exact List.forall_mem_cons.2 ⟨rfl, h⟩
  · exact List.forall_mem_cons.2 ⟨rfl, h⟩
  · exact h

theorem Solid.of_spanDigits {cs : List Char} (h : Solid (spanDigits cs).2) : Solid cs := by
  intro c hc
  rw [← List.takeWhile_append_dropWhile (p := Char.isDigit) (l := cs)] at hc
  rcases List.mem_append.1 hc with hc | hc
  · exact Text.isBlank_of_isDigit (List.mem_takeWhile_imp hc)
  · exact h c hc

theorem solid_of_exponentPart {cs : List Char} {e : Int} (h : exponentPart? cs = some e) :
    Solid cs := by
  cases cs with
  | nil => exact fun _ hc => absurd hc List.not_mem_nil
  | cons c cs =>
    rw [exponentPart?] at h
    split at h
    · next hletter =>
      have hrest : (spanDigits (spanSign cs).2).2 = [] := by
        dsimp only at h
        split at h
        · cases h
        · next hend => simpa using (not_or.1 hend).2
      have hcs : Solid cs := by
        refine .of_spanSign (.of_spanDigits ?_)
        rw [hrest]
        exact fun _ hc => absurd hc List.not_mem_nil
      rcases hletter with rfl | rfl
      · exact List.forall_mem_cons.2 ⟨rfl, hcs⟩
      · exact List.forall_mem_cons.2 ⟨rfl, hcs⟩
    · cases h

theorem solid_of_ofChars {cs : List Char} {n : Numeral} (h : Numeral.ofChars? cs = some n) :
    Solid cs := by
  have htail : ∀ {none? : Bool} {tail : List Char} {make : Int → Numeral},
      (if none? then none else (exponentPart? tail).map make) = some n → Solid tail := by
    intro none? tail make h
    split at h
    · cases h
    · obtain ⟨e, he, -⟩ := Option.map_eq_some_iff.1 h
      exact solid_of_exponentPart he
  refine .of_spanDigits ?_
  unfold Numeral.ofChars? at h
  generalize spanDigits cs = parts at h ⊢
  obtain ⟨whole, rest⟩ := parts
  dsimp only at h ⊢
  split at h
  · exact List.forall_mem_cons.2 ⟨rfl, Solid.of_spanDigits (htail h)⟩
  · exact htail h

/-- No capital letter is a blank. -/
theorem toLower_of_isBlank {c : Char} (h : Text.isBlank c = true) : c.toLower = c := by
  refine dif_neg ?_
  rintro ⟨hlow, hhigh⟩
  rw [ge_iff_le, UInt32.le_iff_toNat_le] at hlow
  rw [UInt32.le_iff_toNat_le] at hhigh
  change 65 ≤ c.toNat at hlow
  change c.toNat ≤ 90 at hhigh
  simp only [Text.isBlank, Bool.or_eq_true, Bool.and_eq_true, decide_eq_true_eq, beq_iff_eq] at h
  omega

/-- A text is free of blanks when it is so in small letters. -/
theorem solid_of_toLower {cs : List Char} (h : Solid (cs.map Char.toLower)) : Solid cs := by
  intro c hc
  have hlower := h _ (List.mem_map_of_mem hc)
  cases hblank : Text.isBlank c with
  | false => rfl
  | true =>
    rw [toLower_of_isBlank hblank, hblank] at hlower
    exact hlower

theorem named?_eq (cs : List Char) : named? cs =
    if cs.map Char.toLower = ['i', 'n', 'f'] ∨
        cs.map Char.toLower = ['i', 'n', 'f', 'i', 'n', 'i', 't', 'y'] then some (1.0 / 0.0)
    else if cs.map Char.toLower = ['n', 'a', 'n'] then some (0.0 / 0.0)
    else none := by
  have hname : ∀ {name : List Char},
      String.ofList (cs.map Char.toLower) = String.ofList name ↔ cs.map Char.toLower = name :=
    String.ofList_inj
  simp only [← hname]
  rfl

theorem solid_of_named {cs : List Char} {x : Float} (h : named? cs = some x) : Solid cs := by
  refine solid_of_toLower ?_
  rw [named?_eq] at h
  split at h
  · next hinf =>
    rcases hinf with hinf | hinf
    · rw [hinf]
      simp [Solid, Text.isBlank]
    · rw [hinf]
      simp [Solid, Text.isBlank]
  · split at h
    · next hnan =>
      rw [hnan]
      simp [Solid, Text.isBlank]
    · cases h

theorem solid_of_readFloat {cs : List Char} {x : Float} (h : readFloat? cs = some x) :
    Solid cs := by
  refine .of_spanSign ?_
  obtain ⟨y, hy, -⟩ := Option.map_eq_some_iff.1 h
  rcases Option.or_eq_some_iff.1 hy with hnamed | ⟨-, hsize⟩
  · exact solid_of_named hnamed
  · obtain ⟨n, hn, -⟩ := Option.map_eq_some_iff.1 hsize
    exact solid_of_ofChars hn

/-! ### The nearest number -/

/-- What a numeral stands for. -/
def Numeral.value (n : Numeral) : ℚ := digitsValue n.digits * 10 ^ n.exponent

theorem isDigit_of_spanDigits (cs : List Char) : ∀ c ∈ (spanDigits cs).1, c.isDigit = true :=
  fun _ hc => List.mem_takeWhile_imp hc

theorem isDigit_of_ofChars {cs : List Char} {n : Numeral} (h : Numeral.ofChars? cs = some n) :
    ∀ c ∈ n.digits, c.isDigit = true := by
  have hparts : ∀ {none? : Bool} {whole fraction tail : List Char},
      (∀ c ∈ whole, c.isDigit = true) → (∀ c ∈ fraction, c.isDigit = true) →
      (if none? then none
        else (exponentPart? tail).map fun e =>
          Numeral.mk (whole ++ fraction) (e - fraction.length)) =
        some n → ∀ c ∈ n.digits, c.isDigit = true := by
    intro none? whole fraction tail hwhole hfraction h
    split at h
    · cases h
    · obtain ⟨e, -, rfl⟩ := Option.map_eq_some_iff.1 h
      exact fun c hc => (List.mem_append.1 hc).elim (hwhole c) (hfraction c)
  have hwhole := isDigit_of_spanDigits cs
  unfold Numeral.ofChars? at h
  generalize spanDigits cs = parts at h hwhole
  obtain ⟨whole, rest⟩ := parts
  dsimp only at h hwhole
  split at h
  · exact hparts hwhole (isDigit_of_spanDigits _) h
  · exact hparts hwhole (fun c hc => absurd hc List.not_mem_nil) h

/-- Ten to the 310 is beyond the finite numbers. -/
theorem floatBound_le_ten_zpow {e : Int} (he : 310 ≤ e) : floatBound ≤ 10 ^ e := by
  have hnat : 2 ^ 1024 ≤ 10 ^ 310 := by decide +kernel
  have hrat := (Nat.cast_le (α := ℚ)).2 hnat
  rw [Nat.cast_pow, Nat.cast_pow, Nat.cast_ofNat, Nat.cast_ofNat, ← zpow_natCast,
    ← zpow_natCast] at hrat
  exact hrat.trans (zpow_le_zpow_right₀ (by norm_num) he)

/-- Ten to the -331 is less than half of the least number. -/
theorem ten_zpow_le_halfLeast {e : Int} (he : e ≤ -331) :
    (10 : ℚ) ^ e ≤ 1 / 2 * 2 ^ (-1074 : Int) := by
  have hnat : 2 ^ 1075 ≤ 10 ^ 331 := by decide +kernel
  have hrat := (Nat.cast_le (α := ℚ)).2 hnat
  rw [Nat.cast_pow, Nat.cast_pow, Nat.cast_ofNat, Nat.cast_ofNat, ← zpow_natCast,
    ← zpow_natCast] at hrat
  have hhalf : (1 / 2 : ℚ) * 2 ^ (-1074 : Int) = (2 ^ ((1075 : Nat) : Int))⁻¹ := by
    rw [one_div, ← zpow_neg_one, ← zpow_add₀ two_ne_zero, ← zpow_neg]
    rfl
  calc (10 : ℚ) ^ e ≤ 10 ^ (-((331 : Nat) : Int)) := zpow_le_zpow_right₀ (by norm_num) he
    _ = (10 ^ ((331 : Nat) : Int))⁻¹ := zpow_neg _ _
    _ ≤ (2 ^ ((1075 : Nat) : Int))⁻¹ := inv_anti₀ (two_zpow_pos _) hrat
    _ = 1 / 2 * 2 ^ (-1074 : Int) := hhalf.symm

namespace Numeral

theorem roundedTo_zero_of_le {q : ℚ} (hnonneg : 0 ≤ q) (hq : q ≤ 1 / 2 * 2 ^ (-1074 : Int)) :
    RoundedTo q 0.0 :=
  Lands.roundedTo (s := .positive) (x := 0.0) (lands_zero hnonneg hq .positive) hnonneg

theorem roundedTo_infinity {q : ℚ} (hq : floatBound ≤ q) : RoundedTo q (1.0 / 0.0) :=
  Lands.roundedTo (s := .positive) (x := 1.0 / 0.0) (lands_infinity hq .positive)
    ((two_zpow_pos 1024).le.trans hq)

/-- A numeral is read as the nearest number, also where its first digit decides. -/
theorem roundedTo_toFloat {n : Numeral} (h : ∀ c ∈ n.digits, c.isDigit = true) :
    RoundedTo n.value n.toFloat := by
  have hpow : ∀ e : Int, (0 : ℚ) < 10 ^ e := fun e => zpow_pos (by norm_num) e
  rw [value, ← digitsValue_dropWhile_zero, toFloat]
  cases hds : n.digits.dropWhile (· = '0') with
  | nil =>
    rw [if_pos (.inl rfl)]
    have hzero : (digitsValue [] : ℚ) * 10 ^ n.exponent = 0 := by
      rw [show digitsValue [] = 0 from rfl, Nat.cast_zero, zero_mul]
    rw [hzero]
    exact roundedTo_zero_of_le le_rfl (by positivity)
  | cons d t =>
    have hd : d ≠ '0' := by
      have hhead := List.head_dropWhile_not (fun c => decide (c = '0')) (l := n.digits)
      simp only [hds, List.head_cons] at hhead
      simpa using hhead
    have hdigits : ∀ c ∈ d :: t, c.isDigit = true := fun c hc =>
      h c ((List.dropWhile_sublist _).subset (hds ▸ hc))
    have hlow : (10 : ℚ) ^ t.length ≤ digitsValue (d :: t) := by
      exact_mod_cast pow_length_le_digitsValue (hdigits d List.mem_cons_self) hd t
    have hhigh : (digitsValue (d :: t) : ℚ) ≤ 10 ^ (t.length + 1) := by
      exact_mod_cast (digitsValue_lt_pow_length hdigits).le
    simp only [List.isEmpty_cons, Bool.false_eq_true, false_or, List.length_cons]
    split
    · next hsmall =>
      refine roundedTo_zero_of_le (by positivity) ?_
      refine (mul_le_mul_of_nonneg_right hhigh (hpow _).le).trans ?_
      rw [← zpow_natCast, ← zpow_add₀ (by norm_num)]
      exact ten_zpow_le_halfLeast (by omega)
    split
    · next hlarge =>
      refine roundedTo_infinity ?_
      refine le_trans ?_ (mul_le_mul_of_nonneg_right hlow (hpow _).le)
      rw [← zpow_natCast, ← zpow_add₀ (by norm_num)]
      exact floatBound_le_ten_zpow (by push_cast at hlarge; omega)
    · have hexponent : (if decide (n.exponent < 0) then -(n.exponent.natAbs : Int)
          else n.exponent.natAbs) = n.exponent := by
        simp only [decide_eq_true_eq]
        split <;> omega
      have hvalue := roundedTo_ofScientific (digitsValue (d :: t)) (n.exponent < 0)
        n.exponent.natAbs
      rw [hexponent] at hvalue
      exact hvalue

end Numeral

/-! ### Signs and names -/

/-- A numeral starts with a digit or a point. -/
theorem ofChars?_eq_none {c : Char} (hdigit : c.isDigit = false) (hpoint : c ≠ '.')
    (cs : List Char) : Numeral.ofChars? (c :: cs) = none := by
  have hspan : spanDigits (c :: cs) = ([], c :: cs) := by
    rw [spanDigits, List.takeWhile_cons_of_neg (by rw [hdigit]; decide),
      List.dropWhile_cons_of_neg (by rw [hdigit]; decide)]
  rw [Numeral.ofChars?, hspan]
  dsimp only
  split
  · next heq =>
    exact absurd (List.cons.inj heq).1 hpoint
  · rfl

theorem toLower_of_isDigit {c : Char} (h : c.isDigit = true) : c.toLower = c := by
  have hlow : c.toNat ≤ 57 := (Char.isDigit_iff_toNat.1 h).2
  refine dif_neg ?_
  rintro ⟨hhigh, -⟩
  rw [ge_iff_le, UInt32.le_iff_toNat_le] at hhigh
  change 65 ≤ c.toNat at hhigh
  omega

/-- No numeral is the name of a number. -/
theorem named?_of_ofChars {cs : List Char} {n : Numeral} (h : Numeral.ofChars? cs = some n) :
    named? cs = none := by
  have hname : ∀ {letter : Char} {name : List Char}, letter.isDigit = false → letter ≠ '.' →
      cs.map Char.toLower ≠ letter :: name := by
    intro letter name hletter hpoint hlower
    cases cs with
    | nil => cases hlower
    | cons c cs =>
      rw [List.map_cons] at hlower
      have hc : c.toLower = letter := (List.cons.inj hlower).1
      have hdigit : c.isDigit = false := by
        by_contra htrue
        rw [Bool.not_eq_false] at htrue
        rw [toLower_of_isDigit htrue] at hc
        rw [hc, hletter] at htrue
        cases htrue
      have hdot : c ≠ '.' := by
        rintro rfl
        exact hpoint hc.symm
      rw [ofChars?_eq_none hdigit hdot] at h
      cases h
  rw [named?_eq, if_neg (not_or.2 ⟨hname rfl (by decide), hname rfl (by decide)⟩),
    if_neg (hname rfl (by decide))]

/-- A numeral behind a sign or without one is read as the number nearest to it. -/
theorem readFloat?_of_ofChars {cs : List Char} {negative : Bool} {ds : List Char} {n : Numeral}
    (hsign : spanSign cs = (negative, ds)) (h : Numeral.ofChars? ds = some n) :
    ∃ x, readFloat? cs = some x ∧ RoundedTo (if negative then -n.value else n.value) x := by
  have hvalue := Numeral.roundedTo_toFloat (isDigit_of_ofChars h)
  rw [readFloat?, hsign]
  dsimp only
  rw [named?_of_ofChars h, h]
  refine ⟨_, rfl, ?_⟩
  cases negative with
  | false => exact hvalue
  | true => exact roundedTo_neg hvalue

/-! ### Counts -/

theorem spanDigits_of_isDigit {ds : List Char} (h : ∀ c ∈ ds, c.isDigit = true) :
    spanDigits ds = (ds, []) := by
  rw [spanDigits, List.takeWhile_eq_self_iff.2 h, List.dropWhile_eq_nil_iff.2 h]

theorem ofChars?_of_digits {ds : List Char} (hne : ds ≠ []) (h : ∀ c ∈ ds, c.isDigit = true) :
    Numeral.ofChars? ds = some ⟨ds, 0⟩ := by
  have hempty : ds.isEmpty = false := List.isEmpty_eq_false_iff.2 hne
  rw [Numeral.ofChars?, spanDigits_of_isDigit h]
  simp [hempty, exponentPart?]

/-- A row of digits behind a sign or without one is read as the number nearest to the integer. -/
theorem readFloat?_of_digits {cs ds : List Char} {negative : Bool}
    (hsign : spanSign cs = (negative, ds)) (hne : ds ≠ []) (h : ∀ c ∈ ds, c.isDigit = true) :
    ∃ x, readFloat? cs = some x ∧
      (Float.ofInt (if negative then -(digitsValue ds : Int) else digitsValue ds) == x) = true := by
  obtain ⟨x, hx, hvalue⟩ := readFloat?_of_ofChars hsign (ofChars?_of_digits hne h)
  have hint : (if negative then -Numeral.value ⟨ds, 0⟩ else Numeral.value ⟨ds, 0⟩) =
      ((if negative then -(digitsValue ds : Int) else digitsValue ds : Int) : ℚ) := by
    rw [Numeral.value, zpow_zero, mul_one]
    split <;> push_cast <;> rfl
  rw [hint] at hvalue
  exact ⟨x, hx, (roundedTo_ofInt _).beq hvalue⟩

/-- The form of a text that reads as a count. -/
theorem digits_of_readCount {cs : List Char} {i : Int} (h : readCount? cs = some i) :
    ∃ negative ds, spanSign cs = (negative, ds) ∧ ds ≠ [] ∧ (∀ c ∈ ds, c.isDigit = true) ∧
      i = if negative then -(digitsValue ds : Int) else digitsValue ds := by
  refine ⟨(spanSign cs).1, (spanSign cs).2, rfl, ?_⟩
  unfold readCount? readSigned? at h
  dsimp only at h
  generalize (if (spanSign cs).1 then _ else _ : Int) = n at h ⊢
  split at h
  · cases h
  next hform =>
  obtain ⟨hne, hdigits⟩ := not_or.1 hform
  split at h
  · exact ⟨by simpa using hne, by simpa using hdigits, (Option.some.inj h).symm⟩
  · cases h

theorem ofInt_beq_self (n : Int) : (Float.ofInt n == Float.ofInt n) = true :=
  (roundedTo_ofInt n).beq (roundedTo_ofInt n)

/-- A text that reads as a count reads as the number that the count is converted to. -/
theorem readFloat?_of_readCount {cs : List Char} {i : Int} (h : readCount? cs = some i) :
    ∃ x, readFloat? cs = some x ∧ (Float.ofInt i == x) = true := by
  obtain ⟨negative, ds, hsign, hne, hdigits, rfl⟩ := digits_of_readCount h
  exact readFloat?_of_digits hsign hne hdigits

end Shelf.Decimal
