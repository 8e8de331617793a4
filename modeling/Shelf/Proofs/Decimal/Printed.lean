import Shelf.Proofs.Decimal.Numeral
import Shelf.Proofs.Decimal.Shortest
import Shelf.Proofs.Json.Finite

/-!
Numbers that are printed and read back.

Every layout of a decimal is a numeral of the decimal's value: with the point in front of its
digits, among them or behind them, zeros filling up either side, or with an exponent. A finite
floating-point number is the one nearest to the decimal that is printed for it, and so is what is
read, so the two are equal. An integer is read back as the number that it is converted to.

    0.00025          25 · 10^-5       zeros, then digits
    2.5              25 · 10^-1
    2500.0           25 · 10^2        digits, then zeros
    2.5e+20          25 · 10^19
-/

namespace Shelf

open Float.Model (UnpackedFloat Format)

namespace Decimal

/-! ### Digits and what follows them -/

/-- A row that a digit does not continue. -/
def Ends (rest : List Char) : Prop := ∀ c ∈ rest.head?, c.isDigit = false

theorem spanDigits_append {ds rest : List Char} (h : ∀ c ∈ ds, c.isDigit = true)
    (hrest : Ends rest) : spanDigits (ds ++ rest) = (ds, rest) := by
  have htake : rest.takeWhile Char.isDigit = [] := by
    cases rest with
    | nil => rfl
    | cons c cs => rw [List.takeWhile_cons_of_neg (by rw [hrest c rfl]; decide)]
  have hdrop : rest.dropWhile Char.isDigit = rest := by
    cases rest with
    | nil => rfl
    | cons c cs => rw [List.dropWhile_cons_of_neg (by rw [hrest c rfl]; decide)]
  rw [spanDigits, List.takeWhile_append_of_pos h, List.dropWhile_append_of_pos h, htake, hdrop,
    List.append_nil]

/-- Digits with a point among them. -/
theorem ofChars?_point {whole fraction tail : List Char} {e : Int}
    (hwhole : ∀ c ∈ whole, c.isDigit = true) (hfraction : ∀ c ∈ fraction, c.isDigit = true)
    (hne : whole ≠ []) (hends : Ends tail) (htail : exponentPart? tail = some e) :
    Numeral.ofChars? (whole ++ '.' :: (fraction ++ tail)) =
      some ⟨whole ++ fraction, e - fraction.length⟩ := by
  have hempty : whole.isEmpty = false := List.isEmpty_eq_false_iff.2 hne
  have hpoint : Ends ('.' :: (fraction ++ tail)) := by
    rintro c ⟨⟩
    rfl
  rw [Numeral.ofChars?, spanDigits_append hwhole hpoint]
  simp [spanDigits_append hfraction hends, hempty, htail]

/-- Digits without a point. -/
theorem ofChars?_whole {whole tail : List Char} {e : Int} (hwhole : ∀ c ∈ whole, c.isDigit = true)
    (hne : whole ≠ []) (hends : Ends tail) (hpoint : tail.head? ≠ some '.')
    (htail : exponentPart? tail = some e) :
    Numeral.ofChars? (whole ++ tail) = some ⟨whole, e⟩ := by
  have hempty : whole.isEmpty = false := List.isEmpty_eq_false_iff.2 hne
  rw [Numeral.ofChars?, spanDigits_append hwhole hends]
  dsimp only
  split
  · exact absurd rfl hpoint
  · simp [hempty, htail]

theorem digitsValue_append (as bs : List Char) :
    digitsValue (as ++ bs) = digitsValue as * 10 ^ bs.length + digitsValue bs := by
  induction as with
  | nil => simp [digitsValue]
  | cons a as ih =>
    rw [List.cons_append, digitsValue_cons, ih, digitsValue_cons, List.length_append, pow_add]
    ring

theorem digitsValue_zeros (n : Nat) : digitsValue (List.replicate n '0') = 0 := by
  rw [digitsValue, ← Nat.ofDigitChars_eq_foldl, Nat.ofDigitChars_replicate_zero, mul_zero]

theorem isDigit_zeros {n : Nat} : ∀ c ∈ List.replicate n '0', c.isDigit = true := by
  intro c hc
  rw [List.eq_of_mem_replicate hc]
  rfl

/-! ### Layouts -/

/-- The text is a numeral of that value. -/
def Prints (cs : List Char) (q : ℚ) : Prop := ∃ n, Numeral.ofChars? cs = some n ∧ n.value = q

theorem prints_point {whole fraction tail : List Char} {e : Int}
    (hwhole : ∀ c ∈ whole, c.isDigit = true) (hfraction : ∀ c ∈ fraction, c.isDigit = true)
    (hne : whole ≠ []) (hends : Ends tail) (htail : exponentPart? tail = some e) :
    Prints (whole ++ '.' :: (fraction ++ tail))
      (digitsValue (whole ++ fraction) * 10 ^ (e - fraction.length)) :=
  ⟨_, ofChars?_point hwhole hfraction hne hends htail, rfl⟩

theorem ends_nil : Ends [] := fun _ hc => by cases hc

variable {digits : List Char}

/-- All digits behind the point, with zeros before them. -/
theorem prints_behind (h : ∀ c ∈ digits, c.isDigit = true) (k : Nat) :
    Prints ('0' :: '.' :: (List.replicate k '0' ++ digits))
      (digitsValue digits * 10 ^ (-(k : Int) - digits.length)) := by
  have hfraction : ∀ c ∈ List.replicate k '0' ++ digits, c.isDigit = true := fun c hc =>
    (List.mem_append.1 hc).elim (isDigit_zeros c) (h c)
  have hwhole : ∀ c ∈ List.replicate 1 '0', c.isDigit = true := isDigit_zeros
  have hprints := prints_point hwhole hfraction (List.cons_ne_nil _ _) ends_nil rfl
  rw [digitsValue_append, digitsValue_append, digitsValue_zeros, digitsValue_zeros, zero_mul,
    zero_mul, zero_add, zero_add, List.append_nil, List.length_append, List.length_replicate]
    at hprints
  have hplace : (0 : Int) - (k + digits.length : Nat) = -k - digits.length := by omega
  rw [hplace] at hprints
  exact hprints

/-- The point among the digits. -/
theorem prints_among (h : ∀ c ∈ digits, c.isDigit = true) {k : Nat} (hpos : 0 < k)
    (hlt : k < digits.length) : Prints (digits.take k ++ '.' :: digits.drop k)
      (digitsValue digits * 10 ^ ((k : Int) - digits.length)) := by
  have hwhole : ∀ c ∈ digits.take k, c.isDigit = true := fun c hc =>
    h c ((List.take_sublist _ _).subset hc)
  have hfraction : ∀ c ∈ digits.drop k, c.isDigit = true := fun c hc =>
    h c ((List.drop_sublist _ _).subset hc)
  have hne : digits.take k ≠ [] := by
    rw [ne_eq, List.take_eq_nil_iff, ← List.length_eq_zero_iff]
    omega
  have hprints := prints_point hwhole hfraction hne ends_nil rfl
  have hplace : (0 : Int) - (digits.drop k).length = k - digits.length := by
    rw [List.length_drop]
    omega
  rw [List.take_append_drop, List.append_nil, hplace] at hprints
  exact hprints

/-- The digits before the point, with zeros behind them. -/
theorem prints_before (h : ∀ c ∈ digits, c.isDigit = true) (hne : digits ≠ []) (k : Nat) :
    Prints (digits ++ List.replicate k '0' ++ ['.', '0'])
      (digitsValue digits * 10 ^ (k : Int)) := by
  have hwhole : ∀ c ∈ digits ++ List.replicate k '0', c.isDigit = true := fun c hc =>
    (List.mem_append.1 hc).elim (h c) (isDigit_zeros c)
  have hfraction : ∀ c ∈ List.replicate 1 '0', c.isDigit = true := isDigit_zeros
  have hprints := prints_point hwhole hfraction (List.append_ne_nil_of_left_ne_nil hne _) ends_nil
    rfl
  have hvalue : (digitsValue (digits ++ List.replicate k '0' ++ List.replicate 1 '0') : ℚ) *
      10 ^ (0 - (List.replicate 1 '0').length : Int) = digitsValue digits * 10 ^ (k : Int) := by
    rw [digitsValue_append, digitsValue_append, digitsValue_zeros, digitsValue_zeros,
      List.length_replicate, List.length_replicate, zero_sub, zpow_neg, zpow_natCast, zpow_natCast]
    push_cast
    rw [add_zero, add_zero, pow_one, mul_inv_cancel_right₀ (by norm_num)]
  rw [hvalue] at hprints
  exact hprints

theorem prints_pointed (h : ∀ c ∈ digits, c.isDigit = true) (hne : digits ≠ []) (whole : Int) :
    Prints (pointed digits whole) (digitsValue digits * 10 ^ (whole - digits.length)) := by
  rw [pointed]
  split
  · next hsmall =>
    obtain ⟨k, rfl⟩ : ∃ k : Nat, whole = -k := ⟨(-whole).toNat, by omega⟩
    have hk : (- -(k : Int)).toNat = k := by omega
    rw [hk]
    exact prints_behind h k
  · next hlarge =>
    obtain ⟨k, rfl⟩ := Int.eq_ofNat_of_zero_le (not_le.1 hlarge).le
    dsimp only [Int.toNat_natCast]
    rcases lt_or_ge k digits.length with hlt | hge
    · have hback : (digits.drop k).isEmpty = false := by
        rw [List.isEmpty_eq_false_iff, ne_eq, List.drop_eq_nil_iff]
        omega
      have hfew : k - digits.length = 0 := by omega
      rw [hback, hfew, List.replicate_zero, List.append_nil]
      exact prints_among h (by omega) hlt
    · have hplace : (k : Int) - digits.length = (k - digits.length : Nat) := by omega
      rw [List.drop_eq_nil_of_le hge, List.take_of_length_le hge, hplace]
      exact prints_before h hne (k - digits.length)

theorem exponentPart?_scientific (x : Int) :
    exponentPart? ('e' :: (if x < 0 then '-' else '+') :: Nat.toDigits 10 x.natAbs) = some x := by
  have hempty : (Nat.toDigits 10 x.natAbs).isEmpty = false :=
    List.isEmpty_eq_false_iff.2 Nat.toDigits_ne_nil
  have hsign : ∀ ds, spanSign ((if x < 0 then '-' else '+') :: ds) = (decide (x < 0), ds) := by
    intro ds
    by_cases hx : x < 0
    · rw [if_pos hx, decide_eq_true hx]
      rfl
    · rw [if_neg hx, decide_eq_false hx]
      rfl
  rw [exponentPart?, if_pos (.inl rfl), hsign]
  dsimp only
  rw [spanDigits_of_isDigit (isDigit_toDigits x.natAbs)]
  dsimp only
  rw [if_neg (by simp [hempty]), digitsValue_toDigits]
  congr 1
  simp only [decide_eq_true_eq]
  split <;> omega

theorem prints_scientific (h : ∀ c ∈ digits, c.isDigit = true)
    (hne : digits ≠ []) (x : Int) :
    Prints (scientific digits x) (digitsValue digits * 10 ^ (x + 1 - digits.length)) := by
  have htail := exponentPart?_scientific x
  have hends : Ends ('e' :: (if x < 0 then '-' else '+') :: Nat.toDigits 10 x.natAbs) := by
    rintro c ⟨⟩
    rfl
  obtain ⟨d, rest, rfl⟩ := List.exists_cons_of_ne_nil hne
  obtain ⟨hd, hrest⟩ := List.forall_mem_cons.1 h
  have hd : ∀ c ∈ [d], c.isDigit = true := by
    intro c hc
    rwa [List.mem_singleton.1 hc]
  cases rest with
  | nil =>
    refine ⟨⟨[d], x⟩, ofChars?_whole hd (List.cons_ne_nil _ _) hends (fun hc => by cases hc) htail,
      ?_⟩
    rw [Numeral.value, List.length_singleton, Nat.cast_one, add_sub_cancel_right]
  | cons c rest =>
    obtain ⟨n, hn, hvalue⟩ := prints_point hd hrest (List.cons_ne_nil _ _) hends htail
    refine ⟨n, hn, hvalue.trans ?_⟩
    rw [List.length_cons (a := d)]
    congr 2
    push_cast
    ring

/-- Either layout is a numeral of the same value. -/
theorem prints_layout (h : ∀ c ∈ digits, c.isDigit = true) (hne : digits ≠ []) (place : Int) :
    Prints (if -5 ≤ place + digits.length - 1 ∧ place + digits.length - 1 ≤ 15
        then pointed digits (place + digits.length - 1 + 1)
        else scientific digits (place + digits.length - 1))
      (digitsValue digits * 10 ^ place) := by
  have hplace : place + digits.length - 1 + 1 - digits.length = place := by omega
  have hpointed := prints_pointed h hne (place + digits.length - 1 + 1)
  have hscientific := prints_scientific h hne (place + digits.length - 1)
  rw [hplace] at hpointed hscientific
  split
  · exact hpointed
  · exact hscientific

/-! ### The text of a number -/

theorem spanSign_of_ofChars {cs : List Char} {n : Numeral} (h : Numeral.ofChars? cs = some n) :
    spanSign cs = (false, cs) := by
  unfold spanSign
  split
  · rw [ofChars?_eq_none rfl (by decide)] at h
    cases h
  · rw [ofChars?_eq_none rfl (by decide)] at h
    cases h
  · rfl

/-- What is printed behind a minus or without one is read as the number nearest to it. -/
theorem readFloat?_of_prints {cs : List Char} {q : ℚ} (h : Prints cs q) (negative : Bool) :
    ∃ x, readFloat? ((if negative then ['-'] else []) ++ cs) = some x ∧
      RoundedTo (if negative then -q else q) x := by
  obtain ⟨n, hn, rfl⟩ := h
  refine readFloat?_of_ofChars ?_ hn
  cases negative with
  | false => exact spanSign_of_ofChars hn
  | true => rfl

/-- A finite number is read back from its text. -/
theorem readFloat?_realText {x : Float} (h : x.isFinite = true) :
    ∃ y, readFloat? (realText x).toList = some y ∧ (x == y) = true := by
  obtain ⟨q, hvalue⟩ := isFinite_iff_exists_value.1 h
  suffices hprints : ∃ cs q, (realText x).toList = (if signBit x then ['-'] else []) ++ cs ∧
      Prints cs q ∧ RoundedTo (if signBit x then -q else q) x by
    obtain ⟨cs, q, htext, hprints, hx⟩ := hprints
    obtain ⟨y, hread, hy⟩ := readFloat?_of_prints hprints (signBit x)
    exact ⟨y, htext ▸ hread, hx.beq hy⟩
  rw [realText]
  dsimp only
  split
  · next hzero =>
    refine ⟨['0', '.', '0'], 0, String.toList_ofList, ⟨⟨['0', '0'], -1⟩, rfl, ?_⟩, ?_⟩
    · rw [Numeral.value, show digitsValue ['0', '0'] = 0 from rfl, Nat.cast_zero, zero_mul]
    · have hzero : floatValue? x = some 0 := (floatValue?_eq_of_beq hzero).trans (by decide +kernel)
      rw [neg_zero, ite_self]
      exact roundedTo_value hzero
  · next hzero =>
    rcases unpacked_of_value hvalue with ⟨rfl, s, hx⟩ | ⟨s, m, e, hc, hx, -⟩
    · exact absurd (float_beq_of_value hvalue (by decide +kernel)) hzero
    · have hdigits := isDigit_toDigits (shortest x).digits
      have hsign : (if signBit x then -(shortest x).value else (shortest x).value) =
          signedValue s (shortest x).value := by
        cases s with
        | negative => rw [if_pos ((signBit_iff hx).2 rfl), signedValue]
        | positive =>
          have hbit : ¬ signBit x = true := by
            intro hbit
            cases (signBit_iff hx).1 hbit
          rw [if_neg hbit, signedValue]
      refine ⟨_, (shortest x).value, String.toList_ofList, ?_, ?_⟩
      · have hprints := prints_layout hdigits Nat.toDigits_ne_nil (shortest x).place
        rw [digitsValue_toDigits] at hprints
        exact hprints
      · rw [hsign]
        exact roundedTo_of_around hc hx (around_shortest hc hx)

theorem readFloat?_intText (i : Int) :
    ∃ y, readFloat? (intText i).toList = some y ∧ (Float.ofInt i == y) = true := by
  have hprints : Prints (Nat.toDigits 10 i.natAbs) i.natAbs :=
    ⟨_, ofChars?_of_digits Nat.toDigits_ne_nil (isDigit_toDigits i.natAbs), by
      rw [Numeral.value, digitsValue_toDigits, zpow_zero, mul_one]⟩
  obtain ⟨y, hread, hy⟩ := readFloat?_of_prints hprints (decide (i < 0))
  simp only [decide_eq_true_eq] at hread hy
  have hvalue : (if i < 0 then -(i.natAbs : ℚ) else i.natAbs) = i := by
    rw [Nat.cast_natAbs]
    split
    · next hneg => rw [abs_of_neg hneg, Int.cast_neg, neg_neg]
    · next hnonneg => rw [abs_of_nonneg (not_lt.1 hnonneg)]
  rw [hvalue] at hy
  refine ⟨y, ?_, (roundedTo_ofInt i).beq hy⟩
  rw [intText, String.toList_ofList]
  exact hread

/-- A number is read back from its text as the floating-point number that it is converted to. -/
theorem readFloat?_text {n : Number} (h : (Json.number n).isFinite = true) :
    ∃ y, readFloat? n.text.toList = some y ∧ (n.toFloat == y) = true := by
  cases n with
  | int i => exact readFloat?_intText i
  | real x => exact readFloat?_realText h

end Decimal

end Shelf
