import Mathlib.Data.Rat.Floor
import Shelf.Proofs.Decimal.Tenths

/-!
Rounding to an integer, and to tenths.

A number is rounded to the nearest integer, a half going away from zero. The whole part of its size
and what remains of it are exact, so the half is told apart from what is next to it. From `2^52` on
there is nothing to round. One decimal place is a tenth of the integer that ten times the number is
rounded to, and that tenth is rounded once more.

    2.5     3
    -2.5    -3
    0.25    3 / 10, which is 0.3
-/

namespace Shelf

open Float.Model (UnpackedFloat)
open Float.Model.UnpackedFloat (ExtendedMantissa decreaseExponent shiftToExponent)

/-! ### The nearest integer -/

/-- The nearest integer, a half going away from zero. -/
def halfAway (q : ℚ) : Int := if q < 0 then -⌊|q| + 1 / 2⌋ else ⌊|q| + 1 / 2⌋

/-- Zero is rounded to zero from either side. -/
theorem halfAway_of_nonpos {q : ℚ} (h : q ≤ 0) : halfAway q = -⌊|q| + 1 / 2⌋ := by
  rcases h.lt_or_eq with hneg | rfl
  · exact if_pos hneg
  · have hzero : ⌊|(0 : ℚ)| + 1 / 2⌋ = 0 := by norm_num
    rw [halfAway, if_neg (lt_irrefl 0), hzero, neg_zero]

theorem abs_halfAway_sub_le (q : ℚ) : |(halfAway q : ℚ) - q| ≤ 1 / 2 := by
  have hlow := Int.floor_le (|q| + 1 / 2)
  have hhigh := Int.lt_floor_add_one (|q| + 1 / 2)
  rw [halfAway, abs_le]
  split
  · next hneg =>
    rw [abs_of_neg hneg] at hlow hhigh ⊢
    push_cast
    constructor <;> linarith
  · next hpos =>
    rw [abs_of_nonneg (not_lt.1 hpos)] at hlow hhigh ⊢
    constructor <;> linarith

/-- An integer that is less than a half away is the nearest one. -/
theorem halfAway_eq {q : ℚ} {k : Int} (h : |q - k| < 1 / 2) : halfAway q = k := by
  have hnear := abs_halfAway_sub_le q
  have hone : |(halfAway q : ℚ) - k| < 1 := by
    have hsum := abs_sub_le (halfAway q : ℚ) q k
    linarith
  have hzero : |halfAway q - k| < 1 := by exact_mod_cast hone
  linarith [Int.abs_lt_one_iff.1 hzero]

theorem halfAway_intCast (k : Int) : halfAway k = k := halfAway_eq (by norm_num)

/-- Integers that bound a number, but for less than a half, bound what it is rounded to. -/
theorem le_halfAway {q : ℚ} {k : Int} (h : k - 1 / 2 < q) : k ≤ halfAway q := by
  have hnear := (abs_le.1 (abs_halfAway_sub_le q)).1
  have hlt : (k : ℚ) < halfAway q + 1 := by linarith
  exact Int.lt_add_one_iff.1 (by exact_mod_cast hlt)

theorem halfAway_le {q : ℚ} {k : Int} (h : q < k + 1 / 2) : halfAway q ≤ k := by
  have hnear := (abs_le.1 (abs_halfAway_sub_le q)).2
  have hlt : (halfAway q : ℚ) < k + 1 := by linarith
  exact Int.lt_add_one_iff.1 (by exact_mod_cast hlt)

/-- The whole part, or one more if half or more remains. -/
theorem natFloor_add_half {q : ℚ} (h : 0 ≤ q) :
    ⌊q + 1 / 2⌋ = if q - ⌊q⌋₊ < 1 / 2 then (⌊q⌋₊ : Int) else (⌊q⌋₊ + 1 : Nat) := by
  have hlow := Nat.floor_le h
  have hhigh := Nat.lt_floor_add_one q
  split
  · next hless =>
    rw [Int.floor_eq_iff]
    constructor <;> push_cast <;> linarith
  · next hmore =>
    rw [not_lt] at hmore
    rw [Int.floor_eq_iff]
    constructor <;> push_cast <;> linarith

/-! ### Whole parts -/

section Parts

variable {x : Float} {q : ℚ}

/-- The sign bit of a number that has a value. -/
theorem abs_eq_of_signBit (h : floatValue? x = some q) :
    |q| = if Decimal.signBit x = true then -q else q := by
  rcases unpacked_of_value h with ⟨rfl, -⟩ | ⟨s, m, e, hc, hx, rfl⟩
  · simp
  · rw [signedValue_apply, abs_signedValue s hc.value_pos.le]
    cases s with
    | negative => rw [if_pos ((signBit_iff hx).2 rfl), signedValue, neg_neg]
    | positive =>
      have hbit : ¬ Decimal.signBit x = true := by
        intro hbit
        cases (signBit_iff hx).1 hbit
      rw [if_neg hbit, signedValue]

theorem floatValue?_magnitude (h : floatValue? x = some q) :
    floatValue? (Decimal.magnitude x) = some |q| := by
  rw [abs_eq_of_signBit h, Decimal.magnitude]
  split
  · exact floatValue?_neg h
  · exact h

theorem Tracks.floor_eq {em : ExtendedMantissa} {y : ℚ} (h : Tracks em y) :
    ⌊y⌋₊ = em.mantissa :=
  (Nat.floor_eq_iff ((Nat.cast_nonneg _).trans h.mantissa_le)).2
    ⟨h.mantissa_le, h.lt_mantissa_succ⟩

/-- A mantissa with its exponent is shifted to the integer below. -/
theorem roundToInt_eq (m : Nat) (e : Int) :
    UnpackedFloat.roundToInt .positive m e = (⌊(m : ℚ) * 2 ^ e⌋₊ : Int) := by
  have htracks := (Tracks.exact (m <<< e.toNat)).shiftRight (-e).toNat
  have hvalue : ((m <<< e.toNat : Nat) : ℚ) / 2 ^ (-e).toNat = m * 2 ^ e := by
    rw [Nat.shiftLeft_eq, Nat.cast_mul, Nat.cast_pow, Nat.cast_ofNat]
    rcases le_total 0 e with he | he
    · have hnone : (-e).toNat = 0 := by omega
      rw [zpow_of_nonneg 2 he, hnone, pow_zero, div_one]
    · have hnone : e.toNat = 0 := by omega
      rw [zpow_of_nonpos 2 he, hnone, pow_zero, mul_one, div_eq_mul_inv]
  have hshift : (0 - (e - (e.toNat : Int))).toNat = (-e).toNat := by omega
  rw [← hvalue, htracks.floor_eq]
  simp only [UnpackedFloat.roundToInt, decreaseExponent, shiftToExponent, Int.sub_zero, hshift]
  rfl

/-- The whole part of a number that is not negative and has at most 64 bits before the point. -/
theorem toUInt64_of_value (h : floatValue? x = some q) (hq : 0 ≤ q) (hlt : q < 2 ^ 64) :
    x.toUInt64.toNat = ⌊q⌋₊ := by
  change (unpacked x).toUInt64.toNat = _
  rcases unpacked_of_value h with ⟨rfl, s, hx⟩ | ⟨s, m, e, hc, hx, rfl⟩ <;> rw [hx]
  · rw [Nat.floor_zero]
    rfl
  · cases s with
    | negative =>
      rw [UnpackedFloat.Sign.apply, Int.cast_neg, Int.cast_natCast, neg_mul] at hq
      linarith [hc.value_pos]
    | positive =>
      rw [UnpackedFloat.Sign.apply, Int.cast_natCast] at hq hlt ⊢
      rw [UnpackedFloat.toUInt64, UnpackedFloat.toInt, roundToInt_eq, Int.toNat_natCast]
      exact UInt64.toNat_ofNatClamp_of_lt ((Nat.floor_lt hq).2 (by exact_mod_cast hlt))

/-- What remains of a mantissa with an exponent has that exponent too. -/
theorem exists_rest (m : Nat) {e : Int} (he : e ≤ 0) :
    ∃ k ≤ m, (m : ℚ) * 2 ^ e - ⌊(m : ℚ) * 2 ^ e⌋₊ = k * 2 ^ e := by
  have hone : (2 : ℚ) ^ (-e).toNat * 2 ^ e = 1 := by
    rw [zpow_of_nonpos 2 he]
    exact mul_inv_cancel₀ (by positivity)
  have hle : ⌊(m : ℚ) * 2 ^ e⌋₊ * 2 ^ (-e).toNat ≤ m := by
    have hfloor := Nat.floor_le (mul_nonneg (Nat.cast_nonneg m) (two_zpow_pos e).le)
    rw [zpow_of_nonpos 2 he, ← div_eq_mul_inv, le_div_iff₀ (by positivity)] at hfloor
    rw [zpow_of_nonpos 2 he, ← div_eq_mul_inv]
    exact_mod_cast hfloor
  refine ⟨m - ⌊(m : ℚ) * 2 ^ e⌋₊ * 2 ^ (-e).toNat, Nat.sub_le _ _, ?_⟩
  rw [Nat.cast_sub hle, Nat.cast_mul, Nat.cast_pow, Nat.cast_ofNat, sub_mul, mul_assoc, hone,
    mul_one]

/-- What remains behind the whole part is a number by itself. -/
theorem floatValue?_sub_floor {y : Float} (hx : floatValue? x = some q) (hq : 0 ≤ q)
    (hy : floatValue? y = some (⌊q⌋₊ : ℚ)) : floatValue? (x - y) = some (q - ⌊q⌋₊) := by
  have hsub := roundedTo_sub hx hy
  have hwhole : ∀ k : Nat, q = k → floatValue? (x - y) = some (q - ⌊q⌋₊) := by
    rintro k rfl
    rw [Nat.floor_natCast, sub_self] at hsub ⊢
    exact hsub.value_of_bits (k := 0) (p := 0) (by simp) (by decide) (by decide)
      (lt_floatBound_of_bits (by decide) (by decide))
  rcases unpacked_of_value hx with ⟨rfl, -⟩ | ⟨s, m, e, hc, -, hvalue⟩
  · exact hwhole 0 Nat.cast_zero.symm
  · have hsize : q = m * 2 ^ e := by
      rw [← abs_of_nonneg hq, hvalue, signedValue_apply, abs_signedValue s hc.value_pos.le]
    rcases le_total 0 e with he | he
    · refine hwhole (m * 2 ^ e.toNat) ?_
      rw [hsize, zpow_of_nonneg 2 he]
      push_cast
      rfl
    · obtain ⟨k, hk, hrest⟩ := exists_rest m he
      rw [← hsize] at hrest
      refine hsub.value_of_bits ?_ (hk.trans_lt hc.lt) hc.least
        (lt_floatBound_of_bits (hk.trans_lt hc.lt) hc.most)
      rw [← hrest, abs_of_nonneg (sub_nonneg.2 (Nat.floor_le hq))]

/-- From `2^52` on there is nothing behind the point. -/
theorem exists_int_of_large (h : floatValue? x = some q) (hq : 2 ^ 52 ≤ |q|) :
    ∃ k : Int, q = k := by
  rcases unpacked_of_value h with ⟨rfl, -⟩ | ⟨s, m, e, hc, -, rfl⟩
  · exact ⟨0, Int.cast_zero.symm⟩
  · have he : 0 ≤ e := by
      by_contra hneg
      rw [signedValue_apply, abs_signedValue s hc.value_pos.le] at hq
      have hsmall := Rounds.lt_of_place_above hc.lt (not_le.1 hneg)
      rw [zpow_zero, mul_one] at hsmall
      linarith
    refine ⟨s.apply m * 2 ^ e.toNat, ?_⟩
    rw [zpow_of_nonneg 2 he]
    push_cast
    rfl

/-! ### Rounding -/

/-- The size is rounded up from the half on. -/
theorem floatValue?_near (h : floatValue? x = some q) (hq : 0 ≤ q) (hlt : q < 2 ^ 52) :
    floatValue? (if x - x.toUInt64.toFloat < 0.5 then x.toUInt64 else x.toUInt64 + 1).toFloat =
      some (⌊q + 1 / 2⌋ : ℚ) := by
  have hfew : ⌊q⌋₊ < 2 ^ 52 := (Nat.floor_lt hq).2 (by exact_mod_cast hlt)
  have hword : x.toUInt64 = ⌊q⌋₊.toUInt64 := by
    rw [← toUInt64_of_value h hq (hlt.trans (by norm_num))]
    exact UInt64.ofNat_toNat.symm
  have hwhole : floatValue? ⌊q⌋₊.toUInt64.toFloat = some (⌊q⌋₊ : ℚ) :=
    floatValue?_toFloat (hfew.trans (by decide))
  have hhalf : floatValue? 0.5 = some (1 / 2) := by decide +kernel
  have hless := float_lt_iff_of_value (floatValue?_sub_floor h hq hwhole) hhalf
  rw [hword, natFloor_add_half hq]
  by_cases hrest : q - ⌊q⌋₊ < 1 / 2
  · rw [if_pos (hless.2 hrest), if_pos hrest, hwhole, Int.cast_natCast]
  · have hnext : ⌊q⌋₊.toUInt64 + 1 = (⌊q⌋₊ + 1).toUInt64 := (UInt64.ofNat_add _ _).symm
    rw [if_neg (mt hless.1 hrest), if_neg hrest, hnext, Int.cast_natCast]
    exact floatValue?_toFloat (by omega)

/-- The rounded number is the nearest integer. -/
theorem floatValue?_roundHalfAway (h : floatValue? x = some q) :
    floatValue? (Decimal.roundHalfAway x) = some (halfAway q : ℚ) := by
  have hsize := floatValue?_magnitude h
  have hbound : floatValue? 4503599627370496.0 = some (2 ^ 52) := by decide +kernel
  have hlt := float_lt_iff_of_value hsize hbound
  have hsign := abs_eq_of_signBit h
  rw [Decimal.roundHalfAway]
  by_cases hfew : |q| < 2 ^ 52
  · have hnear := floatValue?_near hsize (abs_nonneg q) hfew
    rw [if_pos (hlt.2 hfew)]
    by_cases hbit : Decimal.signBit x = true
    · rw [if_pos hbit] at hsign ⊢
      rw [floatValue?_neg hnear, halfAway_of_nonpos (abs_eq_neg_self.1 hsign), Int.cast_neg]
    · rw [if_neg hbit] at hsign ⊢
      rw [hnear, halfAway, if_neg (not_lt.2 (abs_eq_self.1 hsign))]
  · obtain ⟨k, rfl⟩ := exists_int_of_large h (not_lt.1 hfew)
    rw [if_neg (mt hlt.1 hfew), h, halfAway_intCast]

end Parts

/-- A number is rounded to tenths by way of ten times itself. -/
theorem roundedTo_roundToTenths {x : Float} {q : ℚ} (h : floatValue? (x * 10.0) = some q) :
    RoundedTo (halfAway q / 10) (Decimal.roundToTenths x) :=
  roundedTo_div (floatValue?_roundHalfAway h) floatValue?_ten (by norm_num)

end Shelf
