import Shelf.Decimal.Rounding
import Shelf.Proofs.Decimal.Operations

/-!
Which results of arithmetic are finite.

A sum, a product and a quotient are finite for finite operands only. A tenth of a finite number is
finite, and so is a number that is rounded to an integer. So rounding to tenths gives a finite
number exactly when ten times the number is finite.

    1.7e307    ten times it is 1.7e308, so 1.7e307
    1.8e307    ten times it is too large, so infinity
-/

namespace Shelf

open Float.Model (UnpackedFloat)

section Operands

variable {a b : UnpackedFloat}

/-- Packing makes nothing finite. -/
theorem isFinite_of_repacked (h : (repacked a).isFinite = true) : a.isFinite = true := by
  cases a with
  | notANumber => cases h
  | infinity s => cases s <;> cases h
  | zero s => rfl
  | finite s m e hm => rfl

theorem isFinite_of_unpacked_add (h : (UnpackedFloat.add .binary64 a b).isFinite = true) :
    a.isFinite = true ∧ b.isFinite = true := by
  rcases a with (_ | _) | _ | _ | _ <;> rcases b with (_ | _) | _ | _ | _ <;>
    first | exact ⟨rfl, rfl⟩ | cases h

theorem isFinite_of_unpacked_mul (h : (UnpackedFloat.mul .binary64 a b).isFinite = true) :
    a.isFinite = true ∧ b.isFinite = true := by
  rcases a with _ | _ | _ | _ <;> rcases b with _ | _ | _ | _ <;>
    first | exact ⟨rfl, rfl⟩ | cases h

theorem isFinite_of_unpacked_div (h : (UnpackedFloat.div .binary64 a b).isFinite = true) :
    a.isFinite = true := by
  rcases a with _ | _ | _ | _ <;> rcases b with _ | _ | _ | _ <;>
    first | exact rfl | cases h

variable {x y : Float}

theorem isFinite_of_add (h : (x + y).isFinite = true) : x.isFinite = true ∧ y.isFinite = true :=
  isFinite_of_unpacked_add (a := unpacked x) (isFinite_of_repacked h)

theorem isFinite_of_mul (h : (x * y).isFinite = true) : x.isFinite = true ∧ y.isFinite = true :=
  isFinite_of_unpacked_mul (a := unpacked x) (isFinite_of_repacked h)

theorem isFinite_of_div (h : (x / y).isFinite = true) : x.isFinite = true :=
  isFinite_of_unpacked_div (a := unpacked x) (isFinite_of_repacked h)

theorem isFinite_neg (x : Float) : (-x).isFinite = x.isFinite := by
  change (unpacked (-x)).isFinite = (unpacked x).isFinite
  rw [unpacked_neg]
  cases unpacked x <;> rfl

end Operands

/-! ### Bounds -/

section Bounds

variable {x : Float} {q : ℚ}

theorem abs_lt_floatBound (h : floatValue? x = some q) : |q| < floatBound := by
  rcases unpacked_of_value h with ⟨rfl, -⟩ | ⟨s, m, e, hc, -, rfl⟩
  · rw [abs_zero]
    exact two_zpow_pos 1024
  · have hsize := abs_signedValue s hc.value_pos.le
    rw [← signedValue_apply] at hsize
    rw [hsize]
    exact lt_floatBound_of_bits hc.lt hc.most

theorem RoundedTo.isFinite {p : Int} (h : RoundedTo q x) (hq : |q| ≤ 2 ^ p) (hleast : -1074 ≤ p)
    (hmost : p < 1024) : x.isFinite = true := by
  have hone : ((1 : Nat) : ℚ) * 2 ^ p = 2 ^ p := by rw [Nat.cast_one, one_mul]
  have hfin : ((1 : Nat) : ℚ) * 2 ^ p < floatBound :=
    hone.trans_lt (zpow_lt_zpow_right₀ one_lt_two hmost)
  obtain ⟨w, hw, -⟩ := h.le_of_le (by decide) hleast (hq.trans_eq hone.symm) hfin
  exact isFinite_iff_exists_value.2 ⟨w, hw⟩

theorem isFinite_toFloat (n : UInt64) : n.toFloat.isFinite = true := by
  refine (roundedTo_toFloat n).isFinite (p := 64) ?_ (by decide) (by decide)
  rw [Nat.abs_cast]
  exact_mod_cast n.toNat_lt.le

theorem floatValue?_ten : floatValue? 10.0 = some 10 := by
  decide +kernel

theorem isFinite_div_ten (h : x.isFinite = true) : (x / 10.0).isFinite = true := by
  obtain ⟨q, hq⟩ := isFinite_iff_exists_value.1 h
  refine (roundedTo_div hq floatValue?_ten (by norm_num)).isFinite (p := 1021) ?_ (by decide)
    (by decide)
  rw [abs_div, div_le_iff₀ (by norm_num)]
  calc |q| ≤ floatBound := (abs_lt_floatBound hq).le
    _ = 2 ^ (1021 : Int) * 2 ^ (3 : Int) := by
      rw [floatBound, ← zpow_add₀ two_ne_zero]
      rfl
    _ ≤ 2 ^ (1021 : Int) * |10| := mul_le_mul_of_nonneg_left (by norm_num) (two_zpow_pos 1021).le

end Bounds

/-! ### Rounding -/

namespace Decimal

theorem eq_of_unpacked_infinity {x y : Float} {s : UnpackedFloat.Sign}
    (hx : unpacked x = .infinity s) (hy : unpacked y = .infinity s) : x = y := by
  have hbeq : (x == y) = true := by
    rw [float_beq_iff, hx, hy]
    cases s <;> rfl
  rcases (Float.beq_iff_ne_nan_and_eq.1 hbeq).2.2 with heq | ⟨rfl, -⟩ | ⟨rfl, -⟩
  · exact heq
  · cases hx
  · cases hx

/-- The sign is taken off an infinity, and NaN has none, so neither is small. -/
theorem isFinite_of_magnitude_lt {x : Float} (h : magnitude x < 4503599627370496.0) :
    x.isFinite = true := by
  cases hx : unpacked x with
  | zero s => exact congrArg UnpackedFloat.isFinite hx
  | finite s m e hm => exact congrArg UnpackedFloat.isFinite hx
  | infinity s =>
    cases s with
    | positive =>
      obtain rfl := eq_of_unpacked_infinity (y := 1.0 / 0.0) hx rfl
      exact absurd h (by decide +kernel)
    | negative =>
      obtain rfl := eq_of_unpacked_infinity (y := -(1.0 / 0.0)) hx rfl
      exact absurd h (by decide +kernel)
  | notANumber =>
    have hnone : unpacked (magnitude x) = .notANumber := by
      rw [magnitude]
      split
      · rw [unpacked_neg, hx]
        rfl
      · exact hx
    rw [float_lt_iff, hnone] at h
    cases h

theorem isFinite_roundHalfAway (x : Float) : (roundHalfAway x).isFinite = x.isFinite := by
  rw [roundHalfAway]
  split
  · next hsize =>
    rw [isFinite_of_magnitude_lt hsize]
    split
    · rw [isFinite_neg, isFinite_toFloat]
    · rw [isFinite_toFloat]
  · rfl

theorem isFinite_roundToTenths (x : Float) :
    (roundToTenths x).isFinite = true ↔ (x * 10.0).isFinite = true := by
  rw [roundToTenths, ← isFinite_roundHalfAway (x * 10.0)]
  exact ⟨isFinite_of_div, isFinite_div_ten⟩

/-- The two sides of the greatest number that can be rounded. -/
example : (roundToTenths 1.7e307).isFinite = true ∧ (roundToTenths 1.8e307).isFinite = false := by
  decide +kernel

end Decimal

end Shelf
