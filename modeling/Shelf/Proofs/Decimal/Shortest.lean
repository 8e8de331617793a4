import Shelf.Json.Printer
import Shelf.Proofs.Decimal.Operations

/-!
The shortest decimal is rounded to the number that it is printed for.

The interval that the printer tests is the one of the numbers that are rounded to the given one. The
first digit stands where the printer counts it, or further in front, so a grid of 17 digits has
steps that are shorter than those of the floating-point numbers around, and one of its two points
next to the number lies in the interval. So the search ends with a decimal, on that grid or on a
coarser one, and dropping zeros at its end leaves it what it is.
-/

namespace Shelf

open Float.Model (UnpackedFloat Format)

namespace Decimal

/-! ### Ratios -/

/-- What a ratio stands for. -/
def Ratio.value (r : Ratio) : ℚ := r.num / r.den

namespace Ratio

/-- A number times a power of a base. -/
def scaledBy (base n : Nat) (t : Int) : Ratio :=
  if 0 ≤ t then ⟨n * Nat.pow base t.toNat, 1⟩ else ⟨n, Nat.pow base (-t).toNat⟩

theorem den_scaledBy_pos {base : Nat} (h : 0 < base) (n : Nat) (t : Int) :
    0 < (scaledBy base n t).den := by
  rw [scaledBy]
  split
  · exact Nat.one_pos
  · exact Nat.pow_pos h

theorem value_scaledBy (base n : Nat) (t : Int) :
    (scaledBy base n t).value = n * (base : ℚ) ^ t := by
  rw [value, scaledBy]
  split
  · next hnonneg =>
    rw [zpow_of_nonneg _ hnonneg]
    simp
  · next hneg =>
    rw [zpow_of_nonpos _ (by omega), ← div_eq_mul_inv]
    simp

theorem den_ofDyadic_pos (n : Nat) (e : Int) : 0 < (ofDyadic n e).den :=
  den_scaledBy_pos two_pos n e

theorem den_ofDecimal_pos (n : Nat) (place : Int) : 0 < (ofDecimal n place).den :=
  den_scaledBy_pos (by decide : 0 < 10) n place

theorem value_ofDyadic (n : Nat) (e : Int) : (ofDyadic n e).value = n * 2 ^ e :=
  value_scaledBy 2 n e

theorem value_ofDecimal (n : Nat) (place : Int) :
    (ofDecimal n place).value = n * 10 ^ place :=
  value_scaledBy 10 n place

theorem le_iff {a b : Ratio} (ha : 0 < a.den) (hb : 0 < b.den) :
    a.le b = true ↔ a.value ≤ b.value := by
  have ha : (0 : ℚ) < a.den := by exact_mod_cast ha
  have hb : (0 : ℚ) < b.den := by exact_mod_cast hb
  rw [le, decide_eq_true_eq, value, value, div_le_div_iff₀ ha hb]
  exact_mod_cast Iff.rfl

theorem lt_iff {a b : Ratio} (ha : 0 < a.den) (hb : 0 < b.den) :
    a.lt b = true ↔ a.value < b.value := by
  have ha : (0 : ℚ) < a.den := by exact_mod_cast ha
  have hb : (0 : ℚ) < b.den := by exact_mod_cast hb
  rw [lt, decide_eq_true_eq, value, value, div_lt_div_iff₀ ha hb]
  exact_mod_cast Iff.rfl

/-- The whole part of a quotient of ratios. -/
theorem quotient_le {a b : Ratio} (ha : 0 < a.den) (hb : 0 < b.den) :
    (a.num * b.den / (a.den * b.num) : Nat) * b.value ≤ a.value := by
  have ha : (0 : ℚ) < a.den := by exact_mod_cast ha
  have hb : (0 : ℚ) < b.den := by exact_mod_cast hb
  have hle : ((a.num * b.den / (a.den * b.num) * (a.den * b.num) : Nat) : ℚ) ≤
      (a.num * b.den : Nat) := by exact_mod_cast Nat.div_mul_le_self _ _
  rw [value, value, ← mul_div_assoc, div_le_div_iff₀ hb ha]
  refine le_trans (le_of_eq ?_) (hle.trans (le_of_eq ?_))
  · push_cast
    ring
  · push_cast
    rfl

theorem lt_quotient_succ {a b : Ratio} (ha : 0 < a.den) (hb : 0 < b.den) (hnum : 0 < b.num) :
    a.value < (a.num * b.den / (a.den * b.num) + 1 : Nat) * b.value := by
  have hlt : ((a.num * b.den : Nat) : ℚ) <
      (a.den * b.num * (a.num * b.den / (a.den * b.num) + 1) : Nat) := by
    exact_mod_cast Nat.lt_mul_div_succ _ (Nat.mul_pos ha hnum)
  have ha : (0 : ℚ) < a.den := by exact_mod_cast ha
  have hb : (0 : ℚ) < b.den := by exact_mod_cast hb
  rw [value, value, ← mul_div_assoc, div_lt_div_iff₀ ha hb]
  refine lt_of_eq_of_lt ?_ (hlt.trans_eq ?_)
  · push_cast
    rfl
  · push_cast
    ring

theorem num_ofDecimal_one_pos (place : Int) : 0 < (ofDecimal 1 place).num := by
  rw [ofDecimal]
  split
  · exact Nat.mul_pos Nat.one_pos (Nat.pow_pos (by decide))
  · exact Nat.one_pos

end Ratio

/-- What a decimal stands for. -/
def Scaled.value (d : Scaled) : ℚ := d.digits * 10 ^ d.place

/-! ### The interval of a number -/

/-- A mantissa and an exponent as the printer sees them. -/
def Dyadic.of (m : Nat) (e : Int) : Dyadic := ⟨m, e, decide (m = 2 ^ 52 ∧ e ≠ -1074)⟩

namespace Dyadic

variable {m : Nat} {e : Int}

theorem toNat_unpackExponent (b : BitVec Format.binary64.numBits) :
    (UnpackedFloat.unpackExponent b).toNat = b.toNat / fractionSize % 0x800 := by
  simp [UnpackedFloat.unpackExponent, Nat.shiftRight_eq_div_pow, fractionSize]

theorem toNat_unpackMantissa (b : BitVec Format.binary64.numBits) :
    (UnpackedFloat.unpackMantissa b).toNat = b.toNat % fractionSize := by
  simp [UnpackedFloat.unpackMantissa, fractionSize]

theorem of_least (m : Nat) : of m (-1074) = ⟨m, -1074, false⟩ := by
  simp [of]

theorem ofFloat_eq_ite (x : Float) : ofFloat x =
    if x.toBits.toNat / fractionSize % 0x800 = 0 then
      ⟨x.toBits.toNat % fractionSize, -1074, false⟩
    else ⟨fractionSize + x.toBits.toNat % fractionSize,
      (x.toBits.toNat / fractionSize % 0x800 : Nat) - 1075,
      x.toBits.toNat % fractionSize == 0 && 1 < x.toBits.toNat / fractionSize % 0x800⟩ := rfl

/-- The bits of a finite number. -/
theorem ofFloat_eq {x : Float} {s : UnpackedFloat.Sign} {hm : 0 < m}
    (h : unpacked x = .finite s m e hm) : ofFloat x = of m e := by
  have hexponent := toNat_unpackExponent x.toBits.toBitVec
  have hmantissa := toNat_unpackMantissa x.toBits.toBitVec
  rw [UInt64.toNat_toBitVec] at hexponent hmantissa
  rw [ofFloat_eq_ite, ← hexponent, ← hmantissa]
  change UnpackedFloat.unpack .binary64 x.toBits.toBitVec = _ at h
  simp only [UnpackedFloat.unpack] at h
  generalize UnpackedFloat.unpackExponent _ = w at h
  split at h
  · split at h <;> cases h
  · split at h
    · next hnone =>
      split at h
      · cases h
      · cases h
        rw [hnone]
        exact (of_least _).symm
    · next hnone =>
      cases h
      have hfew : w.toNat ≠ 0 := fun hzero => hnone (BitVec.eq_of_toNat_eq hzero)
      generalize UnpackedFloat.unpackMantissa _ = v
      have htight : (v.toNat == 0 && decide (1 < w.toNat)) =
          decide (2 ^ 52 + v.toNat = 2 ^ 52 ∧ (w.toNat : Int) - 1075 ≠ -1074) := by
        rw [Bool.eq_iff_iff, Bool.and_eq_true, beq_iff_eq, decide_eq_true_eq, decide_eq_true_eq]
        omega
      rw [if_neg hfew, of, toNat_lead_append, htight]
      rfl

theorem quarter (n : Nat) (e : Int) : (n : ℚ) * 2 ^ (e - 2) = n / 4 * 2 ^ e := by
  rw [zpow_sub₀ two_ne_zero]
  norm_num
  ring

theorem value_low (hm : 0 < m) :
    (Ratio.ofDyadic (4 * m - if (of m e).tight then 1 else 2) (e - 2)).value =
      (m - if m = 2 ^ 52 ∧ e ≠ -1074 then 1 / 4 else 1 / 2) * 2 ^ e := by
  rw [Ratio.value_ofDyadic, quarter, of]
  simp only [decide_eq_true_eq]
  split
  · rw [Nat.cast_sub (by omega)]
    push_cast
    ring
  · rw [Nat.cast_sub (by omega)]
    push_cast
    ring

theorem value_high : (Ratio.ofDyadic (4 * m + 2) (e - 2)).value = (m + 1 / 2) * 2 ^ e := by
  rw [Ratio.value_ofDyadic, quarter]
  push_cast
  ring

/-- The test for the interval. -/
theorem rounds_iff (hm : 0 < m) {r : Ratio} (hr : 0 < r.den) :
    (of m e).rounds r = true ↔ Around m e r.value := by
  obtain ⟨low, hlow⟩ : ∃ low, low = Ratio.ofDyadic
    (4 * m - if (of m e).tight then 1 else 2) (e - 2) := ⟨_, rfl⟩
  obtain ⟨high, hhigh⟩ : ∃ high, high = Ratio.ofDyadic (4 * m + 2) (e - 2) := ⟨_, rfl⟩
  have hrounds : (of m e).rounds r =
      if m % 2 = 0 then low.le r && r.le high else low.lt r && r.lt high := by
    rw [hlow, hhigh]
    rfl
  have hlowden : 0 < low.den := hlow ▸ Ratio.den_ofDyadic_pos _ _
  have hhighden : 0 < high.den := hhigh ▸ Ratio.den_ofDyadic_pos _ _
  have hlow : low.value = (m - if m = 2 ^ 52 ∧ e ≠ -1074 then 1 / 4 else 1 / 2) * 2 ^ e :=
    hlow ▸ value_low hm
  have hhigh : high.value = (m + 1 / 2) * 2 ^ e := hhigh ▸ value_high
  rw [hrounds]
  split
  · next heven =>
    rw [Bool.and_eq_true, Ratio.le_iff hlowden hr, Ratio.le_iff hr hhighden, hlow, hhigh]
    exact ⟨fun ⟨hlow, hhigh⟩ => ⟨hlow, hhigh, fun hodd => by omega⟩, fun h => ⟨h.low, h.high⟩⟩
  · next hodd =>
    have hhalf : (m - if m = 2 ^ 52 ∧ e ≠ -1074 then 1 / 4 else 1 / 2 : ℚ) = m - 1 / 2 := by
      rw [if_neg (by omega)]
    rw [hhalf] at hlow
    rw [Bool.and_eq_true, Ratio.lt_iff hlowden hr, Ratio.lt_iff hr hhighden, hlow, hhigh]
    exact ⟨fun ⟨hlow, hhigh⟩ => ⟨hhalf ▸ hlow.le, hhigh.le, fun _ => ⟨hlow, hhigh⟩⟩,
      fun h => h.even (by omega)⟩

/-! ### One grid -/

theorem fits_iff (hm : 0 < m) {n : Nat} {place : Int} :
    (decide (0 < n) && (of m e).rounds (Ratio.ofDecimal n place)) = true ↔
      0 < n ∧ Around m e (n * 10 ^ place) := by
  rw [Bool.and_eq_true, decide_eq_true_eq, rounds_iff hm (Ratio.den_ofDecimal_pos n place),
    Ratio.value_ofDecimal]

/-- What a grid gives is rounded to the number. -/
theorem around_of_onGrid (hm : 0 < m) {place : Int} {r : Scaled}
    (h : (of m e).onGrid? place = some r) : Around m e r.value := by
  have hfits : ∀ n : Nat, (decide (0 < n) && (of m e).rounds (Ratio.ofDecimal n place)) = true →
      Around m e (n * 10 ^ place) := fun n hn => ((fits_iff hm).1 hn).2
  rw [onGrid?] at h
  dsimp only at h
  split at h
  · next hbelow _ =>
    cases h
    exact hfits _ hbelow
  · next _ habove =>
    cases h
    exact hfits _ habove
  · cases h
  · next hbelow habove =>
    split at h
    · cases h
      exact hfits _ hbelow
    · cases h
      exact hfits _ habove

/-- The point of a grid at or below the number, in steps. -/
def below (d : Dyadic) (place : Int) : Nat :=
  (Ratio.ofDyadic d.sig d.exp).num * (Ratio.ofDecimal 1 place).den /
    ((Ratio.ofDyadic d.sig d.exp).den * (Ratio.ofDecimal 1 place).num)

theorem below_le (place : Int) : (below (of m e) place : ℚ) * 10 ^ place ≤ m * 2 ^ e := by
  have hle := Ratio.quotient_le (Ratio.den_ofDyadic_pos m e) (Ratio.den_ofDecimal_pos 1 place)
  rw [Ratio.value_ofDecimal, Ratio.value_ofDyadic, Nat.cast_one, one_mul] at hle
  exact hle

theorem lt_below_succ (place : Int) :
    (m : ℚ) * 2 ^ e < (below (of m e) place + 1 : Nat) * 10 ^ place := by
  have hlt := Ratio.lt_quotient_succ (Ratio.den_ofDyadic_pos m e)
    (Ratio.den_ofDecimal_pos 1 place) (Ratio.num_ofDecimal_one_pos place)
  rw [Ratio.value_ofDecimal, Ratio.value_ofDyadic, Nat.cast_one, one_mul] at hlt
  exact hlt

/-- A grid gives nothing when neither of its points next to the number is rounded to it. -/
theorem not_around_of_onGrid (hm : 0 < m) {place : Int} (h : (of m e).onGrid? place = none)
    (hpos : 0 < below (of m e) place) :
    ¬ Around m e (below (of m e) place * 10 ^ place) ∧
      ¬ Around m e ((below (of m e) place + 1 : Nat) * 10 ^ place) := by
  suffices hfits :
      (decide (0 < below (of m e) place) &&
        (of m e).rounds (Ratio.ofDecimal (below (of m e) place) place)) = false ∧
      (decide (0 < below (of m e) place + 1) &&
        (of m e).rounds (Ratio.ofDecimal (below (of m e) place + 1) place)) = false by
    rw [← Bool.not_eq_true, ← Bool.not_eq_true, fits_iff hm, fits_iff hm] at hfits
    exact ⟨fun h => hfits.1 ⟨hpos, h⟩, fun h => hfits.2 ⟨Nat.succ_pos _, h⟩⟩
  rw [onGrid?] at h
  dsimp only at h
  split at h
  · cases h
  · cases h
  · next hno hnor => exact ⟨hno, hnor⟩
  · split at h <;> cases h

/-- The steps of a grid of 17 digits are shorter than those of the numbers, so one of its points
next to a number is rounded to it. -/
theorem around_neighbour (h : Aimed m e) {lower upper : ℚ} (hlow : lower ≤ m * 2 ^ e)
    (hhigh : m * 2 ^ e ≤ upper) (hfine : 10 ^ 16 * (upper - lower) ≤ m * 2 ^ e) :
    Around m e lower ∨ Around m e upper := by
  have hpow := two_zpow_pos e
  have hbits : (m : ℚ) * 2 ^ e ≤ 2 ^ 53 * 2 ^ e :=
    mul_le_mul_of_nonneg_right (by exact_mod_cast h.lt.le) hpow.le
  by_cases htight : m = 2 ^ 52
  · -- a power of two has the wider half of its interval above
    have hwhole : (m : ℚ) * 2 ^ e = 2 ^ 52 * 2 ^ e := by
      rw [htight]
      norm_num
    refine .inr ⟨?_, by linarith, fun hodd => by omega⟩
    split <;> linarith
  · have hhalf : (m - if m = 2 ^ 52 ∧ e ≠ -1074 then 1 / 4 else 1 / 2 : ℚ) = m - 1 / 2 := by
      rw [if_neg fun h => htight h.1]
    rcases lt_or_ge upper ((m + 1 / 2) * 2 ^ e) with hnear | hfar
    · exact .inr ⟨hhalf ▸ by linarith, hnear.le, fun _ => ⟨by linarith, hnear⟩⟩
    · exact .inl ⟨hhalf ▸ by linarith, by linarith, fun _ => ⟨by linarith, by linarith⟩⟩

theorem onGrid_isSome (h : Aimed m e) {place : Int}
    (hfine : (10 : ℚ) ^ 16 * 10 ^ place ≤ m * 2 ^ e) : ((of m e).onGrid? place).isSome = true := by
  have hlow := below_le (m := m) (e := e) place
  have hhigh := lt_below_succ (m := m) (e := e) place
  have hunit : (0 : ℚ) < 10 ^ place := zpow_pos (by norm_num) place
  have hpos : 0 < below (of m e) place := by
    have hlarge := lt_of_mul_lt_mul_right (hfine.trans_lt hhigh) hunit.le
    have hlarge : 10 ^ 16 < below (of m e) place + 1 := by exact_mod_cast hlarge
    omega
  by_contra hnone
  obtain ⟨hlower, hupper⟩ := not_around_of_onGrid h.pos (Option.not_isSome_iff_eq_none.1 hnone) hpos
  refine (around_neighbour h hlow hhigh.le ?_).elim hlower hupper
  push_cast
  linarith

/-! ### The search -/

theorem search_isSome {magnitude : Int} {k : Nat}
    (hk : ((of m e).onGrid? (magnitude - k + 1)).isSome = true) :
    ∀ {tries n : Nat}, n ≤ k → k < n + tries → ((of m e).search magnitude tries n).isSome = true
  | 0,         n, hle, hlt => by omega
  | tries + 1, n, hle, hlt => by
    rw [search, Option.isSome_or, Bool.or_eq_true]
    rcases hle.eq_or_lt with rfl | hlt'
    · exact .inl hk
    · exact .inr (search_isSome hk hlt' (by omega))

theorem around_of_search (hm : 0 < m) {magnitude : Int} {r : Scaled} : ∀ {tries n : Nat},
    (of m e).search magnitude tries n = some r → Around m e r.value
  | 0,         n, h => by cases h
  | tries + 1, n, h => by
    rw [search, Option.or_eq_some_iff] at h
    exact h.elim (around_of_onGrid hm) fun h => around_of_search hm h.2

/-- A number with few places behind the point in base two has few in base ten. -/
theorem one_le_mul_ten_pow (hm : 0 < m) {k : Nat} (hk : -(3 * k : Int) ≤ e) :
    1 ≤ m * (2 : ℚ) ^ e * 10 ^ k := by
  have hpos : (1 : ℚ) ≤ m := by exact_mod_cast hm
  have hpow : (8 : ℚ) ^ k ≤ 10 ^ k := pow_le_pow_left₀ (by norm_num) (by norm_num) k
  have hleast : ((8 : ℚ) ^ k)⁻¹ ≤ 2 ^ e := by
    have height : ((8 : ℚ) ^ k)⁻¹ = 2 ^ (-(3 * k : Int)) := by
      rw [zpow_neg, zpow_mul, zpow_natCast]
      norm_num
    rw [height]
    exact zpow_le_zpow_right₀ one_le_two hk
  calc (1 : ℚ) = 1 * (8 ^ k)⁻¹ * 8 ^ k := by rw [one_mul, inv_mul_cancel₀ (by positivity)]
    _ ≤ m * 2 ^ e * 10 ^ k := by gcongr

theorem pow_length_toDigits_le {n : Nat} (h : 0 < n) :
    10 ^ ((Nat.toDigits 10 n).length - 1) ≤ n := by
  rcases Nat.eq_zero_or_pos ((Nat.toDigits 10 n).length - 1) with hzero | hpos
  · rw [hzero, pow_zero]
    exact h
  · by_contra hlt
    have hle := (Nat.length_toDigits_le_iff (by decide) hpos).2 (not_le.1 hlt)
    omega

/-- A ratio is at least as large as its first digit says, counted `k` places behind the point. -/
theorem ten_pow_length_le {r : Ratio} (hden : 0 < r.den) {k : Nat} (hone : 1 ≤ r.value * 10 ^ k) :
    (10 : ℚ) ^ ((Nat.toDigits 10 (r.num * 10 ^ k / r.den)).length - (k + 1) : Int) ≤ r.value := by
  obtain ⟨scaled, hscaled⟩ : ∃ scaled, scaled = r.num * 10 ^ k / r.den := ⟨_, rfl⟩
  have hshift : r.value * 10 ^ k = (r.num * 10 ^ k : Nat) / r.den := by
    rw [Ratio.value, div_mul_eq_mul_div]
    push_cast
    rfl
  have hpos : 0 < scaled := by
    rw [hshift, one_le_div (by exact_mod_cast hden)] at hone
    rw [hscaled]
    exact Nat.div_pos (by exact_mod_cast hone) hden
  have hle : (scaled : ℚ) ≤ r.value * 10 ^ k := by
    rw [hshift, hscaled]
    exact Nat.cast_div_le
  have hlength : ((Nat.toDigits 10 scaled).length : Int) - (k + 1) =
      ((Nat.toDigits 10 scaled).length - 1 : Nat) - k := by
    have hsome := Nat.length_toDigits_pos (b := 10) (n := scaled)
    omega
  have hdigits : (10 : ℚ) ^ ((Nat.toDigits 10 scaled).length - 1) ≤ scaled := by
    exact_mod_cast pow_length_toDigits_le hpos
  rw [← hscaled, hlength, zpow_sub₀ (by norm_num), zpow_natCast, zpow_natCast,
    div_le_iff₀ (by positivity)]
  exact hdigits.trans hle

/-- The first digit stands where the magnitude says, or further in front. -/
theorem ten_pow_magnitude_le (h : Aimed m e) : (10 : ℚ) ^ (of m e).magnitude ≤ m * 2 ^ e := by
  have hleast : -(3 * (400 : Nat) : Int) ≤ e := by
    have := h.least
    omega
  have hone := one_le_mul_ten_pow h.pos hleast
  rw [← Ratio.value_ofDyadic] at hone ⊢
  exact ten_pow_length_le (Ratio.den_ofDyadic_pos m e) hone

end Dyadic

/-- Zeros at the end do not count. -/
theorem Scaled.value_stripZeros : ∀ (fuel : Nat) (d : Scaled),
    (d.stripZeros fuel).value = d.value
  | 0,        d => rfl
  | fuel + 1, d => by
    rw [stripZeros]
    split
    · next hzero =>
      have hdigits : (d.digits : ℚ) = (d.digits / 10 : Nat) * 10 := by
        exact_mod_cast (Nat.div_mul_cancel (Nat.dvd_of_mod_eq_zero hzero.2)).symm
      rw [value_stripZeros fuel, value, value, hdigits, zpow_add_one₀ (by norm_num)]
      ring
    · rfl

theorem shortest_def : shortest = fun x =>
    match (Dyadic.ofFloat x).search (Dyadic.ofFloat x).magnitude 17 1 with
    | some r => r.stripZeros 20
    | none   => ⟨0, 0⟩ := rfl

theorem shortest_eq {x : Float} {d : Dyadic} {r : Scaled} (hd : Dyadic.ofFloat x = d)
    (h : d.search d.magnitude 17 1 = some r) : shortest x = r.stripZeros 20 := by
  have hx := congrFun shortest_def x
  rw [hd] at hx
  rw [hx, h]

/-- The shortest decimal is rounded to the number. -/
theorem around_shortest {x : Float} {s : UnpackedFloat.Sign} {m : Nat} {e : Int}
    (h : Canonical m e) (hx : unpacked x = .finite s m e h.pos) :
    Around m e (shortest x).value := by
  obtain ⟨magnitude, hmagnitude⟩ : ∃ k, (Dyadic.of m e).magnitude = k := ⟨_, rfl⟩
  have hfirst := Dyadic.ten_pow_magnitude_le h.aimed
  rw [hmagnitude] at hfirst
  have hfound : ((Dyadic.of m e).search magnitude 17 1).isSome = true := by
    refine Dyadic.search_isSome (k := 17) (Dyadic.onGrid_isSome h.aimed ?_) (by decide) (by decide)
    refine le_of_eq_of_le ?_ hfirst
    rw [← zpow_natCast, ← zpow_add₀ (by norm_num)]
    congr 1
    omega
  obtain ⟨r, hr⟩ := Option.isSome_iff_exists.1 hfound
  rw [shortest_eq (Dyadic.ofFloat_eq hx) (hmagnitude ▸ hr), Scaled.value_stripZeros]
  exact Dyadic.around_of_search h.pos hr

end Decimal

end Shelf
