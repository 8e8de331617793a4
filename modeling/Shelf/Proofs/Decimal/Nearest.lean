import Shelf.Proofs.Decimal.Exact

/-!
Rounding to the nearest floating-point number.

A positive number has a place, the power of two at which its whole part has 53 bits, or the least
power that there is. It is rounded to the nearest multiple of that power, and to the even one of
two. So a number that rounding can produce stands in an interval of the numbers rounded to it, which
reaches half a step up and half a step down, or a quarter of one below a power of two.

    ──[────────●────────────────]──     ● = 2^52 · 2^e
      ●-1/4         ●+1/2 steps         the ends belong to it, since 2^52 is even

The algorithm keeps the whole part and two bits of what is behind it: whether that is a half or
more, and whether something remains beside the half.
-/

namespace Shelf

open Float.Model (UnpackedFloat Format totalExponent)
open Float.Model.UnpackedFloat (Accuracy ExtendedMantissa accuracyOfFraction shiftToExponent
  shiftToTargetExponent roundWithAccuracy)

/-! ### Mantissas with two more bits -/

/-- A half when the bit is set. -/
def halfBit (b : Bool) : ℚ := if b then 1 / 2 else 0

/-- The mantissa is the whole part of a number, the round bit says whether its fraction is a half or
more, and the sticky bit whether something remains. -/
structure Tracks (em : ExtendedMantissa) (x : ℚ) : Prop where
  low : em.mantissa + halfBit em.roundBit ≤ x
  high : x < em.mantissa + halfBit em.roundBit + 1 / 2
  sticky : em.stickyBit = true ↔ em.mantissa + halfBit em.roundBit < x

/-- The nearest integer, the even one of two. -/
structure Nearest (x : ℚ) (n : Nat) : Prop where
  low : n - 1 / 2 ≤ x
  high : x ≤ n + 1 / 2
  even : x = n - 1 / 2 ∨ x = n + 1 / 2 → n % 2 = 0

namespace Tracks

variable {em : ExtendedMantissa} {x : ℚ}

theorem exact (m : Nat) : Tracks (.ofMantissaAndAccuracy m .exact) m := by
  refine ⟨?_, ?_, ?_⟩ <;> simp [ExtendedMantissa.ofMantissaAndAccuracy, halfBit]

/-- A quotient with what remains of a division. -/
theorem quotient (m : Nat) {num den : Nat} (h : num < den) :
    Tracks (.ofMantissaAndAccuracy m (accuracyOfFraction num den)) (m + num / den) := by
  have hden : (0 : ℚ) < den := by exact_mod_cast Nat.zero_lt_of_lt h
  have hlt : (num : ℚ) / den < 1 := by
    rw [div_lt_one hden]
    exact_mod_cast h
  rw [accuracyOfFraction]
  split
  · next hzero =>
    rw [hzero, Nat.cast_zero, zero_div, add_zero]
    exact exact m
  · next hzero =>
    have hpos : (0 : ℚ) < num / den := div_pos (by exact_mod_cast Nat.pos_of_ne_zero hzero) hden
    rcases lt_trichotomy (2 * num) den with hlow | heq | hhigh
    · have hhalf : (num : ℚ) / den < 1 / 2 := by
        rw [div_lt_div_iff₀ hden two_pos]
        exact_mod_cast (by omega : num * 2 < 1 * den)
      rw [compare_lt_iff_lt.2 hlow]
      refine ⟨?_, ?_, ?_⟩ <;> simp [ExtendedMantissa.ofMantissaAndAccuracy, halfBit] <;> linarith
    · have hhalf : (num : ℚ) / den = 1 / 2 := by
        rw [div_eq_div_iff hden.ne' two_ne_zero]
        exact_mod_cast (by omega : num * 2 = 1 * den)
      rw [compare_eq_iff_eq.2 heq, hhalf]
      refine ⟨?_, ?_, ?_⟩ <;> simp [ExtendedMantissa.ofMantissaAndAccuracy, halfBit]
    · have hhalf : 1 / 2 < (num : ℚ) / den := by
        rw [div_lt_div_iff₀ two_pos hden]
        exact_mod_cast (by omega : 1 * den < num * 2)
      rw [compare_gt_iff_gt.2 hhigh]
      refine ⟨?_, ?_, ?_⟩ <;> simp [ExtendedMantissa.ofMantissaAndAccuracy, halfBit] <;> linarith

/-- One bit less. -/
theorem shiftRightOne (h : Tracks em x) : Tracks em.shiftRightOne (x / 2) := by
  obtain ⟨m, roundBit, stickyBit⟩ := em
  obtain ⟨hlow, hhigh, hsticky⟩ := h
  have hmod : (m : ℚ) = 2 * (m / 2 : Nat) + (m % 2 : Nat) := by
    exact_mod_cast (Nat.div_add_mod m 2).symm
  have hbit : halfBit (m % 2 != 0) = (m % 2 : Nat) / 2 := by
    rcases Nat.mod_two_eq_zero_or_one m with hzero | hone
    · simp [hzero, halfBit]
    · simp [hone, halfBit]
  have hwhole : ((m / 2 : Nat) : ℚ) + halfBit (m % 2 != 0) = m / 2 := by
    rw [hbit, hmod]
    ring
  simp only [halfBit] at hlow hhigh hsticky
  refine ⟨?_, ?_, ?_⟩
  · simp only [ExtendedMantissa.shiftRightOne, hwhole]
    split at hlow <;> linarith
  · simp only [ExtendedMantissa.shiftRightOne, hwhole]
    split at hhigh <;> linarith
  · simp only [ExtendedMantissa.shiftRightOne, hwhole, Bool.or_eq_true]
    cases roundBit with
    | true =>
      refine iff_of_true (.inl rfl) ?_
      simp only [if_true] at hlow
      linarith
    | false =>
      simp only [Bool.false_eq_true, if_false, add_zero] at hsticky
      rw [hsticky, div_lt_div_iff_of_pos_right two_pos]
      simp

theorem shiftRight (h : Tracks em x) : ∀ n : Nat, Tracks (em >>> n) (x / 2 ^ n)
  | 0     => by
    rw [pow_zero, div_one]
    exact h
  | n + 1 => by
    rw [pow_succ, ← div_div]
    exact (shiftRight h n).shiftRightOne

theorem mantissa_le (h : Tracks em x) : (em.mantissa : ℚ) ≤ x := by
  have hbit : 0 ≤ halfBit em.roundBit := by
    rw [halfBit]; split <;> norm_num
  linarith [h.low]

theorem lt_mantissa_succ (h : Tracks em x) : x < em.mantissa + 1 := by
  have hbit : halfBit em.roundBit ≤ 1 / 2 := by
    rw [halfBit]; split <;> norm_num
  linarith [h.high]

/-- Rounding by the two bits is rounding to the nearest. -/
theorem nearest (h : Tracks em x) : Nearest x em.roundedMantissa := by
  obtain ⟨m, roundBit, stickyBit⟩ := em
  obtain ⟨hlow, hhigh, hsticky⟩ := h
  cases roundBit <;> cases stickyBit <;>
    simp only [halfBit, Bool.false_eq_true, if_false, if_true, add_zero, false_iff, true_iff,
      not_lt] at hlow hhigh hsticky <;>
    simp only [ExtendedMantissa.roundedMantissa, ExtendedMantissa.accuracy,
      Accuracy.roundToNearestEven]
  · exact ⟨by linarith, by linarith, by rintro (h | h) <;> linarith⟩
  · exact ⟨by linarith, by linarith, by rintro (h | h) <;> linarith⟩
  · -- a tie, which goes to the even neighbour
    rcases Nat.mod_two_eq_zero_or_one m with hbit | hbit <;> rw [hbit]
    · exact ⟨by push_cast; linarith, by push_cast; linarith, fun _ => hbit⟩
    · exact ⟨by push_cast; linarith, by push_cast; linarith, fun _ => by omega⟩
  · refine ⟨by push_cast; linarith, by push_cast; linarith, ?_⟩
    rintro (h | h) <;> push_cast at h <;> linarith

end Tracks

namespace Nearest

variable {x : ℚ} {m n : Nat}

theorem not_lt_of (hm : Nearest x m) (hn : Nearest x n) : ¬ m < n := by
  intro hlt
  have hle : (m : ℚ) + 1 ≤ n := by exact_mod_cast hlt
  have hx : x = m + 1 / 2 := le_antisymm hm.high (by linarith [hn.low])
  have hsucc : (n : ℚ) = m + 1 := by linarith [hn.low]
  have heven := hm.even (.inr hx)
  have hodd := hn.even (.inl (by rw [hx, hsucc]; ring))
  have hnat : n = m + 1 := by exact_mod_cast hsucc
  omega

theorem unique (hm : Nearest x m) (hn : Nearest x n) : m = n :=
  le_antisymm (not_lt.1 (hn.not_lt_of hm)) (not_lt.1 (hm.not_lt_of hn))

/-- Rounding does not pass an integer. -/
theorem le_of_le (h : Nearest x n) (hx : x ≤ m) : n ≤ m := by
  by_contra hlt
  have hle : (m : ℚ) + 1 ≤ n := by exact_mod_cast not_le.1 hlt
  linarith [h.low]

theorem ge_of_ge (h : Nearest x n) (hx : (m : ℚ) ≤ x) : m ≤ n := by
  by_contra hlt
  have hle : (n : ℚ) + 1 ≤ m := by exact_mod_cast not_le.1 hlt
  linarith [h.high]

end Nearest

/-! ### Places -/

/-- The place to which a positive number is rounded: its mantissa there has 53 bits, or fewer at the
least place. -/
structure Place (q : ℚ) (t : Int) : Prop where
  least : -1074 ≤ t
  lt : q < 2 ^ 53 * 2 ^ t
  full : t ≠ -1074 → 2 ^ 52 * 2 ^ t ≤ q

theorem two_zpow_pos (t : Int) : (0 : ℚ) < 2 ^ t := zpow_pos two_pos t

theorem two_pow_mul_two_zpow (n : Nat) (t : Int) : (2 : ℚ) ^ n * 2 ^ t = 2 ^ (n + t) := by
  rw [zpow_add₀ two_ne_zero, zpow_natCast]

theorem two_pow_mul_le {a b : Nat} {t u : Int} (h : a + t ≤ b + u) :
    (2 : ℚ) ^ a * 2 ^ t ≤ 2 ^ b * 2 ^ u := by
  rw [two_pow_mul_two_zpow, two_pow_mul_two_zpow]
  exact zpow_le_zpow_right₀ one_le_two h

theorem zpow_of_nonneg (b : ℚ) {t : Int} (h : 0 ≤ t) : b ^ t = b ^ t.toNat := by
  rw [← zpow_natCast, Int.toNat_of_nonneg h]

theorem zpow_of_nonpos (b : ℚ) {t : Int} (h : t ≤ 0) : b ^ t = (b ^ (-t).toNat)⁻¹ := by
  rw [← zpow_natCast, ← zpow_neg, Int.toNat_of_nonneg (by omega), neg_neg]

theorem targetExponent_eq_max (t : Int) :
    Format.binary64.targetExponent t = max (t - 53) (-1074) := rfl

theorem Place.not_lt_of {q : ℚ} {t u : Int} (ht : Place q t) (hu : Place q u) : ¬ t < u := by
  intro hlt
  have hfull := hu.full (by have := ht.least; omega)
  have hpow : (2 : ℚ) ^ 53 * 2 ^ t ≤ 2 ^ 52 * 2 ^ u := two_pow_mul_le (by push_cast; omega)
  linarith [ht.lt]

theorem Place.unique {q : ℚ} {t u : Int} (ht : Place q t) (hu : Place q u) : t = u :=
  le_antisymm (not_lt.1 (hu.not_lt_of ht)) (not_lt.1 (ht.not_lt_of hu))

/-- What a mantissa stands for lies at the place that its bits say. -/
theorem place_of_tracks {m : Nat} {acc : Accuracy} {x : ℚ} {e : Int}
    (h : Tracks (.ofMantissaAndAccuracy m acc) x)
    (he : e ≤ Format.binary64.targetExponent (totalExponent m e)) :
    Place (x * 2 ^ e) (Format.binary64.targetExponent (totalExponent m e)) := by
  have hmantissa : (ExtendedMantissa.ofMantissaAndAccuracy m acc).mantissa = m := by
    rcases acc with _ | _ | _ | _ <;> rfl
  have hlow := h.mantissa_le
  have hhigh := h.lt_mantissa_succ
  rw [hmantissa] at hlow hhigh
  rw [targetExponent_eq_max, totalExponent] at he ⊢
  refine ⟨le_max_right _ _, ?_, fun hne => ?_⟩
  · have hbits : (m : ℚ) + 1 ≤ 2 ^ (m.log2 + 1) := by exact_mod_cast Nat.lt_log2_self (n := m)
    calc x * 2 ^ e
        < (m + 1) * 2 ^ e := mul_lt_mul_of_pos_right hhigh (two_zpow_pos e)
      _ ≤ 2 ^ (m.log2 + 1) * 2 ^ e := mul_le_mul_of_nonneg_right hbits (two_zpow_pos e).le
      _ ≤ 2 ^ 53 * 2 ^ max (m.log2 + 1 + e - 53) (-1074) :=
        two_pow_mul_le (by push_cast; omega)
  · have hpos : m ≠ 0 := by
      rintro rfl
      rw [Nat.log2_zero] at he hne
      omega
    have hbits : (2 : ℚ) ^ m.log2 ≤ m := by exact_mod_cast Nat.log2_self_le hpos
    calc (2 : ℚ) ^ 52 * 2 ^ max (m.log2 + 1 + e - 53) (-1074)
        ≤ 2 ^ m.log2 * 2 ^ e := two_pow_mul_le (by push_cast; omega)
      _ ≤ x * 2 ^ e := mul_le_mul_of_nonneg_right (hbits.trans hlow) (two_zpow_pos e).le

/-! ### Rounded values -/

/-- The first number is rounded to the second: to the nearest that the place of the first has, and
to the even one of two. -/
def Rounds (q v : ℚ) : Prop := ∃ t n, Place q t ∧ Nearest (q / 2 ^ t) n ∧ v = n * 2 ^ t

namespace Rounds

variable {q v : ℚ} {k : Nat} {p : Int}

theorem nonneg (h : Rounds q v) : 0 ≤ v := by
  obtain ⟨t, n, -, -, rfl⟩ := h
  positivity

/-- At a place above, a number of 53 bits is an integer. -/
theorem exists_multiple {t : Int} (hle : t ≤ p) (k : Nat) :
    (k : ℚ) * 2 ^ p = (k * 2 ^ (p - t).toNat : Nat) * 2 ^ t := by
  push_cast
  rw [mul_assoc, two_pow_mul_two_zpow]
  congr 2
  omega

/-- Numbers of 53 bits are small beside those of a place above them. -/
theorem lt_of_place_above {t : Int} (hk : k < 2 ^ 53) (hlt : p < t) :
    (k : ℚ) * 2 ^ p < 2 ^ 52 * 2 ^ t := by
  have hbits : (k : ℚ) < 2 ^ 53 := by exact_mod_cast hk
  calc (k : ℚ) * 2 ^ p
      < 2 ^ 53 * 2 ^ p := mul_lt_mul_of_pos_right hbits (two_zpow_pos p)
    _ ≤ 2 ^ 52 * 2 ^ t := two_pow_mul_le (by push_cast; omega)

/-- Rounding does not go up past a number of 53 bits. -/
theorem le_of_le (h : Rounds q v) (hk : k < 2 ^ 53) (hp : -1074 ≤ p) (hq : q ≤ k * 2 ^ p) :
    v ≤ k * 2 ^ p := by
  obtain ⟨t, n, hplace, hnearest, rfl⟩ := h
  rcases le_or_gt t p with hle | hlt
  · rw [exists_multiple hle] at hq ⊢
    have hn := hnearest.le_of_le ((div_le_iff₀ (two_zpow_pos t)).2 hq)
    exact mul_le_mul_of_nonneg_right (by exact_mod_cast hn) (two_zpow_pos t).le
  · have hfull := hplace.full (by omega)
    linarith [lt_of_place_above hk hlt]

/-- Rounding does not go down past a number of 53 bits. -/
theorem ge_of_ge (h : Rounds q v) (hk : k < 2 ^ 53) (hp : -1074 ≤ p) (hq : k * 2 ^ p ≤ q) :
    k * 2 ^ p ≤ v := by
  obtain ⟨t, n, hplace, hnearest, rfl⟩ := h
  rcases le_or_gt t p with hle | hlt
  · rw [exists_multiple hle] at hq ⊢
    have hn := hnearest.ge_of_ge ((le_div_iff₀ (two_zpow_pos t)).2 hq)
    exact mul_le_mul_of_nonneg_right (by exact_mod_cast hn) (two_zpow_pos t).le
  · have hfull := (le_div_iff₀ (two_zpow_pos t)).2 (hplace.full (by omega))
    have hn := hnearest.ge_of_ge (m := 2 ^ 52) (by exact_mod_cast hfull)
    refine (lt_of_place_above hk hlt).le.trans ?_
    exact mul_le_mul_of_nonneg_right (by exact_mod_cast hn) (two_zpow_pos t).le

/-- A number of 53 bits stays as it is. -/
theorem eq_of_bits (h : Rounds (k * 2 ^ p) v) (hk : k < 2 ^ 53) (hp : -1074 ≤ p) :
    v = k * 2 ^ p :=
  le_antisymm (h.le_of_le hk hp le_rfl) (h.ge_of_ge hk hp le_rfl)

theorem le_int {k : Int} (h : Rounds q v) (hnonneg : 0 ≤ q)
    (hk : k.natAbs < 2 ^ 53) (hq : q ≤ k) : v ≤ k := by
  obtain ⟨n, rfl⟩ := Int.eq_ofNat_of_zero_le (by exact_mod_cast hnonneg.trans hq : 0 ≤ k)
  have hle := h.le_of_le (p := 0) hk (by decide)
  rw [zpow_zero, mul_one] at hle
  exact hle hq

theorem int_le {k : Int} (h : Rounds q v) (hk : k.natAbs < 2 ^ 53)
    (hq : k ≤ q) : k ≤ v := by
  rcases le_or_gt k 0 with hneg | hpos
  · exact (Int.cast_nonpos.2 hneg).trans h.nonneg
  · obtain ⟨n, rfl⟩ := Int.eq_ofNat_of_zero_le hpos.le
    have hge := h.ge_of_ge (p := 0) hk (by decide)
    rw [zpow_zero, mul_one] at hge
    exact hge hq

/-- Rounding moves a number by half a step at most, and there are `2^52` steps or more in any number
that is not among the least. -/
theorem abs_sub_le {b : ℚ} (h : Rounds q v) (hq : q ≤ b)
    (hb : (2 : ℚ) ^ (-1022 : Int) ≤ b) : |v - q| ≤ b / 2 ^ 53 := by
  obtain ⟨t, n, hplace, hnearest, rfl⟩ := h
  have hstep : (2 : ℚ) ^ 52 * 2 ^ t ≤ b := by
    by_cases ht : t = -1074
    · rw [ht, two_pow_mul_two_zpow]
      exact hb
    · exact (hplace.full ht).trans hq
  have hpow := two_zpow_pos t
  have hlow := (le_div_iff₀ hpow).1 hnearest.low
  have hhigh := (div_le_iff₀ hpow).1 hnearest.high
  have hhalf : (2 : ℚ) ^ t / 2 ≤ b / 2 ^ 53 := by
    rw [div_le_div_iff₀ two_pos (by norm_num)]
    linarith
  rw [abs_le]
  constructor <;> linarith

end Rounds

/-- A number is rounded in one way. -/
theorem Rounds.unique {q v w : ℚ} (hv : Rounds q v) (hw : Rounds q w) : v = w := by
  obtain ⟨t, n, ht, hn, rfl⟩ := hv
  obtain ⟨u, m, hu, hm, rfl⟩ := hw
  obtain rfl := ht.unique hu
  rw [hn.unique hm]

/-! ### The interval of a number -/

/-- A mantissa and an exponent as rounding leaves them, however large. -/
structure Aimed (m : Nat) (e : Int) : Prop where
  pos : 0 < m
  lt : m < 2 ^ 53
  least : -1074 ≤ e
  full : e ≠ -1074 → 2 ^ 52 ≤ m

theorem Canonical.aimed {m : Nat} {e : Int} (h : Canonical m e) : Aimed m e :=
  ⟨h.pos, h.lt, h.least, h.full⟩

/-- The numbers around a number of 53 bits that are rounded to it. Below a power of two the steps
are half as wide. -/
structure Around (m : Nat) (e : Int) (q : ℚ) : Prop where
  low : (m - if m = 2 ^ 52 ∧ e ≠ -1074 then 1 / 4 else 1 / 2) * 2 ^ e ≤ q
  high : q ≤ (m + 1 / 2) * 2 ^ e
  even : m % 2 = 1 → (m - 1 / 2) * 2 ^ e < q ∧ q < (m + 1 / 2) * 2 ^ e

theorem Around.self (m : Nat) (e : Int) : Around m e (m * 2 ^ e) := by
  have hpow := two_zpow_pos e
  refine ⟨?_, ?_, fun _ => ⟨?_, ?_⟩⟩
  · refine mul_le_mul_of_nonneg_right ?_ hpow.le
    split <;> linarith
  · exact mul_le_mul_of_nonneg_right (by linarith) hpow.le
  · exact mul_lt_mul_of_pos_right (by linarith) hpow
  · exact mul_lt_mul_of_pos_right (by linarith) hpow

theorem Around.nonneg {m : Nat} {e : Int} {q : ℚ} (h : Around m e q) (hm : 0 < m) : 0 ≤ q := by
  have hone : (1 : ℚ) ≤ m := by exact_mod_cast hm
  refine le_trans (mul_nonneg ?_ (two_zpow_pos e).le) h.low
  split <;> linarith

namespace Aimed

variable {m : Nat} {e : Int} {q : ℚ}

/-- What lies just below a power of two is rounded up to it, at the place below. -/
theorem rounds_of_lt (hne : e ≠ -1074) (hleast : -1074 ≤ e) (hlow : (2 ^ 52 - 1 / 4) * 2 ^ e ≤ q)
    (hlt : q < 2 ^ 52 * 2 ^ e) : Rounds q (2 ^ 52 * 2 ^ e) := by
  have hpow := two_zpow_pos (e - 1)
  have hstep : (2 : ℚ) ^ e = 2 * 2 ^ (e - 1) := by
    rw [← zpow_one_add₀ two_ne_zero]
    congr 1
    omega
  rw [hstep] at hlow hlt ⊢
  have hlow : 2 ^ 53 - 1 / 2 ≤ q / 2 ^ (e - 1) := (le_div_iff₀ hpow).2 (by linarith)
  have hlt : q / 2 ^ (e - 1) < 2 ^ 53 := (div_lt_iff₀ hpow).2 (by linarith)
  refine ⟨e - 1, 2 ^ 53, ⟨by omega, (div_lt_iff₀ hpow).1 hlt, fun _ => ?_⟩, ?_, ?_⟩
  · exact (le_div_iff₀ hpow).1 (by linarith)
  · refine ⟨by push_cast; exact hlow, by push_cast; linarith, fun _ => by decide⟩
  · push_cast
    ring

/-- What is around a number is rounded to it. -/
theorem rounds (h : Aimed m e) (hq : Around m e q) : Rounds q (m * 2 ^ e) := by
  have hpow := two_zpow_pos e
  by_cases hbelow : (m = 2 ^ 52 ∧ e ≠ -1074) ∧ q < m * 2 ^ e
  · obtain ⟨⟨rfl, hne⟩, hlt⟩ := hbelow
    have hlow := hq.low
    rw [if_pos ⟨rfl, hne⟩] at hlow
    push_cast at hlow hlt ⊢
    exact rounds_of_lt hne h.least hlow hlt
  · have hlow : (m : ℚ) - 1 / 2 ≤ q / 2 ^ e := by
      refine le_trans ?_ ((le_div_iff₀ hpow).2 hq.low)
      split <;> linarith
    have hhigh : q / 2 ^ e ≤ m + 1 / 2 := (div_le_iff₀ hpow).2 hq.high
    have hbits : (m : ℚ) + 1 ≤ 2 ^ 53 := by exact_mod_cast h.lt
    refine ⟨e, m, ⟨h.least, (div_lt_iff₀ hpow).1 (by linarith), fun hne => ?_⟩,
      ⟨hlow, hhigh, ?_⟩, rfl⟩
    · refine (le_div_iff₀ hpow).1 ?_
      rcases (h.full hne).eq_or_lt with heq | hlt
      · have habove : (m : ℚ) ≤ q / 2 ^ e :=
          (le_div_iff₀ hpow).2 (not_lt.1 fun hlt => hbelow ⟨⟨heq.symm, hne⟩, hlt⟩)
        rw [← heq] at habove
        exact_mod_cast habove
      · have hfull : (2 : ℚ) ^ 52 + 1 ≤ m := by exact_mod_cast hlt
        linarith
    · intro hends
      by_contra hodd
      obtain ⟨hgt, hlt⟩ := hq.even (by omega)
      have hgt := (lt_div_iff₀ hpow).2 hgt
      have hlt := (div_lt_iff₀ hpow).2 hlt
      rcases hends with hend | hend <;> linarith

end Aimed

/-! ### Rounding an unpacked number -/

/-- The value of a number of that sign and size. -/
def signedValue : UnpackedFloat.Sign → ℚ → ℚ
  | .positive, v => v
  | .negative, v => -v

/-- The number that the machine keeps. -/
def repacked (u : UnpackedFloat) : UnpackedFloat := (Float.Model.pack u).unpack

/-- The numbers from here on are rounded to infinity. -/
def floatBound : ℚ := 2 ^ (1024 : Int)

/-- A number of 53 bits is below the bound, up to the greatest place. -/
theorem lt_floatBound_of_bits {n : Nat} {p : Int} (hn : n < 2 ^ 53) (hp : p ≤ 971) :
    (n : ℚ) * 2 ^ p < floatBound := by
  have hbits : (n : ℚ) < 2 ^ 53 := by exact_mod_cast hn
  refine (mul_lt_mul_of_pos_right hbits (two_zpow_pos p)).trans_le ?_
  rw [floatBound, two_pow_mul_two_zpow]
  exact zpow_le_zpow_right₀ one_le_two (by push_cast; omega)

theorem int_lt_floatBound {k : Int} (hk : k.natAbs < 2 ^ 53) : (k : ℚ) < floatBound := by
  have hle : (k : ℚ) ≤ (k.natAbs : Nat) := by
    rw [Nat.cast_natAbs]
    exact_mod_cast le_abs_self k
  have hlt := lt_floatBound_of_bits hk (p := 0) (by decide)
  rw [zpow_zero, mul_one] at hlt
  exact hle.trans_lt hlt

/-- A number is kept as a size with its sign, or as the infinity of its sign if that is too
large. -/
structure Kept (s : UnpackedFloat.Sign) (v : ℚ) (u : UnpackedFloat) : Prop where
  finite : v < floatBound → unpackedValue? u = some (signedValue s v)
  infinite : floatBound ≤ v → u = .infinity s

namespace Aimed

variable {m : Nat} {e : Int}

/-- What has no place among the finite numbers. -/
theorem repacked_of_gt (h : Aimed m e) (he : 971 < e) (s : UnpackedFloat.Sign) :
    repacked (.finite s m e h.pos) = .infinity s := by
  have hbiased : 2 ^ 11 ≤ (e + 1023 + 52).toNat + 1 := by omega
  have hpack : UnpackedFloat.pack .binary64 (.finite s m e h.pos) =
      UnpackedFloat.packedInfinity .binary64 s := if_pos hbiased
  rw [repacked, unpack_pack_eq, hpack]
  cases s <;> rfl

theorem floatBound_le (h : Aimed m e) (he : 971 < e) : floatBound ≤ (m : ℚ) * 2 ^ e := by
  have hbits : (2 : ℚ) ^ 52 ≤ m := by exact_mod_cast h.full (by omega)
  refine le_trans ?_ (mul_le_mul_of_nonneg_right hbits (two_zpow_pos e).le)
  rw [floatBound, two_pow_mul_two_zpow]
  exact zpow_le_zpow_right₀ one_le_two (by push_cast; omega)

theorem kept (h : Aimed m e) (s : UnpackedFloat.Sign) :
    Kept s (m * 2 ^ e) (repacked (.finite s m e h.pos)) := by
  rcases le_or_gt e 971 with hmost | hover
  · have hfin := lt_floatBound_of_bits h.lt hmost
    refine ⟨fun _ => ?_, fun hlarge => absurd hlarge (not_le.2 hfin)⟩
    rw [repacked, Canonical.unpack_pack ⟨h.pos, h.lt, h.least, hmost, h.full⟩ s, unpackedValue?]
    cases s <;> simp [signedValue, UnpackedFloat.Sign.apply]
  · exact ⟨fun hsmall => absurd hsmall (not_lt.2 (h.floatBound_le hover)),
      fun _ => h.repacked_of_gt hover s⟩

end Aimed

theorem kept_zero (s t : UnpackedFloat.Sign) : Kept s 0 (repacked (.zero t)) := by
  refine ⟨fun _ => ?_, fun h => absurd h (not_le.2 (two_zpow_pos _))⟩
  cases s <;> cases t <;> decide

/-- The number is kept as what a size rounds to. -/
def Lands (s : UnpackedFloat.Sign) (q : ℚ) (u : UnpackedFloat) : Prop :=
  ∃ v, Rounds q v ∧ Kept s v u

/-- The second shift drops the bit by which rounding up may have become too long. -/
theorem shift_rounded {n : Nat} {t : Int} (hn : n < 2 ^ 53) (ht : -1074 ≤ t) :
    shiftToTargetExponent .binary64 n t .exact = (⟨n, false, false⟩, t) := by
  have hlog : n.log2 + 1 ≤ 53 := by
    rcases Nat.eq_zero_or_pos n with rfl | hpos
    · decide
    · exact (Nat.log2_lt hpos.ne').2 hn
  have hamount : (Format.binary64.targetExponent (totalExponent n t) - t).toNat = 0 := by
    rw [targetExponent_eq_max, totalExponent]
    omega
  rw [shiftToTargetExponent, shiftToExponent, hamount]
  refine Prod.ext rfl ?_
  change t + 0 = t
  omega

theorem shift_rounded_up {t : Int} (ht : -1074 ≤ t) :
    shiftToTargetExponent .binary64 (2 ^ 53) t .exact = (⟨2 ^ 52, false, false⟩, t + 1) := by
  have hlog : (2 ^ 53).log2 = 53 := by decide
  have hamount : (Format.binary64.targetExponent (totalExponent (2 ^ 53) t) - t).toNat = 1 := by
    rw [targetExponent_eq_max, totalExponent, hlog]
    omega
  rw [shiftToTargetExponent, shiftToExponent, hamount]
  rfl

namespace Tracks

variable {m : Nat} {acc : Accuracy} {x : ℚ} {e : Int}

/-- The first shift, to the place of the number. -/
theorem shifted (h : Tracks (.ofMantissaAndAccuracy m acc) x)
    (he : e ≤ Format.binary64.targetExponent (totalExponent m e)) :
    ∃ em t, shiftToTargetExponent .binary64 m e acc = (em, t) ∧ Place (x * 2 ^ e) t ∧
      Tracks em (x * 2 ^ e / 2 ^ t) := by
  have hamount : e + (Format.binary64.targetExponent (totalExponent m e) - e).toNat =
      Format.binary64.targetExponent (totalExponent m e) := by omega
  refine ⟨_, _, rfl, ?_, ?_⟩
  · rw [hamount]
    exact place_of_tracks h he
  · have hshift : x * 2 ^ e / 2 ^ (e + (Format.binary64.targetExponent
        (totalExponent m e) - e).toNat : Int) =
        x / 2 ^ (Format.binary64.targetExponent (totalExponent m e) - e).toNat := by
      rw [zpow_add₀ two_ne_zero, zpow_natCast, mul_comm x, mul_div_mul_left _ _
        (zpow_ne_zero e two_ne_zero)]
    rw [hshift]
    exact h.shiftRight _

/-- Rounding with what is known of the rest. -/
theorem lands (h : Tracks (.ofMantissaAndAccuracy m acc) x)
    (he : e ≤ Format.binary64.targetExponent (totalExponent m e)) (s : UnpackedFloat.Sign) :
    Lands s (x * 2 ^ e) (repacked (roundWithAccuracy .binary64 s m e acc)) := by
  obtain ⟨em, t, hshift, hplace, htracks⟩ := h.shifted he
  have hnearest := htracks.nearest
  refine ⟨em.roundedMantissa * 2 ^ t, ⟨t, _, hplace, hnearest, rfl⟩, ?_⟩
  have hle : em.roundedMantissa ≤ 2 ^ 53 :=
    hnearest.le_of_le (by exact_mod_cast ((div_lt_iff₀ (two_zpow_pos t)).2 hplace.lt).le)
  have hfull : t ≠ -1074 → 2 ^ 52 ≤ em.roundedMantissa := fun hne =>
    hnearest.ge_of_ge (by exact_mod_cast (le_div_iff₀ (two_zpow_pos t)).2 (hplace.full hne))
  obtain ⟨n, hn⟩ : ∃ n, em.roundedMantissa = n := ⟨_, rfl⟩
  rw [hn] at hle hfull
  simp only [roundWithAccuracy, hshift, hn]
  rcases hle.eq_or_lt with rfl | hlt
  · have haimed : Aimed (2 ^ 52) (t + 1) :=
      ⟨by decide, by decide, by have := hplace.least; omega, fun _ => le_rfl⟩
    have hvalue : ((2 ^ 53 : Nat) : ℚ) * 2 ^ t = (2 ^ 52 : Nat) * 2 ^ (t + 1) := by
      rw [zpow_add_one₀ two_ne_zero]
      push_cast
      ring
    simp only [hvalue, shift_rounded_up hplace.least]
    exact haimed.kept s
  · simp only [shift_rounded hlt hplace.least]
    split
    · next hzero =>
      rw [hzero, Nat.cast_zero, zero_mul]
      exact kept_zero s s
    · next hne =>
      exact Aimed.kept ⟨Nat.pos_of_ne_zero hne, hlt, hplace.least, hfull⟩ s

end Tracks

end Shelf
