import Shelf.Mean
import Shelf.Proofs.Decimal.HalfAway

/-!
What a mean is, beside the exact one.

Every sum, the quotient and its product with ten are rounded, and a number that is rounded moves by
`2^-53` of a bound on its size at most. So ten times the mean is close to what it is in exact
arithmetic, and a tenth of the integer next to it is the mean. The mean of `n` numbers of at most
`2^p` is no farther from the exact one than a twentieth and `n + 3` times `2^p / 2^53`.

    5, 4, 4      4.3, of 13 / 3
    5, 4.9       5.0, of 99 / 20, a half going up
    4, 4, 4      4.0
-/

namespace Shelf

namespace StoredMean

/-- The exact values of some numbers, of at most `2^p` each. -/
def Values (p : Nat) (ys : List Float) (qs : List ℚ) : Prop :=
  List.Forall₂ (fun y q => floatValue? y = some q ∧ |q| ≤ 2 ^ p) ys qs

/-- The exact mean, zero for an empty list. -/
def average (qs : List ℚ) : ℚ := qs.sum / qs.length

variable {ys : List Float} {qs : List ℚ} {p : Nat}

theorem exists_values {P : ℚ → Prop}
    (h : ∀ y ∈ ys, ∃ q, floatValue? y = some q ∧ |q| ≤ 2 ^ p ∧ P q) :
    ∃ qs, Values p ys qs ∧ ∀ q ∈ qs, P q := by
  induction ys with
  | nil => exact ⟨[], .nil, nofun⟩
  | cons y ys ih =>
    obtain ⟨⟨q, hq, hsize, hP⟩, hys⟩ := List.forall_mem_cons.1 h
    obtain ⟨qs, hqs, hall⟩ := ih hys
    exact ⟨q :: qs, .cons ⟨hq, hsize⟩ hqs, List.forall_mem_cons.2 ⟨hP, hall⟩⟩

/-! ### Sums, quotients and products -/

/-- Each number adds at most the bound to a sum. Rounding does not pass a multiple of the bound, and
it moves no sum by more than it could move the last one. -/
theorem sum_near (hp : p ≤ 971) (hys : Values p ys qs) {s : Float} {q : ℚ} {k : Nat}
    (hs : floatValue? s = some q) (hq : |q| ≤ k * 2 ^ p) (hk : k + ys.length < 2 ^ 53) :
    ∃ w, floatValue? (ys.foldl (· + ·) s) = some w ∧ |w| ≤ (k + ys.length : Nat) * 2 ^ p ∧
      |w - (q + qs.sum)| ≤ ys.length * ((k + ys.length : Nat) * (2 ^ p / 2 ^ 53)) := by
  induction hys generalizing s q k with
  | nil => exact ⟨q, hs, hq, by simp⟩
  | @cons y a ys qs hy _ ih =>
    rw [List.length_cons] at hk
    have hcount : k + 1 + ys.length = k + (ys.length + 1) := by omega
    have hnext : |q + a| ≤ (k + 1 : Nat) * 2 ^ p := by
      refine (abs_add_le q a).trans ?_
      rw [Nat.cast_add_one, add_one_mul]
      exact add_le_add hq hy.2
    obtain ⟨w, hw, hsize, hnear⟩ := (roundedTo_add hs hy.1).exists_near (by omega) (by omega) hp
      hnext
    obtain ⟨v, hv, hsum, hfar⟩ := ih hw hsize (by omega)
    rw [hcount] at hsum hfar
    refine ⟨v, hv, hsum, ?_⟩
    have hstep : ((k + 1 : Nat) : ℚ) * (2 ^ p / 2 ^ 53) ≤
        (k + (ys.length + 1) : Nat) * (2 ^ p / 2 ^ 53) := by
      gcongr
      omega
    calc |v - (q + (a :: qs).sum)| = |(v - (w + qs.sum)) + (w - (q + a))| := by
          rw [List.sum_cons]
          congr 1
          ring
      _ ≤ |v - (w + qs.sum)| + |w - (q + a)| := abs_add_le _ _
      _ ≤ ys.length * ((k + (ys.length + 1) : Nat) * (2 ^ p / 2 ^ 53)) +
          (k + (ys.length + 1) : Nat) * (2 ^ p / 2 ^ 53) := add_le_add hfar (hnear.trans hstep)
      _ = (y :: ys).length * ((k + (y :: ys).length : Nat) * (2 ^ p / 2 ^ 53)) := by
          rw [List.length_cons, Nat.cast_add_one ys.length, add_one_mul]

/-- The quotient by the number of summands. -/
theorem quotient_near (hp : p ≤ 971) (hys : Values p ys qs) (hlen : ys.length < 2 ^ 53)
    (hne : ys ≠ []) :
    ∃ w, floatValue? (ys.foldl (· + ·) 0.0 / Float.ofNat ys.length) = some w ∧ |w| ≤ 2 ^ p ∧
      |w - average qs| ≤ (ys.length + 1) * (2 ^ p / 2 ^ 53) := by
  have hzero : floatValue? 0.0 = some 0 := by decide +kernel
  obtain ⟨s, hs, hsum, hfar⟩ := sum_near (k := 0) hp hys hzero (by simp) (by rwa [Nat.zero_add])
  rw [Nat.zero_add] at hsum hfar
  rw [zero_add] at hfar
  have hcount : floatValue? (Float.ofNat ys.length) = some (ys.length : ℚ) :=
    floatValue?_ofInt (i := ys.length) hlen.le
  have hpos : (0 : ℚ) < ys.length := by exact_mod_cast List.length_pos_of_ne_nil hne
  have hmean : |s / ys.length| ≤ (1 : Nat) * 2 ^ p := by
    rw [abs_div, Nat.abs_cast, div_le_iff₀ hpos, Nat.cast_one, one_mul, mul_comm]
    exact hsum
  obtain ⟨w, hw, hsize, hnear⟩ := (roundedTo_div hs hcount hpos.ne').exists_near (by decide)
    (by decide) hp hmean
  rw [Nat.cast_one, one_mul] at hsize hnear
  have hexact : |s / ys.length - average qs| ≤ ys.length * (2 ^ p / 2 ^ 53) := by
    rw [average, ← hys.length_eq, ← sub_div, abs_div, Nat.abs_cast, div_le_iff₀ hpos, mul_comm]
    exact hfar
  refine ⟨w, hw, hsize, ?_⟩
  have htri := abs_sub_le w (s / ys.length) (average qs)
  linarith

/-- Ten times the mean, as it is before it is rounded to an integer. -/
theorem scaled_near (hp : p ≤ 971) (hys : Values p ys qs) (hlen : ys.length < 2 ^ 53)
    (hne : ys ≠ []) :
    ∃ w, floatValue? (ys.foldl (· + ·) 0.0 / Float.ofNat ys.length * 10.0) = some w ∧
      |w| ≤ 10 * 2 ^ p ∧ |w - 10 * average qs| ≤ 10 * (ys.length + 2) * (2 ^ p / 2 ^ 53) := by
  obtain ⟨a, ha, hsize, hfar⟩ := quotient_near hp hys hlen hne
  have hprod : |a * 10| ≤ (10 : Nat) * 2 ^ p := by
    rw [abs_mul, mul_comm]
    exact mul_le_mul_of_nonneg_left hsize (abs_nonneg 10)
  obtain ⟨w, hw, hsize, hnear⟩ := (roundedTo_mul ha floatValue?_ten).exists_near (by decide)
    (by decide) hp hprod
  refine ⟨w, hw, hsize, ?_⟩
  have hten : |a * 10 - 10 * average qs| = 10 * |a - average qs| := by
    rw [mul_comm a, ← mul_sub, abs_mul]
    rfl
  have htri := abs_sub_le w (a * 10) (10 * average qs)
  push_cast at hnear
  linarith

/-! ### Rounding to tenths -/

/-- The mean is a tenth of an integer, and that integer is next to ten times the exact mean. -/
theorem meanOf_near (hp : p ≤ 971) (hys : Values p ys qs) (hlen : ys.length < 2 ^ 53) :
    ∃ w, RoundedTo (halfAway w / 10) (meanOf ys) ∧ |w| ≤ 10 * 2 ^ p ∧
      |w - 10 * average qs| ≤ 10 * (ys.length + 2) * (2 ^ p / 2 ^ 53) := by
  cases ys with
  | nil =>
    cases hys
    have hzero : floatValue? (meanOf []) = some (halfAway 0 / 10 : ℚ) := by decide +kernel
    refine ⟨0, roundedTo_value hzero, by rw [abs_zero]; positivity, ?_⟩
    rw [average, List.sum_nil, zero_div, mul_zero, sub_zero, abs_zero]
    positivity
  | cons y ys =>
    obtain ⟨w, hw, hsize, hfar⟩ := scaled_near hp hys hlen (List.cons_ne_nil y ys)
    exact ⟨w, roundedTo_roundToTenths hw, hsize, hfar⟩

/-- A tenth that the exact mean is clearly next to is the mean. -/
theorem meanOf_of_near_tenth (hp : p ≤ 971) (hys : Values p ys qs) (hlen : ys.length < 2 ^ 53)
    {t : Int} (ht : |10 * average qs - t| + 10 * (ys.length + 2) * (2 ^ p / 2 ^ 53) < 1 / 2) :
    RoundedTo (t / 10) (meanOf ys) := by
  obtain ⟨w, hmean, -, hfar⟩ := meanOf_near hp hys hlen
  have hnear : |w - t| < 1 / 2 := by
    have htri := abs_sub_le w (10 * average qs) t
    linarith
  rwa [halfAway_eq hnear] at hmean

/-- Rounding to tenths moves the mean by a twentieth, and every other rounding by little. -/
theorem abs_meanOf_sub_le (hp : p ≤ 971) (hys : Values p ys qs) (hlen : ys.length < 2 ^ 53) :
    ∃ v, floatValue? (meanOf ys) = some v ∧
      |v - average qs| ≤ 1 / 20 + (ys.length + 3) * (2 ^ p / 2 ^ 53) := by
  obtain ⟨w, hmean, hsize, hfar⟩ := meanOf_near hp hys hlen
  rw [abs_le] at hsize hfar
  have hlow : -(10 * 2 ^ p) ≤ halfAway w := le_halfAway (by
    push_cast
    linarith)
  have hhigh : halfAway w ≤ 10 * 2 ^ p := halfAway_le (by
    push_cast
    linarith)
  have htenth : |(halfAway w / 10 : ℚ)| ≤ (1 : Nat) * 2 ^ p := by
    rw [abs_div, div_le_iff₀ (by norm_num), abs_of_pos (by norm_num : (0 : ℚ) < 10), Nat.cast_one,
      one_mul, mul_comm]
    exact_mod_cast abs_le.2 ⟨hlow, hhigh⟩
  obtain ⟨v, hv, -, hnear⟩ := hmean.exists_near (by decide) (by decide) hp htenth
  rw [Nat.cast_one, one_mul, abs_le] at hnear
  have hhalf := abs_le.1 (abs_halfAway_sub_le w)
  refine ⟨v, hv, abs_le.2 ⟨?_, ?_⟩⟩ <;> linarith

/-! ### The mean between its numbers -/

theorem average_le {b : ℚ} (hne : qs ≠ []) (h : ∀ q ∈ qs, q ≤ b) : average qs ≤ b := by
  have hpos : (0 : ℚ) < qs.length := by exact_mod_cast List.length_pos_of_ne_nil hne
  have hsum := List.sum_le_card_nsmul qs b h
  rwa [average, div_le_iff₀ hpos, mul_comm, ← nsmul_eq_mul]

theorem le_average {b : ℚ} (hne : qs ≠ []) (h : ∀ q ∈ qs, b ≤ q) : b ≤ average qs := by
  have hpos : (0 : ℚ) < qs.length := by exact_mod_cast List.length_pos_of_ne_nil hne
  have hsum := List.card_nsmul_le_sum qs b h
  rwa [average, le_div_iff₀ hpos, mul_comm, ← nsmul_eq_mul]

theorem Values.ne_nil (hys : Values p ys qs) (hne : ys ≠ []) : qs ≠ [] := by
  rintro rfl
  cases hys
  exact hne rfl

/-- Few enough numbers of that size for the roundings to come to less than a half. -/
theorem error_lt_half {n : Nat} (hn : 20 * n * 2 ^ p < 2 ^ 53) :
    (10 : ℚ) * n * (2 ^ p / 2 ^ 53) < 1 / 2 := by
  have hlt : (20 : ℚ) * n * 2 ^ p < 2 ^ 53 := by exact_mod_cast hn
  rw [← mul_div_assoc, div_lt_iff₀ (by positivity)]
  linarith

theorem bounds_of_few {n : Nat} (hpos : 0 < n) (hn : 20 * n * 2 ^ p < 2 ^ 53) :
    n < 2 ^ 53 ∧ 2 ^ p < 2 ^ 53 ∧ p ≤ 971 := by
  have hcount : n ≤ 20 * n * 2 ^ p := (Nat.le_mul_of_pos_left n (by decide)).trans
    (Nat.le_mul_of_pos_right (20 * n) (Nat.two_pow_pos p))
  have hsize : 2 ^ p ≤ 20 * n * 2 ^ p := Nat.le_mul_of_pos_left (2 ^ p) (by omega)
  have hp : p < 53 := (Nat.pow_lt_pow_iff_right (by decide)).1 (hsize.trans_lt hn)
  exact ⟨by omega, by omega, by omega⟩

/-- Integers that bound all numbers bound the mean. -/
theorem meanOf_between {lo hi : Int} (hlo : lo.natAbs ≤ 2 ^ p) (hhi : hi.natAbs ≤ 2 ^ p)
    (hys : ∀ y ∈ ys, ∃ q, floatValue? y = some q ∧ lo ≤ q ∧ q ≤ hi) (hne : ys ≠ [])
    (hlen : 20 * (ys.length + 2) * 2 ^ p < 2 ^ 53) :
    ∃ v, floatValue? (meanOf ys) = some v ∧ lo ≤ v ∧ v ≤ hi := by
  obtain ⟨hcount, hsize, hp⟩ := bounds_of_few (Nat.succ_pos _) hlen
  have hleast : (-2 ^ p : ℚ) ≤ lo := by exact_mod_cast (by omega : -(2 ^ p : Nat) ≤ lo)
  have hmost : (hi : ℚ) ≤ 2 ^ p := by exact_mod_cast (by omega : hi ≤ (2 ^ p : Nat))
  obtain ⟨qs, hqs, hall⟩ : ∃ qs, Values p ys qs ∧ ∀ q ∈ qs, lo ≤ q ∧ q ≤ hi :=
    exists_values fun y hy => by
      obtain ⟨q, hq, hlow, hhigh⟩ := hys y hy
      exact ⟨q, hq, abs_le.2 ⟨hleast.trans hlow, hhigh.trans hmost⟩, hlow, hhigh⟩
  obtain ⟨w, hmean, -, hfar⟩ := meanOf_near hp hqs (by omega)
  have hlow := le_average (hqs.ne_nil hne) fun q hq => (hall q hq).1
  have hhigh := average_le (hqs.ne_nil hne) fun q hq => (hall q hq).2
  have herror := error_lt_half hlen
  push_cast at herror
  rw [abs_le] at hfar
  have hlow : 10 * lo ≤ halfAway w := le_halfAway (by
    push_cast
    linarith)
  have hhigh : halfAway w ≤ 10 * hi := halfAway_le (by
    push_cast
    linarith)
  refine hmean.between (by omega) (by omega) ?_ ?_
  · rw [le_div_iff₀ (by norm_num), mul_comm]
    exact_mod_cast hlow
  · rw [div_le_iff₀ (by norm_num), mul_comm]
    exact_mod_cast hhigh

/-- Numbers that are all one number of tenths have it as their mean. -/
theorem meanOf_of_tenths {t : Int} (ht : t.natAbs ≤ 10 * 2 ^ p)
    (hys : ∀ y ∈ ys, RoundedTo (t / 10) y) (hne : ys ≠ [])
    (hlen : 20 * (ys.length + 3) * 2 ^ p < 2 ^ 53) : RoundedTo (t / 10) (meanOf ys) := by
  obtain ⟨hcount, -, hp⟩ := bounds_of_few (Nat.succ_pos _) hlen
  have hsize : |(t / 10 : ℚ)| ≤ (1 : Nat) * 2 ^ p := by
    rw [abs_div, div_le_iff₀ (by norm_num), abs_of_pos (by norm_num : (0 : ℚ) < 10), Nat.cast_one,
      one_mul, mul_comm, ← Int.cast_abs, ← Nat.cast_natAbs]
    exact_mod_cast ht
  obtain ⟨qs, hqs, hall⟩ : ∃ qs, Values p ys qs ∧ ∀ q ∈ qs, |q - t / 10| ≤ 2 ^ p / 2 ^ 53 :=
    exists_values fun y hy => by
      have hnear := (hys y hy).exists_near (by decide) (by decide) hp hsize
      simpa only [Nat.cast_one, one_mul] using hnear
  have hlow := le_average (hqs.ne_nil hne) fun q hq => sub_le_of_abs_sub_le_left (hall q hq)
  have hhigh := average_le (hqs.ne_nil hne) fun q hq => sub_le_iff_le_add.1 (abs_le.1 (hall q hq)).2
  have herror := error_lt_half hlen
  push_cast at herror
  refine meanOf_of_near_tenth hp hqs (by omega) ?_
  have hten : |10 * average qs - t| ≤ 10 * (2 ^ p / 2 ^ 53) := abs_le.2 ⟨by linarith, by linarith⟩
  linarith

/-- Equal numbers that are no binary fractions. -/
example : (meanOf [4.4, 4.4, 4.4] == 4.4) = true := by decide +kernel

end StoredMean

end Shelf
