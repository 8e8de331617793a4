import Shelf.Proofs.Decimal.Nearest

/-!
Arithmetic on floating-point numbers.

A sum, a product and a quotient are the exact ones, rounded. So are an integer that is converted to
a floating-point number and a decimal that is read as one. What is too large becomes the infinity of
its sign. So bounds on exact results are bounds on the floating-point ones, and an exact result that
is a floating-point number is the result.

    9007199254740992 = 2^52 · 2^1       converted exactly
    9007199254740993 = 2^53 + 1         converted to 2^52 · 2^1
-/

namespace Shelf

open Float.Model (UnpackedFloat Format totalExponent)
open Float.Model.UnpackedFloat (decreaseExponent divCore roundWithAccuracy)

/-! ### Operations on unpacked numbers -/

section Operations

variable {s s' : UnpackedFloat.Sign} {m n : Nat} {e f : Int}

theorem log2_shiftLeft {m : Nat} (hm : 0 < m) (n : Nat) : (m <<< n).log2 = m.log2 + n := by
  rw [Nat.shiftLeft_eq, Nat.log2_eq_iff (by positivity)]
  have hlow := Nat.log2_self_le hm.ne'
  have hhigh := Nat.lt_log2_self (n := m)
  constructor
  · rw [pow_add]
    exact Nat.mul_le_mul_right _ hlow
  · rw [Nat.add_right_comm, pow_add]
    exact Nat.mul_lt_mul_of_pos_right hhigh (by positivity)

theorem lands_roundWithAccuracy (he : e ≤ Format.binary64.targetExponent (totalExponent m e)) :
    Lands s (m * 2 ^ e) (repacked (roundWithAccuracy .binary64 s m e .exact)) :=
  (Tracks.exact m).lands he s

theorem lands_round (hm : 0 < m) :
    Lands s (m * 2 ^ e) (repacked (UnpackedFloat.round .binary64 s m e)) := by
  have hvalue : ∀ k : Nat, (m : ℚ) * 2 ^ e = (m <<< k : Nat) * 2 ^ (e - k) := by
    intro k
    rw [Nat.shiftLeft_eq]
    push_cast
    rw [mul_assoc, two_pow_mul_two_zpow, add_sub_cancel]
  rw [UnpackedFloat.round, decreaseExponent, hvalue]
  refine lands_roundWithAccuracy ?_
  rw [targetExponent_eq_max, targetExponent_eq_max, totalExponent, totalExponent,
    log2_shiftLeft hm]
  omega

theorem lands_mul {hm : 0 < m} {hn : 0 < n} (h : 2 ^ 52 ≤ m * n ∨ e + f ≤ -1074) :
    Lands (s * s') (m * 2 ^ e * (n * 2 ^ f))
      (repacked (UnpackedFloat.mul .binary64 (.finite s m e hm) (.finite s' n f hn))) := by
  have hvalue : (m : ℚ) * 2 ^ e * (n * 2 ^ f) = (m * n : Nat) * 2 ^ (e + f) := by
    rw [zpow_add₀ two_ne_zero]
    push_cast
    ring
  rw [UnpackedFloat.mul, hvalue]
  refine lands_roundWithAccuracy ?_
  rw [targetExponent_eq_max, totalExponent]
  rcases h with hbits | hleast
  · have hlog : 52 ≤ (m * n).log2 := (Nat.le_log2 (Nat.mul_pos hm hn).ne').2 hbits
    omega
  · omega

/-- A quotient has at most one bit less than the numerator has more than the denominator. -/
theorem log2_le_of_le (hn : 0 < n) (hle : n ≤ m) : m.log2 ≤ n.log2 + (m / n).log2 + 1 := by
  have hpos : 0 < m / n := Nat.div_pos hle hn
  have hlt : m < 2 ^ (n.log2 + (m / n).log2 + 2) := by
    calc m < n * (m / n + 1) := Nat.lt_mul_div_succ m hn
      _ ≤ 2 ^ (n.log2 + 1) * 2 ^ ((m / n).log2 + 1) :=
        Nat.mul_le_mul (Nat.lt_log2_self).le Nat.lt_log2_self
      _ = 2 ^ (n.log2 + (m / n).log2 + 2) := by
        rw [← pow_add]
        congr 1
        omega
  have hlog := (Nat.log2_lt (by omega)).2 hlt
  omega

theorem lands_div {hm : 0 < m} {hn : 0 < n} :
    Lands (s / s') (m * 2 ^ e / (n * 2 ^ f))
      (repacked (UnpackedFloat.div .binary64 (.finite s m e hm) (.finite s' n f hn))) := by
  obtain ⟨t, ht⟩ : ∃ t, min (e - f) (Format.binary64.targetExponent
      (totalExponent m e - totalExponent n f)) = t := ⟨_, rfl⟩
  obtain ⟨k, hk⟩ : ∃ k, (e - f - t).toNat = k := ⟨_, rfl⟩
  have hmod : (m <<< k) % n < n := Nat.mod_lt _ hn
  have hvalue : (m : ℚ) * 2 ^ e / (n * 2 ^ f) =
      ((m <<< k / n : Nat) + ((m <<< k % n : Nat) : ℚ) / n) * 2 ^ t := by
    have hquotient : ((m <<< k / n : Nat) + ((m <<< k % n : Nat) : ℚ) / n) = m * 2 ^ k / n := by
      have hn' : (n : ℚ) ≠ 0 := by exact_mod_cast hn.ne'
      rw [eq_div_iff hn', add_mul, div_mul_cancel₀ _ hn', mul_comm]
      have hdiv := Nat.div_add_mod (m <<< k) n
      rw [Nat.shiftLeft_eq] at hdiv ⊢
      exact_mod_cast hdiv
    have hexponent : (2 : ℚ) ^ k * 2 ^ t = 2 ^ e / 2 ^ f := by
      rw [two_pow_mul_two_zpow, ← zpow_sub₀ two_ne_zero]
      congr 1
      omega
    rw [hquotient, mul_div_mul_comm, ← hexponent]
    ring
  simp only [UnpackedFloat.div, divCore, ht, hk]
  rw [hvalue]
  refine (Tracks.quotient (m <<< k / n) hmod).lands ?_ _
  have hlog := log2_shiftLeft hm k
  rw [targetExponent_eq_max, totalExponent] at ht ⊢
  rw [totalExponent] at ht
  rcases lt_or_ge (m <<< k) n with hlt | hle
  · have hsmall : (m <<< k).log2 ≤ n.log2 := by
      have hpos : m <<< k ≠ 0 := by
        rw [Nat.shiftLeft_eq]
        positivity
      exact (Nat.le_log2 hn.ne').2 ((Nat.log2_self_le hpos).trans hlt.le)
    rw [Nat.div_eq_of_lt hlt, Nat.log2_zero]
    omega
  · have hbits := log2_le_of_le hn hle
    omega

end Operations

/-! ### Operations on floating-point numbers -/

/-- The floating-point number is the one nearest to the rational, or the infinity of its sign where
that is too large. -/
def RoundedTo (q : ℚ) (x : Float) : Prop :=
  ∃ s, signedValue s |q| = q ∧ Lands s |q| (unpacked x)

section Values

variable {x y : Float} {a b : ℚ}

theorem signedValue_apply (s : UnpackedFloat.Sign) (m : Nat) (e : Int) :
    (s.apply m : ℚ) * 2 ^ e = signedValue s (m * 2 ^ e) := by
  cases s <;> simp [signedValue, UnpackedFloat.Sign.apply]

theorem abs_signedValue (s : UnpackedFloat.Sign) {v : ℚ} (h : 0 ≤ v) : |signedValue s v| = v := by
  cases s
  · rw [signedValue, abs_neg, abs_of_nonneg h]
  · rw [signedValue, abs_of_nonneg h]

/-- What is half of the least number or less is rounded to zero. -/
theorem rounds_zero_of_le {q : ℚ} (hnonneg : 0 ≤ q) (hq : q ≤ 1 / 2 * 2 ^ (-1074 : Int)) :
    Rounds q 0 := by
  have hpow := two_zpow_pos (-1074)
  have hhigh := (div_le_iff₀ hpow).2 hq
  have hlow : 0 ≤ q / 2 ^ (-1074 : Int) := by positivity
  refine ⟨-1074, 0, ⟨le_rfl, by linarith, fun h => absurd rfl h⟩, ⟨?_, ?_, fun _ => rfl⟩, ?_⟩
  · rw [Nat.cast_zero]
    linarith
  · rw [Nat.cast_zero]
    linarith
  · rw [Nat.cast_zero, zero_mul]

theorem rounds_zero : Rounds 0 0 := rounds_zero_of_le le_rfl (by positivity)

theorem roundedTo_zero {x : Float} {s : UnpackedFloat.Sign}
    (h : unpacked x = repacked (.zero s)) : RoundedTo 0 x := by
  refine ⟨s, ?_, 0, ?_, ?_⟩
  · cases s <;> simp [signedValue]
  · rw [abs_zero]
    exact rounds_zero
  · rw [h]
    exact kept_zero s s

theorem Lands.roundedTo {s : UnpackedFloat.Sign} {q : ℚ} (h : Lands s q (unpacked x))
    (hq : 0 ≤ q) : RoundedTo (signedValue s q) x :=
  ⟨s, by rw [abs_signedValue s hq], by rwa [abs_signedValue s hq]⟩

/-- Two mantissas of canonical form have a product with bits enough. -/
theorem Canonical.bits_mul {m n : Nat} {e f : Int} (h : Canonical m e) (h' : Canonical n f) :
    2 ^ 52 ≤ m * n ∨ e + f ≤ -1074 := by
  by_cases he : e = -1074
  · by_cases hf : f = -1074
    · omega
    · exact .inl ((h'.full hf).trans (Nat.le_mul_of_pos_left n h.pos))
  · exact .inl ((h.full he).trans (Nat.le_mul_of_pos_right m h'.pos))

theorem signedValue_mul (s s' : UnpackedFloat.Sign) (v w : ℚ) :
    signedValue (s * s') (v * w) = signedValue s v * signedValue s' w := by
  cases s <;> cases s'
  · exact (neg_mul_neg v w).symm
  · exact (neg_mul v w).symm
  · exact (mul_neg v w).symm
  · rfl

theorem signedValue_div (s s' : UnpackedFloat.Sign) (v w : ℚ) :
    signedValue (s / s') (v / w) = signedValue s v / signedValue s' w := by
  cases s <;> cases s'
  · exact (neg_div_neg_eq v w).symm
  · exact (neg_div w v).symm
  · exact (div_neg v).symm
  · rfl

theorem roundedTo_mul (hx : floatValue? x = some a) (hy : floatValue? y = some b) :
    RoundedTo (a * b) (x * y) := by
  have hmul : unpacked (x * y) = repacked (UnpackedFloat.mul .binary64 (unpacked x) (unpacked y)) :=
    rfl
  rcases unpacked_of_value hx with ⟨rfl, s, hx'⟩ | ⟨s, m, e, hm, hx', rfl⟩ <;>
    rcases unpacked_of_value hy with ⟨rfl, s', hy'⟩ | ⟨s', n, f, hn, hy', rfl⟩ <;>
    rw [hx', hy'] at hmul
  · rw [zero_mul]
    exact roundedTo_zero hmul
  · rw [zero_mul]
    exact roundedTo_zero hmul
  · rw [mul_zero]
    exact roundedTo_zero hmul
  · rw [signedValue_apply, signedValue_apply, ← signedValue_mul]
    refine Lands.roundedTo ?_ (by positivity)
    rw [hmul]
    exact lands_mul (hm.bits_mul hn)

theorem roundedTo_div (hx : floatValue? x = some a) (hy : floatValue? y = some b) (hb : b ≠ 0) :
    RoundedTo (a / b) (x / y) := by
  have hdiv : unpacked (x / y) = repacked (UnpackedFloat.div .binary64 (unpacked x) (unpacked y)) :=
    rfl
  rcases unpacked_of_value hy with ⟨hzero, -⟩ | ⟨s', n, f, hn, hy', rfl⟩
  · exact absurd hzero hb
  rcases unpacked_of_value hx with ⟨rfl, s, hx'⟩ | ⟨s, m, e, hm, hx', rfl⟩ <;> rw [hx', hy'] at hdiv
  · rw [zero_div]
    exact roundedTo_zero hdiv
  · rw [signedValue_apply, signedValue_apply, ← signedValue_div]
    refine Lands.roundedTo ?_ (by positivity)
    rw [hdiv]
    exact lands_div

/-- What is around a number is rounded to it. -/
theorem roundedTo_of_around {s : UnpackedFloat.Sign} {m : Nat} {e : Int} {q : ℚ}
    (h : Canonical m e) (hx : unpacked x = .finite s m e h.pos) (hq : Around m e q) :
    RoundedTo (signedValue s q) x := by
  refine Lands.roundedTo ⟨m * 2 ^ e, h.aimed.rounds hq, ?_⟩ (hq.nonneg h.pos)
  rw [hx, ← h.unpack_pack s]
  exact h.aimed.kept s

/-- A number is its own rounding. -/
theorem roundedTo_value (hx : floatValue? x = some a) : RoundedTo a x := by
  rcases unpacked_of_value hx with ⟨rfl, s, hx'⟩ | ⟨s, m, e, hm, hx', rfl⟩
  · refine roundedTo_zero (s := s) ?_
    rw [hx']
    cases s <;> rfl
  · rw [signedValue_apply]
    exact roundedTo_of_around hm hx' (.self m e)

/-- A mantissa with its sign. -/
theorem roundedTo_normalize {i : Int} {e : Int} {t : UnpackedFloat.Sign}
    (h : unpacked x = repacked (UnpackedFloat.normalize .binary64 i e t)) :
    RoundedTo (i * 2 ^ e) x := by
  rw [UnpackedFloat.normalize] at h
  rcases lt_trichotomy i 0 with hneg | rfl | hpos
  · obtain ⟨k, rfl⟩ := Int.eq_negSucc_of_lt_zero hneg
    rw [compare_lt_iff_lt.2 hneg] at h
    have hvalue : (Int.negSucc k : ℚ) * 2 ^ e = signedValue .negative ((k + 1 : Nat) * 2 ^ e) := by
      rw [signedValue, Int.cast_negSucc, neg_mul]
    rw [hvalue]
    refine Lands.roundedTo ?_ (by positivity)
    rw [h]
    exact lands_round (Nat.succ_pos k)
  · rw [compare_eq_iff_eq.2 rfl] at h
    rw [Int.cast_zero, zero_mul]
    exact roundedTo_zero h
  · obtain ⟨k, rfl⟩ := Int.eq_ofNat_of_zero_le hpos.le
    rw [compare_gt_iff_gt.2 hpos] at h
    refine Lands.roundedTo (s := .positive) ?_ (by positivity)
    rw [h]
    exact lands_round (by exact_mod_cast hpos)

/-- A mantissa moved up to a smaller exponent. -/
theorem signed_shifted (s : UnpackedFloat.Sign) (m : Nat) {e t : Int} (ht : t ≤ e) :
    (s.apply (m <<< (e - t).toNat : Nat) : ℚ) * 2 ^ t = s.apply m * 2 ^ e := by
  have hpow : (2 : ℚ) ^ e = 2 ^ (e - t).toNat * 2 ^ t := by
    rw [two_pow_mul_two_zpow]
    congr 1
    omega
  rw [Nat.shiftLeft_eq, hpow]
  cases s <;> simp only [UnpackedFloat.Sign.apply] <;> push_cast <;> ring

theorem roundedTo_of_unpacked (h : unpacked x = unpacked y) (hy : floatValue? y = some b) :
    RoundedTo b x := by
  refine roundedTo_value ?_
  rw [floatValue?, h]
  exact hy

theorem roundedTo_add (hx : floatValue? x = some a) (hy : floatValue? y = some b) :
    RoundedTo (a + b) (x + y) := by
  have hadd : unpacked (x + y) = repacked (UnpackedFloat.add .binary64 (unpacked x) (unpacked y)) :=
    rfl
  rcases unpacked_of_value hx with ⟨rfl, s, hx'⟩ | ⟨s, m, e, hm, hx', ha⟩ <;>
    rcases unpacked_of_value hy with ⟨rfl, s', hy'⟩ | ⟨s', n, f, hn, hy', hb⟩ <;>
    rw [hx', hy'] at hadd
  · rw [zero_add]
    cases s <;> cases s' <;> exact roundedTo_zero hadd
  · rw [zero_add]
    exact roundedTo_of_unpacked (hadd.trans ((hn.unpack_pack s').trans hy'.symm)) hy
  · rw [add_zero]
    exact roundedTo_of_unpacked (hadd.trans ((hm.unpack_pack s).trans hx'.symm)) hx
  · have hvalue := roundedTo_normalize hadd
    rw [Int.cast_add, add_mul, signed_shifted s m (min_le_left e f),
      signed_shifted s' n (min_le_right e f), ← ha, ← hb] at hvalue
    exact hvalue

theorem unpacked_neg (x : Float) : unpacked (-x) = (unpacked x).neg := by
  have hneg : unpacked (-x) = repacked (unpacked x).neg := rfl
  rw [hneg]
  cases hx : unpacked x with
  | notANumber => rfl
  | infinity s => cases s <;> rfl
  | zero s => cases s <;> rfl
  | finite s m e hm => exact (canonical_of_unpacked hx).unpack_pack (-s)

theorem unpackedValue?_neg {u : UnpackedFloat} {q : ℚ} (h : unpackedValue? u = some q) :
    unpackedValue? u.neg = some (-q) := by
  cases u with
  | notANumber => cases h
  | infinity s => cases h
  | zero s =>
    obtain rfl := Option.some.inj h
    rw [UnpackedFloat.neg, neg_zero]
    rfl
  | finite s m e hm =>
    obtain rfl := Option.some.inj h
    rw [UnpackedFloat.neg, unpackedValue?]
    cases s
    · change some (((m : Int) : ℚ) * 2 ^ e) = some (-(((-(m : Int) : Int) : ℚ) * 2 ^ e))
      rw [Int.cast_neg, neg_mul, neg_neg]
    · change some (((-(m : Int) : Int) : ℚ) * 2 ^ e) = some (-(((m : Int) : ℚ) * 2 ^ e))
      rw [Int.cast_neg, neg_mul]

theorem floatValue?_neg (h : floatValue? x = some a) : floatValue? (-x) = some (-a) := by
  rw [floatValue?, unpacked_neg]
  exact unpackedValue?_neg h

/-- A difference is the sum with the number of the other sign. -/
theorem unpacked_sub_eq_add_neg (u v : UnpackedFloat) :
    UnpackedFloat.sub .binary64 u v = UnpackedFloat.add .binary64 u v.neg := by
  have happly : ∀ (t : UnpackedFloat.Sign) (k : Int), (-t).apply k = -t.apply k := by
    intro t k
    cases t
    · exact (neg_neg k).symm
    · rfl
  cases u <;> cases v <;> first
    | rfl
    | simp only [UnpackedFloat.sub, UnpackedFloat.add, UnpackedFloat.neg, happly,
        Int.sub_eq_add_neg]

theorem roundedTo_sub (hx : floatValue? x = some a) (hy : floatValue? y = some b) :
    RoundedTo (a - b) (x - y) := by
  have hsub : unpacked (x - y) = unpacked (x + -y) := by
    change repacked (UnpackedFloat.sub .binary64 (unpacked x) (unpacked y)) =
      repacked (UnpackedFloat.add .binary64 (unpacked x) (unpacked (-y)))
    rw [unpacked_neg, unpacked_sub_eq_add_neg]
  have hadd := roundedTo_add hx (floatValue?_neg hy)
  rw [← sub_eq_add_neg, RoundedTo, ← hsub] at hadd
  exact hadd

theorem roundedTo_neg {q : ℚ} (h : RoundedTo q x) : RoundedTo (-q) (-x) := by
  obtain ⟨s, hs, v, hv, hkept⟩ := h
  have hsign : ∀ w, signedValue (-s) w = -signedValue s w := by
    intro w
    cases s
    · exact (neg_neg w).symm
    · rfl
  refine ⟨-s, by rw [abs_neg, hsign, hs], v, by rwa [abs_neg], ?_⟩
  rw [unpacked_neg]
  refine ⟨fun hfin => ?_, fun hlarge => ?_⟩
  · rw [hsign]
    exact unpackedValue?_neg (hkept.finite hfin)
  · rw [hkept.infinite hlarge]
    rfl

namespace RoundedTo

variable {q v : ℚ} {k : Nat} {p : Int}

theorem sign_unique {s s' : UnpackedFloat.Sign} (hs : signedValue s |q| = q)
    (hs' : signedValue s' |q| = q) (hq : q ≠ 0) : s = s' := by
  have hpos := abs_pos.2 hq
  cases s <;> cases s' <;> simp only [signedValue] at hs hs' <;> first | rfl | linarith

/-- A rational is rounded to one number, but for the sign of a zero. -/
theorem beq (hx : RoundedTo q x) (hy : RoundedTo q y) : (x == y) = true := by
  obtain ⟨s, hs, v, hv, hx⟩ := hx
  obtain ⟨s', hs', v', hv', hy⟩ := hy
  obtain rfl := hv.unique hv'
  by_cases hq : q = 0
  · rw [hq, abs_zero] at hv
    obtain rfl := hv.unique rounds_zero
    have hzero : ∀ t, signedValue t 0 = 0 := by
      intro t
      cases t
      · exact neg_zero
      · rfl
    have hx := hx.finite (two_zpow_pos 1024)
    have hy := hy.finite (two_zpow_pos 1024)
    rw [hzero] at hx hy
    exact float_beq_of_value hx hy
  · obtain rfl := sign_unique hs hs' hq
    rcases lt_or_ge v floatBound with hfin | hlarge
    · exact float_beq_of_value (hx.finite hfin) (hy.finite hfin)
    · rw [float_beq_iff, hx.infinite hlarge, hy.infinite hlarge]
      cases s <;> rfl

/-- A bound of 53 bits is kept. -/
theorem le_of_le (h : RoundedTo q x) (hk : k < 2 ^ 53) (hp : -1074 ≤ p) (hq : |q| ≤ k * 2 ^ p)
    (hfin : (k : ℚ) * 2 ^ p < floatBound) :
    ∃ w, floatValue? x = some w ∧ |w| ≤ k * 2 ^ p := by
  obtain ⟨s, -, v, hv, hkept⟩ := h
  have hle := hv.le_of_le hk hp hq
  refine ⟨signedValue s v, hkept.finite (hle.trans_lt hfin), ?_⟩
  rwa [abs_signedValue s hv.nonneg]

/-- A number of 53 bits is what it is. -/
theorem value_of_bits (h : RoundedTo q x) (hq : |q| = k * 2 ^ p) (hk : k < 2 ^ 53)
    (hp : -1074 ≤ p) (hfin : (k : ℚ) * 2 ^ p < floatBound) : floatValue? x = some q := by
  obtain ⟨s, hs, v, hv, hkept⟩ := h
  rw [hq] at hs hv
  obtain rfl := hv.eq_of_bits hk hp
  rw [floatValue?, hkept.finite hfin, hs]

/-- Rounding moves a number by little, beside a bound on its size. -/
theorem near (h : RoundedTo q x) (hv : floatValue? x = some v) (hq : |q| ≤ b)
    (hb : (2 : ℚ) ^ (-1022 : Int) ≤ b) : |v - q| ≤ b / 2 ^ 53 := by
  obtain ⟨s, hs, w, hw, hkept⟩ := h
  have hnear := hw.abs_sub_le hq hb
  have hfin : w < floatBound := by
    by_contra hlarge
    rw [floatValue?, hkept.infinite (not_lt.1 hlarge)] at hv
    cases hv
  rw [floatValue?, hkept.finite hfin] at hv
  cases hv
  rw [← hs]
  cases s with
  | positive =>
    rw [signedValue, signedValue]
    exact hnear
  | negative =>
    rw [signedValue, signedValue, neg_sub_neg, abs_sub_comm]
    exact hnear

/-- What is at most a number of 53 bits keeps that bound, and moves by little beside it. -/
theorem exists_near {n : Nat} (h : RoundedTo q x) (hpos : 0 < k) (hk : k < 2 ^ 53)
    (hn : n ≤ 971) (hq : |q| ≤ k * 2 ^ n) :
    ∃ w, floatValue? x = some w ∧ |w| ≤ k * 2 ^ n ∧ |w - q| ≤ k * (2 ^ n / 2 ^ 53) := by
  have hone : (1 : ℚ) ≤ k := by exact_mod_cast hpos
  have hleast : (2 : ℚ) ^ (-1022 : Int) ≤ k * 2 ^ n :=
    (zpow_le_one_of_nonpos₀ one_le_two (by decide)).trans
      (one_le_mul_of_one_le_of_one_le hone (one_le_pow₀ one_le_two))
  obtain ⟨w, hw, hle⟩ := h.le_of_le (p := n) hk (by omega) (by rwa [zpow_natCast])
    (lt_floatBound_of_bits hk (by omega))
  rw [zpow_natCast] at hle
  exact ⟨w, hw, hle, (h.near hw hq hleast).trans_eq (mul_div_assoc _ _ _)⟩

/-- Bounds that are integers of 53 bits are kept. -/
theorem between {k l : Int} (h : RoundedTo q x) (hk : k.natAbs < 2 ^ 53) (hl : l.natAbs < 2 ^ 53)
    (hlow : k ≤ q) (hhigh : q ≤ l) : ∃ v, floatValue? x = some v ∧ k ≤ v ∧ v ≤ l := by
  obtain ⟨s, hs, v, hv, hkept⟩ := h
  have hnonneg := abs_nonneg q
  cases s with
  | positive =>
    rw [signedValue] at hs
    have hle : v ≤ l := hv.le_int hnonneg hl (hs.trans_le hhigh)
    have hfin : v < floatBound := hle.trans_lt (int_lt_floatBound hl)
    exact ⟨v, hkept.finite hfin, hv.int_le hk (hlow.trans_eq hs.symm), hle⟩
  | negative =>
    rw [signedValue] at hs
    have hle : v ≤ (-k : Int) := by
      refine hv.le_int hnonneg (by omega) ?_
      push_cast
      linarith
    have hge : (-l : Int) ≤ v := by
      refine hv.int_le (by omega) ?_
      push_cast
      linarith
    have hfin : v < floatBound := hle.trans_lt (int_lt_floatBound (by omega))
    push_cast at hle hge
    exact ⟨-v, hkept.finite hfin, by linarith, by linarith⟩

end RoundedTo

/-! ### Integers -/

theorem roundedTo_toFloat (n : UInt64) : RoundedTo n.toNat n.toFloat := by
  have h : unpacked n.toFloat =
    repacked (UnpackedFloat.normalize .binary64 n.toNat 0 .positive) := rfl
  have hvalue := roundedTo_normalize h
  rw [zpow_zero, mul_one] at hvalue
  exact_mod_cast hvalue

/-- Small integers are floating-point numbers. -/
theorem floatValue?_toFloat {n : Nat} (h : n < 2 ^ 53) :
    floatValue? n.toUInt64.toFloat = some (n : ℚ) := by
  have hn : n.toUInt64.toNat = n := UInt64.toNat_ofNat_of_lt' (h.trans (by decide))
  have hvalue := roundedTo_toFloat n.toUInt64
  rw [hn] at hvalue
  exact hvalue.value_of_bits (by rw [zpow_zero, mul_one, Nat.abs_cast]) h (by decide)
    (lt_floatBound_of_bits h (by decide))

/-! ### Decimals -/

/-- The powers of ten in the table. -/
theorem floatValue?_power {e : Nat} (h : e < Float.exactlyRepresentablePowersOfTen.size) :
    floatValue? Float.exactlyRepresentablePowersOfTen[e] = some (10 ^ e) := by
  have hall : ∀ i : Fin 23, floatValue? Float.exactlyRepresentablePowersOfTen[i] =
      some (10 ^ i.val) := by decide +kernel
  exact hall ⟨e, h⟩

theorem two_zpow_le_ten_zpow {n : Nat} {e : Int} (h : n ≤ e) : (2 : ℚ) ^ (n : Int) ≤ 10 ^ e := by
  rw [zpow_natCast]
  refine (pow_le_pow_left₀ (by norm_num) (by norm_num : (2 : ℚ) ≤ 10) n).trans ?_
  rw [← zpow_natCast]
  exact zpow_le_zpow_right₀ (by norm_num) h

/-- A power of ten that is too large to be computed makes a number too large. -/
theorem floatBound_le_decimal {m : Nat} (hm : 0 < m) {e : Int} (he : 1024 ≤ e) :
    floatBound ≤ m * (10 : ℚ) ^ e := by
  have hone : (1 : ℚ) ≤ m := by exact_mod_cast hm
  calc floatBound ≤ 1 * 10 ^ e := by
        rw [one_mul, floatBound]
        exact two_zpow_le_ten_zpow (n := 1024) he
    _ ≤ m * 10 ^ e := mul_le_mul_of_nonneg_right hone (zpow_nonneg (by norm_num) e)

/-- A power of ten that is too small to be computed makes a number too small. -/
theorem decimal_le_halfLeast {m : Nat} {e : Int} (he : e ≤ -(1076 + m.log2 : Int)) :
    (m : ℚ) * 10 ^ e ≤ 1 / 2 * 2 ^ (-1074 : Int) := by
  have hbits : (m : ℚ) ≤ 2 ^ (m.log2 + 1) := by exact_mod_cast (Nat.lt_log2_self (n := m)).le
  have hpow : (10 : ℚ) ^ e ≤ 2 ^ (-(1076 + m.log2 : Nat) : Int) := by
    rw [zpow_neg, ← neg_neg e, zpow_neg]
    exact inv_anti₀ (two_zpow_pos _) (two_zpow_le_ten_zpow (by push_cast; omega))
  calc (m : ℚ) * 10 ^ e
      ≤ 2 ^ (m.log2 + 1) * 2 ^ (-(1076 + m.log2 : Nat) : Int) :=
        mul_le_mul hbits hpow (zpow_nonneg (by norm_num) e) (by positivity)
    _ = 2 ^ (-1075 : Int) := by
        rw [two_pow_mul_two_zpow]
        congr 1
        push_cast
        ring
    _ = 1 / 2 * 2 ^ (-1074 : Int) := by
        rw [one_div, ← zpow_neg_one, ← zpow_add₀ two_ne_zero]
        rfl

/-- Every positive number is rounded to something: it is a quotient of integers. -/
theorem exists_rounds {q : ℚ} (hq : 0 < q) : ∃ v, Rounds q v := by
  have hnum : 0 < q.num.toNat := by
    have := Rat.num_pos.2 hq
    omega
  have hvalue : (q.num.toNat : ℚ) * 2 ^ (0 : Int) / (q.den * 2 ^ (0 : Int)) = q := by
    have hcast : ((q.num.toNat : Int) : ℚ) = q.num := by
      rw [Int.toNat_of_nonneg (Rat.num_pos.2 hq).le]
    rw [zpow_zero, mul_one, mul_one, ← Int.cast_natCast, hcast, Rat.num_div_den]
  obtain ⟨v, hv, -⟩ := @lands_div .positive .positive q.num.toNat q.den 0 0 hnum q.den_pos
  exact ⟨v, hvalue ▸ hv⟩

theorem lands_infinity {q : ℚ} (hq : floatBound ≤ q) (s : UnpackedFloat.Sign) :
    Lands s q (repacked (.infinity s)) := by
  obtain ⟨v, hv⟩ := exists_rounds ((two_zpow_pos 1024).trans_le hq)
  have hone : ((1 : Nat) : ℚ) * 2 ^ (1024 : Int) = floatBound := by
    rw [Nat.cast_one, one_mul, floatBound]
  have hlarge := hv.ge_of_ge (by decide) (by decide) (hone.trans_le hq)
  rw [hone] at hlarge
  refine ⟨v, hv, fun hfin => absurd hfin (not_lt.2 hlarge), fun _ => ?_⟩
  cases s <;> rfl

theorem lands_zero {q : ℚ} (hnonneg : 0 ≤ q) (hq : q ≤ 1 / 2 * 2 ^ (-1074 : Int))
    (s : UnpackedFloat.Sign) : Lands s q (repacked (.zero s)) :=
  ⟨0, rounds_zero_of_le hnonneg hq, kept_zero s s⟩

/-- A decimal, with a bound on the power of ten that is computed. -/
theorem lands_ofScientific (m : Nat) (e : Int) :
    Lands .positive (m * (10 : ℚ) ^ e) (repacked (UnpackedFloat.ofScientific .binary64 m e)) := by
  have hbits : (2 : Int) ^ Format.binary64.exponentBits = 2048 := rfl
  rw [UnpackedFloat.ofScientific]
  split
  · next hzero =>
    rw [hzero, Nat.cast_zero, zero_mul]
    exact ⟨0, rounds_zero, kept_zero _ _⟩
  next hm =>
  split
  · next hlarge =>
    exact lands_infinity (floatBound_le_decimal (Nat.pos_of_ne_zero hm) (by omega)) _
  split
  · next hsmall =>
    exact lands_zero (by positivity) (decimal_le_halfLeast (by omega)) _
  split
  · next hnonneg =>
    have hvalue : (m : ℚ) * (10 : ℚ) ^ e =
        (m <<< 53 : Nat) * 2 ^ (-53 : Int) * ((10 ^ e.toNat : Nat) * 2 ^ (0 : Int)) := by
      rw [Nat.shiftLeft_eq, zpow_of_nonneg 10 hnonneg, Nat.cast_mul, Nat.cast_pow, Nat.cast_pow, zpow_zero, mul_one,
        mul_assoc (m : ℚ), Nat.cast_ofNat, two_pow_mul_two_zpow]
      simp
    have hlarge : 2 ^ 52 ≤ m <<< 53 * 10 ^ e.toNat := by
      rw [Nat.shiftLeft_eq]
      calc 2 ^ 52 ≤ 1 * 2 ^ 53 := by decide
        _ ≤ m * 2 ^ 53 := Nat.mul_le_mul_right _ (Nat.pos_of_ne_zero hm)
        _ ≤ m * 2 ^ 53 * 10 ^ e.toNat := Nat.le_mul_of_pos_right _ (Nat.pow_pos (by decide))
    rw [hvalue]
    change Lands (UnpackedFloat.Sign.positive * UnpackedFloat.Sign.positive) _ _
    exact lands_mul (.inl hlarge)
  · next hneg =>
    have hvalue : (m : ℚ) * (10 : ℚ) ^ e =
        m * 2 ^ (0 : Int) / ((10 ^ (-e).toNat : Nat) * 2 ^ (0 : Int)) := by
      rw [zpow_of_nonpos 10 (by omega), zpow_zero, mul_one, mul_one, Nat.cast_pow, div_eq_mul_inv]
      rfl
    rw [hvalue]
    change Lands (UnpackedFloat.Sign.positive / UnpackedFloat.Sign.positive) _ _
    exact lands_div

/-- A decimal is read as the number nearest to it. -/
theorem roundedTo_ofScientific (m : Nat) (negative : Bool) (e : Nat) :
    RoundedTo (m * (10 : ℚ) ^ (if negative then -(e : Int) else e))
      (Float.ofScientific m negative e) := by
  rw [Float.ofScientific]
  by_cases hfast : m < 2 ^ 53 ∧ e ≤ 22
  · have hm := floatValue?_toFloat hfast.1
    have hpower := floatValue?_power (e := e)
      (by simp [Float.exactlyRepresentablePowersOfTen]; omega)
    rw [dif_pos hfast]
    cases negative with
    | true =>
      simp only [if_true, zpow_neg, zpow_natCast, ← div_eq_mul_inv]
      exact roundedTo_div hm hpower (by positivity)
    | false =>
      simp only [Bool.false_eq_true, if_false, zpow_natCast]
      exact roundedTo_mul hm hpower
  · have hexponent : (if negative then Int.negOfNat e else Int.ofNat e) =
        if negative then -(e : Int) else e := by
      rw [Int.negOfNat_eq]
      rfl
    rw [dif_neg hfast]
    simp only [hexponent]
    exact Lands.roundedTo (s := .positive) (lands_ofScientific m _) (by positivity)

theorem roundedTo_ofInt (i : Int) : RoundedTo i (Float.ofInt i) := by
  have hnat : ∀ n : Nat, RoundedTo n (Float.ofNat n) := by
    intro n
    have hvalue := roundedTo_ofScientific n false 0
    simp only [Bool.false_eq_true, if_false, Nat.cast_zero, zpow_zero, mul_one] at hvalue
    exact hvalue
  cases i with
  | ofNat n => exact hnat n
  | negSucc n =>
    rw [Int.cast_negSucc]
    exact roundedTo_neg (hnat (n + 1))

/-- An integer that is the value of a number is equal to it as a number. -/
theorem ofInt_beq_of_value {i : Int} (h : floatValue? x = some (i : ℚ)) :
    (Float.ofInt i == x) = true :=
  (roundedTo_ofInt i).beq (roundedTo_value h)

/-- Integers of at most 53 bits are converted exactly. -/
theorem floatValue?_ofInt {i : Int} (h : i.natAbs ≤ 2 ^ 53) :
    floatValue? (Float.ofInt i) = some (i : ℚ) := by
  have habs : |(i : ℚ)| = i.natAbs := by rw [Nat.cast_natAbs, Int.cast_abs]
  rcases h.eq_or_lt with heq | hlt
  · refine (roundedTo_ofInt i).value_of_bits (k := 2 ^ 52) (p := 1) ?_ (by decide) (by decide)
      (lt_floatBound_of_bits (by decide) (by decide))
    rw [habs, heq]
    norm_num
  · exact (roundedTo_ofInt i).value_of_bits (by rw [habs, zpow_zero, mul_one]) hlt (by decide)
      (lt_floatBound_of_bits hlt (by decide))

/-- An integer beyond 53 bits, and the number that it is converted to. -/
example : floatValue? (Float.ofInt 9007199254740993) = some 9007199254740992 := by
  decide +kernel

end Values

end Shelf
