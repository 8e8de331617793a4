import Shelf.Decimal.Rounding
import Shelf.Proofs.Order.Float

/-!
The exact values of floating-point numbers.

A finite number is a mantissa times a power of two. The mantissa has 53 bits, unless the exponent is
the least one, so numbers of the same value are equal.

    1.0        =  2^52 · 2^-52
    0.1        =  7205759403792794 · 2^-56
    5.0e-324   =  1 · 2^-1074
-/

namespace Shelf

open Float.Model (UnpackedFloat Format)

/-- The value of an unpacked number, if it is finite. -/
def unpackedValue? : UnpackedFloat → Option ℚ
  | .finite s m e _ => some (s.apply m * 2 ^ e)
  | .zero _         => some 0
  | _               => none

/-- The value of a floating-point number, if it is finite. -/
def floatValue? (x : Float) : Option ℚ := unpackedValue? (unpacked x)

/-! ### Canonical forms -/

/-- A mantissa and an exponent as they are when a number is unpacked. -/
structure Canonical (m : Nat) (e : Int) : Prop where
  pos : 0 < m
  lt : m < 2 ^ 53
  least : -1074 ≤ e
  most : e ≤ 971
  full : e ≠ -1074 → 2 ^ 52 ≤ m

/-- A number without a leading bit in its mantissa. -/
theorem canonical_subnormal {v : BitVec 52} (h : v ≠ 0#52) : Canonical v.toNat (-1074) := by
  have hpos : v.toNat ≠ 0 := fun hzero => h (BitVec.eq_of_toNat_eq hzero)
  have hlt := v.isLt
  exact ⟨by omega, by omega, by omega, by omega, fun hne => absurd rfl hne⟩

theorem toNat_lead_append (v : BitVec 52) : (1#1 ++ v).toNat = 2 ^ 52 + v.toNat := by
  rw [BitVec.toNat_append, ← Nat.shiftLeft_add_eq_or_of_lt v.isLt]
  rfl

/-- A number with a leading bit before its mantissa. -/
theorem canonical_normal (v : BitVec 52) {w : BitVec 11} (hnone : w ≠ 0#11) (hall : w ≠ -1#11) :
    Canonical (1#1 ++ v).toNat (w.toNat - 1075) := by
  have hlt := v.isLt
  have hfew : w.toNat ≠ 0 := fun hzero => hnone (BitVec.eq_of_toNat_eq hzero)
  have hmany : w.toNat ≠ 2047 := fun hmax => hall (BitVec.eq_of_toNat_eq hmax)
  have hw := w.isLt
  rw [toNat_lead_append]
  exact ⟨by omega, by omega, by omega, by omega, by omega⟩

theorem unpack_pack_eq (x : UnpackedFloat) : (Float.Model.pack x).unpack =
    UnpackedFloat.unpack .binary64 (UnpackedFloat.pack .binary64 x) := rfl

theorem unpack_subnormal (s : UnpackedFloat.Sign) {v : BitVec 52} (h : v ≠ 0#52) :
    UnpackedFloat.unpack .binary64 (UnpackedFloat.packComponents .binary64 s 0#11 v) =
      .finite s v.toNat (-1074) (canonical_subnormal h).pos := by
  simp only [UnpackedFloat.unpack, UnpackedFloat.unpackExponent_packComponents,
    UnpackedFloat.unpackMantissa_packComponents, UnpackedFloat.unpackSign_packComponents,
    UnpackedFloat.Sign.ofBitVec_toBitVec]
  rw [if_neg (by decide), if_pos trivial, dif_neg h]
  rfl

theorem unpack_normal (s : UnpackedFloat.Sign) (v : BitVec 52) {w : BitVec 11} (hnone : w ≠ 0#11)
    (hall : w ≠ -1#11) :
    UnpackedFloat.unpack .binary64 (UnpackedFloat.packComponents .binary64 s w v) =
      .finite s (1#1 ++ v).toNat (w.toNat - 1075) (canonical_normal v hnone hall).pos := by
  simp only [UnpackedFloat.unpack, UnpackedFloat.unpackExponent_packComponents,
    UnpackedFloat.unpackMantissa_packComponents, UnpackedFloat.unpackSign_packComponents,
    UnpackedFloat.Sign.ofBitVec_toBitVec]
  rw [if_neg hall, if_neg hnone]
  rfl

theorem canonical_of_unpacked {x : Float} {s : UnpackedFloat.Sign} {m : Nat} {e : Int}
    {hm : 0 < m} (h : unpacked x = .finite s m e hm) : Canonical m e := by
  simp only [unpacked, Float.Model.unpack, UnpackedFloat.unpack] at h
  split at h
  · split at h <;> cases h
  · next hall =>
    split at h
    · next hnone =>
      split at h
      · cases h
      · next hmantissa =>
        cases h
        rw [hnone]
        exact canonical_subnormal hmantissa
    · next hnone =>
      cases h
      exact canonical_normal _ hnone hall

namespace Canonical

variable {m n : Nat} {e f : Int}

/-- What is packed in canonical form comes back as it was. -/
theorem unpack_pack (h : Canonical m e) (s : UnpackedFloat.Sign) :
    (Float.Model.pack (.finite s m e h.pos)).unpack = .finite s m e h.pos := by
  obtain ⟨hpos, hlt, hleast, hmost, hfull⟩ := h
  have hbiased : ¬ 2 ^ 11 ≤ (e + 1023 + 52).toNat + 1 := by omega
  by_cases hm : 2 ^ 52 ≤ m
  · have hlog : m.log2 + 1 = 53 := by
      have hle := (Nat.le_log2 hpos.ne').2 hm
      have hlt := (Nat.log2_lt hpos.ne').2 hlt
      omega
    have hpack : UnpackedFloat.pack .binary64 (.finite s m e hpos) =
        UnpackedFloat.packComponents .binary64 s (BitVec.ofNat 11 (e + 1023 + 52).toNat)
          (BitVec.ofNat 52 m) := (if_neg hbiased).trans (if_pos hlog)
    have hw : (BitVec.ofNat 11 (e + 1023 + 52).toNat).toNat = (e + 1075).toNat := by
      rw [BitVec.toNat_ofNat]
      omega
    have hnone : BitVec.ofNat 11 (e + 1023 + 52).toNat ≠ 0#11 := by
      intro hzero
      rw [hzero] at hw
      have hzero : (0#11).toNat = 0 := rfl
      omega
    have hall : BitVec.ofNat 11 (e + 1023 + 52).toNat ≠ -1#11 := by
      intro hmax
      rw [hmax] at hw
      have hmax : (-1#11).toNat = 2047 := rfl
      omega
    have hmantissa : (1#1 ++ BitVec.ofNat 52 m).toNat = m := by
      rw [toNat_lead_append, BitVec.toNat_ofNat]
      omega
    have hexponent : ((BitVec.ofNat 11 (e + 1023 + 52).toNat).toNat : Int) - 1075 = e := by
      rw [hw]
      omega
    rw [unpack_pack_eq, hpack, unpack_normal s _ hnone hall]
    simp only [hmantissa, hexponent]
  · have hlog : ¬ m.log2 + 1 = 53 := by
      have hlt := (Nat.log2_lt hpos.ne').2 (not_le.1 hm)
      omega
    have hpack : UnpackedFloat.pack .binary64 (.finite s m e hpos) =
        UnpackedFloat.packComponents .binary64 s 0#11 (BitVec.ofNat 52 m) :=
      (if_neg hbiased).trans (if_neg hlog)
    have hmantissa : (BitVec.ofNat 52 m).toNat = m := by
      rw [BitVec.toNat_ofNat]
      omega
    have hnonzero : BitVec.ofNat 52 m ≠ 0#52 := by
      intro hzero
      rw [hzero] at hmantissa
      have hzero : (0#52).toNat = 0 := rfl
      omega
    have hexponent : e = -1074 := not_not.1 (mt hfull hm)
    rw [unpack_pack_eq, hpack, unpack_subnormal s hnonzero]
    simp only [hmantissa, hexponent]

theorem eq_of_lt (h : Canonical m e) (h' : Canonical n f)
    (hvalue : (m : ℚ) * 2 ^ e = n * 2 ^ f) : ¬ e < f := by
  intro hlt
  have hshift : m = n * 2 ^ (f - e).toNat := by
    have hpow : (2 : ℚ) ^ f = 2 ^ (f - e).toNat * 2 ^ e := by
      rw [← zpow_natCast, ← zpow_add₀ two_ne_zero]
      congr 1
      omega
    rw [hpow, ← mul_assoc] at hvalue
    exact_mod_cast mul_right_cancel₀ (zpow_ne_zero e two_ne_zero) hvalue
  have htwo : 2 ^ 1 ≤ 2 ^ (f - e).toNat := Nat.pow_le_pow_right (by decide) (by omega)
  have hfull : 2 ^ 52 ≤ n := h'.full (by have := h.least; omega)
  have hlt := h.lt
  have hle := Nat.mul_le_mul_left n htwo
  omega

/-- Numbers of one value have one form. -/
theorem eq_of_value (h : Canonical m e) (h' : Canonical n f)
    (hvalue : (m : ℚ) * 2 ^ e = n * 2 ^ f) : m = n ∧ e = f := by
  have he : e = f := le_antisymm (not_lt.1 (h'.eq_of_lt h hvalue.symm))
    (not_lt.1 (h.eq_of_lt h' hvalue))
  subst he
  exact ⟨by exact_mod_cast mul_right_cancel₀ (zpow_ne_zero e two_ne_zero) hvalue, rfl⟩

end Canonical

/-! ### Values and equality -/

theorem Canonical.value_pos {m : Nat} {e : Int} (h : Canonical m e) : (0 : ℚ) < m * 2 ^ e := by
  have hpos := h.pos
  positivity

/-- A value has one sign and one canonical form. -/
theorem Canonical.eq_of_signed_value {m n : Nat} {e f : Int} {s t : UnpackedFloat.Sign}
    (h : Canonical m e) (h' : Canonical n f)
    (hvalue : (s.apply m : ℚ) * 2 ^ e = t.apply n * 2 ^ f) : s = t ∧ m = n ∧ e = f := by
  have hpos := h.value_pos
  have hpos' := h'.value_pos
  cases s <;> cases t <;> simp only [UnpackedFloat.Sign.apply] at hvalue <;>
    push_cast at hvalue
  · exact ⟨rfl, h.eq_of_value h' (by linarith)⟩
  · linarith
  · linarith
  · exact ⟨rfl, h.eq_of_value h' hvalue⟩

theorem Canonical.signed_value_ne_zero {m : Nat} {e : Int} (h : Canonical m e)
    (s : UnpackedFloat.Sign) : (s.apply m : ℚ) * 2 ^ e ≠ 0 := by
  have hpos := h.value_pos
  cases s <;> simp only [UnpackedFloat.Sign.apply] <;> push_cast <;> linarith

/-- A number with a value is a zero or has a canonical form. -/
theorem unpacked_of_value {x : Float} {q : ℚ} (h : floatValue? x = some q) :
    (q = 0 ∧ ∃ s, unpacked x = .zero s) ∨ ∃ s m e, ∃ hc : Canonical m e,
      unpacked x = .finite s m e hc.pos ∧ q = s.apply m * 2 ^ e := by
  rw [floatValue?] at h
  cases hx : unpacked x with
  | infinity s => rw [hx] at h; cases h
  | notANumber => rw [hx] at h; cases h
  | zero s =>
    rw [hx] at h
    cases h
    exact .inl ⟨rfl, s, rfl⟩
  | finite s m e hm =>
    rw [hx] at h
    cases h
    exact .inr ⟨s, m, e, canonical_of_unpacked hx, rfl, rfl⟩

theorem isFinite_iff_exists_value {x : Float} :
    x.isFinite = true ↔ ∃ q, floatValue? x = some q := by
  change (unpacked x).isFinite = true ↔ ∃ q, unpackedValue? (unpacked x) = some q
  cases unpacked x <;> simp [UnpackedFloat.isFinite, unpackedValue?]

/-- Finite numbers of the same value are equal. -/
theorem float_beq_of_value {x y : Float} {q : ℚ} (hx : floatValue? x = some q)
    (hy : floatValue? y = some q) : (x == y) = true := by
  rw [float_beq_iff]
  rcases unpacked_of_value hx with ⟨hzero, s, hx⟩ | ⟨s, m, e, hc, hx, hq⟩
  · rcases unpacked_of_value hy with ⟨-, t, hy⟩ | ⟨t, n, f, hc, hy, hq⟩
    · rw [hx, hy]
      rfl
    · exact absurd (hq.symm.trans hzero) (hc.signed_value_ne_zero t)
  · rcases unpacked_of_value hy with ⟨hzero, t, hy⟩ | ⟨t, n, f, hc', hy, hq'⟩
    · exact absurd (hq.symm.trans hzero) (hc.signed_value_ne_zero s)
    · obtain ⟨rfl, rfl, rfl⟩ := hc.eq_of_signed_value hc' (hq.symm.trans hq')
      rw [hx, hy]
      cases s <;> simp [UnpackedFloat.compare]

/-- Equal numbers have the same value. -/
theorem floatValue?_eq_of_beq {x y : Float} (h : (x == y) = true) :
    floatValue? x = floatValue? y := by
  rw [Float.beq_iff_ne_nan_and_eq] at h
  rcases h.2.2 with rfl | ⟨rfl, rfl⟩ | ⟨rfl, rfl⟩
  · rfl
  · rfl
  · rfl

/-! ### Values and order -/

/-- At a greater exponent a canonical mantissa is full, so the number is greater. -/
theorem Canonical.value_lt_of_lt {m n : Nat} {e f : Int} (h : Canonical m e) (h' : Canonical n f)
    (hlt : e < f) : (m : ℚ) * 2 ^ e < n * 2 ^ f := by
  have hm : (m : ℚ) < 2 ^ 53 := by exact_mod_cast h.lt
  have hn : (2 : ℚ) ^ 52 ≤ n := by exact_mod_cast h'.full (by have := h.least; omega)
  calc (m : ℚ) * 2 ^ e < 2 ^ 53 * 2 ^ e := mul_lt_mul_of_pos_right hm (zpow_pos two_pos e)
    _ = 2 ^ 52 * 2 ^ (e + 1) := by rw [zpow_add_one₀ two_ne_zero]; ring
    _ ≤ n * 2 ^ f := mul_le_mul hn (zpow_le_zpow_right₀ one_le_two hlt)
      (zpow_pos two_pos _).le (Nat.cast_nonneg n)

/-- Canonical forms are compared by exponent and then by mantissa. -/
theorem Canonical.compare_of_value_lt {m n : Nat} {e f : Int} (h : Canonical m e)
    (h' : Canonical n f) (hlt : (m : ℚ) * 2 ^ e < n * 2 ^ f) :
    (compare e f).then (compare m n) = .lt := by
  rcases lt_trichotomy e f with he | rfl | he
  · rw [compare_lt_iff_lt.2 he]
    rfl
  · have hm : m < n := by exact_mod_cast lt_of_mul_lt_mul_right hlt (zpow_pos two_pos e).le
    rw [compare_eq_iff_eq.2 rfl, compare_lt_iff_lt.2 hm]
    rfl
  · exact absurd hlt (h'.value_lt_of_lt h he).le.not_gt

theorem float_lt_of_value_lt {x y : Float} {a b : ℚ} (hx : floatValue? x = some a)
    (hy : floatValue? y = some b) (hab : a < b) : x < y := by
  rw [float_lt_iff]
  rcases unpacked_of_value hx with ⟨ha, s, hx⟩ | ⟨s, m, e, hc, hx, ha⟩ <;>
    rcases unpacked_of_value hy with ⟨hb, t, hy⟩ | ⟨t, n, f, hc', hy, hb⟩ <;>
    rw [hx, hy] <;> rw [ha, hb] at hab
  · exact absurd hab (lt_irrefl 0)
  · cases t with
    | positive => rfl
    | negative =>
      rw [UnpackedFloat.Sign.apply, Int.cast_neg, Int.cast_natCast, neg_mul] at hab
      linarith [hc'.value_pos]
  · cases s with
    | negative => rfl
    | positive =>
      rw [UnpackedFloat.Sign.apply, Int.cast_natCast] at hab
      linarith [hc.value_pos]
  · cases s <;> cases t <;>
      simp only [UnpackedFloat.Sign.apply, Int.cast_neg, Int.cast_natCast, neg_mul] at hab
    · have hcompare := hc'.compare_of_value_lt hc (neg_lt_neg_iff.1 hab)
      rw [Std.OrientedOrd.eq_swap (a := f), Std.OrientedOrd.eq_swap (a := n),
        ← Ordering.swap_then] at hcompare
      exact congrArg some hcompare
    · rfl
    · linarith [hc.value_pos, hc'.value_pos]
    · exact congrArg some (hc.compare_of_value_lt hc' hab)

theorem float_lt_iff_of_value {x y : Float} {a b : ℚ} (hx : floatValue? x = some a)
    (hy : floatValue? y = some b) : x < y ↔ a < b := by
  refine ⟨fun h => ?_, float_lt_of_value_lt hx hy⟩
  rw [float_lt_iff] at h
  rcases lt_trichotomy a b with hab | rfl | hab
  · exact hab
  · have heq := (float_beq_iff x y).1 (float_beq_of_value hx hy)
    rw [heq] at h
    cases h
  · have hgt := (float_lt_iff y x).1 (float_lt_of_value_lt hy hx hab)
    rw [unpacked_compare_swap, h] at hgt
    cases hgt

/-! ### Signs -/

theorem sign_of_unpacked {x : Float} {s : UnpackedFloat.Sign} {m : Nat} {e : Int} {hm : 0 < m}
    (h : unpacked x = .finite s m e hm) :
    s = UnpackedFloat.Sign.ofBitVec (x.toBits.toBitVec.extractLsb 63 63) := by
  change UnpackedFloat.unpack .binary64 x.toBits.toBitVec = _ at h
  simp only [UnpackedFloat.unpack] at h
  split at h
  · split at h <;> cases h
  · split at h
    · split at h
      · cases h
      · cases h
        rfl
    · cases h
      rfl

/-- The sign bit of a finite number. -/
theorem signBit_iff {x : Float} {s : UnpackedFloat.Sign} {m : Nat} {e : Int} {hm : 0 < m}
    (h : unpacked x = .finite s m e hm) : Decimal.signBit x = true ↔ s = .negative := by
  have hbit : (x.toBits.toBitVec.extractLsb 63 63).toNat = x.toBits.toNat / 2 ^ 63 % 2 := by
    simp [Nat.shiftRight_eq_div_pow]
  have hlt := x.toBits.toNat_lt
  rw [sign_of_unpacked h, Decimal.signBit, decide_eq_true_eq, UnpackedFloat.Sign.ofBitVec]
  split
  · next hzero =>
    rw [hzero] at hbit
    have hnone : (0#1).toNat = 0 := rfl
    exact iff_of_false (by omega) (by simp)
  · next hone =>
    have hsome : (x.toBits.toBitVec.extractLsb 63 63).toNat ≠ 0 := fun hzero =>
      hone (BitVec.eq_of_toNat_eq hzero)
    exact iff_of_true (by omega) rfl

end Shelf
