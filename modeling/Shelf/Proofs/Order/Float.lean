import Mathlib
import Shelf.Proofs.Order.Coherence

/-!
The order of floating-point numbers.

Floating-point numbers other than NaN stand in a total preorder, in which the two zeros are tied.
They are compared by kind first, and finite numbers of one sign by exponent and mantissa:

    -∞  <  negative  <  zeros  <  positive  <  ∞

No integer is read as NaN, and neither is a number that JSON can hold, so any two JSON numbers
compare.
-/

namespace Shelf

open Float.Model (UnpackedFloat)

/-! ### Unpacked numbers -/

/-- Where a number's kind stands. -/
def floatKind : UnpackedFloat → Int
  | .infinity .negative     => -2
  | .finite .negative _ _ _ => -1
  | .zero _                 => 0
  | .notANumber             => 0
  | .finite .positive _ _ _ => 1
  | .infinity .positive     => 2

/-- How two finite numbers of one sign compare; other pairs are tied. -/
def compareFinite : UnpackedFloat → UnpackedFloat → Ordering
  | .finite .positive m e _, .finite .positive n f _ => (compare e f).then (compare m n)
  | .finite .negative m e _, .finite .negative n f _ => ((compare e f).then (compare m n)).swap
  | _,                       _                       => .eq

theorem compare_eq_kind_then {a b : UnpackedFloat} (ha : a ≠ .notANumber) (hb : b ≠ .notANumber) :
    a.compare b = some ((compare (floatKind a) (floatKind b)).then (compareFinite a b)) := by
  rcases a with (_ | _) | _ | _ | ⟨_ | _, m, e, hm⟩ <;>
    rcases b with (_ | _) | _ | _ | ⟨_ | _, n, f, hn⟩ <;> first | rfl | contradiction

/-- Comparing from the other side. -/
theorem unpacked_compare_swap (a b : UnpackedFloat) :
    b.compare a = (a.compare b).map Ordering.swap := by
  rcases a with (_ | _) | _ | _ | ⟨_ | _, m, e, hm⟩ <;>
    rcases b with (_ | _) | _ | _ | ⟨_ | _, n, f, hn⟩ <;> try rfl
  all_goals
    simp only [UnpackedFloat.compare, Option.map_some, Ordering.swap_then, Ordering.swap_swap,
      Std.OrientedOrd.eq_swap (a := f), Std.OrientedOrd.eq_swap (a := n)]

theorem coherent_compareFinite {a b c : UnpackedFloat} (hab : floatKind a = floatKind b)
    (hbc : floatKind b = floatKind c) :
    Coherent (compareFinite a b) (compareFinite b c) (compareFinite a c) := by
  rcases a with (_ | _) | _ | _ | ⟨_ | _, m, e, hm⟩ <;>
    rcases b with (_ | _) | _ | _ | ⟨_ | _, n, f, hn⟩ <;> simp only [floatKind] at hab <;>
    first
    | contradiction
    | rcases c with (_ | _) | _ | _ | ⟨_ | _, k, g, hk⟩ <;> simp only [floatKind] at hbc <;>
        first
        | contradiction
        | exact .refl
        | exact (Coherent.of_compare e f g).andThen fun _ _ => .of_compare m n k
        | exact ((Coherent.of_compare e f g).andThen fun _ _ => .of_compare m n k).swap

/-! ### Floats -/

/-- The unpacked form in which a float is compared. -/
def unpacked (x : Float) : UnpackedFloat := x.toModel.unpack

theorem float_lt_iff (x y : Float) : x < y ↔ (unpacked x).compare (unpacked y) = some .lt := by
  change decide (((unpacked x).compare (unpacked y) == some .lt) = true) = true ↔ _
  simp

theorem float_le_iff (x y : Float) : x ≤ y ↔ (unpacked x).compare (unpacked y) = some .lt ∨
    (unpacked x).compare (unpacked y) = some .eq := by
  change decide (((unpacked x).compare (unpacked y)).any (·.isLE) = true) = true ↔ _
  rcases (unpacked x).compare (unpacked y) with _ | _ | _ | _ <;> simp

theorem float_beq_iff (x y : Float) :
    (x == y) = true ↔ (unpacked x).compare (unpacked y) = some .eq := by
  change ((unpacked x).compare (unpacked y) == some .eq) = true ↔ _
  simp

theorem compareFloats?_eq (x y : Float) :
    compareFloats? x y = (unpacked x).compare (unpacked y) := by
  have hgt : y < x ↔ (unpacked x).compare (unpacked y) = some .gt := by
    rw [float_lt_iff, unpacked_compare_swap (unpacked x)]
    rcases (unpacked x).compare (unpacked y) with _ | _ | _ | _ <;> simp
  rw [compareFloats?]
  simp only [float_lt_iff, float_beq_iff, hgt]
  rcases (unpacked x).compare (unpacked y) with _ | _ | _ | _ <;> simp

theorem compareFloats?_swap (x y : Float) :
    compareFloats? y x = (compareFloats? x y).map Ordering.swap := by
  rw [compareFloats?_eq, compareFloats?_eq, unpacked_compare_swap]

theorem unpacked_ne_nan {x : Float} (h : x.isNaN = false) : unpacked x ≠ .notANumber := by
  intro hx
  have : x.isNaN = (unpacked x).isNaN := rfl
  rw [hx] at this
  exact Bool.noConfusion (h.symm.trans this)

theorem isNaN_of_isFinite {x : Float} (h : x.isFinite = true) : x.isNaN = false := by
  change (unpacked x).isNaN = false
  change (unpacked x).isFinite = true at h
  cases hx : unpacked x <;> simp_all [UnpackedFloat.isFinite, UnpackedFloat.isNaN]

/-- The total preorder of the floats that are not NaN. -/
theorem coherent_floats {x y z : Float} (hx : x.isNaN = false) (hy : y.isNaN = false)
    (hz : z.isNaN = false) :
    Coherent ((compareFloats? x y).getD .eq) ((compareFloats? y z).getD .eq)
      ((compareFloats? x z).getD .eq) := by
  have hx := unpacked_ne_nan hx
  have hy := unpacked_ne_nan hy
  have hz := unpacked_ne_nan hz
  rw [compareFloats?_eq, compareFloats?_eq, compareFloats?_eq, compare_eq_kind_then hx hy,
    compare_eq_kind_then hy hz, compare_eq_kind_then hx hz]
  refine (Coherent.of_compare _ _ _).andThen fun hxy hyz => ?_
  exact coherent_compareFinite (compare_eq_iff_eq.1 hxy) (compare_eq_iff_eq.1 hyz)

/-! ### No integer is NaN -/

/-- What is packed as a number comes back as a number. -/
theorem unpack_pack_ne_nan {f : UnpackedFloat} (h : f ≠ .notANumber) :
    (Float.Model.pack f).unpack ≠ .notANumber := by
  suffices hz : UnpackedFloat.unpackExponent (UnpackedFloat.pack .binary64 f) = -1#_ →
      UnpackedFloat.unpackMantissa (UnpackedFloat.pack .binary64 f) = 0#_ by
    simp only [Float.Model.unpack, Float.Model.pack, UnpackedFloat.unpack, UInt64.toBitVec_ofBitVec]
    split
    · next he => simp [hz he]
    · split
      · split <;> simp
      · simp
  fun_cases UnpackedFloat.pack with
  | case1 => contradiction
  | case2 s => simp [UnpackedFloat.packedInfinity]
  | case3 s => simp [UnpackedFloat.packedZero]
  | case4 s m e hm biased hlarge => simp [UnpackedFloat.packedInfinity]
  | case5 s m e hm bits biased hsmall hbits =>
    intro he
    rw [UnpackedFloat.unpackExponent_packComponents] at he
    have hall : biased % 2048 = 2047 := by simpa using congrArg BitVec.toNat he
    have hlow : biased + 1 < 2048 := Nat.lt_of_not_le hsmall
    omega
  | case6 s m e hm bits biased hsmall hbits =>
    intro he
    simp at he

theorem roundWithAccuracy_ne_nan (spec : Float.Model.Format) (s : UnpackedFloat.Sign) (m : Nat)
    (e : Int) (a : UnpackedFloat.Accuracy) :
    UnpackedFloat.roundWithAccuracy spec s m e a ≠ .notANumber := by
  simp only [UnpackedFloat.roundWithAccuracy]
  split <;> simp

theorem round_ne_nan (spec : Float.Model.Format) (s : UnpackedFloat.Sign) (m : Nat) (e : Int) :
    UnpackedFloat.round spec s m e ≠ .notANumber := by
  simp only [UnpackedFloat.round]
  exact roundWithAccuracy_ne_nan _ _ _ _ _

theorem unpackedOfNat_ne_nan (spec : Float.Model.Format) (n : Nat) :
    UnpackedFloat.ofNat spec n ≠ .notANumber := by
  simp only [UnpackedFloat.ofNat, UnpackedFloat.ofInt, UnpackedFloat.normalize]
  split
  · exact round_ne_nan _ _ _ _
  · simp
  · exact round_ne_nan _ _ _ _

theorem mul_finite_ne_nan (spec : Float.Model.Format) {a : UnpackedFloat} (ha : a ≠ .notANumber)
    (s : UnpackedFloat.Sign) (m : Nat) (e : Int) (hm : 0 < m) :
    UnpackedFloat.mul spec a (.finite s m e hm) ≠ .notANumber := by
  cases a with
  | notANumber => contradiction
  | infinity t => simp [UnpackedFloat.mul]
  | zero t => simp [UnpackedFloat.mul]
  | finite t n f hn => exact roundWithAccuracy_ne_nan _ _ _ _ _

theorem div_finite_ne_nan (spec : Float.Model.Format) (s t : UnpackedFloat.Sign) (m n : Nat)
    (e f : Int) (hm : 0 < m) (hn : 0 < n) :
    UnpackedFloat.div spec (.finite s m e hm) (.finite t n f hn) ≠ .notANumber := by
  simp only [UnpackedFloat.div]
  exact roundWithAccuracy_ne_nan _ _ _ _ _

theorem unpackedOfScientific_ne_nan (spec : Float.Model.Format) (m : Nat) (e : Int) :
    UnpackedFloat.ofScientific spec m e ≠ .notANumber := by
  rw [UnpackedFloat.ofScientific]
  split_ifs
  · simp
  · simp
  · simp
  · exact mul_finite_ne_nan _ (by simp) _ _ _ _
  · exact div_finite_ne_nan _ _ _ _ _ _ _ _ _

theorem unpacked_one :
    unpacked (Float.ofBits 0x3FF0000000000000) = .finite .positive (2 ^ 52) (-52) (by decide) :=
  rfl

theorem unpacked_ofNat_ne_nan (n : Nat) : unpacked (Float.ofNat n) ≠ .notANumber := by
  change unpacked (Float.ofScientific n false 0) ≠ .notANumber
  rw [Float.ofScientific]
  split
  · -- a small integer is converted exactly and multiplied by one
    refine unpack_pack_ne_nan ?_
    change UnpackedFloat.mul _ (unpacked n.toUInt64.toFloat) (unpacked (Float.ofBits _)) ≠ _
    rw [unpacked_one]
    exact mul_finite_ne_nan _ (unpack_pack_ne_nan (unpackedOfNat_ne_nan _ _)) _ _ _ _
  · exact unpack_pack_ne_nan (unpackedOfScientific_ne_nan _ _ _)

theorem isNaN_ofInt (n : Int) : (Float.ofInt n).isNaN = false := by
  suffices h : unpacked (Float.ofInt n) ≠ .notANumber by
    change (unpacked (Float.ofInt n)).isNaN = false
    cases hx : unpacked (Float.ofInt n) <;> first | rfl | exact absurd hx h
  cases n with
  | ofNat n => exact unpacked_ofNat_ne_nan n
  | negSucc n =>
    refine unpack_pack_ne_nan ?_
    change (unpacked (Float.ofNat (n + 1))).neg ≠ _
    cases hx : unpacked (Float.ofNat (n + 1)) with
    | notANumber => exact absurd hx (unpacked_ofNat_ne_nan _)
    | _ => simp [UnpackedFloat.neg]

end Shelf
