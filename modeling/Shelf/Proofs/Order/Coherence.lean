import Shelf.Sort
import Mathlib.Order.Compare
import Mathlib.Data.String.Basic

/-!
Three comparisons that one order can give.

Compare `a` with `b`, `b` with `c` and `a` with `c`. When a total preorder answers, the third answer
follows from the first two unless they point in opposite directions:

    a ? b    b ? c    a ? c
      =        x        x
      x        =        x
      <        <        <
      >        >        >
      <        >       any         and the other way round

Comparisons put together one after the other (`Ordering.then`) or read backwards stay coherent, so a
lexicographic order is coherent when its parts are. Coherence and the antisymmetry of an order give
its transitivity.
-/

namespace Shelf

/-- Whether an order can answer `ab`, `bc` and `ac` on three elements. -/
def Coherent (ab bc ac : Ordering) : Prop :=
  match ab, bc with
  | .eq, bc  => ac = bc
  | ab,  .eq => ac = ab
  | .lt, .lt => ac = .lt
  | .gt, .gt => ac = .gt
  | _,   _   => True

namespace Coherent

variable {ab bc ac : Ordering}

theorem refl : Coherent .eq .eq .eq := rfl

/-- Reading all three answers backwards. -/
theorem swap (h : Coherent ab bc ac) : Coherent ab.swap bc.swap ac.swap := by
  cases ab <;> cases bc <;> simp_all [Coherent, Ordering.swap]

/-- A second comparison counts only where the first one sees no difference. -/
theorem andThen {ab' bc' ac' : Ordering} (h : Coherent ab bc ac)
    (h' : ab = .eq → bc = .eq → Coherent ab' bc' ac') :
    Coherent (ab.then ab') (bc.then bc') (ac.then ac') := by
  cases ab <;> cases bc <;> simp only [Coherent] at h
  case eq.eq => subst h; exact h' rfl rfl
  case lt.gt => cases ac <;> trivial
  case gt.lt => cases ac <;> trivial
  all_goals subst h; first | rfl | (cases ab' <;> trivial) | (cases bc' <;> trivial)

/-- What is not above something that is not above a third is not above the third. -/
theorem trans (h : Coherent ab bc ac) (hab : ab ≠ .gt) (hbc : bc ≠ .gt) : ac ≠ .gt := by
  cases ab <;> cases bc <;> simp_all [Coherent]

/-- The answers of a linear order. -/
theorem of_compare {α : Type} [LinearOrder α] (a b c : α) :
    Coherent (compare a b) (compare b c) (compare a c) := by
  rcases lt_trichotomy a b with hab | rfl | hab
  · rw [compare_lt_iff_lt.2 hab]
    rcases lt_trichotomy b c with hbc | rfl | hbc
    · rw [compare_lt_iff_lt.2 hbc, compare_lt_iff_lt.2 (hab.trans hbc)]; rfl
    · rw [compare_eq_iff_eq.2 rfl, compare_lt_iff_lt.2 hab]; rfl
    · rw [compare_gt_iff_gt.2 hbc]; trivial
  · rw [compare_eq_iff_eq.2 rfl]; rfl
  · rw [compare_gt_iff_gt.2 hab]
    rcases lt_trichotomy b c with hbc | rfl | hbc
    · rw [compare_lt_iff_lt.2 hbc]; trivial
    · rw [compare_eq_iff_eq.2 rfl, compare_gt_iff_gt.2 hab]; rfl
    · rw [compare_gt_iff_gt.2 hbc, compare_gt_iff_gt.2 (hbc.trans hab)]; rfl

end Coherent

/-- What reads the same from both sides is a tie. -/
theorem eq_of_eq_swap {o : Ordering} (h : o = o.swap) : o = .eq := by
  cases o with
  | eq => rfl
  | lt => cases h
  | gt => cases h

/-! ### Orders of scalars -/

theorem compareNats_eq_compare (a b : Nat) : compareNats a b = compare a b := by
  rw [compareNats, Nat.compare_eq_ite_lt]
  split
  · rfl
  · split
    · next h => simp [h]
    · next h h' => simp [show b < a by omega]

theorem compareStrings_eq_compare (a b : String) : compareStrings a b = compare a b := by
  rw [compareStrings]
  rcases lt_trichotomy a b with h | rfl | h
  · rw [if_pos h, compare_lt_iff_lt.2 h]
  · rw [if_neg (lt_irrefl a), if_pos rfl, compare_eq_iff_eq.2 rfl]
  · rw [if_neg h.asymm, if_neg h.ne', compare_gt_iff_gt.2 h]

theorem compareBools_eq_compare (a b : Bool) : compareBools a b = compare a b := by
  cases a <;> cases b <;> decide

end Shelf
