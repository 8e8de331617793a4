import Shelf.Proofs.Json.Finite
import Shelf.Proofs.Order.Float

/-!
The order of JSON values.

Values compare by kind first. Within a kind, numbers compare as floats, lists item by item, and two
objects are tied. On values without NaN this is a total preorder: it reads the same from both sides,
ties every value with itself, and its answers on three values are coherent.
-/

namespace Shelf

theorem Number.isNaN_toFloat {n : Number} (h : (Json.number n).isFinite = true) :
    n.toFloat.isNaN = false := by
  cases n with
  | int n => exact isNaN_ofInt n
  | real x => exact isNaN_of_isFinite h

theorem Json.order_of_rank_ne {a b : Json} (h : a.rank ≠ b.rank) :
    a.order b = compareNats a.rank b.rank := by
  cases a <;> cases b <;> first | rfl | exact absurd rfl h

/-- The kinds decide, and values of one kind compare as such. -/
theorem Json.order_eq_rank_then (a b : Json) :
    a.order b = (compareNats a.rank b.rank).then (a.order b) := by
  by_cases h : a.rank = b.rank
  · simp [compareNats, h]
  · rw [Json.order_of_rank_ne h]
    cases compareNats a.rank b.rank <;> rfl

mutual

/-- Comparing from the other side. -/
theorem Json.order_swap (a b : Json) : b.order a = (a.order b).swap := by
  by_cases h : a.rank = b.rank
  · cases a with
    | null => cases b <;> rfl
    | bool p =>
      cases b with
      | bool q =>
        rw [Json.order, Json.order, compareBools_eq_compare, compareBools_eq_compare]
        exact Std.OrientedOrd.eq_swap
      | _ => simp [Json.rank] at h
    | number m =>
      cases b with
      | number n =>
        rw [Json.order, Json.order, compareFloats?_swap m.toFloat]
        cases compareFloats? m.toFloat n.toFloat <;> rfl
      | _ => simp [Json.rank] at h
    | string s =>
      cases b with
      | string t =>
        rw [Json.order, Json.order, compareStrings_eq_compare, compareStrings_eq_compare]
        exact Std.OrientedOrd.eq_swap
      | _ => simp [Json.rank] at h
    | array xs =>
      cases b with
      | array ys => exact Json.orderItems_swap xs ys
      | _ => simp [Json.rank] at h
    | object ms => cases b <;> rfl
  · rw [Json.order_of_rank_ne h, Json.order_of_rank_ne (Ne.symm h), compareNats_eq_compare,
      compareNats_eq_compare]
    exact Std.OrientedOrd.eq_swap

theorem Json.orderItems_swap (as bs : List Json) :
    Json.orderItems bs as = (Json.orderItems as bs).swap := by
  cases as with
  | nil => cases bs <;> rfl
  | cons a as =>
    cases bs with
    | nil => rfl
    | cons b bs =>
      rw [Json.orderItems, Json.orderItems, Json.order_swap a b, Json.orderItems_swap as bs,
        Ordering.swap_then]

end

mutual

/-- Comparisons of three values without NaN are coherent. -/
theorem Json.coherent_order (a b c : Json) (ha : a.isFinite = true) (hb : b.isFinite = true)
    (hc : c.isFinite = true) : Coherent (a.order b) (b.order c) (a.order c) := by
  rw [Json.order_eq_rank_then a b, Json.order_eq_rank_then b c, Json.order_eq_rank_then a c,
    compareNats_eq_compare, compareNats_eq_compare, compareNats_eq_compare]
  refine (Coherent.of_compare _ _ _).andThen fun hab hbc => ?_
  have hab : a.rank = b.rank := compare_eq_iff_eq.1 hab
  have hbc : b.rank = c.rank := compare_eq_iff_eq.1 hbc
  cases a with
  | null =>
    cases b <;> simp [Json.rank] at hab
    cases c <;> simp [Json.rank] at hbc
    exact .refl
  | bool p =>
    cases b <;> simp [Json.rank] at hab
    cases c <;> simp [Json.rank] at hbc
    simp only [Json.order, compareBools_eq_compare]
    exact .of_compare _ _ _
  | number m =>
    cases b <;> simp [Json.rank] at hab
    cases c <;> simp [Json.rank] at hbc
    exact coherent_floats (Number.isNaN_toFloat ha) (Number.isNaN_toFloat hb)
      (Number.isNaN_toFloat hc)
  | string s =>
    cases b <;> simp [Json.rank] at hab
    cases c <;> simp [Json.rank] at hbc
    simp only [Json.order, compareStrings_eq_compare]
    exact .of_compare _ _ _
  | array xs =>
    cases b <;> simp [Json.rank] at hab
    cases c <;> simp [Json.rank] at hbc
    exact Json.coherent_orderItems xs _ _ ha hb hc
  | object ms =>
    cases b <;> simp [Json.rank] at hab
    cases c <;> simp [Json.rank] at hbc
    exact .refl

theorem Json.coherent_orderItems (as bs cs : List Json) (ha : Json.itemsFinite as = true)
    (hb : Json.itemsFinite bs = true) (hc : Json.itemsFinite cs = true) :
    Coherent (Json.orderItems as bs) (Json.orderItems bs cs) (Json.orderItems as cs) := by
  cases as with
  | nil =>
    cases bs with
    | nil => cases cs <;> rfl
    | cons b bs =>
      cases cs with
      | nil => trivial
      | cons c cs =>
        rw [Json.orderItems, Json.orderItems]
        cases Json.orderItems (b :: bs) (c :: cs) <;> trivial
  | cons a as =>
    cases bs with
    | nil => cases cs <;> trivial
    | cons b bs =>
      cases cs with
      | nil =>
        rw [Json.orderItems, Json.orderItems]
        cases Json.orderItems (a :: as) (b :: bs) <;> trivial
      | cons c cs =>
        simp only [Json.itemsFinite, Bool.and_eq_true] at ha hb hc
        rw [Json.orderItems, Json.orderItems, Json.orderItems]
        exact (Json.coherent_order a b c ha.1 hb.1 hc.1).andThen fun _ _ =>
          Json.coherent_orderItems as bs cs ha.2 hb.2 hc.2

end

end Shelf
