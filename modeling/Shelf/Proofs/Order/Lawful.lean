import Shelf.Proofs.Order.Records
import Shelf.Proofs.Uuid

/-!
The orders of values and of records are lawful, and sorting is stable.

A comparison that records can be sorted by reads the same from both sides, ties everything with
itself, and is transitive, ties included. The order of values that may be absent is such a
comparison, however deep the lists in them, and so is the order of records under any sort keys. JSON
has finite numbers only, so these are the values that are compared; of distinct integers that are
converted to one floating-point number none comes before the other.

    null  <  1  <  9007199254740992  =  9007199254740993  <  "1"  <  [[1], 2]  <  [[1], "a"]
-/

namespace Shelf

/-- A total preorder on some elements, given by its comparison. -/
structure TotalPreorder {α : Type} (domain : α → Prop) (cmp : α → α → Ordering) : Prop where
  swap : ∀ a b, cmp b a = (cmp a b).swap
  self : ∀ a, cmp a a = .eq
  trans : ∀ a b c, domain a → domain b → domain c →
    cmp a b ≠ .gt → cmp b c ≠ .gt → cmp a c ≠ .gt
  tied : ∀ a b c, domain a → domain b → domain c → cmp a b = .eq → cmp b c = .eq → cmp a c = .eq

/-- Coherent answers that read the same from both sides make a total preorder. -/
theorem totalPreorder_of_coherent {α : Type} {domain : α → Prop} {cmp : α → α → Ordering}
    (hswap : ∀ a b, cmp b a = (cmp a b).swap)
    (hcoherent : ∀ a b c, domain a → domain b → domain c →
      Coherent (cmp a b) (cmp b c) (cmp a c)) : TotalPreorder domain cmp where
  swap := hswap
  self a := eq_of_eq_swap (hswap a a)
  trans a b c ha hb hc hab hbc := (hcoherent a b c ha hb hc).trans hab hbc
  tied a b c ha hb hc hab hbc := by
    have h := hcoherent a b c ha hb hc
    rw [hab, hbc] at h
    exact h

theorem totalPreorder_orderOptional :
    TotalPreorder (fun v : Option Json => ∀ w, v = some w → w.isFinite = true) orderOptional := by
  refine totalPreorder_of_coherent (fun a b => ?_) fun a b c ha hb hc => ?_
  · rw [orderOptional, orderOptional, Json.order_swap]
  · exact Json.coherent_order _ _ _ (isFinite_getD ha) (isFinite_getD hb) (isFinite_getD hc)

theorem SortSpec.totalPreorder_order (s : SortSpec) :
    TotalPreorder (fun r : Record => r.isFinite = true) s.order :=
  totalPreorder_of_coherent s.order_swap fun _ _ _ ha hb hc => s.coherent_order ha hb hc

/-- Values are in a total preorder, records are under any sort keys, and sorting keeps the records,
puts none before an earlier one, and leaves those that are tied as they stand. -/
theorem SortSpec.lawful_and_stable :
    TotalPreorder (fun v : Option Json => ∀ w, v = some w → w.isFinite = true) orderOptional ∧
    ∀ s : SortSpec, TotalPreorder (fun r : Record => r.isFinite = true) s.order ∧
      ∀ rs : List Record, (∀ r ∈ rs, r.isFinite = true) → s.Sorts rs (s.sort rs) ∧
        (s.sort rs).Pairwise fun earlier later => s.order later earlier ≠ .lt := by
  refine ⟨totalPreorder_orderOptional, fun s => ⟨s.totalPreorder_order, fun rs hrs => ?_⟩⟩
  have hsorts := SortSpec.sorts_sort (s := s) hrs
  refine ⟨hsorts, hsorts.ordered.imp fun {earlier later} h hlt => h ?_⟩
  rw [s.order_swap later earlier, hlt]
  rfl

/-- Two integers that are one floating-point number, tied through it, and sorted beside a nested
list: the largest comes first, and the integers stay as they stand. -/
theorem SortSpec.lawful_and_stable_tied_integers :
    let odd : Json := .int 9007199254740993
    let even : Json := .int 9007199254740992
    let real : Json := .number (.real (Float.ofInt 9007199254740992))
    let sized : Fin 16 → Json → Record := fun d v => ⟨.uniform d, [("size", v)]⟩
    let rs := [sized 1 odd, sized 2 (.array [.array [.int 1], .string "a"]), sized 3 even]
    let s : SortSpec := ⟨[⟨"size", .desc⟩]⟩
    (∀ r ∈ rs, r.isFinite = true) ∧ s.Sorts rs (s.sort rs) ∧
      orderOptional (some odd) (some real) = .eq ∧ orderOptional (some real) (some even) = .eq ∧
      orderOptional (some odd) (some even) = .eq := by
  intro odd even real sized rs s
  have hrs : ∀ r ∈ rs, r.isFinite = true := by
    intro r hr
    simp only [rs, List.mem_cons, List.not_mem_nil, or_false] at hr
    rcases hr with rfl | rfl | rfl <;> rfl
  have hfinite : ∀ v ∈ [odd, real, even], ∀ w, some v = some w → w.isFinite = true := by
    intro v hv w hw
    obtain rfl := Option.some.inj hw
    simp only [List.mem_cons, List.not_mem_nil, or_false] at hv
    rcases hv with rfl | rfl | rfl <;> decide +kernel
  have hodd : orderOptional (some odd) (some real) = .eq := by decide +kernel
  have heven : orderOptional (some real) (some even) = .eq := by decide +kernel
  obtain ⟨hvalues, hrecords⟩ := lawful_and_stable
  have htied := hvalues.tied _ _ _ (hfinite odd (by simp)) (hfinite real (by simp))
    (hfinite even (by simp)) hodd heven
  exact ⟨hrs, ((hrecords s).2 rs hrs).1, hodd, heven, htied⟩

end Shelf
