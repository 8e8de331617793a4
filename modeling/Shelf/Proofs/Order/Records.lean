import Shelf.Proofs.Order.Json

/-!
The order of records, and sorting by it.

A record order compares field by field, so it is a total preorder on records without NaN like the
order of values that it is made of. Sorting by it gives the same records, none above a later one,
and leaves records that are tied in the order in which they came.
-/

namespace Shelf

/-! ### One field, and several -/

theorem isFinite_getD {v : Option Json} (h : ∀ w, v = some w → w.isFinite = true) :
    (v.getD .null).isFinite = true := by
  cases v with
  | none => rfl
  | some w => exact h w rfl

theorem Direction.coherent_orient (d : Direction) {ab bc ac : Ordering} (h : Coherent ab bc ac) :
    Coherent (d.orient ab) (d.orient bc) (d.orient ac) := by
  cases d with
  | asc => exact h
  | desc => exact h.swap

theorem Direction.orient_swap (d : Direction) (o : Ordering) :
    d.orient o.swap = (d.orient o).swap := by
  cases d <;> rfl

namespace SortKey

theorem order_swap (k : SortKey) (a b : Record) : k.order b a = (k.order a b).swap := by
  rw [order, order, orderOptional, Json.order_swap, Direction.orient_swap]
  rfl

theorem coherent_order (k : SortKey) {a b c : Record} (ha : a.isFinite = true)
    (hb : b.isFinite = true) (hc : c.isFinite = true) :
    Coherent (k.order a b) (k.order b c) (k.order a c) := by
  refine k.direction.coherent_orient (Json.coherent_order _ _ _ ?_ ?_ ?_)
  · exact isFinite_getD fun _ => Record.isFinite_of_valueOf? ha
  · exact isFinite_getD fun _ => Record.isFinite_of_valueOf? hb
  · exact isFinite_getD fun _ => Record.isFinite_of_valueOf? hc

end SortKey

namespace SortSpec

theorem order_cons (k : SortKey) (ks : List SortKey) (a b : Record) :
    order ⟨k :: ks⟩ a b = (k.order a b).then (order ⟨ks⟩ a b) := rfl

theorem order_swap : ∀ (s : SortSpec) (a b : Record), s.order b a = (s.order a b).swap
  | ⟨[]⟩,      _, _ => rfl
  | ⟨k :: ks⟩, a, b => by
    rw [order_cons, order_cons, k.order_swap, order_swap ⟨ks⟩ a b, Ordering.swap_then]

theorem coherent_order : ∀ (s : SortSpec) {a b c : Record}, a.isFinite = true →
    b.isFinite = true → c.isFinite = true → Coherent (s.order a b) (s.order b c) (s.order a c)
  | ⟨[]⟩,      _, _, _, _,  _,  _  => .refl
  | ⟨k :: ks⟩, a, b, c, ha, hb, hc => by
    rw [order_cons, order_cons, order_cons]
    exact (k.coherent_order ha hb hc).andThen fun _ _ => coherent_order ⟨ks⟩ ha hb hc

/-! ### Sorting -/

/-- `sorted` holds the records of `rs` in order, and those that are tied as they stand in `rs`. -/
structure Sorts (s : SortSpec) (rs sorted : List Record) : Prop where
  perm : sorted.Perm rs
  ordered : sorted.Pairwise fun a b => s.order a b ≠ .gt
  stable : ∀ a ∈ rs, sorted.filter (s.order a · == .eq) = rs.filter (s.order a · == .eq)

variable {s : SortSpec} {rs : List Record}

theorem sort_perm (s : SortSpec) (rs : List Record) : (s.sort rs).Perm rs := List.mergeSort_perm ..

/-- Sorting inside the list, where the order is one of records that are known to be there. -/
theorem sort_eq_map_attach (s : SortSpec) (rs : List Record) :
    s.sort rs = (rs.attach.mergeSort fun a b => s.order a b != .gt).map Subtype.val := by
  rw [List.map_mergeSort (s := fun a b => s.order a b != .gt) fun _ _ _ _ => rfl,
    List.attach_map_subtype_val]
  rfl

theorem attach_trans (h : ∀ r ∈ rs, r.isFinite = true) (a b c : { r // r ∈ rs })
    (hab : (s.order a b != .gt) = true) (hbc : (s.order b c != .gt) = true) :
    (s.order a c != .gt) = true := by
  have hc := s.coherent_order (h a a.2) (h b b.2) (h c c.2)
  exact bne_iff_ne.2 (hc.trans (bne_iff_ne.1 hab) (bne_iff_ne.1 hbc))

theorem attach_total (a b : { r // r ∈ rs }) :
    (s.order a b != .gt || s.order b a != .gt) = true := by
  rw [s.order_swap a b]
  cases s.order a b <;> rfl

theorem ordered_sort (h : ∀ r ∈ rs, r.isFinite = true) :
    (s.sort rs).Pairwise fun a b => s.order a b ≠ .gt := by
  rw [sort_eq_map_attach, List.pairwise_map]
  exact (List.pairwise_mergeSort (attach_trans h) attach_total rs.attach).imp bne_iff_ne.1

/-- Records that stand in order already stay as they stand to each other. -/
theorem sublist_sort {ys : List Record} (h : ∀ r ∈ rs, r.isFinite = true)
    (hys : ys.Pairwise fun a b => s.order a b ≠ .gt) (hsub : ys.Sublist rs) :
    ys.Sublist (s.sort rs) := by
  rw [← List.attach_map_subtype_val rs] at hsub
  obtain ⟨zs, hzs, rfl⟩ := List.sublist_map_iff.1 hsub
  rw [sort_eq_map_attach]
  refine (List.sublist_mergeSort (attach_trans h) attach_total ?_ hzs).map _
  exact (List.pairwise_map.1 hys).imp bne_iff_ne.2

/-- Sorting is stable. The records that are tied with one of them are in order among themselves, so
they come out as they went in, and they are as many. -/
theorem sorts_sort (h : ∀ r ∈ rs, r.isFinite = true) : s.Sorts rs (s.sort rs) where
  perm := s.sort_perm rs
  ordered := ordered_sort h
  stable a ha := by
    have htied : (rs.filter (s.order a · == .eq)).Pairwise fun b c => s.order b c ≠ .gt := by
      refine List.pairwise_of_forall_mem_list fun b hb c hc => ?_
      simp only [List.mem_filter, beq_iff_eq] at hb hc
      have hba := s.order_swap a b
      have hbc := s.coherent_order (h b hb.1) (h a ha) (h c hc.1)
      rw [hba, hb.2, hc.2] at hbc
      exact fun hgt => Ordering.noConfusion (hbc.symm.trans hgt)
    have hsub := (sublist_sort h htied List.filter_sublist).filter (s.order a · == .eq)
    rw [List.filter_filter] at hsub
    simp only [Bool.and_self] at hsub
    exact (hsub.eq_of_length ((s.sort_perm rs).filter _).length_eq.symm).symm

end SortSpec

end Shelf
