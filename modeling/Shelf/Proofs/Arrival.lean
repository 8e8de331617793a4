import Mathlib.Data.List.Basic
import Shelf.Arrival

/-!
What a write to a row of entries leaves.

A write touches the entries of its name. A test on names that turns this name down sees the same
entries before and after, and whatever is in the row afterwards was there or was written.
-/

namespace Shelf.Arrival

variable {α β : Type} {name other : String}

/-- Writing an entry that a test on names turns down. -/
theorem filter_put (test : String → Bool) (h : test name = false) (value : α) :
    ∀ row : List (String × α),
      (put name value row).filter (fun e => test e.1) = row.filter (fun e => test e.1)
  | []             => by simp [put, h]
  | (n, v) :: rest => by
    rw [put]
    split
    · next hn => simp [hn, h]
    · rw [List.filter_cons, List.filter_cons, filter_put test h value rest]

theorem lookup_filter_ne (h : other ≠ name) : ∀ row : List (String × α),
    (row.filter (·.1 ≠ name)).lookup other = row.lookup other
  | []             => rfl
  | (n, v) :: rest => by
    have ih := lookup_filter_ne h rest
    by_cases hn : n = name
    · subst hn
      rw [List.filter_cons_of_neg (by simp), ih, List.lookup_cons, beq_eq_false_iff_ne.2 h]
    · rw [List.filter_cons_of_pos (by simpa using hn), List.lookup_cons, List.lookup_cons, ih]

theorem mem_put {e : String × α} {value : α} : ∀ {row : List (String × α)},
    e ∈ put name value row → e = (name, value) ∨ e ∈ row
  | [],             h => .inl (List.mem_singleton.1 h)
  | (n, v) :: rest, h => by
    rw [put] at h
    split at h
    · next hn =>
      rcases List.mem_cons.1 h with rfl | h
      · exact .inl (by rw [hn])
      · exact .inr (List.mem_cons_of_mem _ h)
    · rcases List.mem_cons.1 h with rfl | h
      · exact .inr List.mem_cons_self
      · exact (mem_put h).imp_right (List.mem_cons_of_mem _)

theorem mem_put_self (name : String) (value : α) : ∀ row : List (String × α),
    (name, value) ∈ put name value row
  | []             => List.mem_singleton.2 rfl
  | (n, v) :: rest => by
    rw [put]
    split
    · next hn => rw [hn]; exact List.mem_cons_self
    · exact List.mem_cons_of_mem _ (mem_put_self name value rest)

theorem put_ne_nil (name : String) (value : α) (row : List (String × α)) :
    put name value row ≠ [] := List.ne_nil_of_mem (mem_put_self name value row)

theorem mem_put_of_ne {e : String × α} (h : e.1 ≠ name) (value : α) :
    ∀ {row : List (String × α)}, e ∈ row → e ∈ put name value row
  | (n, v) :: rest, he => by
    rw [put]
    split
    · next hn =>
      rcases List.mem_cons.1 he with rfl | he
      · exact absurd hn h
      · exact List.mem_cons_of_mem _ he
    · rcases List.mem_cons.1 he with rfl | he
      · exact List.mem_cons_self
      · exact List.mem_cons_of_mem _ (mem_put_of_ne h value he)

/-- A write keeps the names distinct. -/
theorem nodup_names_put (name : String) (value : α) {row : List (String × α)}
    (h : (row.map Prod.fst).Nodup) : ((put name value row).map Prod.fst).Nodup := by
  rw [names_put]
  split
  · exact h
  · next hnew =>
    refine List.nodup_append.2 ⟨h, List.pairwise_singleton _ _, fun n hn m hm => ?_⟩
    rintro rfl
    exact hnew (List.mem_singleton.1 hm ▸ hn)

theorem mem_of_lookup {value : α} {row : List (String × α)} (h : row.lookup name = some value) :
    (name, value) ∈ row := by
  obtain ⟨before, after, rfl, -⟩ := List.lookup_eq_some_iff.1 h
  simp

/-- Without duplicate names, the entry that is looked up is any entry of the name. -/
theorem lookup_eq_some_iff_mem {value : α} {row : List (String × α)}
    (h : (row.map Prod.fst).Nodup) : row.lookup name = some value ↔ (name, value) ∈ row := by
  refine ⟨mem_of_lookup, fun hmem => ?_⟩
  obtain ⟨before, after, rfl⟩ := List.append_of_mem hmem
  refine List.lookup_eq_some_iff.2 ⟨before, after, rfl, fun e he => ?_⟩
  rw [List.map_append, List.map_cons, List.nodup_append] at h
  exact bne_iff_ne.2 (h.2.2 e.1 (List.mem_map_of_mem he) name List.mem_cons_self).symm

theorem put_of_lookup_eq_none {row : List (String × α)} (h : row.lookup name = none) (value : α) :
    put name value row = row ++ [(name, value)] := by
  induction row with
  | nil => rfl
  | cons e row ih =>
    obtain ⟨n, v⟩ := e
    rw [List.lookup_eq_none_iff] at h
    obtain ⟨hn, hrow⟩ := List.forall_mem_cons.1 h
    rw [put, if_neg (Ne.symm (bne_iff_ne.1 hn)), ih (List.lookup_eq_none_iff.2 hrow)]
    rfl

/-- Rewriting an entry so that one more item comes from it. -/
theorem perm_flatMap_put {items : String × α → List β} {old value : α} {b : β} :
    ∀ {row : List (String × α)}, row.lookup name = some old →
      items (name, value) = items (name, old) ++ [b] →
      ((put name value row).flatMap items).Perm (row.flatMap items ++ [b])
  | (n, v) :: row, hold, hitems => by
    rw [put]
    split
    · next hn =>
      subst hn
      rw [List.lookup_cons_self, Option.some.injEq] at hold
      rw [List.flatMap_cons, List.flatMap_cons, hitems, hold, List.append_assoc, List.append_assoc]
      exact List.perm_append_comm.append_left _
    · next hn =>
      rw [List.lookup_cons, beq_eq_false_iff_ne.2 (Ne.symm hn)] at hold
      rw [List.flatMap_cons, List.flatMap_cons, List.append_assoc]
      exact (perm_flatMap_put hold hitems).append_left _

/-- After writes of one entry for each item. -/
theorem mem_foldl_put {key : β → String} {value : β → α} {e : String × α} :
    ∀ {xs : List β} {row : List (String × α)},
      e ∈ xs.foldl (fun row x => put (key x) (value x) row) row →
        (∃ x ∈ xs, e = (key x, value x)) ∨ e ∈ row
  | [],      _, h => .inr h
  | x :: xs, _, h => by
    rw [List.foldl_cons] at h
    rcases mem_foldl_put h with ⟨y, hy, he⟩ | h
    · exact .inl ⟨y, List.mem_cons_of_mem _ hy, he⟩
    · rcases mem_put h with he | h
      · exact .inl ⟨x, List.mem_cons_self, he⟩
      · exact .inr h

/-- Entries whose names are all new come behind the row, in order. -/
theorem foldl_put_of_distinct {key : β → String} {value : β → α} :
    ∀ {xs : List β} {row : List (String × α)}, (row.map Prod.fst ++ xs.map key).Nodup →
      xs.foldl (fun row x => put (key x) (value x) row) row =
        row ++ xs.map fun x => (key x, value x)
  | [],      row, _ => (List.append_nil row).symm
  | x :: xs, row, h => by
    rw [List.map_cons, List.append_cons] at h
    have hnew : row.lookup (key x) = none := by
      have hrow := (List.nodup_append.1 (List.nodup_append.1 h).1).2.2
      rw [List.lookup_eq_none_iff]
      intro e he
      exact bne_iff_ne.2 (hrow e.1 (List.mem_map_of_mem he) _ (List.mem_singleton_self _)).symm
    rw [List.foldl_cons, put_of_lookup_eq_none hnew, foldl_put_of_distinct, List.map_cons,
      List.append_assoc, List.singleton_append]
    rw [List.map_append, List.map_singleton]
    exact h

end Shelf.Arrival
