import Mathlib.Data.List.Induction
import Mathlib.Data.List.Nodup

/-!
Distinct items in the order in which they first occur.

`List.eraseDups` keeps the first of equal items. A list that grows at its end gives one more
distinct item unless the item is in it already.
-/

namespace Shelf

variable {α : Type} [DecidableEq α]

theorem eraseDups_concat (xs : List α) (x : α) :
    (xs ++ [x]).eraseDups = if x ∈ xs then xs.eraseDups else xs.eraseDups ++ [x] := by
  rw [List.eraseDups_append, List.removeAll]
  split
  · next h => rw [List.filter_cons_of_neg (by simpa using h)]; exact List.append_nil _
  · next h => rw [List.filter_cons_of_pos (by simpa using h)]; rfl

theorem nodup_eraseDups (xs : List α) : xs.eraseDups.Nodup := by
  induction xs using List.reverseRecOn with
  | nil => exact List.nodup_nil
  | append_singleton xs x ih =>
    rw [eraseDups_concat]
    split
    · exact ih
    · next h =>
      rw [← List.concat_eq_append]
      exact ih.concat fun hx => h (List.mem_eraseDups.1 hx)

end Shelf
