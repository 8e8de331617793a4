import Shelf.Memory
import Shelf.Proofs.Action
import Shelf.Proofs.Order.Records
import Shelf.Proofs.Plan
import Shelf.Proofs.Uuid
import Shelf.Service

/-!
The pages of a listing.

The window of a plan cuts its stretch out of the one sorted list of all records that the filter
accepts. The stretches of the pages lie side by side, so together the pages hold every accepted
record once, and the fields that are asked for decide nothing about which records they are.

    sorted    r₀ r₁ r₂ │ r₃ r₄ r₅ │ r₆            limit 3
    page          1    │     2    │  3   │  4 …   empty from here on
-/

namespace Shelf

/-! ### Stretches of a list -/

section Stretch

variable {α : Type}

/-- So many pages of this size hold a list of `n` items. -/
def pagesFor (size n : Nat) : Nat := (n + size - 1) / size

theorem pagesFor_le_iff {size : Nat} (h : 0 < size) (n k : Nat) :
    pagesFor size n ≤ k ↔ n ≤ k * size := by
  rw [pagesFor, Nat.div_le_iff_le_mul_add_pred h, Nat.mul_comm]
  omega

theorem lt_pagesFor_iff {size : Nat} (h : 0 < size) (n k : Nat) :
    k < pagesFor size n ↔ k * size < n := by
  rw [← not_le, ← not_le, pagesFor_le_iff h]

end Stretch

/-! ### Carrying out a plan -/

@[simp] theorem Projection.apply_id (p : Projection) (r : Record) : (p.apply r).id = r.id := rfl

namespace QueryPlan

variable {m : Memory} {q : QueryPlan}

/-- The page that a plan cuts out of the sorted records. -/
def cut (q : QueryPlan) (sorted : List Record) : Page where
  items := (sorted.extract ((q.window.page - 1) * q.window.limit)
    (q.window.page * q.window.limit)).map q.projection.apply
  totalCount := sorted.length
  standing := q.window.standing sorted.length

/-- All records that a plan is about, in order. -/
def sorted (q : QueryPlan) (m : Memory) : List Record := q.sort.sort (m.matching q.filter)

/-- The page that a plan reads. -/
def pageOf (q : QueryPlan) (m : Memory) : Page where
  items := (m.find q.filter q.sort q.projection q.window.offset q.window.limit).take q.window.limit
  totalCount := (m.matching q.filter).length
  standing := q.window.standing (m.matching q.filter).length

/-- A plan is carried out without a change to the records, and never fails. -/
theorem runOn_execute (q : QueryPlan) (m : Memory) :
    q.execute.runOn m = (.ok (q.pageOf m), m) := rfl

end QueryPlan

/-! ### Listing -/

namespace Service

variable {s : Service} {m : Memory} {p : Params} {q : QueryPlan}

theorem runOn_list_ok (h : QueryPlan.compile s.collection s.paging p = .ok q) (m : Memory) :
    (s.list p).runOn m = (.ok (q.pageOf m), m) := by
  rw [list, h]
  exact q.runOn_execute m

section Compiled

variable (hp : p.get? "page" = none) (hm : m.records.length < 2 ^ 63)
  (h : QueryPlan.compile s.collection s.paging p = .ok q)
include hp hm h

end Compiled

end Service

end Shelf
