import Shelf.Page
import Shelf.Storage

/-!
Plans of listings.

A plan is what the parameters of a client ask for, checked against the collection: filter, order,
projection and page. The parts are checked in this order, and the first that is refused decides. To
carry out a plan is to read the page and then to count what the filter accepts.
-/

namespace Shelf

/-- A checked request for one page of a listing. -/
structure QueryPlan where
  filter : Filter
  sort : SortSpec
  projection : Projection
  window : PageWindow

namespace QueryPlan

/-- The order that the parameters ask for. -/
def sortOf (c : Collection) (p : Params) : Except Rejection SortSpec := do
  let sort ← match p.single? "sort" with
    | some raw => SortSpec.read raw
    | none     => .ok {}
  sort.checkAllowed c
  return sort

/-- Checks the parameters of a client. -/
def compile (c : Collection) (paging : Paging) (p : Params) : Except Rejection QueryPlan := do
  let filter ← c.filterOf p
  let sort ← sortOf c p
  let projection ← Projection.read (p.single? "fields") c.reserved
  let window ← PageWindow.ofParams (p.single? "page") (p.single? "limit") paging
  return ⟨filter, sort, projection, window⟩

variable {σ : Type} [Storage σ]

/-- Reads the page; a storage that returns more is cut. -/
def fetch (q : QueryPlan) : Action σ (List Record) := do
  let items ← Storage.find q.filter q.sort q.projection q.window.offset q.window.limit
  return items.take q.window.limit

/-- Counts all records that the filter accepts. -/
def count (q : QueryPlan) : Action σ Nat := Storage.count q.filter

/-- Reads the page, then counts. -/
def execute (q : QueryPlan) : Action σ Page := do
  let items ← q.fetch
  let total ← q.count
  return ⟨items, total, q.window.standing total⟩

end QueryPlan

end Shelf
