import Shelf.Plan
import Shelf.Proofs.Arrival

/-!
Parameters that differ in one of them.

A reserved parameter shapes the listing and filters nothing, so writing one changes neither what is
filtered by nor what the other parameters say. Parameters that are alike but for one say the same
about every other one.
-/

namespace Shelf

namespace Params

variable {name other : String}

theorem get?_insert_self (p : Params) (name text : String) :
    (p.insert name text).get? name = some (.single text) := Arrival.lookup_put_self ..

theorem get?_insert_of_ne (h : other ≠ name) (p : Params) (text : String) :
    (p.insert name text).get? other = p.get? other := Arrival.lookup_put_of_ne h ..

/-- Parameters with the same entries under every other name, in the same order. -/
def AlikeBut (name : String) (p q : Params) : Prop :=
  p.entries.filter (·.1 ≠ name) = q.entries.filter (·.1 ≠ name)

/-- Writing over the one parameter. -/
theorem alikeBut_insert (name text : String) (p : Params) :
    AlikeBut name (p.insert name text) p :=
  Arrival.filter_put (fun n => n ≠ name) (by simp) _ p.entries

/-- Leaving the one parameter out. -/
theorem alikeBut_without (name : String) (p : Params) :
    AlikeBut name ⟨p.entries.filter (·.1 ≠ name)⟩ p := by
  rw [AlikeBut, List.filter_filter]
  simp

namespace AlikeBut

variable {p q : Params}

theorem get? (hpq : AlikeBut name p q) (h : other ≠ name) : p.get? other = q.get? other := by
  rw [Params.get?, Params.get?, ← Arrival.lookup_filter_ne h, hpq,
    Arrival.lookup_filter_ne h]

theorem single? (hpq : AlikeBut name p q) (h : other ≠ name) :
    p.single? other = q.single? other := by
  rw [Params.single?, Params.single?, hpq.get? h]

theorem filters (hpq : AlikeBut name p q) (h : name ∈ reservedParams) : p.filters = q.filters := by
  have hstep : ∀ r : Params,
      r.filters = (r.entries.filter (·.1 ≠ name)).filter (!reservedParams.contains ·.1) := by
    intro r
    rw [Params.filters, List.filter_filter]
    refine List.filter_congr fun e _ => ?_
    by_cases he : e.1 = name
    · simp [he, h]
    · simp [he]
  rw [hstep p, hstep q, hpq]

end AlikeBut

end Params

end Shelf
