import Mathlib.Data.List.Basic
import Shelf.Patch

/-!
What a patch leaves alone.

An update writes to its target and to no other field, whether it succeeds or fails, and it never
touches the identifier. So a run of updates leaves every field that none of them targets, and a run
that succeeds has targeted neither the identifier nor the version.
-/

namespace Shelf

/-- A field that is neither the identifier nor the version may be written. -/
theorem isPatchable_of_ne {field : String} (hid : field ≠ idField)
    (hversion : field ≠ versionField) : isPatchable field = true := by
  rw [isPatchable, bne_iff_ne.2 hid, bne_iff_ne.2 hversion]
  rfl

/-- A record of which only certain fields differ from another one, at most. -/
structure Record.Agrees (fields : List String) (r w : Record) : Prop where
  id : w.id = r.id
  frame : ∀ f, f ∉ fields → w.fields.get? f = r.fields.get? f

namespace Record.Agrees

variable {fields more : List String} {r w v : Record}

theorem refl (fields : List String) (r : Record) : r.Agrees fields r := ⟨rfl, fun _ _ => rfl⟩

theorem mono (h : r.Agrees fields w) (hsub : fields ⊆ more) : r.Agrees more w :=
  ⟨h.id, fun f hf => h.frame f fun hin => hf (hsub hin)⟩

theorem trans (h : r.Agrees fields w) (h' : w.Agrees fields v) : r.Agrees fields v :=
  ⟨h'.id.trans h.id, fun f hf => (h'.frame f hf).trans (h.frame f hf)⟩

/-- Writing a field. -/
theorem set (r : Record) (field : String) (value : Json) :
    r.Agrees [field] (r.set field value) := by
  refine ⟨rfl, fun f hf => ?_⟩
  exact Fields.get?_insert_of_ne (fun heq => hf (List.mem_singleton.2 heq)) value r.fields

theorem withList (r : Record) (field : String) : r.Agrees [field] (r.withList field) := by
  rw [Record.withList]
  split
  · exact set r field _
  · exact set r field _
  · exact refl [field] r

theorem patchList (r : Record) (field : String) (change : List Json → List Json) :
    r.Agrees [field] (r.patchList field change).1 := by
  rw [Record.patchList]
  cases r.list field with
  | ok xs => exact set r field _
  | error e => exact refl [field] r

theorem patchPull (r : Record) (field : String) (value : Json) :
    r.Agrees [field] (r.patchPull field value).1 := by
  rw [Record.patchPull]
  cases r.get? field with
  | none => exact refl [field] r
  | some v => exact patchList r field _

theorem patchMatched (r : Record) (list : String) (criteria members : Fields) :
    r.Agrees [list] (r.patchMatched list criteria members).1 := by
  rw [Record.patchMatched]
  cases r.list list with
  | error e => exact refl [list] r
  | ok xs =>
    cases hfirst : overrideFirst? criteria members xs with
    | some ys =>
      simp only [hfirst]
      exact set r list _
    | none =>
      simp only [hfirst]
      exact withList r list

end Record.Agrees

/-- An update writes to its target alone. -/
theorem FieldUpdate.agrees_apply (u : FieldUpdate) (matched : Option Filter) (r : Record) :
    r.Agrees [u.target] (u.apply matched r).1 := by
  unfold FieldUpdate.apply
  split
  · cases u with
    | set field value => exact .set r field value
    | push field value => exact .patchList r field _
    | pull field value => exact .patchPull r field value
    | setMatched list members =>
      cases hcriteria : matched.bind (·.elementCriteria? list) with
      | none =>
        simp only [hcriteria]
        exact .refl [list] r
      | some criteria =>
        simp only [hcriteria]
        exact .patchMatched r list criteria members
  · exact .refl [u.target] r

theorem FieldUpdate.isPatchable_of_apply {u : FieldUpdate} {matched : Option Filter}
    {r w : Record} (h : u.apply matched r = (w, .ok ())) : isPatchable u.target = true := by
  unfold FieldUpdate.apply at h
  split at h
  · next hpatchable => exact hpatchable
  · cases h

namespace Patch

/-- The fields that a patch writes to. -/
def targets (p : Patch) : List String := p.updates.map FieldUpdate.target

theorem agrees_run (matched : Option Filter) : ∀ (us : List FieldUpdate) (r : Record),
    r.Agrees (us.map FieldUpdate.target) (run matched r us).1
  | [],      r => .refl [] r
  | u :: us, r => by
    have hone : r.Agrees (u.target :: us.map FieldUpdate.target) (u.apply matched r).1 :=
      (u.agrees_apply matched r).mono (List.cons_subset_cons _ (List.nil_subset _))
    rw [run]
    split
    · next w hu =>
      rw [hu] at hone
      exact hone.trans ((agrees_run matched us w).mono (List.subset_cons_self _ _))
    · exact hone

theorem isPatchable_of_run {matched : Option Filter} : ∀ {us : List FieldUpdate} {r w : Record},
    run matched r us = (w, .ok ()) → ∀ u ∈ us, isPatchable u.target = true
  | u :: us, r, w, h, v, hv => by
    rw [run] at h
    split at h
    · next t hu =>
      rcases List.mem_cons.1 hv with rfl | hv
      · exact FieldUpdate.isPatchable_of_apply hu
      · exact isPatchable_of_run h v hv
    · next hfailed => exact absurd h (hfailed w)

/-- A patch that succeeds writes to fields that may be written. -/
theorem isPatchable_of_applied {p : Patch} {matched : Option Filter} {r w : Record}
    (h : p.applied matched r = .ok w) {f : String} (hf : f ∈ p.targets) : isPatchable f = true := by
  rw [applied] at h
  split at h
  · next t hrun =>
    obtain ⟨u, hu, rfl⟩ := List.mem_map.1 hf
    exact isPatchable_of_run hrun u hu
  · cases h

/-- A patch that succeeds changes its targets alone, and the version is none of them. -/
theorem agrees_of_applied {p : Patch} {matched : Option Filter} {r w : Record}
    (h : p.applied matched r = .ok w) : r.Agrees p.targets w ∧ versionField ∉ p.targets := by
  have hversion : versionField ∉ p.targets := fun hin =>
    absurd (isPatchable_of_applied h hin) (by decide)
  rw [applied] at h
  split at h
  · next t hrun =>
    cases h
    have hagrees := agrees_run matched p.updates r
    rw [show run matched r p.updates = (w, .ok ()) from hrun] at hagrees
    exact ⟨hagrees, hversion⟩
  · cases h

end Patch

end Shelf
