import Shelf.Proofs.Patch
import Shelf.Proofs.Uuid

/-!
Where a patch stops.

A patch goes on until an update fails. What it leaves then is what the updates before that one leave
as a patch of their own. The failing update adds nothing to it, but for one thing: a field that it
wanted as a list, and that was absent or null, is there as an empty list.

    updates    set title "b"      push tags "x"         write matched lines     set note "n"
    record     title: "b"         tags: ["x"]           lines: []               (not reached)
                                                        no element matched
-/

namespace Shelf

/-! ### One update -/

/-- What a failing update makes of a record: the record itself, or one with an empty list in a field
that was absent or null. -/
inductive LeftBehind (field : String) (r : Record) : Record → Prop
  | unchanged : LeftBehind field r r
  | absent (h : r.fields.get? field = none) : LeftBehind field r (r.set field (.array []))
  | null (h : r.fields.get? field = some .null) : LeftBehind field r (r.set field (.array []))

namespace Record

variable {r w : Record} {e : Corruption}

theorem leftBehind_withList (r : Record) (field : String) :
    LeftBehind field r (r.withList field) := by
  cases h : r.fields.get? field with
  | none =>
    rw [withList, h]
    exact .absent h
  | some v =>
    cases v with
    | null =>
      rw [withList, h]
      exact .null h
    | _ =>
      rw [withList, h]
      exact .unchanged

theorem eq_of_patchList_error {field : String} {change : List Json → List Json}
    (h : r.patchList field change = (w, .error e)) : w = r := by
  rw [patchList] at h
  split at h <;> cases h
  rfl

theorem eq_of_patchPull_error {field : String} {value : Json}
    (h : r.patchPull field value = (w, .error e)) : w = r := by
  rw [patchPull] at h
  split at h
  · cases h
  · exact eq_of_patchList_error h

theorem leftBehind_of_patchMatched {list : String} {criteria members : Fields}
    (h : r.patchMatched list criteria members = (w, .error e)) : LeftBehind list r w := by
  rw [patchMatched] at h
  split at h
  · cases h
    exact .unchanged
  · split at h
    · cases h
    · cases h
      exact leftBehind_withList r list

end Record

namespace FieldUpdate

variable {u : FieldUpdate} {matched : Option Filter} {r w : Record} {e : Corruption}

/-- An update of a field that may not be written fails and changes nothing. -/
theorem apply_of_not_isPatchable (h : isPatchable u.target = false) (matched : Option Filter)
    (r : Record) : u.apply matched r = (r, .error (.unpatchable u.target)) := by
  unfold apply
  rw [h, if_neg Bool.false_ne_true]

/-- A field that may not be written is never written. -/
theorem get?_apply_of_not_isPatchable (u : FieldUpdate) (matched : Option Filter) (r : Record)
    {f : String} (hf : isPatchable f = false) :
    (u.apply matched r).1.fields.get? f = r.fields.get? f := by
  cases h : isPatchable u.target with
  | false => rw [apply_of_not_isPatchable h]
  | true =>
    refine (u.agrees_apply matched r).frame f fun hin => ?_
    rw [List.mem_singleton.1 hin, h] at hf
    cases hf

theorem leftBehind_of_apply (h : u.apply matched r = (w, .error e)) :
    LeftBehind u.target r w := by
  unfold apply at h
  split at h
  · cases u with
    | set field value => cases h
    | push field value =>
      rw [Record.eq_of_patchList_error h]
      exact .unchanged
    | pull field value =>
      rw [Record.eq_of_patchPull_error h]
      exact .unchanged
    | setMatched list members =>
      dsimp only at h
      split at h
      · exact Record.leftBehind_of_patchMatched h
      · cases h
        exact .unchanged
  · cases h
    exact .unchanged

end FieldUpdate

/-! ### Updates in sequence -/

namespace Patch

variable {u : FieldUpdate} {us : List FieldUpdate} {matched : Option Filter} {r w : Record}
  {e : Corruption}

theorem run_cons_of_ok (h : u.apply matched r = (w, .ok ())) :
    run matched r (u :: us) = run matched w us := by
  rw [run, h]

theorem run_cons_of_error (h : u.apply matched r = (w, .error e)) :
    run matched r (u :: us) = (w, .error e) := by
  rw [run, h]

/-- A run that fails does so at the first update that fails on what those before it have made. -/
theorem run_eq_error_iff : ∀ {us : List FieldUpdate} {r : Record},
    run matched r us = (w, .error e) ↔ ∃ before u after v, us = before ++ u :: after ∧
      run matched r before = (v, .ok ()) ∧ u.apply matched v = (w, .error e)
  | [],      r => by
    refine iff_of_false nofun ?_
    rintro ⟨before, u, after, v, h, -⟩
    simp at h
  | u :: us, r => by
    constructor
    · intro h
      rcases hu : u.apply matched r with ⟨t, d | ⟨⟩⟩
      · rw [run_cons_of_error hu] at h
        exact ⟨[], u, us, r, rfl, rfl, hu.trans h⟩
      · rw [run_cons_of_ok hu] at h
        obtain ⟨before, x, after, v, rfl, hbefore, hx⟩ := run_eq_error_iff.1 h
        exact ⟨u :: before, x, after, v, rfl, (run_cons_of_ok hu).trans hbefore, hx⟩
    · rintro ⟨_ | ⟨y, before⟩, x, after, v, h, hbefore, hx⟩
      · obtain ⟨rfl, rfl⟩ := List.cons.inj h
        cases hbefore
        exact run_cons_of_error hx
      · obtain ⟨rfl, rfl⟩ := List.cons.inj h
        rcases hu : u.apply matched r with ⟨t, d | ⟨⟩⟩
        · rw [run_cons_of_error hu] at hbefore
          cases hbefore
        · rw [run_cons_of_ok hu] at hbefore
          rw [run_cons_of_ok hu]
          exact run_eq_error_iff.2 ⟨before, x, after, v, rfl, hbefore, hx⟩

/-- A field that may not be written is as it was after any run, failed or not. -/
theorem get?_run_of_not_isPatchable {f : String} (hf : isPatchable f = false) :
    ∀ (us : List FieldUpdate) (r : Record),
      (run matched r us).1.fields.get? f = r.fields.get? f
  | [],      _ => rfl
  | u :: us, r => by
    have hone := u.get?_apply_of_not_isPatchable matched r hf
    rcases hu : u.apply matched r with ⟨t, d | ⟨⟩⟩
    · rw [run_cons_of_error hu, ← hone, hu]
    · rw [run_cons_of_ok hu, get?_run_of_not_isPatchable hf us t, ← hone, hu]

/-- How a patch ends on a record, and what of the record it cannot touch. -/
structure Stops (p : Patch) (matched : Option Filter) (r : Record) : Prop where
  id : (p.apply matched r).1.id = r.id
  version : (p.apply matched r).1.fields.get? versionField = r.fields.get? versionField
  frame : ∀ f, f ∉ p.targets → (p.apply matched r).1.fields.get? f = r.fields.get? f
  failed : ∀ w e, p.apply matched r = (w, .error e) → ∃ before u after v,
    p.updates = before ++ u :: after ∧ (Patch.mk before).apply matched r = (v, .ok ()) ∧
      u.apply matched v = (w, .error e) ∧ LeftBehind u.target v w
  first : ∀ before u after v w e, p.updates = before ++ u :: after →
    (Patch.mk before).apply matched r = (v, .ok ()) → u.apply matched v = (w, .error e) →
      p.apply matched r = (w, .error e)
  owned : ∀ u ∈ p.updates, u.target = idField ∨ u.target = versionField →
    ∃ w e, p.apply matched r = (w, .error e)

/-- A patch stops at its first failing update, and the identifier and the version are out of its
reach. -/
theorem stops_apply (p : Patch) (matched : Option Filter) (r : Record) : p.Stops matched r where
  id := (agrees_run matched p.updates r).id
  version := get?_run_of_not_isPatchable (by decide) p.updates r
  frame := (agrees_run matched p.updates r).frame
  failed w e h := by
    obtain ⟨before, u, after, v, hupdates, hbefore, hu⟩ := run_eq_error_iff.1 h
    exact ⟨before, u, after, v, hupdates, hbefore, hu, FieldUpdate.leftBehind_of_apply hu⟩
  first before u after v w e hupdates hbefore hu :=
    run_eq_error_iff.2 ⟨before, u, after, v, hupdates, hbefore, hu⟩
  owned u hu howned := by
    rcases hrun : p.apply matched r with ⟨w, e | ⟨⟩⟩
    · exact ⟨w, e, rfl⟩
    · -- All updates of a run that succeeds are of fields that may be written.
      have hpatchable := isPatchable_of_run hrun u hu
      rcases howned with howned | howned <;> rw [howned] at hpatchable <;> cases hpatchable

example :
    let r : Record := ⟨.uniform 1, [("lines", .null)]⟩
    let matched : Filter := (Filter.byId r.id).and "lines" (.elementMatch [("k", .int 1)])
    let p : Patch := ⟨[.set "title" (.string "b"), .setMatched "lines" [("n", .int 2)],
      .set "note" (.string "n")]⟩
    p.apply matched r = (⟨.uniform 1, [("lines", .array []), ("title", .string "b")]⟩,
      .error (.noElementMatched "lines")) := rfl

end Patch

end Shelf
