import Shelf.Proofs.Mean
import Shelf.Proofs.Service

/-!
Changes to stored records and to records apart from any storage.

A change through the service is the same change on the record alone, and then a version and a time:
it is answered with that record, which is then the one stored, or with the same error. One case is
different. A write under a key finds the entry by a filter, and where the filter overlooks an entry
that the plan has seen, the record is reported as not found.
-/

namespace Shelf

open Memory (Yields)

/-- A failure because of stored data, as it is reported. -/
abbrev ofStored {α : Type} (x : Except Corruption α) : Except Error α :=
  x.mapError (.storage ∘ .integrity)

theorem map_ofStored {α β : Type} (f : α → β) (x : Except Corruption α) :
    (ofStored x).map f = ofStored (x.map f) := by
  cases x <;> rfl

theorem eq_integrity_of_ofStored {α : Type} {x : Except Corruption α} {e : Error}
    (h : ofStored x = .error e) : ∃ cause, e = .storage (.integrity cause) := by
  cases x with
  | ok a => cases h
  | error cause =>
    cases h
    exact ⟨cause, rfl⟩

namespace KeyedList

variable {m : Memory} {id : Uuid} {l : KeyedList} {r : Record} {key : Fields}

/-- The filter for an entry that is not overlooked accepts the record of the entry alone. -/
theorem accepts_matcher_eq (hm : m.ids.Nodup) (hfind : m.findById id = some r)
    (haccepts : (l.matcher r key).accepts r = true) :
    ∀ q ∈ m.records, (l.matcher r key).accepts q = decide (q.id = id) := by
  obtain ⟨hr, rfl⟩ := Memory.mem_of_findById hfind
  intro q hq
  by_cases hid : q.id = r.id
  · rw [decide_eq_true hid, List.inj_on_of_nodup_map hm hq hr hid, haccepts]
  · rw [decide_eq_false hid, Bool.eq_false_iff]
    exact fun hother => hid (Filter.id_eq_of_accepts hother)

/-- The filter for an entry that is overlooked accepts nothing. -/
theorem accepts_matcher_eq_false (hm : m.ids.Nodup) (hfind : m.findById id = some r)
    (hmissed : (l.matcher r key).accepts r = false) :
    ∀ q ∈ m.records, (l.matcher r key).accepts q = false := by
  obtain ⟨hr, rfl⟩ := Memory.mem_of_findById hfind
  intro q hq
  cases hother : (l.matcher r key).accepts q with
  | false => rfl
  | true =>
    rw [List.inj_on_of_nodup_map hm hq hr (Filter.id_eq_of_accepts hother), hmissed] at hother
    cases hother

theorem not_overlooks_ratings (r : Record) (key : Fields) : ¬ ratings.Overlooks r key :=
  not_overlooks_of_undotted (by decide) fun h => absurd h (by decide)

end KeyedList

namespace Service

variable {m : Memory} {id : Uuid} {r : Record} {now : String}

/-- Submitting an update whose test accepts the stored record alone. -/
theorem yields_submit (hfind : m.findById id = some r) {test : Record → Bool}
    (htest : ∀ q ∈ m.records, test q = decide (q.id = id)) {p : Patch} {matched : Option Filter}
    {act : Action Memory (Option Record)} (hact : act.runOn m = m.update now test p matched)
    (s : Service) :
    Yields id (ofStored ((p.applied matched r).map (·.rewritten (r.version + 1) now)))
      ((act >>= s.orNotFound id).runOn m) := by
  have hupdate := Memory.update_stored hfind now p matched
  rw [← Memory.update_congr htest, ← hact, Record.commit_eq] at hupdate
  cases hchange : (p.applied matched r).map (·.rewritten (r.version + 1) now) with
  | error e =>
    rw [hchange] at hupdate
    rw [Action.runOn_bind_error hupdate]
    exact .error id _ m
  | ok w =>
    rw [hchange] at hupdate
    obtain ⟨t, hrun, hstored⟩ := hupdate
    rw [Action.runOn_bind_ok hrun]
    refine ⟨rfl, fun v hv => ?_⟩
    cases hv
    exact hstored

theorem yields_updateById (hfind : m.findById id = some r) (p : Patch) (s : Service) :
    Yields id (ofStored ((p.applied none r).map (·.rewritten (r.version + 1) now)))
      (((Storage.updateById now id p : Action Memory _) >>= s.orNotFound id).runOn m) :=
  yields_submit hfind (fun _ _ => rfl) rfl s

theorem yields_toggle (hfind : m.findById id = some r) (s : Service) (now : String)
    (actor : Uuid) (side : Side) :
    Yields id (ofStored ((s.toggles.apply r actor.text side).map
      (·.rewritten (r.version + 1) now))) ((s.toggle now id actor side).runOn m) := by
  rw [toggle, Action.runOn_bind_ok (runOn_get_some hfind s), TogglePair.apply]
  cases s.toggles.plan r actor.text side with
  | error e => exact .error id _ m
  | ok t => exact yields_updateById hfind t.patch s

/-! ### Keyed lists -/

variable {l : KeyedList} {key payload : Fields}

theorem yields_upsertEntry (hm : m.ids.Nodup) (hfind : m.findById id = some r)
    (hseen : ¬ l.Overlooks r key) (s : Service) (now : String) (payload : Fields) :
    Yields id ((l.apply r key payload).map (·.rewritten (r.version + 1) now))
      ((s.upsertEntry now id l key payload).runOn m) := by
  rw [upsertEntry, Action.runOn_bind_ok (runOn_get_some hfind s), KeyedList.apply]
  cases hplan : l.plan r key payload with
  | error e => exact .error id _ m
  | ok p =>
    rw [Action.runOn_bind_ok (Action.runOn_ofExcept_ok p m)]
    obtain ⟨-, place, hplace, rfl⟩ := KeyedList.plan_eq_ok_iff.1 hplan
    change Yields id ((ofStored (Patch.applied _ _ r)).map _) _
    rw [map_ofStored]
    cases place with
    | none => exact yields_updateById hfind _ s
    | some i =>
      have haccepts : (l.matcher r key).accepts r = true := by
        by_contra hmissed
        exact hseen ⟨KeyedList.any_of_position hplace, mt KeyedList.accepts_matcher_iff.2 hmissed⟩
      exact yields_submit hfind (KeyedList.accepts_matcher_eq hm hfind haccepts) rfl s

/-- An entry that is overlooked makes its record one that is not found. -/
theorem runOn_upsertEntry_overlooked (hm : m.ids.Nodup) (hfind : m.findById id = some r)
    (hcheck : l.check key payload = .ok ()) (hmissed : l.Overlooks r key) (s : Service)
    (now : String) : (s.upsertEntry now id l key payload).runOn m =
      (.error (.notFound s.collection.name id), m) := by
  obtain ⟨⟨xs, hxs, hany⟩, hnone⟩ := hmissed
  rw [← KeyedList.accepts_matcher_iff, Bool.not_eq_true] at hnone
  rw [← List.findIdx?_isSome] at hany
  obtain ⟨i, hi⟩ := Option.isSome_iff_exists.1 hany
  rw [upsertEntry, Action.runOn_bind_ok (runOn_get_some hfind s),
    KeyedList.plan_of_check hcheck hxs, hi, Action.runOn_bind_ok (Action.runOn_ofExcept_ok _ m)]
  have hupdate : (Storage.updateFirst now (l.matcher r key) (.one (.setMatched l.field payload)) :
      Action Memory (Option Record)).runOn m = (.ok none, m) := by
    change m.update now (l.matcher r key).accepts _ _ = _
    rw [Memory.update, changeFirst_of_forall (KeyedList.accepts_matcher_eq_false hm hfind hnone)]
  exact Action.runOn_bind_ok hupdate

variable {rating : Rating}

theorem runOn_enterRating (hcheck : rating.check = .ok ()) (s : Service) (now : String)
    (id : Uuid) (m : Memory) : (s.enterRating now id rating).runOn m =
      (s.upsertEntry now id .ratings rating.key rating.payload).runOn m := by
  rw [enterRating, hcheck, Action.runOn_bind_ok (Action.runOn_ofRejection_ok () m)]

theorem yields_enterRating (hm : m.ids.Nodup) (hfind : m.findById id = some r)
    (hcheck : rating.check = .ok ()) (s : Service) (now : String) :
    Yields id ((KeyedList.ratings.apply r rating.key rating.payload).map
      (·.rewritten (r.version + 1) now)) ((s.enterRating now id rating).runOn m) := by
  rw [runOn_enterRating hcheck]
  exact yields_upsertEntry hm hfind (KeyedList.not_overlooks_ratings r rating.key) s now
    rating.payload

theorem yields_storeMean (hfind : m.findById id = some r) (s : Service) (now : String) :
    Yields id (ofStored ((StoredMean.ratings.recompute r).map (·.rewritten (r.version + 1) now)))
      ((s.storeMean now id r).runOn m) := by
  rw [storeMean, StoredMean.recompute]
  cases StoredMean.ratings.patch r with
  | error e => exact .error id _ m
  | ok p => exact yields_updateById hfind p s

/-- A rating and the mean after it, on the record alone. -/
def rateDetached (r : Record) (rating : Rating) : Except Error Record := do
  let rated ← KeyedList.ratings.apply r rating.key rating.payload
  ofStored (StoredMean.ratings.recompute rated)

theorem yields_rate (hm : m.ids.Nodup) (hfind : m.findById id = some r)
    (hcheck : rating.check = .ok ()) (s : Service) (now : String) :
    Yields id ((rateDetached r rating).map (·.rewritten (r.version + 2) now))
      ((s.rate now id rating).runOn m) := by
  have hentry := yields_enterRating hm hfind hcheck s now
  rw [runOn_rate, Action.runOn_bind, rateDetached]
  generalize (s.enterRating now id rating).runOn m = out at hentry ⊢
  obtain ⟨answer, t⟩ := out
  obtain ⟨rfl, hstored⟩ := hentry
  cases happly : KeyedList.ratings.apply r rating.key rating.payload with
  | error e => exact .error id e t
  | ok d =>
    have hrated : t.findById id = some (d.rewritten (r.version + 1) now) :=
      hstored _ (by rw [happly]; rfl)
    have hmean := yields_storeMean hrated s now
    rw [StoredMean.recompute_rewritten (by decide) (by decide) (by decide),
      Record.version_rewritten] at hmean
    change Yields id ((ofStored (StoredMean.ratings.recompute d)).map _)
      ((s.storeMean now id _).runOn t)
    -- The version and the time of the first write are gone after the second.
    have hlast : (ofStored (StoredMean.ratings.recompute d)).map
          (·.rewritten (r.version + 2) now) =
        ofStored (((StoredMean.ratings.recompute d).map (·.rewritten (r.version + 1) now)).map
          (·.rewritten (r.version + 1 + 1) now)) := by
      cases StoredMean.ratings.recompute d with
      | error e => rfl
      | ok w => exact congrArg Except.ok (w.rewritten_rewritten _ _ now now).symm
    rw [hlast]
    exact hmean

end Service

end Shelf
