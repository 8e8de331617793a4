import Shelf.Proofs.Service.Detached
import Shelf.Proofs.Session

/-!
When a record is reported as not found.

An operation on one record reports it as not found when nothing is stored under the identifier; the
operations that check their input first do so only for input that passes. There is one more case,
for a record that is there: a write under a key whose entry the filter overlooks. No entry of a list
is overlooked if its name is neither a path nor the identifier's, so carts and ratings are safe.

    call                      stored          not stored
    get, membership, toggle   found           not found
    cart, rate                found           not found, if the input passes
    entry                     found, unless   not found
                              overlooked
-/

namespace Shelf

/-- The answer that a record is not found. -/
inductive IsNotFound {α : Type} : Except Error α → Prop
  | intro (collection : String) (id : Uuid) : IsNotFound (.error (.notFound collection id))

section Answers

variable {α β : Type}

theorem not_isNotFound_ok (a : α) : ¬ IsNotFound (.ok a) := by
  intro h
  cases h

theorem not_isNotFound_rejected (cause : Rejection) :
    ¬ IsNotFound (.error (.rejected cause) : Except Error α) := by
  intro h
  cases h

theorem not_isNotFound_storage (fault : StorageFault) :
    ¬ IsNotFound (.error (.storage fault) : Except Error α) := by
  intro h
  cases h

theorem IsNotFound.of_map {f : α → β} {x : Except Error α} (h : IsNotFound (x.map f)) :
    IsNotFound x := by
  cases x with
  | ok a => cases h
  | error e =>
    cases h
    exact .intro ..

theorem not_isNotFound_ofStored (x : Except Corruption α) : ¬ IsNotFound (ofStored x) := by
  cases x with
  | ok a => exact not_isNotFound_ok a
  | error e => exact not_isNotFound_storage _

end Answers

/-! ### Changes to the record alone -/

/-- A record that is at hand is never reported as not found. -/
theorem KeyedList.not_isNotFound_apply (l : KeyedList) (r : Record) (key payload : Fields) :
    ¬ IsNotFound (l.apply r key payload) := by
  rw [apply, plan]
  cases l.check key payload with
  | error e => exact not_isNotFound_rejected e
  | ok u =>
    cases l.position r key with
    | error e => exact not_isNotFound_storage _
    | ok place => exact not_isNotFound_ofStored (Patch.applied _ _ r)

theorem Service.not_isNotFound_rateDetached (r : Record) (rating : Rating) :
    ¬ IsNotFound (rateDetached r rating) := by
  have hentry := KeyedList.ratings.not_isNotFound_apply r rating.key rating.payload
  rw [rateDetached]
  cases happly : KeyedList.ratings.apply r rating.key rating.payload with
  | error e =>
    rw [happly] at hentry
    intro h
    cases h
    exact hentry (.intro ..)
  | ok rated => exact not_isNotFound_ofStored _

/-- An operation that answers as a change to the record alone does. -/
theorem Memory.Yields.not_isNotFound {id : Uuid} {version : Nat} {now : String}
    {x : Except Error Record} {out : Except Error Record × Memory}
    (h : Yields id (x.map (·.rewritten version now)) out) (hx : ¬ IsNotFound x) :
    ¬ IsNotFound out.1 := by
  rw [h.answered]
  exact fun hout => hx hout.of_map

/-! ### Operations -/

namespace Service

variable {m : Memory} {id : Uuid}

/-- Whatever starts with the record reports it as not found when it is not stored. -/
theorem isNotFound_of_unstored {α : Type} (h : m.findById id = none) (s : Service)
    (next : Record → Action Memory α) : IsNotFound ((s.get id >>= next).runOn m).1 := by
  rw [Action.runOn_bind_error (runOn_get_none h s)]
  exact .intro ..

/-- An answer that depends on whether the record is stored, and on nothing else. -/
theorem isNotFound_iff_of_findById {α : Type} {answer : Except Error α}
    (hnone : m.findById id = none → IsNotFound answer)
    (hsome : ∀ r, m.findById id = some r → ¬ IsNotFound answer) :
    IsNotFound answer ↔ id ∉ m.ids := by
  cases hfind : m.findById id with
  | none => exact iff_of_true (hnone hfind) (Memory.not_mem_of_findById hfind)
  | some r =>
    obtain ⟨hr, rfl⟩ := Memory.mem_of_findById hfind
    exact iff_of_false (hsome r hfind) (not_not_intro (List.mem_map_of_mem hr))

theorem isNotFound_get_iff (s : Service) (id : Uuid) (m : Memory) :
    IsNotFound ((s.get id : Action Memory Record).runOn m).1 ↔ id ∉ m.ids := by
  refine isNotFound_iff_of_findById (fun h => ?_) fun r h => ?_
  · rw [runOn_get_none h]
    exact .intro ..
  · rw [runOn_get_some h]
    exact not_isNotFound_ok r

theorem isNotFound_membership_iff (s : Service) (id actor : Uuid) (m : Memory) :
    IsNotFound ((s.membership id actor).runOn m).1 ↔ id ∉ m.ids := by
  refine isNotFound_iff_of_findById (fun h => isNotFound_of_unstored h s _) fun r h => ?_
  rw [membership, Action.runOn_bind_ok (runOn_get_some h s)]
  cases s.toggles.membership r actor.text with
  | ok place => exact not_isNotFound_ok place
  | error e => exact not_isNotFound_storage _

theorem isNotFound_toggle_iff (s : Service) (now : String) (id actor : Uuid) (side : Side)
    (m : Memory) : IsNotFound ((s.toggle now id actor side).runOn m).1 ↔ id ∉ m.ids := by
  refine isNotFound_iff_of_findById (fun h => isNotFound_of_unstored h s _) fun r h => ?_
  rw [(yields_toggle h s now actor side).answered]
  exact not_isNotFound_ofStored _

/-- An entry of a stored record is written, or it is overlooked. -/
theorem isNotFound_upsertEntry_iff (hm : m.ids.Nodup) (s : Service) (now : String) (id : Uuid)
    (l : KeyedList) (key payload : Fields) :
    IsNotFound ((s.upsertEntry now id l key payload).runOn m).1 ↔
      id ∉ m.ids ∨
        ∃ r ∈ m.records, r.id = id ∧ l.check key payload = .ok () ∧ l.Overlooks r key := by
  cases hfind : m.findById id with
  | none =>
    exact iff_of_true (isNotFound_of_unstored hfind s _) (.inl (Memory.not_mem_of_findById hfind))
  | some r =>
    obtain ⟨hr, hid⟩ := Memory.mem_of_findById hfind
    by_cases hmissed : l.check key payload = .ok () ∧ l.Overlooks r key
    · rw [runOn_upsertEntry_overlooked hm hfind hmissed.1 hmissed.2]
      exact iff_of_true (.intro ..) (.inr ⟨r, hr, hid, hmissed⟩)
    · refine iff_of_false ?_ ?_
      · cases hcheck : l.check key payload with
        | error e =>
          rw [upsertEntry, Action.runOn_bind_ok (runOn_get_some hfind s), KeyedList.plan, hcheck]
          exact not_isNotFound_rejected e
        | ok u =>
          have hseen : ¬ l.Overlooks r key := fun h => hmissed ⟨hcheck, h⟩
          exact (yields_upsertEntry hm hfind hseen s now payload).not_isNotFound
            (l.not_isNotFound_apply r key payload)
      · rintro (h | ⟨q, hq, hsame, h⟩)
        · exact h (hid ▸ List.mem_map_of_mem hr)
        · rw [List.inj_on_of_nodup_map hm hq hr (hsame.trans hid.symm)] at h
          exact hmissed h

/-- No entry of a list is overlooked whose name is neither a path nor the identifier's. -/
theorem isNotFound_upsertEntry_iff_of_undotted (hm : m.ids.Nodup) {l : KeyedList}
    (hdot : '.' ∉ l.field.toList) (hid : l.field ≠ idField) (s : Service) (now : String)
    (id : Uuid) (key payload : Fields) :
    IsNotFound ((s.upsertEntry now id l key payload).runOn m).1 ↔ id ∉ m.ids := by
  rw [isNotFound_upsertEntry_iff hm]
  refine or_iff_left ?_
  rintro ⟨r, -, -, -, hmissed⟩
  exact KeyedList.not_overlooks_of_undotted hdot (fun h => absurd h hid) hmissed

/-- An operation that checks its input first. -/
theorem isNotFound_checked_iff {check : Except Rejection Unit} {next : Unit → Action Memory Record}
    (h : check = .ok () → (IsNotFound ((next ()).runOn m).1 ↔ id ∉ m.ids)) :
    IsNotFound ((Action.ofRejection check >>= next).runOn m).1 ↔
      check = .ok () ∧ id ∉ m.ids := by
  cases check with
  | error e =>
    refine iff_of_false (not_isNotFound_rejected e) ?_
    rintro ⟨hcheck, -⟩
    cases hcheck
  | ok u => rw [Action.runOn_bind_ok (Action.runOn_ofRejection_ok u m), h rfl, eq_self, true_and]

theorem isNotFound_updateCart_iff (hm : m.ids.Nodup) (s : Service) (now : String) (id : Uuid)
    (line : CartLine) :
    IsNotFound ((s.updateCart now id line).runOn m).1 ↔ line.check = .ok () ∧ id ∉ m.ids := by
  have hcart : KeyedList.cart.field ≠ idField := by decide
  exact isNotFound_checked_iff fun _ =>
    isNotFound_upsertEntry_iff_of_undotted hm (by decide) hcart s now id line.key line.payload

theorem isNotFound_rate_iff (hm : m.ids.Nodup) (s : Service) (now : String) (id : Uuid)
    (rating : Rating) :
    IsNotFound ((s.rate now id rating).runOn m).1 ↔ rating.check = .ok () ∧ id ∉ m.ids := by
  refine isNotFound_checked_iff fun hcheck => ?_
  refine isNotFound_iff_of_findById (fun h => ?_) fun r h => ?_
  · have hentry : (s.upsertEntry now id .ratings rating.key rating.payload).runOn m =
        (.error (.notFound s.collection.name id), m) :=
      Action.runOn_bind_error (runOn_get_none h s)
    rw [Action.runOn_bind_error hentry]
    exact .intro ..
  · have hyields := yields_rate hm h hcheck s now
    rw [rate, hcheck, Action.runOn_bind_ok (Action.runOn_ofRejection_ok () m)] at hyields
    exact hyields.not_isNotFound (not_isNotFound_rateDetached r rating)

end Service

/-! ### Sessions -/

/-- When each call reports a record as not found. -/
structure Memory.ReportsMissing (s : Service) (m : Memory) : Prop where
  get : ∀ (now : String) (id : Uuid),
    IsNotFound (((Call.get id).act s now).runOn m).1 ↔ id ∉ m.ids
  membership : ∀ (now : String) (pair : TogglePair) (id actor : Uuid),
    IsNotFound (((Call.membership pair id actor).act s now).runOn m).1 ↔ id ∉ m.ids
  toggle : ∀ (now : String) (pair : TogglePair) (id actor : Uuid) (side : Side),
    IsNotFound (((Call.toggle pair id actor side).act s now).runOn m).1 ↔ id ∉ m.ids
  upsertEntry : ∀ (now : String) (id : Uuid) (l : KeyedList) (key payload : Fields),
    IsNotFound (((Call.upsertEntry id l key payload).act s now).runOn m).1 ↔
      id ∉ m.ids ∨
        ∃ r ∈ m.records, r.id = id ∧ l.check key payload = .ok () ∧ l.Overlooks r key
  upsertEntryPlain : ∀ (now : String) (id : Uuid) (l : KeyedList) (key payload : Fields),
    '.' ∉ l.field.toList → l.field ≠ idField →
      (IsNotFound (((Call.upsertEntry id l key payload).act s now).runOn m).1 ↔ id ∉ m.ids)
  updateCart : ∀ (now : String) (id : Uuid) (line : CartLine),
    IsNotFound (((Call.updateCart id line).act s now).runOn m).1 ↔
      line.check = .ok () ∧ id ∉ m.ids
  rate : ∀ (now : String) (id : Uuid) (rating : Rating),
    IsNotFound (((Call.rate id rating).act s now).runOn m).1 ↔ rating.check = .ok () ∧ id ∉ m.ids

namespace Session

/-- In a session, what is reported as not found is not stored, or an entry of it is overlooked. -/
theorem reportsMissing_run (s : Service) (calls : Session) :
    (run s calls {}).ReportsMissing s where
  get _ id := s.isNotFound_get_iff id _
  membership _ pair id actor :=
    Service.isNotFound_membership_iff { s with toggles := pair } id actor _
  toggle now pair id actor side :=
    Service.isNotFound_toggle_iff { s with toggles := pair } now id actor side _
  upsertEntry now id l key payload :=
    Service.isNotFound_upsertEntry_iff (nodup_run s calls) s now id l key payload
  upsertEntryPlain now id _ key payload hdot hid :=
    Service.isNotFound_upsertEntry_iff_of_undotted (nodup_run s calls) hdot hid s now id key payload
  updateCart now id line := Service.isNotFound_updateCart_iff (nodup_run s calls) s now id line
  rate now id rating := Service.isNotFound_rate_iff (nodup_run s calls) s now id rating

/-- A list whose name has a dot: the entry that one write adds is overlooked by the next. -/
theorem second_write_not_found :
    let id : Uuid := .uniform 1
    let write (n : Int) : Call := .upsertEntry id ⟨"a.b", ["k"]⟩ [("k", .int 1)] [("v", .int n)]
    let calls : Session := [("noon", .insert ⟨id, []⟩), ("noon", write 1)]
    id ∈ (run {} calls {}).ids ∧
      IsNotFound (((write 2).act {} "noon").runOn (run {} calls {})).1 := by
  intro id write calls
  have hids : (run {} calls {}).ids = [id] := rfl
  refine ⟨hids ▸ List.mem_singleton_self id, ?_⟩
  exact .intro "products" id

end Session

end Shelf
