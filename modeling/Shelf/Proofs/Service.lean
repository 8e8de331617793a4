import Shelf.Proofs.Action
import Shelf.Proofs.KeyedList
import Shelf.Proofs.Memory
import Shelf.Service

/-!
What each operation does to the stored records.

Reading changes nothing. A change that succeeds is one write to the record that it is addressed to,
and one that fails is none, with one exception: a rating is an entry and then a mean, and it leaves
the entry when the mean cannot be taken.
-/

namespace Shelf

/-- An outcome on one record: one write to certain fields, or a failure that changed nothing. -/
def Memory.Commits {α : Type} (m : Memory) (id : Uuid) (fields : List String)
    (out : Except Error α × Memory) : Prop :=
  match out with
  | (.ok _, t)    => m.Writes id fields 1 t
  | (.error _, t) => t = m

/-- An outcome is one write if it is a success, and none otherwise. -/
theorem Memory.Commits.writes {α : Type} {m : Memory} {id : Uuid} {fields : List String}
    {out : Except Error α × Memory} (h : m.Commits id fields out) :
    m.Writes id fields (if out.1.isOk then 1 else 0) out.2 := by
  obtain ⟨answer, t⟩ := out
  cases answer with
  | ok a => exact h
  | error e =>
    obtain rfl : t = m := h
    exact .refl id fields t

/-- A failure changed nothing. -/
theorem Memory.Commits.eq_of_error {α : Type} {m : Memory} {id : Uuid} {fields : List String}
    {out : Except Error α × Memory} {e : Error} (h : m.Commits id fields out)
    (hfail : out.1 = .error e) : out.2 = m := by
  obtain ⟨answer, t⟩ := out
  cases hfail
  exact h

/-- A toggle targets one list of the pair. -/
theorem TogglePair.targets_of_plan {pair : TogglePair} {r : Record} {actor : String} {side : Side}
    {t : Transition} (h : pair.plan r actor side = .ok t) :
    ∃ changed, t.patch.targets = [pair.field changed] := by
  obtain ⟨before, -, h⟩ := bind_eq_ok.1 h
  cases h
  cases hside : before.side? with
  | some current => exact ⟨current, by rw [patch, hside]; rfl⟩
  | none => exact ⟨side, by rw [patch, hside]; rfl⟩

namespace Service

variable {m : Memory} {id : Uuid} {now : String}

theorem runOn_get_some {r : Record} (h : m.findById id = some r) (s : Service) :
    (s.get id).runOn m = (.ok r, m) := by
  have hfind : (Storage.findById id : Action Memory (Option Record)).runOn m = (.ok (some r), m) :=
    h ▸ rfl
  rw [get, Action.runOn_bind_ok hfind]
  rfl

theorem runOn_get_none (h : m.findById id = none) (s : Service) :
    (s.get id).runOn m = (.error (.notFound s.collection.name id), m) := by
  have hfind : (Storage.findById id : Action Memory (Option Record)).runOn m = (.ok none, m) :=
    h ▸ rfl
  rw [get, Action.runOn_bind_ok hfind]
  rfl

/-- Listing changes nothing, whatever it answers. -/
theorem list_leaves (s : Service) (p : Params) (m : Memory) : ((s.list p).runOn m).2 = m := by
  rw [list]
  cases QueryPlan.compile s.collection s.paging p <;> rfl

theorem get_leaves (s : Service) (id : Uuid) (m : Memory) : ((s.get id).runOn m).2 = m := by
  cases h : m.findById id with
  | some r => rw [runOn_get_some h]
  | none => rw [runOn_get_none h]

theorem membership_leaves (s : Service) (id actor : Uuid) (m : Memory) :
    ((s.membership id actor).runOn m).2 = m := by
  cases h : m.findById id with
  | none => rw [membership, Action.runOn_bind_error (runOn_get_none h s)]
  | some r =>
    rw [membership, Action.runOn_bind_ok (runOn_get_some h s)]
    cases s.toggles.membership r actor.text <;> rfl

/-- Submitting an update whose test accepts one identifier only. -/
theorem commits_submit (hm : m.ids.Nodup) {test : Record → Bool} (p : Patch)
    (matched : Option Filter) (htest : ∀ r ∈ m.records, test r = true → r.id = id)
    {act : Action Memory (Option Record)} (hact : act.runOn m = m.update now test p matched)
    (s : Service) : m.Commits id p.targets ((act >>= s.orNotFound id).runOn m) := by
  have hupdate := Memory.writes_update hm now p matched htest
  rw [Action.runOn_bind, hact]
  generalize m.update now test p matched = out at hupdate ⊢
  obtain ⟨answer, t⟩ := out
  cases answer with
  | error e => exact hupdate
  | ok found =>
    cases found with
    | none => exact hupdate
    | some w => exact hupdate

theorem commits_updateById (hm : m.ids.Nodup) (p : Patch) (s : Service) :
    m.Commits id p.targets
      (((Storage.updateById now id p : Action Memory _) >>= s.orNotFound id).runOn m) :=
  commits_submit hm p none (fun _ _ h => of_decide_eq_true h) rfl s

theorem commits_toggle (hm : m.ids.Nodup) (s : Service) (now : String) (id actor : Uuid)
    (side : Side) : ∃ changed,
      m.Commits id [s.toggles.field changed] ((s.toggle now id actor side).runOn m) := by
  cases hfind : m.findById id with
  | none =>
    rw [toggle, Action.runOn_bind_error (runOn_get_none hfind s)]
    exact ⟨side, rfl⟩
  | some r =>
    rw [toggle, Action.runOn_bind_ok (runOn_get_some hfind s)]
    cases hplan : s.toggles.plan r actor.text side with
    | error e => exact ⟨side, rfl⟩
    | ok t =>
      obtain ⟨changed, htargets⟩ := TogglePair.targets_of_plan hplan
      refine ⟨changed, ?_⟩
      rw [Action.runOn_bind_ok (Action.runOn_ofCorruption_ok t m), ← htargets]
      exact commits_updateById hm t.patch s

theorem commits_upsertEntry (hm : m.ids.Nodup) (s : Service) (now : String) (id : Uuid)
    (l : KeyedList) (key payload : Fields) :
    m.Commits id [l.field] ((s.upsertEntry now id l key payload).runOn m) := by
  cases hfind : m.findById id with
  | none =>
    rw [upsertEntry, Action.runOn_bind_error (runOn_get_none hfind s)]
    rfl
  | some r =>
    rw [upsertEntry, Action.runOn_bind_ok (runOn_get_some hfind s)]
    cases hplan : l.plan r key payload with
    | error e => rfl
    | ok p =>
      rw [Action.runOn_bind_ok (Action.runOn_ofExcept_ok p m)]
      obtain ⟨-, place, -, rfl⟩ := KeyedList.plan_eq_ok_iff.1 hplan
      cases place with
      | none => exact commits_updateById hm (.one (.push l.field _)) s
      | some i =>
        -- The write searches by filter, and the filter names the record that was read.
        have hid := (Memory.mem_of_findById hfind).2
        refine commits_submit hm (.one (.setMatched l.field payload)) (some (l.matcher r key))
          (fun q _ hq => ?_) rfl s
        exact (Filter.id_eq_of_accepts hq).trans hid

theorem commits_updateCart (hm : m.ids.Nodup) (s : Service) (now : String) (id : Uuid)
    (line : CartLine) :
    m.Commits id [KeyedList.cart.field] ((s.updateCart now id line).runOn m) := by
  rw [updateCart]
  cases line.check with
  | error e => rfl
  | ok u =>
    rw [Action.runOn_bind_ok (Action.runOn_ofRejection_ok u m)]
    exact commits_upsertEntry hm s now id .cart line.key line.payload

/-! ### Rating -/

/-- The first write of a rating. -/
def enterRating (s : Service) (now : String) (id : Uuid) (rating : Rating) :
    Action Memory Record := do
  Action.ofRejection rating.check
  s.upsertEntry now id .ratings rating.key rating.payload

/-- The second write of a rating. -/
def storeMean (s : Service) (now : String) (id : Uuid) (rated : Record) : Action Memory Record := do
  let patch ← Action.ofCorruption (StoredMean.ratings.patch rated)
  s.orNotFound id (← Storage.updateById now id patch)

theorem runOn_rate (s : Service) (now : String) (id : Uuid) (rating : Rating) (m : Memory) :
    (s.rate now id rating).runOn m =
      (s.enterRating now id rating >>= s.storeMean now id).runOn m := by
  rw [rate, enterRating]
  cases rating.check with
  | error e => rfl
  | ok u =>
    rw [Action.runOn_bind_ok (Action.runOn_ofRejection_ok u m), Action.runOn_bind,
      Action.runOn_bind, Action.runOn_bind_ok (Action.runOn_ofRejection_ok u m)]
    rfl

theorem commits_enterRating (hm : m.ids.Nodup) (s : Service) (now : String) (id : Uuid)
    (rating : Rating) :
    m.Commits id [KeyedList.ratings.field] ((s.enterRating now id rating).runOn m) := by
  rw [enterRating]
  cases rating.check with
  | error e => rfl
  | ok u =>
    rw [Action.runOn_bind_ok (Action.runOn_ofRejection_ok u m)]
    exact commits_upsertEntry hm s now id .ratings rating.key rating.payload

theorem commits_storeMean (hm : m.ids.Nodup) (s : Service) (now : String) (id : Uuid)
    (rated : Record) :
    m.Commits id [StoredMean.ratings.target] ((s.storeMean now id rated).runOn m) := by
  rw [storeMean]
  cases hpatch : StoredMean.ratings.patch rated with
  | error e => rfl
  | ok patch =>
    obtain ⟨mean, -, h⟩ := bind_eq_ok.1 hpatch
    cases h
    rw [Action.runOn_bind_ok (Action.runOn_ofCorruption_ok _ m)]
    exact commits_updateById hm (.one (.set StoredMean.ratings.target (.real mean))) s

/-- A rating is two writes if it succeeds, one if only the entry does, and none otherwise. -/
theorem writes_rate (hm : m.ids.Nodup) (s : Service) (now : String) (id : Uuid)
    (rating : Rating) : m.Writes id [KeyedList.ratings.field, StoredMean.ratings.target]
      (if ((s.rate now id rating).runOn m).1.isOk then 2
        else if ((s.enterRating now id rating).runOn m).1.isOk then 1 else 0)
      ((s.rate now id rating).runOn m).2 := by
  have hentry := commits_enterRating hm s now id rating
  rw [runOn_rate, Action.runOn_bind]
  generalize (s.enterRating now id rating).runOn m = out at hentry ⊢
  obtain ⟨answer, t⟩ := out
  cases answer with
  | error e => exact hentry.writes.mono (List.cons_subset_cons _ (List.nil_subset _))
  | ok rated =>
    have hone : m.Writes id [KeyedList.ratings.field, StoredMean.ratings.target] 1 t :=
      hentry.writes.mono (List.cons_subset_cons _ (List.nil_subset _))
    have hmean := commits_storeMean (hone.ids_eq ▸ hm) s now id rated
    change m.Writes id _ (if ((s.storeMean now id rated).runOn t).1.isOk then 2 else 1)
      ((s.storeMean now id rated).runOn t).2
    generalize (s.storeMean now id rated).runOn t = out at hmean ⊢
    obtain ⟨answer, u⟩ := out
    have hmore := hmean.writes.mono (List.subset_cons_self KeyedList.ratings.field _)
    cases answer with
    | error e => exact hone.trans hmore
    | ok w => exact hone.trans hmore

end Service

end Shelf
