import Shelf.Proofs.Service

/-!
Sessions: operations in sequence on one storage.

A session starts from an empty storage, and its operations succeed or fail in any order. Whatever
they are, the records stand in the order in which they were inserted, none twice and none lost, and
the version of each is the number of writes to it. A change that is addressed to one record changes
that record alone, and in it only what the operation is about.

    operation                 writes, if it succeeds      and if not
    toggle, entry, cart       1                           0
    rate                      2                           1 if the mean could not be taken, else 0
    all others                0                           0
-/

namespace Shelf

/-- An operation with what the caller gives. -/
inductive Call
  | insert (r : Record)
  | toggle (pair : TogglePair) (id actor : Uuid) (side : Side)
  | upsertEntry (id : Uuid) (l : KeyedList) (key payload : Fields)
  | updateCart (id : Uuid) (line : CartLine)
  | rate (id : Uuid) (rating : Rating)
  | list (p : Params)
  | get (id : Uuid)
  | membership (pair : TogglePair) (id actor : Uuid)

namespace Call

/-- What a call is answered with. -/
def Answer : Call → Type
  | .list _        => Page
  | .membership .. => Membership
  | _              => Record

/-- A call to a service at a time. -/
def act (s : Service) (now : String) : (c : Call) → Action Memory c.Answer
  | .insert r                       => Service.insert now r
  | .toggle pair id actor side      => { s with toggles := pair }.toggle now id actor side
  | .upsertEntry id l key payload   => s.upsertEntry now id l key payload
  | .updateCart id line             => s.updateCart now id line
  | .rate id rating                 => s.rate now id rating
  | .list p                         => s.list p
  | .get id                         => s.get id
  | .membership pair id actor       => { s with toggles := pair }.membership id actor

/-- The records after a call. -/
def after (c : Call) (s : Service) (now : String) (m : Memory) : Memory :=
  ((c.act s now).runOn m).2

/-- Whether a call succeeds. -/
def succeeds (c : Call) (s : Service) (now : String) (m : Memory) : Bool :=
  ((c.act s now).runOn m).1.isOk

/-- The record that a change is addressed to. -/
def target? : Call → Option Uuid
  | .toggle _ id _ _      => some id
  | .upsertEntry id _ _ _ => some id
  | .updateCart id _      => some id
  | .rate id _            => some id
  | _                     => none

/-- The fields that a change is about; a toggle is about either list of its pair. -/
def about : Call → List (List String)
  | .toggle pair _ _ _   => [[pair.a], [pair.b]]
  | .upsertEntry _ l _ _ => [[l.field]]
  | .updateCart _ _      => [["cart"]]
  | .rate _ _            => [["ratings", "totalRatings"]]
  | _                    => []

/-- The number of writes that a call makes. -/
def commits (c : Call) (s : Service) (now : String) (m : Memory) : Nat :=
  match c with
  | .toggle _ _ _ _ | .upsertEntry _ _ _ _ | .updateCart _ _ => if c.succeeds s now m then 1 else 0
  | .rate id rating =>
    if c.succeeds s now m then 2
    else if ((s.enterRating now id rating).runOn m).1.isOk then 1
    else 0
  | _ => 0

/-- The identifier that a call adds, if it adds one. -/
def added (c : Call) (s : Service) (now : String) (m : Memory) : List Uuid :=
  match c with
  | .insert r => if c.succeeds s now m then [r.id] else []
  | _         => []

end Call

/-! ### One call -/

namespace Call

variable {m : Memory} {id : Uuid}

/-- A change is so many writes to the record that it is addressed to. -/
theorem exists_writes (hm : m.ids.Nodup) {c : Call} (hc : c.target? = some id) (s : Service)
    (now : String) :
    ∃ fields ∈ c.about, m.Writes id fields (c.commits s now m) (c.after s now m) := by
  cases c with
  | toggle pair i actor side =>
    cases hc
    obtain ⟨changed, h⟩ :=
      Service.commits_toggle hm { s with toggles := pair } now id actor side
    refine ⟨[pair.field changed], ?_, h.writes⟩
    cases changed <;> simp [about, TogglePair.field]
  | upsertEntry i l key payload =>
    cases hc
    exact ⟨_, List.mem_singleton.2 rfl,
      (Service.commits_upsertEntry hm s now id l key payload).writes⟩
  | updateCart i line =>
    cases hc
    exact ⟨_, List.mem_singleton.2 rfl, (Service.commits_updateCart hm s now id line).writes⟩
  | rate i rating =>
    cases hc
    exact ⟨_, List.mem_singleton.2 rfl, Service.writes_rate hm s now id rating⟩
  | _ => cases hc

/-- Whatever is addressed to no record leaves the records, and adds one at the end at most. -/
theorem after_cases {c : Call} (hc : c.target? = none) (s : Service) (now : String)
    (m : Memory) :
    (c.added s now m = [] ∧ c.after s now m = m) ∨
    ∃ r : Record, r.id ∉ m.ids ∧ c.added s now m = [r.id] ∧
      c.after s now m = ⟨m.records ++ [r.fresh now]⟩ := by
  cases c with
  | insert r =>
    have hrun : ((Call.insert r).act s now).runOn m = m.insert now r := rfl
    rcases m.insert_cases now r with ⟨hnew, hinsert⟩ | ⟨-, e, hinsert⟩
    · refine .inr ⟨r, hnew, ?_, ?_⟩
      · rw [added, succeeds, hrun, hinsert]
        rfl
      · rw [after, hrun, hinsert]
    · refine .inl ⟨?_, ?_⟩
      · rw [added, succeeds, hrun, hinsert]
        rfl
      · rw [after, hrun, hinsert]
  | list p => exact .inl ⟨rfl, s.list_leaves p m⟩
  | get id => exact .inl ⟨rfl, s.get_leaves id m⟩
  | membership pair id actor =>
    exact .inl ⟨rfl, Service.membership_leaves { s with toggles := pair } id actor m⟩
  | _ => cases hc

theorem added_eq_nil {c : Call} (hc : c.target? = some id) (s : Service) (now : String)
    (m : Memory) : c.added s now m = [] := by
  cases c <;> first | rfl | cases hc

/-- A call keeps the identifiers and puts what it adds behind them. -/
theorem ids_after (hm : m.ids.Nodup) (c : Call) (s : Service) (now : String) :
    (c.after s now m).ids = m.ids ++ c.added s now m ∧ (c.after s now m).ids.Nodup := by
  cases hc : c.target? with
  | some id =>
    obtain ⟨fields, -, hwrites⟩ := exists_writes hm hc s now
    rw [added_eq_nil hc, List.append_nil, hwrites.ids_eq]
    exact ⟨rfl, hm⟩
  | none =>
    rcases after_cases hc s now m with ⟨hadded, hafter⟩ | ⟨r, hnew, hadded, hafter⟩
    · rw [hadded, hafter, List.append_nil]
      exact ⟨rfl, hm⟩
    · have hids : (c.after s now m).ids = m.ids ++ [r.id] := by
        rw [hafter, Memory.ids, List.map_append, List.map_singleton, Record.fresh_id]
        rfl
      rw [hadded, hids]
      refine ⟨rfl, List.nodup_append.2 ⟨hm, List.nodup_singleton _, ?_⟩⟩
      rintro i hi j hj rfl
      exact hnew (List.mem_singleton.1 hj ▸ hi)

/-- The writes that a call makes to a record. -/
def commitsTo (c : Call) (s : Service) (now : String) (m : Memory) (id : Uuid) : Nat :=
  if c.target? = some id then c.commits s now m else 0

/-- A call raises the count of each record by the writes that it makes to it. -/
theorem counts_after (hm : m.ids.Nodup) {count : Uuid → Nat} (hcount : m.Counts count) (c : Call)
    (s : Service) (now : String) :
    (c.after s now m).Counts fun id => count id + c.commitsTo s now m id := by
  cases hc : c.target? with
  | some id =>
    obtain ⟨fields, -, hwrites⟩ := exists_writes hm hc s now
    have hraised := hwrites.counts hcount
    have hsame : ∀ i, (if i = id then c.commits s now m else 0) = c.commitsTo s now m i := by
      intro i
      rw [commitsTo, hc]
      simp only [Option.some.injEq, eq_comm]
    simp only [hsame] at hraised
    exact hraised
  | none =>
    have hzero : ∀ i, count i + c.commitsTo s now m i = count i := by
      intro i
      rw [commitsTo, hc, if_neg (by simp), Nat.add_zero]
    simp only [hzero]
    rcases after_cases hc s now m with ⟨-, hafter⟩ | ⟨r, hnew, -, hafter⟩
    · rw [hafter]
      exact hcount
    · rw [hafter]
      refine ⟨fun w hw => ?_, fun i hi => hcount.absent i fun hold => hi ?_⟩
      · rcases List.mem_append.1 hw with hw | hw
        · exact hcount.version w hw
        · obtain rfl := List.mem_singleton.1 hw
          rw [Record.fresh_id, hcount.absent r.id hnew]
          exact r.get?_version_fresh now
      · obtain ⟨q, hq, hid⟩ := List.mem_map.1 hold
        exact List.mem_map.2 ⟨q, List.mem_append_left _ hq, hid⟩

end Call

/-! ### Calls in sequence -/

/-- Calls in order, each with the time at which it is made. -/
abbrev Session := List (String × Call)

namespace Session

/-- The records after a session. -/
def run (s : Service) : Session → Memory → Memory
  | [],             m => m
  | (now, c) :: cs, m => run s cs (c.after s now m)

/-- The identifiers that the successful inserts add, in order. -/
def added (s : Service) : Session → Memory → List Uuid
  | [],             _ => []
  | (now, c) :: cs, m => c.added s now m ++ added s cs (c.after s now m)

/-- The writes that a session makes to a record. -/
def commitsTo (s : Service) (id : Uuid) : Session → Memory → Nat
  | [],             _ => 0
  | (now, c) :: cs, m => c.commitsTo s now m id + commitsTo s id cs (c.after s now m)

theorem run_append (s : Service) : ∀ (cs ds : Session) (m : Memory),
    run s (cs ++ ds) m = run s ds (run s cs m)
  | [],             _,  _ => rfl
  | (now, c) :: cs, ds, m => run_append s cs ds (c.after s now m)

theorem ids_run (s : Service) : ∀ (cs : Session) {m : Memory}, m.ids.Nodup →
    (run s cs m).ids = m.ids ++ added s cs m ∧ (run s cs m).ids.Nodup
  | [],             m, hm => ⟨(List.append_nil m.ids).symm, hm⟩
  | (now, c) :: cs, m, hm => by
    obtain ⟨hids, hnodup⟩ := c.ids_after hm s now
    obtain ⟨hrest, hlast⟩ := ids_run s cs hnodup
    refine ⟨?_, hlast⟩
    rw [run, hrest, hids, added, List.append_assoc]

/-- From nothing, no identifier comes to be stored twice. -/
theorem nodup_run (s : Service) (calls : Session) : (run s calls {}).ids.Nodup := by
  have hempty : ({} : Memory).ids.Nodup := List.nodup_nil
  exact (ids_run s calls hempty).2

theorem counts_run (s : Service) : ∀ (cs : Session) {m : Memory} {count : Uuid → Nat},
    m.ids.Nodup → m.Counts count →
      (run s cs m).Counts fun id => count id + commitsTo s id cs m
  | [],             _, _,     _,  hcount => hcount
  | (now, c) :: cs, m, count, hm, hcount => by
    have hrest := counts_run s cs (c.ids_after hm s now).2 (c.counts_after hm hcount s now)
    simp only [Nat.add_assoc] at hrest
    exact hrest

/-- What holds of the records after a session that started from nothing. -/
structure Consistent (s : Service) (calls : Session) (m : Memory) : Prop where
  order : m.ids = added s calls {}
  nodup : m.ids.Nodup
  keyed : ∀ r ∈ m.records, m.findById r.id = some r
  version : ∀ r ∈ m.records,
    r.fields.get? versionField = some (.int (commitsTo s r.id calls {} : Nat))
  lasting : ∀ more, m.ids <+: (run s (calls ++ more) {}).ids
  framed : ∀ (now : String) (c : Call) (id : Uuid), c.target? = some id →
    ∃ fields ∈ c.about, m.Writes id fields (c.commits s now m) (c.after s now m)
  kept : ∀ (now : String) (c : Call), c.target? = none →
    m.records <+: (c.after s now m).records

/-- Every session leaves consistent records, whichever of its calls succeed. -/
theorem consistent_run (s : Service) (calls : Session) :
    Consistent s calls (run s calls {}) := by
  have hempty : ({} : Memory).ids.Nodup := List.nodup_nil
  have hzero : ({} : Memory).Counts fun _ => 0 :=
    ⟨fun _ hr => absurd hr List.not_mem_nil, fun _ _ => rfl⟩
  obtain ⟨horder, hnodup⟩ := ids_run s calls hempty
  have hcounts := counts_run s calls hempty hzero
  simp only [Nat.zero_add] at hcounts
  refine ⟨horder, hnodup, fun r hr => Memory.findById_id hnodup hr, hcounts.version, ?_, ?_, ?_⟩
  · intro more
    rw [run_append, (ids_run s more hnodup).1]
    exact List.prefix_append _ _
  · intro now c id hc
    exact Call.exists_writes hnodup hc s now
  · intro now c hc
    rcases c.after_cases hc s now (run s calls {}) with ⟨-, hafter⟩ | ⟨r, -, -, hafter⟩
    · have hsame : (run s calls {}).records = (c.after s now (run s calls {})).records :=
        congrArg Memory.records hafter.symm
      exact ⟨[], (List.append_nil _).trans hsame⟩
    · rw [hafter]
      exact List.prefix_append _ _

end Session

end Shelf
