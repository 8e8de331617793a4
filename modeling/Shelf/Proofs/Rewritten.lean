import Shelf.Proofs.Memory
import Shelf.Proofs.Record

/-!
The stored record that a write leaves.

A write patches the record and puts a version and a time on it. These two are the only difference
to patching the record apart from the storage, and a later write replaces them. A write addressed to
a stored record always finds it, and the record it is answered with is the one then stored.
-/

namespace Shelf

namespace Record

/-- The record with a version and the time of a write. -/
def rewritten (r : Record) (version : Nat) (now : String) : Record :=
  (r.set versionField (.int version)).set updatedField (.string now)

theorem get?_rewritten {field : String} (h : field ∉ stampedFields) (r : Record) (version : Nat)
    (now : String) : (r.rewritten version now).fields.get? field = r.fields.get? field := by
  simp only [stampedFields, List.mem_cons, List.not_mem_nil, or_false, not_or] at h
  exact (Fields.get?_insert_of_ne h.2 _ _).trans (Fields.get?_insert_of_ne h.1 _ _)

theorem get?_version_rewritten (r : Record) (version : Nat) (now : String) :
    (r.rewritten version now).fields.get? versionField = some (.int version) := by
  have htime : versionField ≠ updatedField := by decide
  exact (Fields.get?_insert_of_ne htime _ _).trans (Fields.get?_insert_self ..)

theorem version_rewritten (r : Record) (version : Nat) (now : String) :
    (r.rewritten version now).version = version :=
  version_eq (r.get?_version_rewritten version now)

theorem list_rewritten {field : String} (h : field ∉ stampedFields) (r : Record) (version : Nat)
    (now : String) : (r.rewritten version now).list field = r.list field := by
  rw [list, list, get?_rewritten h]

/-- A write to a field commutes with version and time. -/
theorem set_rewritten {field : String} (h : field ∉ stampedFields) (r : Record) (version : Nat)
    (now : String) (value : Json) :
    (r.rewritten version now).set field value = (r.set field value).rewritten version now := by
  simp only [stampedFields, List.mem_cons, List.not_mem_nil, or_false, not_or] at h
  rw [rewritten, set_comm (Ne.symm h.2), set_comm (Ne.symm h.1), rewritten]

/-- The last version and the last time are what remains. -/
theorem rewritten_rewritten (r : Record) (v w : Nat) (now later : String) :
    (r.rewritten v now).rewritten w later = r.rewritten w later := by
  have htime : updatedField ≠ versionField := by decide
  rw [rewritten, rewritten, set_comm htime, set_set_self, set_set_self, rewritten]

theorem version_of_applied {r d : Record} {p : Patch} {matched : Option Filter}
    (h : p.applied matched r = .ok d) : d.version = r.version := by
  obtain ⟨hagrees, hversion⟩ := Patch.agrees_of_applied h
  rw [version, version, hagrees.frame _ hversion]

/-- A write is the patch, and then a version and a time. -/
theorem commit_eq (r : Record) (now : String) (p : Patch) (matched : Option Filter) :
    r.commit now p matched = (p.applied matched r).map (·.rewritten (r.version + 1) now) := by
  rw [commit]
  cases h : p.applied matched r with
  | error e => rfl
  | ok d =>
    rw [← version_of_applied h]
    rfl

theorem id_of_commit {r w : Record} {now : String} {p : Patch} {matched : Option Filter}
    (h : r.commit now p matched = .ok w) : w.id = r.id :=
  (evolves_of_commit h).agrees.id

end Record

/-! ### The record that a test accepts -/

section changeFirst

variable {test : Record → Bool} {before : List Record} {r : Record}

theorem changeFirst_append (hskip : ∀ q ∈ before, test q = false) (hr : test r = true)
    (change : Record → Except Corruption Record) (after : List Record) :
    changeFirst test change (before ++ r :: after) =
      (change r).map fun w => (some w, before ++ w :: after) := by
  induction before with
  | nil =>
    rw [List.nil_append, changeFirst, if_pos hr]
    cases change r <;> rfl
  | cons q before ih =>
    rw [List.cons_append, changeFirst, if_neg (by simp [hskip q List.mem_cons_self]),
      ih fun p hp => hskip p (List.mem_cons_of_mem _ hp)]
    cases change r <;> rfl

theorem changeFirst_of_forall {rs : List Record} (h : ∀ q ∈ rs, test q = false)
    (change : Record → Except Corruption Record) :
    changeFirst test change rs = .ok (none, rs) := by
  induction rs with
  | nil => rfl
  | cons q rs ih =>
    rw [changeFirst, if_neg (by simp [h q List.mem_cons_self]),
      ih fun p hp => h p (List.mem_cons_of_mem _ hp)]
    rfl

theorem changeFirst_congr {test' : Record → Bool} {rs : List Record}
    (h : ∀ q ∈ rs, test q = test' q) (change : Record → Except Corruption Record) :
    changeFirst test change rs = changeFirst test' change rs := by
  induction rs with
  | nil => rfl
  | cons q rs ih =>
    rw [changeFirst, changeFirst, h q List.mem_cons_self,
      ih fun p hp => h p (List.mem_cons_of_mem _ hp)]

end changeFirst

namespace Memory

variable {m : Memory} {id : Uuid} {r : Record}

theorem update_congr {test test' : Record → Bool} (h : ∀ q ∈ m.records, test q = test' q)
    (now : String) (p : Patch) (matched : Option Filter) :
    m.update now test p matched = m.update now test' p matched := by
  rw [update, update, changeFirst_congr h]

/-- An outcome on one record: its answer, and a record that is answered is the one then stored. -/
structure Yields (id : Uuid) (answer : Except Error Record)
    (out : Except Error Record × Memory) : Prop where
  answered : out.1 = answer
  stored : ∀ w, answer = .ok w → out.2.findById id = some w

/-- A failure stores nothing that it would have to answer. -/
theorem Yields.error (id : Uuid) (e : Error) (m : Memory) : Yields id (.error e) (.error e, m) := by
  refine ⟨rfl, fun w h => ?_⟩
  cases h

/-- A write to a stored record. -/
theorem update_stored (hfind : m.findById id = some r) (now : String) (p : Patch)
    (matched : Option Filter) :
    match r.commit now p matched with
    | .ok w => ∃ t : Memory,
        m.update now (·.id = id) p matched = (.ok (some w), t) ∧ t.findById id = some w
    | .error e => m.update now (·.id = id) p matched = (.error (.storage (.integrity e)), m) := by
  obtain ⟨hr, before, after, hrecords, hbefore⟩ := List.find?_eq_some_iff_append.1 hfind
  have hskip : ∀ q ∈ before, decide (q.id = id) = false := fun q hq => by
    simpa using hbefore q hq
  rw [update, hrecords, changeFirst_append hskip hr]
  cases hcommit : r.commit now p matched with
  | error e => rfl
  | ok w =>
    have hw : decide (w.id = id) = true := by rw [Record.id_of_commit hcommit]; exact hr
    refine ⟨⟨before ++ w :: after⟩, rfl, ?_⟩
    exact List.find?_eq_some_iff_append.2 ⟨hw, before, after, rfl, hbefore⟩

end Memory

end Shelf
