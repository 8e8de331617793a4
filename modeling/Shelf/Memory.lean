import Shelf.Storage

/-!
Records kept in memory, in the order in which they were inserted.

A new record starts at version zero and gets a time of creation unless it brings one. A patch that
succeeds raises the version by one and stamps the time of the write; one that fails leaves the
record as it was.
-/

namespace Shelf

/-- The field with the time of creation. -/
def createdField : String := "createdAt"

/-- The field with the time of the last write. -/
def updatedField : String := "updatedAt"

/-- The stored records. -/
structure Memory where
  records : List Record := []

namespace Record

/-- The record as it is first stored. -/
def fresh (r : Record) (now : String) : Record :=
  let r := r.set versionField (.int 0)
  let r := if (r.get? createdField).isNone then r.set createdField (.string now) else r
  r.set updatedField (.string now)

/-- The record after a write. -/
def stamped (r : Record) (now : String) : Record :=
  (r.set versionField (.int (r.version + 1))).set updatedField (.string now)

/-- The record after a patch that succeeds. -/
def commit (r : Record) (now : String) (p : Patch) (matched : Option Filter) :
    Except Corruption Record := do
  return (← p.applied matched r).stamped now

end Record

/-- Changes the first record that a test accepts; the answer is that record and all records. -/
def changeFirst (test : Record → Bool) (change : Record → Except Corruption Record) :
    List Record → Except Corruption (Option Record × List Record)
  | []      => .ok (none, [])
  | r :: rs =>
    if test r then do
      let r ← change r
      return (some r, r :: rs)
    else do
      let (found, rs) ← changeFirst test change rs
      return (found, r :: rs)

namespace Memory

/-- The records that a filter accepts, in order. -/
def matching (m : Memory) (f : Filter) : List Record := m.records.filter f.accepts

/-- A stretch of the sorted listing. -/
def find (m : Memory) (f : Filter) (s : SortSpec) (p : Projection) (skip limit : Nat) :
    List Record :=
  (((s.sort (m.matching f)).drop skip).take limit).map p.apply

/-- The record with an identifier. -/
def findById (m : Memory) (id : Uuid) : Option Record := m.records.find? (·.id = id)

/-- Patches the first record that a test accepts. -/
def update (m : Memory) (now : String) (test : Record → Bool) (p : Patch)
    (matched : Option Filter) : Except Error (Option Record) × Memory :=
  match changeFirst test (·.commit now p matched) m.records with
  | .ok (found, rs) => (.ok found, ⟨rs⟩)
  | .error e        => (.error (.storage (.integrity e)), m)

/-- Stores a new record. -/
def insert (m : Memory) (now : String) (r : Record) : Except Error Record × Memory :=
  if (m.findById r.id).isSome then (.error (.storage (.integrity (.duplicate r.id))), m)
  else (.ok (r.fresh now), ⟨m.records ++ [r.fresh now]⟩)

instance : Storage Memory where
  find f s p skip limit   := .ofFunction fun m => (.ok (m.find f s p skip limit), m)
  count f                 := .ofFunction fun m => (.ok (m.matching f).length, m)
  findById id             := .ofFunction fun m => (.ok (m.findById id), m)
  updateById now id p     := .ofFunction fun m => m.update now (·.id = id) p none
  updateFirst now f p     := .ofFunction fun m => m.update now f.accepts p (some f)
  insert now r            := .ofFunction fun m => m.insert now r

end Memory

end Shelf
