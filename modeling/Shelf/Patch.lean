import Shelf.Filter

/-!
Updates of a single record.

A patch is a sequence of updates of fields. It goes on while they succeed and stops at the first
that fails, and the record shows what was done up to there. The identifier and the version cannot be
written. An update of a matched element needs a filter with a condition on the elements of that list
and changes the first element that satisfies it.
-/

namespace Shelf

/-- One update of a field. -/
inductive FieldUpdate
  | set (field : String) (value : Json)
  | push (field : String) (value : Json)
  | pull (field : String) (value : Json)
  | setMatched (list : String) (members : Fields)

/-- Updates in order. -/
structure Patch where
  updates : List FieldUpdate := []

namespace FieldUpdate

/-- The field that an update writes to. -/
def target : FieldUpdate → String
  | .set f _        => f
  | .push f _       => f
  | .pull f _       => f
  | .setMatched f _ => f

end FieldUpdate

/-- Whether updates may write to the field. -/
def isPatchable (field : String) : Bool := field != idField && field != versionField

/-- What an update makes of a record: the record afterwards, and how it ended. -/
abbrev Patched := Record × Except Corruption Unit

namespace Record

/-- Writes a field. -/
def patchSet (r : Record) (field : String) (value : Json) : Patched := (r.set field value, .ok ())

/-- Replaces the list in a field by a function of it. -/
def patchList (r : Record) (field : String) (f : List Json → List Json) : Patched :=
  match r.list field with
  | .ok xs   => (r.set field (.array (f xs)), .ok ())
  | .error e => (r, .error e)

/-- Removes items from a list. A record that has nothing at the path is left alone. -/
def patchPull (r : Record) (field : String) (value : Json) : Patched :=
  match r.get? field with
  | none   => (r, .ok ())
  | some _ => r.patchList field fun xs => xs.filter fun x => !(x == value)

end Record

/-- Changes the first item that carries the criteria; without one there is no answer. -/
def overrideFirst? (criteria members : Fields) : List Json → Option (List Json)
  | [] => none
  | .object ms :: xs =>
    if Fields.carries ms criteria then some (.object (Fields.override ms members) :: xs)
    else (overrideFirst? criteria members xs).map (.object ms :: ·)
  | x :: xs => (overrideFirst? criteria members xs).map (x :: ·)

/-- Changes the matched element of a list. The list is there afterwards even if no element was
matched. -/
def Record.patchMatched (r : Record) (list : String) (criteria members : Fields) : Patched :=
  match r.list list with
  | .error e => (r, .error e)
  | .ok xs   =>
    match overrideFirst? criteria members xs with
    | some xs => (r.set list (.array xs), .ok ())
    | none    => (r.withList list, .error (.noElementMatched list))

/-- Carries out one update. -/
def FieldUpdate.apply (matched : Option Filter) (r : Record) (u : FieldUpdate) : Patched :=
  if isPatchable u.target then
    match u with
    | .set field value  => r.patchSet field value
    | .push field value => r.patchList field (· ++ [value])
    | .pull field value => r.patchPull field value
    | .setMatched list members =>
      match matched.bind (·.elementCriteria? list) with
      | some criteria => r.patchMatched list criteria members
      | none          => (r, .error (.noElementCriteria list))
  else (r, .error (.unpatchable u.target))

namespace Patch

/-- A patch of one update. -/
def one (u : FieldUpdate) : Patch := ⟨[u]⟩

/-- Carries out updates until one fails. -/
def run (matched : Option Filter) : Record → List FieldUpdate → Patched
  | r, []      => (r, .ok ())
  | r, u :: us =>
    match u.apply matched r with
    | (r, .ok ()) => run matched r us
    | failed      => failed

/-- Carries out a patch. -/
def apply (p : Patch) (matched : Option Filter) (r : Record) : Patched := run matched r p.updates

/-- The patched record, if every update succeeds. -/
def applied (p : Patch) (matched : Option Filter) (r : Record) : Except Corruption Record :=
  match p.apply matched r with
  | (r, .ok ())    => .ok r
  | (_, .error e) => .error e

end Patch

end Shelf
