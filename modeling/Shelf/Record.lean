import Shelf.Error

/-!
Stored records: an identifier and an open set of fields.

The identifier stands beside the fields. Under the name `id` it can be read like one of them, but no
update writes to it. A path `a.b.c` reads through nested objects; list fields are addressed by their
plain name, and one that is absent or null reads as an empty list.
-/

namespace Shelf

/-- The name under which the identifier is read. -/
def idField : String := "id"

/-- The field that counts the writes to a record. -/
def versionField : String := "__v"

/-- A record. -/
structure Record where
  id : Uuid
  fields : Fields

namespace Record

/-- Reads the identifier of an object, if it has one. -/
def readId (fs : Fields) : Except Corruption (Option Uuid) :=
  match fs.get? idField with
  | some (.string s) =>
    match Uuid.ofText? s with
    | some id => .ok (some id)
    | none    => .error (.recordIdInvalid s)
  | some v => .error (.recordIdNotText v)
  | none   => .ok none

/-- The record that a flat object describes; without an identifier it gets the fresh one. -/
def ofJson (fresh : Uuid) : Json → Except Corruption Record
  | .object fs => do
    let id ← readId fs
    return ⟨id.getD fresh, Fields.erase fs idField⟩
  | _ => .error .recordNotObject

/-- The record that a flat object with an identifier describes. -/
def ofJson? : Json → Option Record
  | .object fs => do
    let .string s ← Fields.get? fs idField | none
    let id ← Uuid.ofText? s
    return ⟨id, Fields.erase fs idField⟩
  | _ => none

/-- The flat object of a record. Records that are read have no field of the identifier's name; one
that was given such a field shows it in the identifier's place. -/
def toJson (r : Record) : Json :=
  match r.fields.get? idField with
  | some _ => .object r.fields
  | none   => .object (r.fields.insert idField (.string r.id.text))

/-- Steps from a value to a member of it, and so on. -/
def descend (v : Json) : List String → Option Json
  | []           => some v
  | name :: path => (v.member? name).bind (descend · path)

/-- The names along a dotted path. -/
def pathNames (path : String) : List String := (path.toList.splitOn '.').map String.ofList

/-- The value at a path through the fields. -/
def get? (r : Record) (path : String) : Option Json := descend (.object r.fields) (pathNames path)

/-- The value at a path, `id` being the identifier's text. -/
def valueOf? (r : Record) (path : String) : Option Json :=
  if path = idField then some (.string r.id.text) else r.get? path

/-- Writes a field. -/
def set (r : Record) (field : String) (value : Json) : Record :=
  { r with fields := r.fields.insert field value }

/-- The list in a field. -/
def list (r : Record) (field : String) : Except Corruption (List Json) :=
  match r.fields.get? field with
  | none             => .ok []
  | some .null       => .ok []
  | some (.array xs) => .ok xs
  | some v           => .error (.notAList field v)

/-- The record with a list in this field: an absent or null one becomes an empty list, and any other
value stays as it is. -/
def withList (r : Record) (field : String) : Record :=
  match r.fields.get? field with
  | none       => r.set field (.array [])
  | some .null => r.set field (.array [])
  | some _     => r

/-- The number of writes so far. -/
def version (r : Record) : Nat := ((r.fields.get? versionField).bind Json.nat?).getD 0

end Record

end Shelf
