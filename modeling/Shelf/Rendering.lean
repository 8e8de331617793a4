import Shelf.Document
import Shelf.Decimal.Integer
import Shelf.Memory

/-!
Filters, orders, projections and patches as query documents.

    price ≥ 10                  { price: { $gte: 10 } }
    title contains phone        { title: { $regex: phone, $options: i } }
    quantity is 25              { quantity: { $in: [ "25", 25, 25.0 ] } }
    an element matches          { ratings: { $elemMatch: { postedBy: … } } }
    set in the matched element  { $set: { ratings.$.star: 4 } }

The identifier is stored under `_id`. Predicates stay separate clauses, so that none overwrites
another one on the same field, and a sorted listing ends with the identifier, so that ties come in
the same order each time. Every patch raises the version and stamps the time.
-/

namespace Shelf

/-- The name under which the identifier is stored. -/
def storedId : String := "_id"

/-- The name under which a field is stored. -/
def storedName (field : String) : String := if field = idField then storedId else field

/-- A JSON value in a document; an integer without a place there is a failure of the storage. -/
def Json.render (v : Json) : Except StorageFault DocValue :=
  match DocValue.ofJson? v with
  | some d => .ok d
  | none   => .error .unrepresentable

/-! ### Filters -/

/-- What a text may stand for besides itself: a boolean, an integer, a finite number. -/
def literalReadings (raw : String) : List DocValue :=
  if raw = "true" then [.bool true]
  else if raw = "false" then [.bool false]
  else
    let cs := raw.toList
    ((Decimal.readCount? cs).map DocValue.int64).toList ++
      (((Decimal.readFloat? cs).filter Float.isFinite).map DocValue.double).toList

/-- What a text is to equal in a stored field: itself, or any of its readings too. -/
def renderLiteral (raw : String) : DocValue :=
  match literalReadings raw with
  | []       => .string raw
  | readings => .document [("$in", .array (.string raw :: readings))]

/-- What a condition asks of the field stored under a name. -/
def Condition.render (name : String) : Condition → Except StorageFault DocValue
  | .equals raw => .ok (if name = storedId then .string raw else renderLiteral raw)
  | .compare op bound => .ok (.document [(op.storageToken, .double bound)])
  | .contains p => .ok (.document [("$regex", .string p.escaped), ("$options", .string "i")])
  | .elementMatch criteria => do
    return .document [("$elemMatch", ← Json.render (.object criteria))]

/-- The clause of a predicate. -/
def Predicate.render (p : Predicate) : Except StorageFault Document := do
  let name := storedName p.field
  return [(name, ← p.condition.render name)]

/-- The conjunction of clauses. -/
def conjunction : List Document → Document
  | []      => []
  | [c]     => c
  | clauses => [("$and", .array (clauses.map .document))]

/-- The document of a filter. -/
def Filter.render (f : Filter) : Except StorageFault Document := do
  return conjunction (← f.predicates.mapM Predicate.render)

/-! ### Orders and projections -/

/-- One and minus one. -/
def Direction.sign : Direction → DocValue
  | .asc  => .int32 1
  | .desc => .int32 (-1)

/-- The document of a sort order. -/
def SortSpec.render (s : SortSpec) : Document :=
  let keys := s.keys.foldl (fun d k => Document.insert d (storedName k.field) k.direction.sign) []
  if keys.isEmpty || (keys.lookup storedId).isSome then keys
  else Document.insert keys storedId (.int32 1)

/-- Every name with the same mark. -/
def marked (names : List String) (mark : Int) : Document :=
  names.foldl (fun d name => Document.insert d name (.int32 mark)) []

/-- The document of a projection. -/
def Projection.render : Projection → Document
  | .standard hidden    => marked [hidden] 0
  | .keep []            => marked [storedId] 1
  | .keep fields        => marked fields 1
  | .drop fields hidden => marked (fields ++ [hidden]) 0

/-! ### Patches -/

/-- The parts of an update document. -/
structure UpdateParts where
  set : Document := []
  push : Document := []
  pull : Document := []

/-- The place of a member in the matched element of a list. -/
def matchedPath (list member : String) : String := list ++ ".$." ++ member

/-- The entries that change the matched element, after those that are there. -/
def renderMembers (list : String) (set : Document) : Fields → Except StorageFault Document
  | []           => .ok set
  | (k, v) :: ms => do renderMembers list (set.insert (matchedPath list k) (← v.render)) ms

/-- One more update. -/
def UpdateParts.add (parts : UpdateParts) (u : FieldUpdate) : Except StorageFault UpdateParts :=
  if isPatchable u.target then
    match u with
    | .set field v         => do return { parts with set := parts.set.insert field (← v.render) }
    | .push field v        => do return { parts with push := parts.push.insert field (← v.render) }
    | .pull field v        => do return { parts with pull := parts.pull.insert field (← v.render) }
    | .setMatched list ms  => do return { parts with set := ← renderMembers list parts.set ms }
  else .error (.integrity (.unpatchable u.target))

/-- An operator with its entries, if it has some. -/
def operatorEntry (operator : String) (entries : Document) : Document :=
  if entries.isEmpty then [] else [(operator, .document entries)]

/-- The update document with these parts. -/
def UpdateParts.document (parts : UpdateParts) (now : String) : Document :=
  [("$set", .document (parts.set.insert updatedField (.string now))),
   ("$inc", .document [(versionField, .int32 1)])] ++
    operatorEntry "$push" parts.push ++ operatorEntry "$pull" parts.pull

/-- The document of a patch. -/
def Patch.render (p : Patch) (now : String) : Except StorageFault Document := do
  return (← p.updates.foldlM UpdateParts.add {}).document now

end Shelf
