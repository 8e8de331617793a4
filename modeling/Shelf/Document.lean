import Shelf.Arrival
import Shelf.Decimal.Integer
import Shelf.Json.Basic

/-!
Documents of a document database.

A document keeps its entries in order; writing to a key that is there replaces the value and keeps
the place. Integers have 32 or 64 bits, signed, so not every JSON integer has a place here. Where
the width of a number matters, JSON spells it as a text in an object of one member:

    {"$numberInt": "5"}      an integer of 32 bits
    {"$numberLong": "5"}     an integer of 64 bits
    {"$numberDouble": "5"}   a floating-point number

Only these spellings are read. Other types have some as well, `$oid`, `$date`, `$numberDecimal` and
`$binary` among them; an object with one of those stays a document here, and so does an object whose
text does not read as the number that it names.
-/

namespace Shelf

/-- A value in a document. -/
inductive DocValue
  | null
  | bool (b : Bool)
  | int32 (n : Int)
  | int64 (n : Int)
  | double (x : Float)
  | string (s : String)
  | array (items : List DocValue)
  | document (entries : List (String × DocValue))
  deriving Inhabited

/-- A document. -/
abbrev Document := List (String × DocValue)

/-- Writes an entry. -/
def Document.insert (d : Document) (key : String) (value : DocValue) : Document :=
  Arrival.put key value d

/-- A number; integers become 64 bits wide. -/
def DocValue.ofNumber? : Number → Option DocValue
  | .int n  => if n < Decimal.countBound then some (.int64 n) else none
  | .real x => some (.double x)

/-- Integers of 32 bits are below this one, and not below its negative. -/
def int32Bound : Int := 0x80000000

/-- The number that a lone entry spells, if it is the spelling of one; spellings of other types are
not covered. -/
def DocValue.spelled? : Document → Option DocValue
  | [("$numberInt", .string s)]    => (Decimal.readSigned? int32Bound s.toList).map .int32
  | [("$numberLong", .string s)]   => (Decimal.readCount? s.toList).map .int64
  | [("$numberDouble", .string s)] => (Decimal.readFloat? s.toList).map .double
  | _                              => none

/-- A document, or the number that it spells. -/
def DocValue.ofEntries (d : Document) : DocValue := (spelled? d).getD (.document d)

mutual

/-- A JSON value as a document value, if all its integers have a place. -/
def DocValue.ofJson? : Json → Option DocValue
  | .null      => some .null
  | .bool b    => some (.bool b)
  | .number n  => DocValue.ofNumber? n
  | .string s  => some (.string s)
  | .array xs  => (DocValue.ofItems? xs).map .array
  | .object ms => (DocValue.ofMembers? ms).map DocValue.ofEntries

/-- The items of a list. -/
def DocValue.ofItems? : List Json → Option (List DocValue)
  | []      => some []
  | x :: xs => do return (← DocValue.ofJson? x) :: (← DocValue.ofItems? xs)

/-- The members of an object. -/
def DocValue.ofMembers? : List (String × Json) → Option (List (String × DocValue))
  | []           => some []
  | (k, v) :: ms => do return (k, ← DocValue.ofJson? v) :: (← DocValue.ofMembers? ms)

end

mutual

/-- Every key in a value, at any depth. -/
def DocValue.keys : DocValue → List String
  | .array xs    => DocValue.itemKeys xs
  | .document es => DocValue.entryKeys es
  | _            => []

/-- Every key in the items of a list. -/
def DocValue.itemKeys : List DocValue → List String
  | []      => []
  | x :: xs => x.keys ++ DocValue.itemKeys xs

/-- The keys of some entries, and those in their values. -/
def DocValue.entryKeys : List (String × DocValue) → List String
  | []           => []
  | (k, v) :: es => k :: v.keys ++ DocValue.entryKeys es

end

end Shelf
