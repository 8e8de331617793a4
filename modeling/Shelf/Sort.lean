import Shelf.Filter.FromParams

/-!
Sort orders over several fields.

A sort text lists fields, each behind a `-` for descending order; a field named twice counts once,
where it came first. Values of different kinds stand in a fixed order, absent values with null at
the front, and values of one kind compare as one would expect; any two objects are equal.

    absent, null  <  numbers  <  strings  <  objects  <  lists  <  booleans

Records that no key tells apart keep their order.
-/

namespace Shelf

/-- Ascending or descending. -/
inductive Direction where | asc | desc
  deriving DecidableEq

/-- An ordering read in a direction. -/
def Direction.orient : Direction → Ordering → Ordering
  | .asc,  o => o
  | .desc, o => o.swap

/-- A field to sort by. -/
structure SortKey where
  field : String
  direction : Direction
  deriving DecidableEq

/-- The fields to sort by, the most significant first; with none, records keep their order. -/
structure SortSpec where
  keys : List SortKey := []
  deriving DecidableEq

/-! ### Order of values -/

/-- Where a kind of value stands. -/
def Json.rank : Json → Nat
  | .null     => 0
  | .number _ => 1
  | .string _ => 2
  | .object _ => 3
  | .array _  => 4
  | .bool _   => 5

/-- Order of strings, by code points. -/
def compareStrings (a b : String) : Ordering :=
  if a < b then .lt else if a = b then .eq else .gt

/-- Order of booleans, false first. -/
def compareBools : Bool → Bool → Ordering
  | false, true => .lt
  | true, false => .gt
  | _,     _    => .eq

/-- Order of natural numbers. -/
def compareNats (a b : Nat) : Ordering :=
  if a < b then .lt else if a = b then .eq else .gt

mutual

/-- Order of values. Lists compare item by item, and a list comes after its own beginnings. -/
def Json.order : Json → Json → Ordering
  | .number a, .number b => (compareFloats? a.toFloat b.toFloat).getD .eq
  | .string a, .string b => compareStrings a b
  | .bool a,   .bool b   => compareBools a b
  | .array a,  .array b  => Json.orderItems a b
  | a,         b         => compareNats a.rank b.rank

/-- Order of lists. -/
def Json.orderItems : List Json → List Json → Ordering
  | [],      []      => .eq
  | [],      _ :: _  => .lt
  | _ :: _,  []      => .gt
  | a :: as, b :: bs => (a.order b).then (Json.orderItems as bs)

end

/-- Order of values that may be absent. -/
def orderOptional (a b : Option Json) : Ordering := (a.getD .null).order (b.getD .null)

/-! ### Order of records -/

/-- Order of records by one field. -/
def SortKey.order (k : SortKey) (a b : Record) : Ordering :=
  k.direction.orient (orderOptional (a.valueOf? k.field) (b.valueOf? k.field))

namespace SortSpec

/-- Order of records by all fields, the first difference deciding. -/
def order (s : SortSpec) (a b : Record) : Ordering :=
  s.keys.foldr (fun k rest => (k.order a b).then rest) .eq

/-- Whether records keep their order. -/
def isNatural (s : SortSpec) : Bool := s.keys.isEmpty

/-- The records in order; those that compare equal stay as they were. -/
def sort (s : SortSpec) (rs : List Record) : List Record :=
  rs.mergeSort fun a b => s.order a b != .gt

/-! ### Sort texts -/

/-- The key that an entry of a sort text names. -/
def readKey : List Char → Except Rejection SortKey
  | '-' :: cs => do
    checkToken (String.ofList cs)
    return ⟨String.ofList cs, .desc⟩
  | cs => do
    checkToken (String.ofList cs)
    return ⟨String.ofList cs, .asc⟩

/-- One more key, unless its field is among the keys. -/
def addKey (s : SortSpec) (k : SortKey) : SortSpec :=
  if s.keys.any (·.field = k.field) then s else ⟨s.keys ++ [k]⟩

/-- Reads a sort text. -/
def read (raw : String) : Except Rejection SortSpec := do
  return (← (Text.entries raw).mapM readKey).foldl addKey {}

/-- Refuses a field that the collection cannot be sorted by. -/
def checkAllowed (s : SortSpec) (c : Collection) : Except Rejection Unit :=
  match s.keys.find? (!c.isSortable ·.field) with
  | some k => .error (.unknownSortField k.field)
  | none   => .ok ()

end SortSpec

end Shelf
