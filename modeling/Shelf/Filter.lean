import Shelf.Record
import Shelf.Text.CaseFold
import Shelf.Decimal.Numeral
import Shelf.Text.Blank

/-!
Filters: conjunctions of conditions on single fields.

A scalar condition holds of a list when it holds of one of its items, nested lists included; a
condition on elements asks for one item that is an object with all the given members. A field that
is absent satisfies nothing.
-/

namespace Shelf

/-- The comparisons that clients can ask for. -/
inductive Comparator where | gt | gte | lt | lte
  deriving DecidableEq

namespace Comparator

/-- The word that clients write. -/
def token : Comparator → String
  | .gt  => "gt"
  | .gte => "gte"
  | .lt  => "lt"
  | .lte => "lte"

/-- The operator of the storage's query language. -/
def storageToken (c : Comparator) : String := "$" ++ c.token

/-- The comparison that a word stands for; case matters. -/
def ofToken? (token : String) : Option Comparator :=
  [gte, gt, lte, lt].find? (·.token = token)

/-- Whether a stored number that compares so to the bound is accepted. -/
def holds : Comparator → Ordering → Bool
  | .gt,  o => o == .gt
  | .gte, o => o != .lt
  | .lt,  o => o == .lt
  | .lte, o => o != .gt

end Comparator

/-- A text to be found up to case; every character stands for itself. -/
structure TextPattern where
  needle : String
  deriving DecidableEq

namespace TextPattern

/-- The characters that mean something in a regular expression. -/
def metaCharacters : List Char := "\\.+*?()|[]\x7b\x7d^$#&-~".toList

/-- The pattern as a regular expression that matches its characters alone. -/
def escaped (p : TextPattern) : String :=
  String.ofList (p.needle.toList.flatMap fun c =>
    if metaCharacters.contains c then ['\\', c] else [c])

/-- Whether the text contains the pattern. -/
def isMatch (p : TextPattern) (text : String) : Bool := Text.occursCaseless p.needle text

end TextPattern

/-- What the value of a field has to satisfy. -/
inductive Condition
  | equals (raw : String)
  | compare (op : Comparator) (bound : Float)
  | contains (pattern : TextPattern)
  | elementMatch (criteria : Fields)

/-- A condition on one field. -/
structure Predicate where
  field : String
  condition : Condition

/-- A conjunction; the empty one accepts every record. -/
structure Filter where
  predicates : List Predicate := []

/-! ### Scalars -/

/-- How two floating-point numbers compare; one that is not a number compares to none. -/
def compareFloats? (x y : Float) : Option Ordering :=
  if x < y then some .lt else if x == y then some .eq else if y < x then some .gt else none

/-- Whether a stored scalar is what a client wrote: the text itself, or a number or a boolean that
reads like it. -/
def equalsLiteral (stored : Json) (raw : String) : Bool :=
  match stored with
  | .string s => s == raw
  | .number n =>
    match Decimal.readFloat? (Text.trim raw.toList) with
    | some x => n.toFloat == x
    | none   => false
  | .bool true  => raw == "true"
  | .bool false => raw == "false"
  | _ => false

/-- Whether a stored number is on the right side of a bound. -/
def withinBound (op : Comparator) (bound : Float) (stored : Json) : Bool :=
  match stored.float?.bind (compareFloats? · bound) with
  | some o => op.holds o
  | none   => false

/-- Whether a stored string contains a pattern. -/
def containsPattern (p : TextPattern) : Json → Bool
  | .string s => p.isMatch s
  | _         => false

mutual

/-- Whether a test accepts a value that is no list, or some item of one, however deep. -/
def Json.anyLeaf (test : Json → Bool) : Json → Bool
  | .array xs => Json.anyLeafItem test xs
  | v         => test v

/-- Whether a test accepts a leaf of some item. -/
def Json.anyLeafItem (test : Json → Bool) : List Json → Bool
  | []      => false
  | x :: xs => x.anyLeaf test || Json.anyLeafItem test xs

end

namespace Condition

/-- Whether a stored value satisfies the condition. -/
def holds (stored : Json) : Condition → Bool
  | .equals raw            => stored.anyLeaf (equalsLiteral · raw)
  | .compare op bound      => stored.anyLeaf (withinBound op bound)
  | .contains p            => stored.anyLeaf (containsPattern p)
  | .elementMatch criteria => (stored.items?.getD []).any (·.carries criteria)

/-- The members that an element has to carry, for a condition on elements. -/
def criteria? : Condition → Option Fields
  | .elementMatch criteria => some criteria
  | _                      => none

end Condition

/-- Whether a record has the field and its value satisfies the condition. -/
def Predicate.accepts (p : Predicate) (r : Record) : Bool :=
  match r.valueOf? p.field with
  | some v => p.condition.holds v
  | none   => false

namespace Filter

/-- One more predicate. -/
def and (f : Filter) (field : String) (condition : Condition) : Filter :=
  ⟨f.predicates ++ [⟨field, condition⟩]⟩

/-- The filter for one record. -/
def byId (id : Uuid) : Filter := ⟨[⟨idField, .equals id.text⟩]⟩

/-- Whether a record satisfies every predicate. -/
def accepts (f : Filter) (r : Record) : Bool := f.predicates.all (·.accepts r)

/-- What the first condition on elements of this list asks of an element. -/
def elementCriteria? (f : Filter) (list : String) : Option Fields :=
  f.predicates.findSome? fun p => if p.field = list then p.condition.criteria? else none

end Filter

end Shelf
