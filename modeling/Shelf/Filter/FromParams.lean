import Shelf.Collection
import Shelf.Filter
import Shelf.Params
import Shelf.Text.Token

/-!
From query parameters to a filter.

A plain parameter asks for equality, or for a substring where the collection has text search. An
operator `gte`, `gt`, `lte` or `lt` asks for a comparison with a number; any other word in brackets
is taken as the name of a field that the value belongs to. Whatever becomes a field name is a plain
token and one of the fields that the collection lets clients filter by; the first parameter that is
not decides the answer.

A substring is looked for with a pattern, and where patterns are compiled, one of more than a certain
size is refused as invalid. This refusal is left out: here a substring may have any length.
-/

namespace Shelf

/-- Refuses what is no plain token. -/
def checkToken (token : String) : Except Rejection Unit :=
  if Text.isPlainToken token then .ok () else .error (.controlSyntax token)

namespace Collection

/-- Refuses a field that clients may not filter by. -/
def requireFilterable (c : Collection) (field : String) : Except Rejection Unit :=
  if c.isFilterable field then .ok () else .error (.unknownField field)

/-- What a text given for a field asks of it. No text is too long for a substring here. -/
def plainCondition (c : Collection) (field raw : String) : Condition :=
  if c.isTextSearch field then .contains ⟨raw⟩ else .equals raw

/-- Reads the bound of a comparison: a finite number, blanks around it allowed. -/
def readBound (name op raw : String) : Except Rejection Float :=
  match (Decimal.readFloat? (Text.trim raw.toList)).filter Float.isFinite with
  | some x => .ok x
  | none   => .error (.invalidValue (bracketed name op) (.notANumber raw))

/-- The predicate that one operator of a nested parameter asks for. -/
def operatorPredicate (c : Collection) (name : String) (op : String × String) :
    Except Rejection Predicate :=
  match Comparator.ofToken? op.1 with
  | some comparator => do
    c.requireFilterable name
    return ⟨name, .compare comparator (← readBound name op.1 op.2)⟩
  | none => do
    checkToken op.1
    c.requireFilterable op.1
    return ⟨op.1, c.plainCondition op.1 op.2⟩

/-- The predicates that a parameter asks for. -/
def predicates (c : Collection) (param : String × ParamValue) :
    Except Rejection (List Predicate) := do
  checkToken param.1
  match param.2 with
  | .single raw =>
    c.requireFilterable param.1
    return [⟨param.1, c.plainCondition param.1 raw⟩]
  | .nested ops => ops.mapM (c.operatorPredicate param.1)

/-- The filter that the parameters ask for. -/
def filterOf (c : Collection) (p : Params) : Except Rejection Filter := do
  return ⟨(← p.filters.mapM c.predicates).flatten⟩

end Collection

end Shelf
