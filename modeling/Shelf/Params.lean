import Shelf.Arrival
import Shelf.Error
import Shelf.Text.Urlencoded

/-!
Query parameters as a client sends them.

A parameter is plain (`title=phone`) or nested one level deep (`price[gte]=100`), and keeps the
place where its name first came up. Nothing is checked here. Parameters arrive as a sequence of
edits, whether from a query text or from a JSON object:

    price[gte]=1 & price[lt]=9 & price=5     plain writes drop what was nested,
    price=5 & price[gte]=1                   and nested writes drop what was plain
-/

namespace Shelf

/-- The value of a parameter. -/
inductive ParamValue
  | single (text : String)
  | nested (ops : List (String × String))
  deriving DecidableEq

/-- Parameters in order of arrival. -/
structure Params where
  entries : List (String × ParamValue) := []
  deriving DecidableEq

/-- One write to the parameters. -/
inductive ParamEdit
  | insert (name text : String)
  | insertNested (name op text : String)
  deriving DecidableEq

/-- The parameters that shape the listing and filter nothing. -/
def reservedParams : List String := ["limit", "sort", "page", "fields"]

namespace ParamValue

/-- The text of a plain parameter. -/
def single? : ParamValue → Option String
  | .single text => some text
  | .nested _    => none

/-- The operators of a nested parameter; a plain one has none. -/
def ops : ParamValue → List (String × String)
  | .single _   => []
  | .nested ops => ops

end ParamValue

namespace Params

/-- The value of a parameter. -/
def get? (p : Params) (name : String) : Option ParamValue := p.entries.lookup name

/-- The text of a parameter, if it is there and plain. -/
def single? (p : Params) (name : String) : Option String := (p.get? name).bind ParamValue.single?

/-- Writes a plain parameter. -/
def insert (p : Params) (name text : String) : Params :=
  ⟨Arrival.put name (.single text) p.entries⟩

/-- Writes one operator of a nested parameter. -/
def insertNested (p : Params) (name op text : String) : Params :=
  let ops := ((p.get? name).map ParamValue.ops).getD []
  ⟨Arrival.put name (.nested (Arrival.put op text ops)) p.entries⟩

/-- Carries out one edit. -/
def apply (p : Params) : ParamEdit → Params
  | .insert name text          => p.insert name text
  | .insertNested name op text => p.insertNested name op text

/-- The parameters after a sequence of edits. -/
def ofEdits (edits : List ParamEdit) : Params := edits.foldl apply {}

/-- The parameters that are candidates for filters, in order of arrival. -/
def filters (p : Params) : List (String × ParamValue) :=
  p.entries.filter fun e => !reservedParams.contains e.1

end Params

/-! ### From a query text -/

/-- The name and operator that a key `name[op]` spells. -/
def bracketKey? (key : String) : Option (String × String) :=
  let name := key.toList.takeWhile (· ≠ '[')
  match key.toList.dropWhile (· ≠ '[') with
  | _ :: rest =>
    let op := rest.dropLast
    if name ≠ [] ∧ rest.getLast? = some ']' ∧ '[' ∉ op ∧ ']' ∉ op then
      some (String.ofList name, String.ofList op)
    else none
  | [] => none

/-- The edit that a pair of a query text asks for. -/
def ParamEdit.ofPair (pair : String × String) : ParamEdit :=
  match bracketKey? pair.1 with
  | some (name, op) => .insertNested name op pair.2
  | none            => .insert pair.1 pair.2

/-- The parameters of a query text; question marks before it are skipped. -/
def Params.ofQuery (raw : String) : Params :=
  .ofEdits ((Text.formPairs (raw.toList.dropWhile (· = '?'))).map ParamEdit.ofPair)

/-! ### From a JSON object -/

/-- The text of a scalar: strings as they are, numbers and booleans as JSON prints them. -/
def scalarText? : Json → Option String
  | .string s   => some s
  | .number n   => some n.text
  | .bool true  => some "true"
  | .bool false => some "false"
  | _           => none

/-- A parameter's name with an operator. -/
def bracketed (name op : String) : String := name ++ "[" ++ op ++ "]"

/-- The edit for one operator of a nested member. -/
def ParamEdit.ofOperator (name : String) (op : String × Json) : Except Rejection ParamEdit :=
  match scalarText? op.2 with
  | some text => .ok (.insertNested name op.1 text)
  | none      => .error (.invalidValue (bracketed name op.1) .nestedNotScalar)

/-- The edits that a member of a query object asks for. -/
def ParamEdit.ofMember (m : String × Json) : Except Rejection (List ParamEdit) :=
  match m.2 with
  | .object ops => ops.mapM (ParamEdit.ofOperator m.1)
  | v =>
    match scalarText? v with
    | some text => .ok [.insert m.1 text]
    | none      => .error (.invalidValue m.1 .notScalarOrObject)

/-- The parameters of a query object. -/
def Params.ofJson : Json → Except Rejection Params
  | .object ms => do return .ofEdits (← ms.mapM ParamEdit.ofMember).flatten
  | _          => .error (.invalidValue "query" .notAnObject)

end Shelf
