import Shelf.Filter.FromParams

/-!
Which fields of a record a listing returns.

A projection text lists the fields to keep, or the fields to drop, each behind a `-`; the two do not
mix. Without one every field is kept but the hidden one. The identifier always stays, so it cannot
be dropped, and naming it keeps nothing else.
-/

namespace Shelf

/-- What a listing returns of a record. -/
inductive Projection
  | standard (hidden : String)
  | keep (fields : List String)
  | drop (fields : List String) (hidden : String)
  deriving DecidableEq

/-- An entry of a projection text: a field to keep or one to drop. -/
inductive FieldChoice
  | keep (field : String)
  | drop (field : String)
  deriving DecidableEq

namespace FieldChoice

/-- The field of a choice. -/
def field : FieldChoice → String
  | .keep f => f
  | .drop f => f

/-- Whether the choice is to keep. -/
def isKeep : FieldChoice → Bool
  | .keep _ => true
  | .drop _ => false

/-- Refuses what cannot be chosen: control syntax, parts of fields, and dropping the identifier. -/
def check (choice : FieldChoice) : Except Rejection FieldChoice := do
  checkToken choice.field
  if '.' ∈ choice.field.toList then
    .error (.invalidValue "fields" (.nestedProjection choice.field))
  else if choice = .drop idField then
    .error (.invalidValue "fields" .identifierExcluded)
  else .ok choice

/-- The choice that an entry spells. -/
def read : List Char → Except Rejection FieldChoice
  | '-' :: cs => check (.drop (String.ofList cs))
  | cs        => check (.keep (String.ofList cs))

end FieldChoice

/-- One more name, unless it is there. -/
def addName (names : List String) (name : String) : List String :=
  if names.contains name then names else names ++ [name]

namespace Projection

/-- The distinct fields of the choices, in order; the identifier needs no mention. -/
def fieldsOf (choices : List FieldChoice) : List String :=
  ((choices.map FieldChoice.field).filter (· ≠ idField)).foldl addName []

/-- The projection that a list of choices makes. -/
def ofChoices (choices : List FieldChoice) (hidden : String) : Except Rejection Projection :=
  let kept := choices.filter FieldChoice.isKeep
  let dropped := choices.filter (!·.isKeep)
  match kept, dropped with
  | [],     []     => .ok (.standard hidden)
  | _ :: _, []     => .ok (.keep (fieldsOf kept))
  | [],     _ :: _ => .ok (.drop (fieldsOf dropped) hidden)
  | _ :: _, _ :: _ => .error .mixedProjection

/-- Reads a projection text, if there is one. -/
def read (raw : Option String) (hidden : String) : Except Rejection Projection :=
  match raw with
  | none     => .ok (.standard hidden)
  | some raw => do ofChoices (← (Text.entries raw).mapM FieldChoice.read) hidden

/-- Whether a field is returned. -/
def keeps : Projection → String → Bool
  | .standard hidden,    f => f != hidden
  | .keep fields,        f => fields.contains f
  | .drop fields hidden, f => f != hidden && !fields.contains f

/-- The part of a record that is returned. -/
def apply (p : Projection) (r : Record) : Record :=
  { r with fields := r.fields.filter fun m => p.keeps m.1 }

end Projection

end Shelf
