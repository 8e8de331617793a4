import Shelf.Patch

/-!
Lists whose entries are found by key.

An entry is found by the values of the list's key fields, all of them. Writing a payload under a key
changes the first entry that carries it, and appends one that consists of key and payload when there
is none. A key names each key field with a value and nothing else, and a payload names none.

    key {product, color}     payload {quantity: 2}
    [{color: red, product: p, quantity: 1}]   ↦   [{color: red, product: p, quantity: 2}]
-/

namespace Shelf

/-- A list field and the fields that make up the key of its entries. -/
structure KeyedList where
  field : String
  keyFields : List String
  deriving DecidableEq

/-- What a write does to the list. -/
inductive UpsertOutcome
  | updated (index : Nat)
  | appended
  deriving DecidableEq

/-- A planned write: its outcome, the patch, and the filter that finds the entry to change. -/
structure UpsertPlan where
  outcome : UpsertOutcome
  patch : Patch
  matcher : Option Filter

namespace KeyedList

/-- The lines of a shopping cart. -/
def cart : KeyedList := ⟨"cart", ["product", "color"]⟩

/-- The ratings of a record. -/
def ratings : KeyedList := ⟨"ratings", ["postedBy"]⟩

/-- Whether a key has no value for a field; null is none. -/
def lacks (key : Fields) (field : String) : Bool :=
  match key.get? field with
  | none       => true
  | some .null => true
  | some _     => false

/-- Refuses a key or a payload that does not fit the list. -/
def check (l : KeyedList) (key payload : Fields) : Except Rejection Unit :=
  match l.keyFields.find? (lacks key) with
  | some field => .error (.missingField field)
  | none =>
    match key.find? (!l.keyFields.contains ·.1) with
    | some extra => .error (.invalidValue extra.1 (.notAKeyField l.field))
    | none =>
      match payload.find? (l.keyFields.contains ·.1) with
      | some clash => .error (.invalidValue clash.1 .keyFieldInPayload)
      | none       => .ok ()

/-- The place of the first entry that carries the key. -/
def position (l : KeyedList) (r : Record) (key : Fields) : Except Corruption (Option Nat) := do
  return (← r.list l.field).findIdx? (·.carries key)

/-- The filter for one record and an entry of it. -/
def matcher (l : KeyedList) (r : Record) (key : Fields) : Filter :=
  (Filter.byId r.id).and l.field (.elementMatch key)

/-- The write to a list in which the key is at this place, or nowhere. -/
def planAt (l : KeyedList) (r : Record) (key payload : Fields) : Option Nat → UpsertPlan
  | some i => ⟨.updated i, .one (.setMatched l.field payload), some (l.matcher r key)⟩
  | none   => ⟨.appended, .one (.push l.field (.object (key.override payload))), none⟩

/-- Plans a write. -/
def plan (l : KeyedList) (r : Record) (key payload : Fields) : Except Error UpsertPlan := do
  (l.check key payload).mapError .rejected
  return l.planAt r key payload
    (← (l.position r key).mapError (.storage ∘ .integrity))

/-- The record after a write. -/
def apply (l : KeyedList) (r : Record) (key payload : Fields) : Except Error Record := do
  let p ← l.plan r key payload
  (p.patch.applied p.matcher r).mapError (.storage ∘ .integrity)

end KeyedList

end Shelf
