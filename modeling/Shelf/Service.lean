import Shelf.KeyedList
import Shelf.Mean
import Shelf.Plan
import Shelf.Toggle

/-!
The operations that callers use, over any storage.

A change reads the record, plans one patch and submits it as one write. Rating is two writes: the
entry, then the mean; when the second fails the mean stays as it was until the next rating.
-/

namespace Shelf

/-- A collection with its paging and its pair of membership lists. -/
structure Service where
  collection : Collection := .products
  paging : Paging := {}
  toggles : TogglePair := {}

/-- A line for a shopping cart. -/
structure CartLine where
  product : Uuid
  color : String
  quantity : Nat

/-- A rating by a user. -/
structure Rating where
  postedBy : Uuid
  star : Nat
  comment : Option String := none

namespace CartLine

/-- Refuses a line without a colour or a quantity. -/
def check (l : CartLine) : Except Rejection Unit :=
  if Text.trim l.color.toList = [] then .error (.missingField "color")
  else if l.quantity < 1 then .error (.invalidValue "quantity" .belowOne)
  else .ok ()

/-- The key of the line. -/
def key (l : CartLine) : Fields :=
  [("color", .string (Text.trimmed l.color)), ("product", .string l.product.text)]

/-- What is written under the key. -/
def payload (l : CartLine) : Fields := [("quantity", .int l.quantity)]

end CartLine

namespace Rating

/-- Refuses a rating outside one to five stars. -/
def check (r : Rating) : Except Rejection Unit :=
  if 1 ≤ r.star ∧ r.star ≤ 5 then .ok ()
  else .error (.invalidValue "star" (.starOutOfRange r.star))

/-- The key of the rating. -/
def key (r : Rating) : Fields := [("postedBy", .string r.postedBy.text)]

/-- What is written under the key; without a comment, the one stored stays. -/
def payload (r : Rating) : Fields :=
  match r.comment with
  | some text => [("comment", .string text), ("star", .int r.star)]
  | none      => [("star", .int r.star)]

end Rating

namespace Service

variable {σ : Type} [Storage σ]

/-- Fails when nothing was found. -/
def orNotFound (s : Service) (id : Uuid) : Option Record → Action σ Record
  | some r => pure r
  | none   => throw (.notFound s.collection.name id)

/-- One page of the listing that a client asks for. -/
def list (s : Service) (p : Params) : Action σ Page := do
  let plan ← Action.ofRejection (QueryPlan.compile s.collection s.paging p)
  plan.execute

/-- One record. -/
def get (s : Service) (id : Uuid) : Action σ Record := do
  s.orNotFound id (← Storage.findById id)

/-- Stores a new record. -/
def insert (now : String) (r : Record) : Action σ Record := Storage.insert now r

/-- Toggles an actor on one side of the pair. -/
def toggle (s : Service) (now : String) (id actor : Uuid) (side : Side) : Action σ Record := do
  let r ← s.get id
  let t ← Action.ofCorruption (s.toggles.plan r actor.text side)
  s.orNotFound id (← Storage.updateById now id t.patch)

/-- Where an actor is. -/
def membership (s : Service) (id actor : Uuid) : Action σ Membership := do
  let r ← s.get id
  Action.ofCorruption (s.toggles.membership r actor.text)

/-- Writes an entry of a keyed list. -/
def upsertEntry (s : Service) (now : String) (id : Uuid) (l : KeyedList) (key payload : Fields) :
    Action σ Record := do
  let r ← s.get id
  let p ← Action.ofExcept (l.plan r key payload)
  let written ← match p.matcher with
    | some f => Storage.updateFirst now f p.patch
    | none   => Storage.updateById now id p.patch
  s.orNotFound id written

/-- Sets the quantity of a product in one colour. -/
def updateCart (s : Service) (now : String) (id : Uuid) (line : CartLine) : Action σ Record := do
  Action.ofRejection line.check
  s.upsertEntry now id .cart line.key line.payload

/-- Writes a rating, then the mean of all ratings. -/
def rate (s : Service) (now : String) (id : Uuid) (rating : Rating) : Action σ Record := do
  Action.ofRejection rating.check
  let rated ← s.upsertEntry now id .ratings rating.key rating.payload
  let patch ← Action.ofCorruption (StoredMean.ratings.patch rated)
  s.orNotFound id (← Storage.updateById now id patch)

end Service

end Shelf
