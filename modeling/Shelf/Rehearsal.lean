import Shelf.Storage
import Shelf.Decimal.Integer

/-!
A storage that misbehaves on schedule.

For rehearsing what callers do when a storage fails, every call of an operation is counted, and a
schedule names calls that fail or that find nothing, in place of reaching the storage. A listing can
also be made to ignore its position and to return every record.
-/

namespace Shelf

/-- The operations of a storage. -/
inductive Operation where | find | count | findById | updateById | updateFirst | insert
  deriving DecidableEq

/-- The name under which an operation is scheduled and reported. -/
def Operation.name : Operation → String
  | .find        => "find"
  | .count       => "count_matching"
  | .findById    => "find_by_id"
  | .updateById  => "update_by_id"
  | .updateFirst => "update_one_matching"
  | .insert      => "insert"

/-- How a call misbehaves. -/
inductive Misbehaviour where | fails | findsNothing
  deriving DecidableEq

/-- A scheduled call: the `nth` one of an operation, counted from one. -/
structure Disruption where
  operation : String
  nth : Nat
  misbehaviour : Misbehaviour
  deriving DecidableEq

/-- A storage with its schedule and the calls it has had. -/
structure Rehearsal (σ : Type) where
  inner : σ
  schedule : List Disruption := []
  ignoresPosition : Bool := false
  calls : List Operation := []

namespace Rehearsal

variable {σ α : Type}

/-- What is scheduled for the `nth` call of an operation. -/
def scheduled? (s : Rehearsal σ) (op : Operation) (nth : Nat) : Option Misbehaviour :=
  (s.schedule.find? fun d => d.operation = op.name ∧ d.nth = nth).map (·.misbehaviour)

/-- The failure of a scheduled call. -/
def failure (op : Operation) (nth : Nat) : Error :=
  .storage (.query "faulty" (op.name ++ " call " ++ intText nth))

/-- Runs an action of the inner storage. -/
def inside (act : Action σ α) (s : Rehearsal σ) : Except Error α × Rehearsal σ :=
  let (result, inner) := act.runOn s.inner
  (result, { s with inner })

/-- Counts a call, and lets it through unless it is scheduled to misbehave. An operation without an
answer for nothing found cannot be made to find nothing. -/
def call (op : Operation) (nothing : Option α) (act : Action σ α) : Action (Rehearsal σ) α :=
  .ofFunction fun s =>
    let nth := s.calls.count op + 1
    let s := { s with calls := op :: s.calls }
    match s.scheduled? op nth, nothing with
    | some .fails,        _      => (.error (failure op nth), s)
    | some .findsNothing, some a => (.ok a, s)
    | _,                  _      => inside act s

instance [Storage σ] : Storage (Rehearsal σ) where
  find f s p skip limit   := .ofFunction fun st =>
    let (skip, limit) := if st.ignoresPosition then (0, Decimal.maxSize) else (skip, limit)
    (call .find none (Storage.find f s p skip limit)).runOn st
  count f                 := call .count none (Storage.count f)
  findById id             := call .findById (some none) (Storage.findById id)
  updateById now id p     := call .updateById (some none) (Storage.updateById now id p)
  updateFirst now f p     := call .updateFirst (some none) (Storage.updateFirst now f p)
  insert now r            := call .insert none (Storage.insert now r)

end Rehearsal

end Shelf
