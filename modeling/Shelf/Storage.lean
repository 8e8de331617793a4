import Shelf.Patch
import Shelf.Projection
import Shelf.Sort

/-!
What a collection's storage can do.

An action runs on a state of the storage, may fail, and leaves a state either way. A listing is read
by filter, order, projection and position; a record is read or changed by identifier, or changed as
the first one that a filter accepts, and the filter then also says which element a patch matches.
Writes get the time at which they happen.
-/

namespace Shelf

/-- A computation over a state that may fail; the state outlives a failure. -/
abbrev Action (σ : Type) := ExceptT Error (StateM σ)

namespace Action

variable {σ α : Type}

/-- The action that a function of the state describes. -/
def ofFunction (f : σ → Except Error α × σ) : Action σ α := ExceptT.mk fun s => f s

/-- Runs an action. -/
def runOn (act : Action σ α) (s : σ) : Except Error α × σ := (ExceptT.run act).run s

/-- Fails with a rejection, or goes on. -/
def ofRejection : Except Rejection α → Action σ α
  | .ok a    => pure a
  | .error e => throw (.rejected e)

/-- Fails because of stored data, or goes on. -/
def ofCorruption : Except Corruption α → Action σ α
  | .ok a    => pure a
  | .error e => throw (.storage (.integrity e))

/-- Fails, or goes on. -/
def ofExcept : Except Error α → Action σ α
  | .ok a    => pure a
  | .error e => throw e

end Action

/-- The operations of a storage with states `σ`. -/
class Storage (σ : Type) where
  find : Filter → SortSpec → Projection → (skip limit : Nat) → Action σ (List Record)
  count : Filter → Action σ Nat
  findById : Uuid → Action σ (Option Record)
  updateById : (now : String) → Uuid → Patch → Action σ (Option Record)
  updateFirst : (now : String) → Filter → Patch → Action σ (Option Record)
  insert : (now : String) → Record → Action σ Record

end Shelf
