import Shelf.Patch

/-!
Two membership lists that exclude each other.

An actor is in one of the two lists of a record or in neither. A toggle on a side takes the actor
out of the list it is in, whichever that is; only an actor in neither is put into the list of that
side. So changing sides takes two toggles.

                toggle a           toggle b
    neither  ──────────▶ inA    ──────────▶ inB
    inA      ──────────▶ neither ─────────▶ neither
    inB      ──────────▶ neither ─────────▶ neither
-/

namespace Shelf

/-- One of the two lists. -/
inductive Side where | a | b
  deriving DecidableEq

/-- Where an actor is. -/
inductive Membership where | neither | inA | inB
  deriving DecidableEq

/-- Being in the list of a side. -/
def Membership.inList : Side → Membership
  | .a => .inA
  | .b => .inB

/-- The side of the list that an actor is in. -/
def Membership.side? : Membership → Option Side
  | .neither => none
  | .inA     => some .a
  | .inB     => some .b

/-- Where an actor is after a toggle. -/
def Membership.toggle : Membership → Side → Membership
  | .neither, s => inList s
  | .inA,     _ => .neither
  | .inB,     _ => .neither

/-- The names of the two lists. -/
structure TogglePair where
  a : String := "likes"
  b : String := "dislikes"
  deriving DecidableEq

/-- A planned toggle: where the actor is, where it will be, and the patch that takes it there. -/
structure Transition where
  before : Membership
  after : Membership
  patch : Patch

/-- Whether a list holds the actor's name. -/
def holdsActor (xs : List Json) (actor : String) : Bool := xs.any (·.string? == some actor)

namespace TogglePair

/-- The list of a side. -/
def field (t : TogglePair) : Side → String
  | .a => t.a
  | .b => t.b

/-- Where an actor is in a record. -/
def membership (t : TogglePair) (r : Record) (actor : String) :
    Except Corruption Membership := do
  let inA := holdsActor (← r.list t.a) actor
  let inB := holdsActor (← r.list t.b) actor
  match inA, inB with
  | false, false => .ok .neither
  | true,  false => .ok .inA
  | false, true  => .ok .inB
  | true,  true  => .error (.inBothLists actor t.a t.b r.id)

/-- The patch of a toggle: out of the list that the actor is in, or into the list of the side. -/
def patch (t : TogglePair) (actor : String) (before : Membership) (side : Side) : Patch :=
  match before.side? with
  | some s => .one (.pull (t.field s) (.string actor))
  | none   => .one (.push (t.field side) (.string actor))

/-- Plans a toggle. -/
def plan (t : TogglePair) (r : Record) (actor : String) (side : Side) :
    Except Corruption Transition := do
  let before ← t.membership r actor
  return ⟨before, before.toggle side, t.patch actor before side⟩

/-- The record after a toggle. -/
def apply (t : TogglePair) (r : Record) (actor : String) (side : Side) :
    Except Corruption Record := do
  (← t.plan r actor side).patch.applied none r

end TogglePair

end Shelf
