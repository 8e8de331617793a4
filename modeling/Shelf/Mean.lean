import Shelf.Patch
import Shelf.Decimal.Rounding

/-!
A mean that is stored next to the list it is taken of.

The mean of a field over the entries of a list is summed from left to right, rounded to tenths with
halves away from zero, and zero for an empty list. An entry's value is a number or the text of one.
-/

namespace Shelf

/-- The list, the field of its entries that counts, and the field that holds the mean. -/
structure StoredMean where
  list : String
  value : String
  target : String
  deriving DecidableEq

namespace StoredMean

/-- The mean of a record's ratings. -/
def ratings : StoredMean := ⟨"ratings", "star", "totalRatings"⟩

/-- The number that a value stands for, if it stands for one. -/
def numeric? : Json → Option Float
  | .number n => some n.toFloat
  | .string s => Decimal.readFloat? (Text.trim s.toList)
  | _         => none

/-- The number of an entry. -/
def entryValue (m : StoredMean) (entry : Json) : Except Corruption Float :=
  let value := entry.member? m.value
  match value.bind numeric? with
  | some x => .ok x
  | none   => .error (.notNumeric m.list m.value value)

/-- The rounded mean of some numbers. -/
def meanOf : List Float → Float
  | [] => 0.0
  | xs => Decimal.roundToTenths (xs.foldl (· + ·) 0.0 / Float.ofNat xs.length)

/-- The mean for a record. -/
def compute (m : StoredMean) (r : Record) : Except Corruption Float := do
  return meanOf (← (← r.list m.list).mapM m.entryValue)

/-- The patch that stores the mean. -/
def patch (m : StoredMean) (r : Record) : Except Corruption Patch := do
  return .one (.set m.target (.real (← m.compute r)))

/-- The record with its mean stored. -/
def recompute (m : StoredMean) (r : Record) : Except Corruption Record := do
  (← m.patch r).applied none r

end StoredMean

end Shelf
