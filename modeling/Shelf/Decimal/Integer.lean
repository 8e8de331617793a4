import Shelf.Decimal.Numeral

/-!
Integers of bounded width read from text.

A size is an optional plus and ASCII digits, and fits in 64 bits unsigned. Reading goes from left to
right and stops at the first fault, so the digit that makes a number too large hides any later
fault. A signed integer may carry a minus too; a count is one of 64 bits.
-/

namespace Shelf.Decimal

/-- The largest size: 64 bits. -/
def maxSize : Nat := 0xFFFFFFFFFFFFFFFF

/-- Counts are below this one, and not below its negative. -/
def countBound : Int := 0x8000000000000000

/-- Why a text is no size. -/
inductive SizeFault where | empty | invalidDigit | tooLarge
  deriving DecidableEq, Repr

/-- The wording of a fault. -/
def SizeFault.message : SizeFault → String
  | .empty        => "cannot parse integer from empty string"
  | .invalidDigit => "invalid digit found in string"
  | .tooLarge     => "number too large to fit in target type"

/-- One more digit on the right. -/
def sizeStep (n : Nat) (c : Char) : Except SizeFault Nat :=
  if c.isDigit then
    let n := 10 * n + (c.toNat - '0'.toNat)
    if maxSize < n then .error .tooLarge else .ok n
  else .error .invalidDigit

/-- Reads a size. -/
def readSize : List Char → Except SizeFault Nat
  | []        => .error .empty
  | ['+']     => .error .invalidDigit
  | '+' :: cs => cs.foldlM sizeStep 0
  | cs        => cs.foldlM sizeStep 0

/-- Reads an integer below `bound`, and not below its negative. -/
def readSigned? (bound : Int) (cs : List Char) : Option Int :=
  let (negative, ds) := spanSign cs
  if ds.isEmpty ∨ !ds.all Char.isDigit then none
  else
    let n : Int := if negative then -(digitsValue ds : Int) else digitsValue ds
    if -bound ≤ n ∧ n < bound then some n else none

/-- Reads a count. -/
def readCount? (cs : List Char) : Option Int := readSigned? countBound cs

end Shelf.Decimal
