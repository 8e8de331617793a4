import Shelf.Decimal.Integer
import Shelf.Json.Printer

/-!
Messages about a text, with the place in the text that they are about.

A message names its place at its end, `… at line 3 column 7`. Lines count from one; line zero is no
place, and a message that names it is one without.
-/

namespace Shelf

/-- A message, and the line and the column that it is about. -/
structure Located where
  text : String
  place : Option (Nat × Nat) := none
  deriving DecidableEq

namespace Located

/-- What stands before the last occurrence of a text, and what stands behind it. -/
def splitLast? (needle : List Char) : List Char → Option (List Char × List Char)
  | []      => none
  | c :: cs =>
    match splitLast? needle cs with
    | some (before, after) => some (c :: before, after)
    | none =>
      if needle.isPrefixOf (c :: cs) then some ([], (c :: cs).drop needle.length) else none

/-- Stands before the number of a line. -/
def lineMark : String := " at line "

/-- Stands before the number of a column. -/
def columnMark : String := " column "

/-- A line and a column, from the number of the line to the end of the message. -/
def readPlace? (cs : List Char) : Option (Nat × Nat) :=
  let (line, rest) := Decimal.spanDigits cs
  let (column, more) := Decimal.spanDigits (rest.drop columnMark.length)
  if columnMark.toList.isPrefixOf rest && more.isEmpty then do
    return (← (Decimal.readSize line).toOption, ← (Decimal.readSize column).toOption)
  else none

/-- Takes the place off the end of a message. -/
def ofMessage (message : String) : Located :=
  let found := do
    let (before, after) ← splitLast? lineMark.toList message.toList
    let place ← readPlace? after
    return (⟨String.ofList before, some place⟩ : Located)
  match found with
  | some ⟨text, some (0, _)⟩ => ⟨text, none⟩
  | some l                   => l
  | none                     => ⟨message, none⟩

/-- The message with its place. -/
def message (l : Located) : String :=
  match l.place with
  | some (line, column) => l.text ++ lineMark ++ intText line ++ columnMark ++ intText column
  | none                => l.text

end Located

end Shelf
