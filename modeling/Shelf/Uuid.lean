/-!
Record identifiers: UUIDs.

An identifier is thirty-two hexadecimal digits. It prints in lower case, hyphenated after 8, 12, 16
and 20 digits. It is read in either case: hyphenated, also in braces or behind `urn:uuid:` (again in
either case), or without hyphens.

    67e55044-10b1-426f-9247-bb680e5fe0c8
-/

namespace Shelf

/-- An identifier, its digits from left to right. -/
structure Uuid where
  digits : List (Fin 16)
  length_digits : digits.length = 32
  deriving DecidableEq

namespace Uuid

/-- A digit in lower case. -/
def digitChar (d : Fin 16) : Char :=
  ['0', '1', '2', '3', '4', '5', '6', '7', '8', '9', 'a', 'b', 'c', 'd', 'e', 'f'][d]

/-- The digit that a character stands for, in either case. -/
def digit? : Char → Option (Fin 16)
  | '0' => some 0  | '1' => some 1  | '2' => some 2  | '3' => some 3
  | '4' => some 4  | '5' => some 5  | '6' => some 6  | '7' => some 7
  | '8' => some 8  | '9' => some 9
  | 'a' => some 10 | 'b' => some 11 | 'c' => some 12
  | 'd' => some 13 | 'e' => some 14 | 'f' => some 15
  | 'A' => some 10 | 'B' => some 11 | 'C' => some 12
  | 'D' => some 13 | 'E' => some 14 | 'F' => some 15
  | _   => none

/-- The hyphenated spelling of a row of digits. -/
def hyphenate (cs : List Char) : List Char :=
  cs.take 8 ++ '-' :: (cs.drop 8).take 4 ++ '-' :: (cs.drop 12).take 4 ++
    '-' :: (cs.drop 16).take 4 ++ '-' :: cs.drop 20

/-- The row of digits that a hyphenated spelling holds, if its hyphens stand in their places. -/
def dehyphenate? (cs : List Char) : Option (List Char) :=
  let ds := cs.take 8 ++ (cs.drop 9).take 4 ++ (cs.drop 14).take 4 ++ (cs.drop 19).take 4 ++
    cs.drop 24
  if hyphenate ds = cs then some ds else none

/-- The text of an identifier. -/
def text (id : Uuid) : String := String.ofList (hyphenate (id.digits.map digitChar))

/-- Reads thirty-two digits. -/
def ofDigits? (cs : List Char) : Option Uuid :=
  match cs.mapM digit? with
  | some ds => if h : ds.length = 32 then some ⟨ds, h⟩ else none
  | none    => none

/-- Reads an identifier in any of its spellings. -/
def ofText? (s : String) : Option Uuid :=
  let cs := s.toList
  if cs.length = 32 then ofDigits? cs
  else
    let bare :=
      if cs.length = 38 ∧ cs.head? = some '{' ∧ cs.getLast? = some '}' then (cs.drop 1).take 36
      else if cs.length = 45 ∧ (cs.take 9).map Char.toLower = "urn:uuid:".toList then cs.drop 9
      else cs
    (dehyphenate? bare).bind ofDigits?

end Uuid

end Shelf
