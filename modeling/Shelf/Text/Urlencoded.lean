import Shelf.Text.Utf8

/-!
Form-urlencoded text as pairs of names and values.

Pairs stand between `&`, and the first `=` of a pair ends its name. In either part a `+` is a space
and `%` with two hexadecimal digits is a byte; a `%` that no two such digits follow stays as it is.
What comes out is read as UTF-8.

    a=1&b=x+y%21&&c   ↦   (a, 1), (b, x y!), (c, )
-/

namespace Shelf.Text

/-- The value of a hexadecimal digit. -/
def hexValue? (b : UInt8) : Option UInt8 :=
  if 0x30 ≤ b ∧ b ≤ 0x39 then some (b - 0x30)
  else if 0x41 ≤ b ∧ b ≤ 0x46 then some (b - 0x37)
  else if 0x61 ≤ b ∧ b ≤ 0x66 then some (b - 0x57)
  else none

/-- The byte that two hexadecimal digits spell. -/
def hexByte? (high low : UInt8) : Option UInt8 := do
  return 16 * (← hexValue? high) + (← hexValue? low)

/-- Every escape becomes its byte. -/
def percentDecode : List UInt8 → List UInt8
  | []                 => []
  | [b]                => [b]
  | [b, c]             => [b, c]
  | b :: c :: d :: rest =>
    match if b = 0x25 then hexByte? c d else none with
    | some v => v :: percentDecode rest
    | none   => b :: percentDecode (c :: d :: rest)

/-- Every plus becomes a space. -/
def plusToSpace (bytes : List UInt8) : List UInt8 :=
  bytes.map fun b => if b = 0x2B then 0x20 else b

/-- One name or value. -/
def formText (bytes : List UInt8) : String :=
  String.ofList (decodeUtf8 (percentDecode (plusToSpace bytes)))

/-- The pair that a stretch between two `&` spells. -/
def formPair (bytes : List UInt8) : String × String :=
  (formText (bytes.takeWhile (· ≠ 0x3D)), formText ((bytes.dropWhile (· ≠ 0x3D)).drop 1))

/-- The pairs of a text, in order; empty stretches spell none. -/
def formPairs (cs : List Char) : List (String × String) :=
  let bytes := (String.ofList cs).toUTF8.data.toList
  ((bytes.splitOn 0x26).filter (· ≠ [])).map formPair

end Shelf.Text
