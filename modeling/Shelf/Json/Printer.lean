import Shelf.Json.Basic
import Shelf.Decimal.Shortest
import Shelf.Decimal.Rounding

/-!
JSON as text, without spaces.

Integers print as digits. A floating-point number prints its shortest digits `d.ddd · 10^x`:
positionally, and always with a point, while `-5 ≤ x ≤ 15`, and with an exponent otherwise.

    100.0    0.00001    1000000000000000.0    -0.0    1e-6    1.5e-7    1e+16
-/

namespace Shelf

/-- Digits with a point after the first `whole` of them; zeros fill up either side. -/
def pointed (digits : List Char) (whole : Int) : List Char :=
  if whole ≤ 0 then '0' :: '.' :: (List.replicate (-whole).toNat '0' ++ digits)
  else
    let whole := whole.toNat
    let front := digits.take whole ++ List.replicate (whole - digits.length) '0'
    let back := digits.drop whole
    front ++ '.' :: (if back.isEmpty then ['0'] else back)

/-- Digits in scientific form. -/
def scientific (digits : List Char) (x : Int) : List Char :=
  let sign := if x < 0 then '-' else '+'
  let fraction := digits.drop 1
  digits.take 1 ++ (if fraction.isEmpty then [] else '.' :: fraction) ++
    'e' :: sign :: Nat.toDigits 10 x.natAbs

/-- The text of a finite floating-point number. -/
def realText (x : Float) : String :=
  let sign := if Decimal.signBit x then ['-'] else []
  if x == 0.0 then String.ofList (sign ++ ['0', '.', '0'])
  else
    let d := Decimal.shortest x
    let digits := Nat.toDigits 10 d.digits
    let first := d.place + digits.length - 1
    String.ofList (sign ++
      if -5 ≤ first ∧ first ≤ 15 then pointed digits (first + 1) else scientific digits first)

/-- The text of an integer. -/
def intText (n : Int) : String :=
  String.ofList ((if n < 0 then ['-'] else []) ++ Nat.toDigits 10 n.natAbs)

/-- The text of a number. -/
def Number.text : Number → String
  | .int n  => intText n
  | .real x => realText x

/-- A character as it stands in a quoted string. -/
def escapeChar (c : Char) : List Char :=
  if c = '"' then ['\\', '"']
  else if c = '\\' then ['\\', '\\']
  else if c = '\n' then ['\\', 'n']
  else if c = '\t' then ['\\', 't']
  else if c = '\r' then ['\\', 'r']
  else if c.toNat = 8 then ['\\', 'b']
  else if c.toNat = 12 then ['\\', 'f']
  else if c.toNat < 32 then
    '\\' :: 'u' :: '0' :: '0' :: [Nat.digitChar (c.toNat / 16), Nat.digitChar (c.toNat % 16)]
  else [c]

/-- A string in quotes. -/
def quoted (s : String) : String :=
  String.ofList ('"' :: s.toList.flatMap escapeChar ++ ['"'])

mutual

/-- The text of a value. -/
def Json.text : Json → String
  | .null       => "null"
  | .bool true  => "true"
  | .bool false => "false"
  | .number n   => n.text
  | .string s   => quoted s
  | .array xs   => "[" ++ ",".intercalate (Json.itemTexts xs) ++ "]"
  | .object ms  => "\x7b" ++ ",".intercalate (Json.memberTexts ms) ++ "\x7d"

/-- The texts of the items. -/
def Json.itemTexts : List Json → List String
  | []      => []
  | x :: xs => x.text :: Json.itemTexts xs

/-- The texts of the members, each a quoted name, a colon and a value. -/
def Json.memberTexts : List (String × Json) → List String
  | []           => []
  | (k, v) :: ms => (quoted k ++ ":" ++ v.text) :: Json.memberTexts ms

end

end Shelf
