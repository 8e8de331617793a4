import Shelf.Json.Basic
import Shelf.Decimal.Integer

/-!
Reading JSON text.

A literal without point and exponent is an integer when it lies in `-2^63 … 2^64 - 1`, and every
other literal is a floating-point number; so is `-0`, which keeps its sign that way. Members end up
in the order of their names, and of equal names the last one counts.

Reading goes from left to right and returns what it has not used. `fuel` bounds the number of
values and brackets, of which a text holds no more than characters.
-/

namespace Shelf.Json

/-- What may stand between the parts of a value. -/
def skipSpace (cs : List Char) : List Char :=
  cs.dropWhile fun c => c = ' ' ∨ c = '\t' ∨ c = '\n' ∨ c = '\r'

/-- The value of a hexadecimal digit. -/
def hexDigit? (c : Char) : Option Nat :=
  if '0' ≤ c ∧ c ≤ '9' then some (c.toNat - '0'.toNat)
  else if 'a' ≤ c ∧ c ≤ 'f' then some (c.toNat - 'a'.toNat + 10)
  else if 'A' ≤ c ∧ c ≤ 'F' then some (c.toNat - 'A'.toNat + 10)
  else none

/-- The value of four hexadecimal digits. -/
def hexWord? (a b c d : Char) : Option Nat := do
  let w := 16 * (16 * (16 * (← hexDigit? a) + (← hexDigit? b)) + (← hexDigit? c))
  return w + (← hexDigit? d)

/-- The character that a short escape stands for. -/
def shortEscape? : Char → Option Char
  | '"'  => some '"'
  | '\\' => some '\\'
  | '/'  => some '/'
  | 'b'  => some (Char.ofNat 8)
  | 'f'  => some (Char.ofNat 12)
  | 'n'  => some '\n'
  | 'r'  => some '\r'
  | 't'  => some '\t'
  | _    => none

/-- A character above U+FFFF from its two surrogates. -/
def joinSurrogates (high low : Nat) : Char :=
  Char.ofNat (0x10000 + (high - 0xD800) * 0x400 + (low - 0xDC00))

/-- The characters up to the closing quote. -/
def readQuoted : List Char → Option (List Char × List Char)
  | '"' :: rest => some ([], rest)
  | '\\' :: 'u' :: a :: b :: c :: d :: '\\' :: 'u' :: e :: f :: g :: h :: rest => do
    let w ← hexWord? a b c d
    if 0xD800 ≤ w ∧ w < 0xDC00 then
      let low ← hexWord? e f g h
      if 0xDC00 ≤ low ∧ low < 0xE000 then
        let (cs, rest) ← readQuoted rest
        return (joinSurrogates w low :: cs, rest)
      else none
    else
      let (cs, rest) ← readQuoted ('\\' :: 'u' :: e :: f :: g :: h :: rest)
      if 0xDC00 ≤ w ∧ w < 0xE000 then none else return (Char.ofNat w :: cs, rest)
  | '\\' :: 'u' :: a :: b :: c :: d :: rest => do
    let w ← hexWord? a b c d
    let (cs, rest) ← readQuoted rest
    if 0xD800 ≤ w ∧ w < 0xE000 then none else return (Char.ofNat w :: cs, rest)
  | '\\' :: c :: rest => do
    let c ← shortEscape? c
    let (cs, rest) ← readQuoted rest
    return (c :: cs, rest)
  | c :: rest => do
    let (cs, rest) ← readQuoted rest
    if c.toNat < 32 then none else return (c :: cs, rest)
  | [] => none

/-- The number that a literal stands for. -/
def numberOfLiteral? (cs : List Char) : Option Number :=
  let (negative, ds) := Decimal.spanSign cs
  if ds.all Char.isDigit ∧ !ds.isEmpty then
    let size := Decimal.digitsValue ds
    if negative ∧ size ≠ 0 ∧ (size : Int) ≤ Decimal.countBound then some (.int (-size))
    else if !negative ∧ size ≤ Decimal.maxSize then some (.int size)
    else (Decimal.readFloat? cs).map .real
  else (Decimal.readFloat? cs).map .real

/-- What a number literal is made of. -/
def isLiteralChar (c : Char) : Bool :=
  c.isDigit || c == '-' || c == '+' || c == '.' || c == 'e' || c == 'E'

/-- A number at the front. -/
def readNumber (cs : List Char) : Option (Json × List Char) :=
  (numberOfLiteral? (cs.takeWhile isLiteralChar)).map
    fun n => (.number n, cs.dropWhile isLiteralChar)

mutual

/-- A value at the front. -/
def readValue : (fuel : Nat) → List Char → Option (Json × List Char)
  | 0,        _  => none
  | fuel + 1, cs =>
    match skipSpace cs with
    | 'n' :: 'u' :: 'l' :: 'l' :: rest        => some (.null, rest)
    | 't' :: 'r' :: 'u' :: 'e' :: rest        => some (.bool true, rest)
    | 'f' :: 'a' :: 'l' :: 's' :: 'e' :: rest => some (.bool false, rest)
    | '"' :: rest => (readQuoted rest).map fun (s, rest) => (.string (String.ofList s), rest)
    | '[' :: rest =>
      match skipSpace rest with
      | ']' :: rest => some (.array [], rest)
      | rest        => (readItems fuel rest).map fun (xs, rest) => (.array xs, rest)
    | '\x7b' :: rest =>
      match skipSpace rest with
      | '\x7d' :: rest => some (.object [], rest)
      | rest => (readMembers fuel rest).map fun (ms, rest) => (.object (Fields.ofList ms), rest)
    | rest => readNumber rest

/-- The items of an array, up to its closing bracket. -/
def readItems : (fuel : Nat) → List Char → Option (List Json × List Char)
  | 0,        _  => none
  | fuel + 1, cs => do
    let (x, rest) ← readValue fuel cs
    match skipSpace rest with
    | ',' :: rest =>
      let (xs, rest) ← readItems fuel rest
      return (x :: xs, rest)
    | ']' :: rest => return ([x], rest)
    | _           => none

/-- The members of an object, up to its closing brace. -/
def readMembers : (fuel : Nat) → List Char → Option (List (String × Json) × List Char)
  | 0,        _  => none
  | fuel + 1, cs => do
    let .some ('"', rest) := (skipSpace cs).head?.map (·, (skipSpace cs).tail) | none
    let (name, rest) ← readQuoted rest
    let .some (':', rest) := (skipSpace rest).head?.map (·, (skipSpace rest).tail) | none
    let (v, rest) ← readValue fuel rest
    match skipSpace rest with
    | ',' :: rest =>
      let (ms, rest) ← readMembers fuel rest
      return ((String.ofList name, v) :: ms, rest)
    | '\x7d' :: rest => return ([(String.ofList name, v)], rest)
    | _              => none

end

/-- Reads a whole text as one value. -/
def ofText? (text : String) : Option Json := do
  let cs := text.toList
  let (v, rest) ← readValue (2 * cs.length + 1) cs
  if (skipSpace rest).isEmpty then some v else none

end Shelf.Json
