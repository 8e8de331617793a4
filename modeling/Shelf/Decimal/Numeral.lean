/-!
Decimal numerals read as floating-point numbers.

    numeral   =  [sign] ( digits ["." [digits]] | "." digits ) [("e" | "E") [sign] digits]
              |  [sign] ("inf" | "infinity" | "nan")        in any case

Nothing may stand around it or between its digits. The number is the nearest `Float`: a numeral too
large for any finite one reads as an infinity, one too small as a zero of its sign.
-/

namespace Shelf.Decimal

/-- The value of a row of ASCII digits. -/
def digitsValue (ds : List Char) : Nat :=
  ds.foldl (fun n d => 10 * n + (d.toNat - '0'.toNat)) 0

/-- The digits at the front, and what follows them. -/
def spanDigits (cs : List Char) : List Char × List Char :=
  (cs.takeWhile Char.isDigit, cs.dropWhile Char.isDigit)

/-- An optional sign at the front: whether it is a minus, and what follows it. -/
def spanSign : List Char → Bool × List Char
  | '-' :: cs => (true, cs)
  | '+' :: cs => (false, cs)
  | cs        => (false, cs)

/-- A row of digits times a power of ten. -/
structure Numeral where
  digits : List Char
  exponent : Int
  deriving DecidableEq

/-- The exponent part; without one the exponent is zero. -/
def exponentPart? : List Char → Option Int
  | [] => some 0
  | c :: cs =>
    if c = 'e' ∨ c = 'E' then
      let (negative, cs) := spanSign cs
      let (ds, rest) := spanDigits cs
      if ds.isEmpty ∨ !rest.isEmpty then none
      else some (if negative then -(digitsValue ds : Int) else digitsValue ds)
    else none

/-- A numeral without its sign. -/
def Numeral.ofChars? (cs : List Char) : Option Numeral :=
  let (whole, rest) := spanDigits cs
  let (fraction, rest) :=
    match rest with
    | '.' :: rest => spanDigits rest
    | rest        => ([], rest)
  if whole.isEmpty && fraction.isEmpty then none
  else (exponentPart? rest).map fun e => ⟨whole ++ fraction, e - fraction.length⟩

/-- The nearest floating-point number. A numeral of 310 places before the point is beyond the finite
ones, and one that starts 330 places behind it is nearer to zero than to the least of them. -/
def Numeral.toFloat (n : Numeral) : Float :=
  let ds := n.digits.dropWhile (· = '0')
  let places := ds.length + n.exponent
  if ds.isEmpty ∨ places < -330 then 0.0
  else if 310 < places then 1.0 / 0.0
  else Float.ofScientific (digitsValue ds) (n.exponent < 0) n.exponent.natAbs

/-- The names of the numbers that have no digits. -/
def named? (cs : List Char) : Option Float :=
  let name := String.ofList (cs.map Char.toLower)
  if name = "inf" ∨ name = "infinity" then some (1.0 / 0.0)
  else if name = "nan" then some (0.0 / 0.0)
  else none

/-- Reads a whole text as a number. -/
def readFloat? (cs : List Char) : Option Float :=
  let (negative, cs) := spanSign cs
  let size := (named? cs).or ((Numeral.ofChars? cs).map Numeral.toFloat)
  size.map fun x => if negative then -x else x

end Shelf.Decimal
