/-!
Rounding to one decimal place, halves away from zero.

The number is scaled by ten, rounded to an integer and scaled back, each step in floating-point
arithmetic. From 2^52 on every number is an integer already.
-/

namespace Shelf.Decimal

/-- Whether the sign bit is set; it is for a negative zero too. -/
def signBit (x : Float) : Bool := 0x8000000000000000 ≤ x.toBits.toNat

/-- The number without its sign. -/
def magnitude (x : Float) : Float := if signBit x then -x else x

/-- The nearest integer, a half going away from zero; the sign stays, that of zero too. -/
def roundHalfAway (x : Float) : Float :=
  let size := magnitude x
  if size < 4503599627370496.0 then
    let whole := size.toUInt64
    let near := if size - whole.toFloat < 0.5 then whole else whole + 1
    if signBit x then -near.toFloat else near.toFloat
  else x

/-- One decimal place. -/
def roundToTenths (x : Float) : Float := roundHalfAway (x * 10.0) / 10.0

end Shelf.Decimal
