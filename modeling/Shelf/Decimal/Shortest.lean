/-!
The shortest decimal that reads back as a given floating-point number.

A positive finite number is `sig · 2^exp`, and the reals that round to it form an interval around
it: half a step up, half a step down (a quarter below a power of two, where the steps shrink), the
ends included when `sig` is even. For 1, 2, … 17 digits the two decimals around the number are
tried on the grid of that many digits; the first grid with a decimal in the interval wins, and of
two decimals the nearer one.

    ──[────────────●────────────]──     ● the number,  [ ] the reals that round to it
    ──┼───────┼───────┼───────┼────     the grid: one of the two neighbours of ● may lie inside
-/

namespace Shelf.Decimal

/-- A positive number `sig · 2^exp`; `tight` when the next number below is half as far away as the
next one above. -/
structure Dyadic where
  sig : Nat
  exp : Int
  tight : Bool
  deriving DecidableEq

/-- The number of fractions that a floating-point number of one exponent can have. -/
def fractionSize : Nat := 0x10000000000000

/-- The size of a finite number, from its bits. -/
def Dyadic.ofFloat (x : Float) : Dyadic :=
  let bits := x.toBits.toNat
  let biased := bits / fractionSize % 0x800
  let fraction := bits % fractionSize
  if biased = 0 then ⟨fraction, -1074, false⟩
  else ⟨fractionSize + fraction, (biased : Int) - 1075, fraction == 0 && 1 < biased⟩

/-- A ratio of naturals. -/
structure Ratio where
  num : Nat
  den : Nat

/-- `n · 2^exp` as a ratio. -/
def Ratio.ofDyadic (n : Nat) (exp : Int) : Ratio :=
  if 0 ≤ exp then ⟨n * Nat.pow 2 exp.toNat, 1⟩ else ⟨n, Nat.pow 2 (-exp).toNat⟩

/-- `n · 10^place` as a ratio. -/
def Ratio.ofDecimal (n : Nat) (place : Int) : Ratio :=
  if 0 ≤ place then ⟨n * Nat.pow 10 place.toNat, 1⟩ else ⟨n, Nat.pow 10 (-place).toNat⟩

/-- Order of ratios by cross multiplication. -/
def Ratio.le (a b : Ratio) : Bool := a.num * b.den ≤ b.num * a.den

/-- Strict order of ratios. -/
def Ratio.lt (a b : Ratio) : Bool := a.num * b.den < b.num * a.den

/-- Whether a ratio rounds to the number. The ends lie at quarters of a step. -/
def Dyadic.rounds (d : Dyadic) (r : Ratio) : Bool :=
  let low := Ratio.ofDyadic (4 * d.sig - if d.tight then 1 else 2) (d.exp - 2)
  let high := Ratio.ofDyadic (4 * d.sig + 2) (d.exp - 2)
  if d.sig % 2 = 0 then low.le r && r.le high else low.lt r && r.lt high

/-- `digits · 10^place`. -/
structure Scaled where
  digits : Nat
  place : Int
  deriving DecidableEq, Repr

/-- The decimal on the grid of multiples of `10^place` that rounds to the number, if there is one;
of two the nearer, and on a tie the even one. -/
def Dyadic.onGrid? (d : Dyadic) (place : Int) : Option Scaled :=
  let v := Ratio.ofDyadic d.sig d.exp
  let unit := Ratio.ofDecimal 1 place
  let below := v.num * unit.den / (v.den * unit.num)
  let fits (n : Nat) : Bool := 0 < n && d.rounds (Ratio.ofDecimal n place)
  match fits below, fits (below + 1) with
  | true,  false => some ⟨below, place⟩
  | false, true  => some ⟨below + 1, place⟩
  | false, false => none
  | true,  true  =>
    let mid := Ratio.ofDecimal (2 * below + 1) place
    let twice : Ratio := ⟨2 * v.num, v.den⟩
    if twice.lt mid ∨ (!mid.lt twice ∧ below % 2 = 0) then some ⟨below, place⟩
    else some ⟨below + 1, place⟩

/-- The exponent of the number's first digit: the `e` with `10^e ≤ v < 10^(e+1)`, found by counting
the digits of the quotient at a place where the quotient is positive. -/
def Dyadic.magnitude (d : Dyadic) : Int :=
  let v := Ratio.ofDyadic d.sig d.exp
  let scaled := v.num * Nat.pow 10 400 / v.den
  (Nat.toDigits 10 scaled).length - 401

/-- Tries grids of `n`, `n + 1`, … digits, `tries` of them. -/
def Dyadic.search (d : Dyadic) (magnitude : Int) : (tries n : Nat) → Option Scaled
  | 0,         _ => none
  | tries + 1, n => (d.onGrid? (magnitude - n + 1)).or (d.search magnitude tries (n + 1))

/-- A decimal without zeros at its end; `fuel` bounds their number. -/
def Scaled.stripZeros : (fuel : Nat) → Scaled → Scaled
  | 0,        d => d
  | fuel + 1, d =>
    if d.digits ≠ 0 ∧ d.digits % 10 = 0 then stripZeros fuel ⟨d.digits / 10, d.place + 1⟩ else d

/-- The shortest decimal that rounds to the size of a finite number other than zero. -/
def shortest (x : Float) : Scaled :=
  let d := Dyadic.ofFloat x
  match d.search d.magnitude 17 1 with
  | some r => r.stripZeros 20
  | none   => ⟨0, 0⟩

end Shelf.Decimal
