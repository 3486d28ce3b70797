import Signalbox.Number.Binary64

/-
  Signalbox/Number/Shortest.lean --- the fewest decimal digits that read back.

  The reals that round to a given binary number form an interval, closed at both
  ends when the mantissa is even.  The digits of a number are those of the
  coarsest decimal grid with a point in that interval, and of two such points the
  nearer one.  `shortest` searches the grids from one digit to seventeen in exact
  natural arithmetic, looking only at the two points around the number: if any
  point of a grid lies in the interval, one of these two does.
-/

set_option autoImplicit false

namespace Signalbox

/-- The decimal number `digits * 10 ^ power`. -/
structure Decimal where
  digits : Nat
  power : Int
  deriving DecidableEq, Repr

namespace Binary64

/-- `10 ^ e` for a positive exponent, 1 otherwise. -/
def powerOfTen (e : Int) : Nat := Nat.pow 10 e.toNat

/-! ## The interval of a number -/

/-- A number and the ends of its interval, as multiples of one unit `1 / den`. -/
structure Interval where
  lower : Nat
  value : Nat
  upper : Nat
  den : Nat
  closed : Bool

/-- The reals that round to the number, by magnitude.  Below a power of two the
neighbour is only half as far away. -/
def interval (x : Binary64) : Interval :=
  let scale := powerUp x.exponent
  let below := if x.mantissa == hiddenBit && x.exponent > minExponent then 1 else 2
  { lower := (4 * x.mantissa - below) * scale
    value := 4 * x.mantissa * scale
    upper := (4 * x.mantissa + 2) * scale
    den := 4 * powerUp (-x.exponent)
    closed := x.mantissa % 2 == 0 }

/-- Whether the decimal lies in the interval. -/
def Interval.holds (i : Interval) (d : Decimal) : Bool :=
  let point := d.digits * powerOfTen d.power * i.den
  let unit := powerOfTen (-d.power)
  if i.closed then i.lower * unit ≤ point && point ≤ i.upper * unit
  else i.lower * unit < point && point < i.upper * unit

/-! ## The search -/

/-- The least `j`, counted from `start`, with `num * 10 ^ j` at least `den`. -/
def leadingZeros : Nat → Nat → Nat → Nat → Nat
  | 0, start, _, _ => start
  | fuel + 1, start, num, den =>
    if den ≤ num then start else leadingZeros fuel (start + 1) (num * 10) den

/-- The number of decimal digits before the point, or minus the number of zeros that
follow it. -/
def magnitudeOf (num den : Nat) : Int :=
  if den ≤ num then (Nat.toDigits 10 (num / den)).length
  else 1 - (leadingZeros 400 0 num den : Int)

/-- The nearer of the two points around the number on the grid with `count` digits,
among those in the interval. -/
def onGrid (i : Interval) (count : Nat) : Option Decimal :=
  let power := magnitudeOf i.value i.den - (count : Int)
  let num := i.value * powerOfTen (-power)
  let den := i.den * powerOfTen power
  let q := num / den
  let r := num % den
  let low : Decimal := ⟨q, power⟩
  let high : Decimal := ⟨q + 1, power⟩
  match i.holds low, i.holds high with
  | true, true =>
    if 2 * r < den || (2 * r == den && q % 2 == 0) then some low else some high
  | true, false => some low
  | false, true => some high
  | false, false => none

/-- The first grid with a point in the interval, from `count` digits on. -/
def searchGrids (i : Interval) : Nat → Nat → Option Decimal
  | 0, _ => none
  | fuel + 1, count => (onGrid i count).orElse fun _ => searchGrids i fuel (count + 1)

/-- The same decimal without trailing zeros. -/
def stripZeros : Nat → Decimal → Decimal
  | 0, d => d
  | fuel + 1, d =>
    if d.digits != 0 && d.digits % 10 == 0 then stripZeros fuel ⟨d.digits / 10, d.power + 1⟩
    else d

/-- The fewest digits that read back as the number, by magnitude. -/
def shortest (x : Binary64) : Decimal :=
  if x.mantissa == 0 then ⟨0, 0⟩
  else stripZeros 20 ((searchGrids (interval x) 17 1).getD ⟨0, 0⟩)

end Binary64

end Signalbox
