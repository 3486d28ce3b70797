/-
  Signalbox/Number/Binary64.lean --- finite 64-bit binary floating point numbers.

  Coordinates on the track diagram are the only fractional numbers here.  They
  are stored and printed, never computed with, so the type is the number itself:
  a sign, a mantissa and a power of two, with no infinity and no NaN.  What has
  to be exact is how a fraction of natural numbers is rounded to such a number,
  and `ofRatio` does that in natural arithmetic.  Products and quotients of two
  numbers are rounded the same way.
-/

set_option autoImplicit false

namespace Signalbox

/-- The number `mantissa * 2 ^ exponent`, negated when `negative` is set.  A zero
keeps its sign.  Numbers built by this module are in lowest form: the mantissa has
53 bits, or fewer when the exponent is the least one. -/
structure Binary64 where
  negative : Bool
  mantissa : Nat
  exponent : Int
  deriving DecidableEq, Repr

namespace Binary64

/-- The least exponent, that of the numbers nearest zero. -/
def minExponent : Int := -1074

/-- The greatest exponent. -/
def maxExponent : Int := 971

/-- The first mantissa with 53 bits. -/
def hiddenBit : Nat := 4503599627370496

/-- Zero with a sign. -/
def signedZero (negative : Bool) : Binary64 := ⟨negative, 0, minExponent⟩

/-- Zero. -/
def zero : Binary64 := signedZero false

/-- The same number with the given sign. -/
def withSign (negative : Bool) (x : Binary64) : Binary64 := { x with negative := negative }

/-! ## Rounding a fraction -/

/-- `2 ^ e` for a positive exponent, 1 otherwise. -/
def powerUp (e : Int) : Nat := Nat.pow 2 e.toNat

/-- The quotient rounded to the nearest natural number, a half to the even one. -/
def roundDiv (num den : Nat) : Nat :=
  let q := num / den
  let r := num % den
  if 2 * r < den then q
  else if 2 * r == den then q + q % 2
  else q + 1

/-- The exponent at which `num / den` has a mantissa of 53 bits, but not below the
least one. -/
def exponentOf (num den : Nat) : Int :=
  let guess : Int := (Nat.log2 num : Int) - (Nat.log2 den : Int) - 52
  let e := if num * powerUp (-guess) < hiddenBit * (den * powerUp guess) then guess - 1 else guess
  max e minExponent

/-- The number nearest to `num / den`, a tie to the even mantissa; none when it lies
beyond the greatest number. -/
def ofRatio (num den : Nat) : Option Binary64 :=
  if num == 0 then some zero
  else
    let e := exponentOf num den
    let m := roundDiv (num * powerUp (-e)) (den * powerUp e)
    let carried := m == 2 * hiddenBit
    let mantissa := if carried then hiddenBit else m
    let exponent := if carried then e + 1 else e
    if exponent > maxExponent then none else some ⟨false, mantissa, exponent⟩

/-- The number nearest to a natural number. -/
def ofNat? (n : Nat) : Option Binary64 := ofRatio n 1

/-! ## Products and quotients -/

/-- The product of the magnitudes, rounded. -/
def mulMagnitude (x y : Binary64) : Option Binary64 :=
  let e := x.exponent + y.exponent
  ofRatio (x.mantissa * y.mantissa * powerUp e) (powerUp (-e))

/-- The quotient of the magnitudes, rounded. -/
def divMagnitude (x y : Binary64) : Option Binary64 :=
  let e := x.exponent - y.exponent
  ofRatio (x.mantissa * powerUp e) (y.mantissa * powerUp (-e))

/-! ## Whole numbers -/

/-- The integer that the number is, if it is one. -/
def whole? (x : Binary64) : Option Int :=
  let magnitude : Option Nat :=
    if 0 ≤ x.exponent then some (x.mantissa * powerUp x.exponent)
    else
      let unit := powerUp (-x.exponent)
      if x.mantissa % unit == 0 then some (x.mantissa / unit) else none
  magnitude.map fun n => if x.negative then -(n : Int) else n

end Binary64

end Signalbox
