import Signalbox.Text.Integer
import Signalbox.Number.Shortest

/-
  Signalbox/Json/Numeral.lean --- numbers as a document writes them.

  A document keeps its numbers as they are written, and the reader of a field
  decides what it wants of one: an integer of some word, for which a fraction, an
  exponent or a minus before zero is wrong even when the value would be whole, or
  a binary number, which every numeral in range is.

  A binary number is read in two roundings.  The leading digits that fit a 64-bit
  word make the significand, which is rounded first; it is then multiplied or
  divided by a rounded power of ten, which is the second rounding.
-/

set_option autoImplicit false

namespace Signalbox.Json

/-- A number as written: sign, digits before the point, digits after it, exponent. -/
structure Numeral where
  negative : Bool
  whole : Nat
  fraction : List Nat
  exponent : Option Int
  deriving DecidableEq, Repr

namespace Numeral

/-! ## Integers -/

/-- The numeral of an integer. -/
def ofInt (n : Int) : Numeral := ⟨decide (n < 0), n.natAbs, [], none⟩

/-- The integer that the numeral writes without point or exponent. -/
def integer? (n : Numeral) : Option Int :=
  if n.fraction.isEmpty && n.exponent.isNone then
    if n.negative then if n.whole == 0 then none else some (-(n.whole : Int))
    else some n.whole
  else none

/-- A signed 64-bit integer. -/
def int64? (n : Numeral) : Option Int := n.integer?.filter inInt64

/-- An unsigned integer up to `max`. -/
def word? (max : Nat) (n : Numeral) : Option Nat :=
  n.integer?.bind fun i => if 0 ≤ i && i.toNat ≤ max then some i.toNat else none

theorem integer?_ofInt (n : Int) : (ofInt n).integer? = some n := by
  cases n with
  | ofNat k => rfl
  | negSucc k =>
    simp only [ofInt, integer?, Int.negSucc_lt_zero, decide_true, Int.natAbs_negSucc]
    rfl

/-! ## Binary numbers -/

/-- Adds digits to a significand while it fits a 64-bit word; also answers how many
were left over. -/
def accumulate : Nat → List Nat → Nat × Nat
  | significand, [] => (significand, 0)
  | significand, d :: ds =>
    let next := 10 * significand + d
    if next ≤ maxWord64 then accumulate next ds else (significand, ds.length + 1)

/-- The digits of a natural number, from the left. -/
def digitsOf (n : Nat) : List Nat := (Nat.toDigits 10 n).map fun c => c.toNat - 48

/-- A significand and a power of ten that together make the number, in so far as its
digits fit a 64-bit word. -/
def significand (n : Numeral) : Nat × Int :=
  let (head, dropped) := accumulate 0 (digitsOf n.whole)
  let (all, unused) := accumulate head n.fraction
  (all, (dropped : Int) - ((n.fraction.length - unused : Nat) : Int))

/-- The rounded power of ten. -/
def tenTo (e : Nat) : Binary64 := (Binary64.ofNat? (Nat.pow 10 e)).getD Binary64.zero

/-- A significand times a power of ten; a power below the least one is applied in
steps of 308. -/
def scale : Nat → Binary64 → Int → Option Binary64
  | 0, x, _ => some x
  | fuel + 1, x, e =>
    if 0 ≤ e then
      if e ≤ 308 then x.mulMagnitude (tenTo e.toNat)
      else if x.mantissa == 0 then some x
      else none
    else if -308 ≤ e then x.divMagnitude (tenTo (-e).toNat)
    else if x.mantissa == 0 then some x
    else (x.divMagnitude (tenTo 308)).bind fun y => scale fuel y (e + 308)

/-- The greatest exponent that a document may write out. -/
def maxExponent : Nat := 2147483647

/-- The binary number that a numeral writes; none when it is too large. -/
def toBinary64 (n : Numeral) : Option Binary64 :=
  let (digits, power) := n.significand
  let magnitude : Option Binary64 :=
    match n.exponent with
    | none => (Binary64.ofNat? digits).bind fun x => scale 8 x power
    | some e =>
      if e.natAbs > maxExponent then
        if digits != 0 && 0 ≤ e then none else some Binary64.zero
      else (Binary64.ofNat? digits).bind fun x => scale 8 x (power + e)
  magnitude.map (·.withSign n.negative)

/-! ## Writing -/

/-- An exponent, always with a sign. -/
def signedText (e : Int) : List Char :=
  if e < 0 then (Text.ofInt e).toList else '+' :: (Text.ofInt e).toList

/-- The numeral as written, with a sign before every exponent. -/
def write (n : Numeral) : List Char :=
  let sign := if n.negative then ['-'] else []
  let fraction :=
    if n.fraction.isEmpty then [] else '.' :: n.fraction.map fun d => Char.ofNat (48 + d)
  let exponent := match n.exponent with
    | none => []
    | some e => 'e' :: signedText e
  sign ++ Nat.toDigits 10 n.whole ++ fraction ++ exponent

/-- The numeral that writes a binary number in the fewest digits that read back: always
with a point or an exponent, positional from 0.00001 up to sixteen digits before the
point. -/
def ofBinary64 (x : Binary64) : Numeral :=
  let d := x.shortest
  let digits := digitsOf d.digits
  let point : Int := digits.length + d.power
  if x.mantissa == 0 then ⟨x.negative, 0, [0], none⟩
  else if 0 ≤ d.power && point ≤ 16 then
    ⟨x.negative, d.digits * Binary64.powerOfTen d.power, [0], none⟩
  else if 0 < point && point ≤ 16 then
    let unit := Binary64.powerOfTen (-d.power)
    ⟨x.negative, d.digits / unit, digits.drop point.toNat, none⟩
  else if -5 < point && point ≤ 0 then
    ⟨x.negative, 0, List.replicate (-point).toNat 0 ++ digits, none⟩
  else ⟨x.negative, digits.headD 0, digits.tail, some (point - 1)⟩

/-! ## Settling -/

/-- The numeral as a reader keeps it that does not know what is wanted: an integer of some
64-bit word, or else a binary number. -/
def settled (n : Numeral) : Numeral :=
  if n.integer?.any fun i => inInt64 i || (0 ≤ i && i.toNat ≤ maxWord64) then n
  else (n.toBinary64.map ofBinary64).getD n

end Numeral

end Signalbox.Json
