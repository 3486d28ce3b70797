import Signalbox.Text.Blank

/-
  Signalbox/Text/Integer.lean --- integers in text.

  A written integer is an optional sign and at least one decimal digit, nothing
  else; zeros may lead.  A signed reader takes either sign, an unsigned one only
  the plus.  A number outside the word it is meant for is refused, not wrapped.
-/

set_option autoImplicit false

namespace Signalbox

/-! ## Words -/

/-- The integers of a signed 64-bit word. -/
def inInt64 (n : Int) : Bool := -9223372036854775808 ≤ n && n ≤ 9223372036854775807

/-- The largest unsigned 8, 16, 32 and 64-bit words. -/
def maxWord8 : Nat := 255
def maxWord16 : Nat := 65535
def maxWord32 : Nat := 4294967295
def maxWord64 : Nat := 18446744073709551615

namespace Text

/-! ## Digits -/

/-- The value of a decimal digit. -/
def digit? (c : Char) : Option Nat :=
  if 48 ≤ c.toNat && c.toNat ≤ 57 then some (c.toNat - 48) else none

/-- Whether a character is a decimal digit. -/
def isDigit (c : Char) : Bool := (digit? c).isSome

/-- The number that `value`, followed by the given digits, writes. -/
def naturalFrom (value : Nat) : List Char → Option Nat
  | [] => some value
  | c :: cs => (digit? c).bind fun d => naturalFrom (10 * value + d) cs

/-- A natural number: one digit or more, and nothing else. -/
def natural? (cs : List Char) : Option Nat :=
  if cs.isEmpty then none else naturalFrom 0 cs

/-! ## Signed and unsigned -/

/-- An integer with an optional sign, of any size. -/
def integer? : List Char → Option Int
  | '-' :: cs => (natural? cs).map fun n => -(n : Int)
  | '+' :: cs => (natural? cs).map fun n => (n : Int)
  | cs => (natural? cs).map fun n => (n : Int)

/-- A signed 64-bit integer. -/
def int64? (cs : List Char) : Option Int := (integer? cs).filter inInt64

/-- An unsigned integer up to `max`, with an optional plus. -/
def word? (max : Nat) : List Char → Option Nat
  | '+' :: cs => (natural? cs).filter (· ≤ max)
  | cs => (natural? cs).filter (· ≤ max)

/-! ## Printing -/

/-- The decimal digits of a natural number. -/
def ofNat (n : Nat) : String := Nat.repr n

/-- An integer with a minus sign when it is negative. -/
def ofInt : Int → String
  | .ofNat n => Nat.repr n
  | .negSucc n => "-" ++ Nat.repr (n + 1)

end Text

end Signalbox
