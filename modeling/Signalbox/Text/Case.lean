import Signalbox.Text.CaseTable

/-
  Signalbox/Text/Case.lean --- upper case in full, lower case for ASCII.

  Opcodes are compared in upper case by the Unicode mapping, under which one
  character may become several.  Event texts are compared in lower case; the
  words they are compared with are ASCII and no character beyond ASCII has a
  lower case that occurs in them, so the ASCII mapping decides the same.
-/

set_option autoImplicit false

namespace Signalbox.Text

/-- The upper case of a character beyond ASCII. -/
def upperBeyondAscii (n : Nat) : List Nat :=
  match upperRuns.find? (·.covers n) with
  | some run => [((n : Int) + run.shift).toNat]
  | none =>
    match upperExpansions.find? (·.1 == n) with
    | some (_, expansion) => expansion
    | none => [n]

/-- The upper case of a character, one character or several. -/
def upperChar (c : Char) : List Char :=
  let n := c.toNat
  if n < 128 then [if 97 ≤ n && n ≤ 122 then Char.ofNat (n - 32) else c]
  else (upperBeyondAscii n).map Char.ofNat

/-- The text in upper case. -/
def upper (cs : List Char) : List Char := cs.flatMap upperChar

theorem upper_nil : upper [] = [] := rfl

theorem upper_append (as bs : List Char) : upper (as ++ bs) = upper as ++ upper bs := by
  simp [upper, List.flatMap_append]

/-- A character with an ASCII capital made small. -/
def lowerAsciiChar (c : Char) : Char :=
  if 65 ≤ c.toNat && c.toNat ≤ 90 then Char.ofNat (c.toNat + 32) else c

/-- The text with its ASCII capitals made small. -/
def lowerAscii (cs : List Char) : List Char := cs.map lowerAsciiChar

end Signalbox.Text
