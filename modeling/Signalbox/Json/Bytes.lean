import Signalbox.Text.Utf8

/-
  Signalbox/Json/Bytes.lean --- documents as bytes.

  A document is UTF-8.  Bytes that are none may stand in a string all the same, as
  long as the string is only passed over.  They are read there as half a surrogate
  pair, which is what a string that can only be passed over has in it; the blank
  after it keeps the other half away.  Anywhere else they are wrong.
-/

set_option autoImplicit false

namespace Signalbox.Json

/-- Where a character of a document stands. -/
inductive Place where
  | outside
  | inString
  /-- In a string, after a backslash. -/
  | escaped
  deriving DecidableEq, Repr

/-- Where the character after one stands. -/
def Place.after : Place → Char → Place
  | outside, c => if c == '"' then inString else outside
  | inString, c => if c == '"' then outside else if c == '\\' then escaped else inString
  | escaped, _ => inString

/-- What is written for bytes that are no character. -/
def brokenPair : List Char := "\\ud800 ".toList

/-- The text of a document from a place on. -/
def textFrom? : Place → List (Option Char) → Option (List Char)
  | _, [] => some []
  | place, some c :: rest => (textFrom? (place.after c) rest).map (c :: ·)
  | .inString, none :: rest => (textFrom? .inString rest).map (brokenPair ++ ·)
  | _, none :: _ => none

/-- The text of a document. -/
def textOf? (bytes : List UInt8) : Option String :=
  (textFrom? .outside (Text.pieces bytes)).map String.ofList

end Signalbox.Json
