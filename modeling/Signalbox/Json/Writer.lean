import Signalbox.Json.Basic

/-
  Signalbox/Json/Writer.lean --- JSON text, on one line or indented.

  Both forms escape the same characters: the quote, the backslash and the control
  characters, five of which have a short form; everything else is written as it
  is.  The indented form puts every item and field on a line of its own, two
  spaces deeper than its parent, and writes an empty array or object without a
  line break.
-/

set_option autoImplicit false

namespace Signalbox.Json

/-! ## Strings -/

/-- A hexadecimal digit in lower case. -/
def hexDigit (n : Nat) : Char := if n < 10 then Char.ofNat (48 + n) else Char.ofNat (87 + n)

/-- A character inside a string. -/
def escapeChar (c : Char) : List Char :=
  if c == '"' then ['\\', '"']
  else if c == '\\' then ['\\', '\\']
  else if c == '\n' then ['\\', 'n']
  else if c == '\r' then ['\\', 'r']
  else if c == '\t' then ['\\', 't']
  else if c.toNat == 8 then ['\\', 'b']
  else if c.toNat == 12 then ['\\', 'f']
  else if c.toNat < 32 then
    ['\\', 'u', '0', '0', hexDigit (c.toNat / 16), hexDigit (c.toNat % 16)]
  else [c]

/-- A string in quotes. -/
def quote (s : String) : List Char := '"' :: s.toList.flatMap escapeChar ++ ['"']

/-! ## One line -/

mutual

/-- The value without any space. -/
def compact : Json → List Char
  | .null => "null".toList
  | .bool true => "true".toList
  | .bool false => "false".toList
  | .number n => n.write
  | .string s => quote s
  | .array items => '[' :: compactItems true items ++ [']']
  | .object fields => '\x7b' :: compactFields true fields ++ ['\x7d']

/-- The items, each but the first after a comma. -/
def compactItems (first : Bool) : List Json → List Char
  | [] => []
  | item :: rest => (if first then [] else [',']) ++ compact item ++ compactItems false rest

/-- The fields, each but the first after a comma. -/
def compactFields (first : Bool) : List (String × Json) → List Char
  | [] => []
  | (name, value) :: rest =>
    (if first then [] else [',']) ++ quote name ++ ':' :: compact value ++ compactFields false rest

end

/-! ## Indented -/

/-- A line break and the indentation of a depth. -/
def newLine (depth : Nat) : List Char := '\n' :: List.replicate (2 * depth) ' '

mutual

/-- The value with its items and fields on lines of their own, `depth` levels in. -/
def indented (depth : Nat) : Json → List Char
  | .array [] => ['[', ']']
  | .array (item :: rest) =>
    '[' :: newLine (depth + 1) ++ indented (depth + 1) item
      ++ indentedItems (depth + 1) rest ++ newLine depth ++ [']']
  | .object [] => ['\x7b', '\x7d']
  | .object ((name, value) :: rest) =>
    '\x7b' :: newLine (depth + 1) ++ quote name ++ [':', ' '] ++ indented (depth + 1) value
      ++ indentedFields (depth + 1) rest ++ newLine depth ++ ['\x7d']
  | .null => "null".toList
  | .bool true => "true".toList
  | .bool false => "false".toList
  | .number n => n.write
  | .string s => quote s

/-- The items after the first. -/
def indentedItems (depth : Nat) : List Json → List Char
  | [] => []
  | item :: rest => ',' :: newLine depth ++ indented depth item ++ indentedItems depth rest

/-- The fields after the first. -/
def indentedFields (depth : Nat) : List (String × Json) → List Char
  | [] => []
  | (name, value) :: rest =>
    ',' :: newLine depth ++ quote name ++ [':', ' '] ++ indented depth value
      ++ indentedFields depth rest

end

/-- The text of a document on one line. -/
def write (v : Json) : String := String.ofList (compact v)

/-- The text of an indented document. -/
def writeIndented (v : Json) : String := String.ofList (indented 0 v)

end Signalbox.Json
