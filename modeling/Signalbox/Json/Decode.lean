import Signalbox.Json.Form

/-
  Signalbox/Json/Decode.lean --- from JSON values to the types of the library.

  A decoder answers none for a value of the wrong shape.  Records are read by
  one rule for all of them: as an object, in which unknown fields are passed over
  and a repeated one is refused, or as an array of the fields in the order in
  which the record declares them, with nothing after the last.  A field that may
  be missing then has a default; null is not missing, except for a field whose
  value is optional.
-/

set_option autoImplicit false

namespace Signalbox.Json

/-! ## Plain values -/

/-- A string. -/
def asString : Json → Option String
  | .string s => some s
  | _ => none

/-- A truth value. -/
def asBool : Json → Option Bool
  | .bool b => some b
  | _ => none

/-- A signed 64-bit integer. -/
def asInt64 : Json → Option Int
  | .number n => n.int64?
  | _ => none

/-- An unsigned integer up to `max`. -/
def asWord (max : Nat) : Json → Option Nat
  | .number n => n.word? max
  | _ => none

/-- A binary number; every numeral in range is one. -/
def asBinary64 : Json → Option Binary64
  | .number n => n.toBinary64
  | _ => none

/-- An array, item by item. -/
def asList {α : Type} (decode : Json → Option α) : Json → Option (List α)
  | .array items => items.mapM decode
  | _ => none

/-- Null, or a value. -/
def asOption {α : Type} (decode : Json → Option α) : Json → Option (Option α)
  | .null => some none
  | v => (decode v).map some

/-- One of a list of names, as a string, or as an object with that one name and null. -/
def asName {α : Type} (named : String → Option α) : Json → Option α
  | .string s => named s
  | .object [(s, .null)] => named s
  | _ => none

/-- One of a list of names inside a tagged record, where an empty object may stand for
null. -/
def asTaggedName {α : Type} (named : String → Option α) : Json → Option α
  | .object [(s, .object [])] => named s
  | v => v.asName named

/-! ## Records -/

/-- The fields of a record by name, as far as the document has them. -/
structure Fields where
  entries : List (String × Json)

/-- Whether no two entries have one name. -/
def noRepetition : List String → Bool
  | [] => true
  | name :: rest => !rest.contains name && noRepetition rest

/-- The fields of a record with the given field names. -/
def asFields (names : List String) : Json → Option Fields
  | .object entries =>
    let known := entries.filter fun entry => names.contains entry.1
    if noRepetition (known.map (·.1)) then some ⟨known⟩ else none
  | .array items => if items.length ≤ names.length then some ⟨names.zip items⟩ else none
  | _ => none

namespace Fields

/-- The value of a field that the document has. -/
def find? (fields : Fields) (name : String) : Option Json :=
  (fields.entries.find? (·.1 == name)).map (·.2)

/-- A field that must be there. -/
def required {α : Type} (fields : Fields) (name : String) (decode : Json → Option α) : Option α :=
  (fields.find? name).bind decode

/-- A field with a default for a document that does not have it. -/
def withDefault {α : Type} (fields : Fields) (name : String) (default : α)
    (decode : Json → Option α) : Option α :=
  match fields.find? name with
  | some v => decode v
  | none => some default

/-- A field that may be missing or null. -/
def optional {α : Type} (fields : Fields) (name : String) (decode : Json → Option α) :
    Option (Option α) :=
  fields.withDefault name none (asOption decode)

end Fields

/-! ## Tagged records -/

/-- A field of a record that may have any others. -/
def fieldAs? {α : Type} (j : Json) (name : String) (decode : Json → Option α) : Option α :=
  (j.field? name).bind decode

/-- The tag of a record that names its own kind, and the record without it: the field
with the tag's name, or the first item of an array. -/
def splitTag (tag : String) : Json → Option (String × Json)
  | .object entries =>
    match entries.filter (·.1 == tag) with
    | [(_, .string kind)] => some (kind, .object (entries.filter (·.1 != tag)))
    | _ => none
  | .array (.string kind :: items) => some (kind, .array items)
  | _ => none

/-! ## Maps -/

/-- The integer that a field name writes, by the rules of a document's numbers. -/
def asKey (name : String) : Option Numeral :=
  (number? name.toList).bind fun (n, rest) => if rest.isEmpty then some n else none

/-- An object whose field names are integers, entry by entry. -/
def asEntries {κ α : Type} (key : Numeral → Option κ) (decode : Json → Option α) :
    Json → Option (List (κ × α))
  | .object entries => entries.mapM fun (name, value) => do
      let k ← (asKey name).bind key
      let a ← decode value
      some (k, a)
  | _ => none

end Signalbox.Json
