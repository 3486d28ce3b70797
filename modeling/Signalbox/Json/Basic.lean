import Signalbox.Json.Numeral

/-
  Signalbox/Json/Basic.lean --- JSON values.

  A value is kept as the document has it: numbers as numerals, and the fields of
  an object in the order written, repetitions included, so that a reader of
  records can refuse a repeated field.  `settled` is the view of a value for readers
  that want anything: the last of several fields with one name has replaced the
  others, and every number is what a machine keeps of it.
-/

set_option autoImplicit false

namespace Signalbox

/-- A JSON value. -/
inductive Json where
  | null
  | bool (b : Bool)
  | number (n : Json.Numeral)
  | string (s : String)
  | array (items : List Json)
  | object (fields : List (String × Json))
  deriving Repr, Inhabited

namespace Json

/-! ## Building -/

/-- An integer. -/
def ofInt (n : Int) : Json := .number (.ofInt n)

/-- A natural number. -/
def ofNat (n : Nat) : Json := ofInt n

/-- A binary number. -/
def ofBinary64 (x : Binary64) : Json := .number (.ofBinary64 x)

/-- A list, item by item. -/
def ofList {α : Type} (encode : α → Json) (items : List α) : Json := .array (items.map encode)

/-- A value that may be absent, as null. -/
def ofOption {α : Type} (encode : α → Json) : Option α → Json
  | some a => encode a
  | none => .null

/-- Whether the value is null. -/
def isNull : Json → Bool
  | .null => true
  | _ => false

/-! ## Fields -/

/-- The first field with a name. -/
def field? (name : String) : Json → Option Json
  | .object fields => (fields.find? (·.1 == name)).map (·.2)
  | _ => none

/-- Puts a field into a list of fields; one with the same name is replaced where it
stands. -/
def putField (name : String) (value : Json) : List (String × Json) → List (String × Json)
  | [] => [(name, value)]
  | (n, v) :: rest =>
    if n == name then (name, value) :: rest else (n, v) :: putField name value rest

mutual

/-- The value as a reader keeps it that does not know what is wanted: each name once in
every object, with its last value, and numbers settled. -/
def settled : Json → Json
  | .array items => .array (settledItems items)
  | .object fields => .object (settledFields [] fields)
  | .null => .null
  | .bool b => .bool b
  | .number n => .number n.settled
  | .string s => .string s

/-- `settled` for each item. -/
def settledItems : List Json → List Json
  | [] => []
  | item :: rest => settled item :: settledItems rest

/-- `settled` for each field, put into those before it. -/
def settledFields (before : List (String × Json)) : List (String × Json) → List (String × Json)
  | [] => before
  | (name, value) :: rest => settledFields (putField name (settled value) before) rest

end

end Json

end Signalbox
