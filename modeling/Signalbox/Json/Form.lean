import Signalbox.Json.Reader

/-
  Signalbox/Json/Form.lean --- reading only what is asked for.

  A form says which parts of a document matter.  Where it wants a record, fields
  that it does not know are passed over and left out; where it wants a whole value,
  everything in it is read.  What the form does not expect is read as a whole too:
  whether it will do is for the decoder to say.

  The rows of a table stand under names that are written without escapes.
-/

set_option autoImplicit false

namespace Signalbox.Json

/-- Which parts of a value are read. -/
inductive Form where
  /-- All of it. -/
  | whole
  /-- Some fields of an object, or the items of an array in their places. -/
  | record (fields : List (String × Form))
  /-- Every item of an array. -/
  | list (item : Form)
  /-- Every field of an object, whatever its name. -/
  | table (row : Form)

namespace Form

/-- A record whose fields are read as a whole. -/
def flat (names : List String) : Form := .record (names.map fun name => (name, .whole))

/-- The names of the fields of a record. -/
def names : Form → List String
  | record fields => fields.map (·.1)
  | _ => []

/-- The form of a field, if it is read. -/
def field? (name : String) : Form → Option Form
  | record fields => fields.lookup name
  | table row => some row
  | _ => some .whole

/-- The form of the next item of an array, and the form of the rest. -/
def item? : Form → Option (Form × Form)
  | record ((_, f) :: rest) => some (f, record rest)
  | record [] => none
  | list item => some (item, list item)
  | _ => some (.whole, .whole)

/-- Whether an object is read by the form. -/
def wantsObject : Form → Bool
  | record _ | table _ => true
  | _ => false

/-- Whether an array is read by the form. -/
def wantsArray : Form → Bool
  | record _ | list _ => true
  | _ => false

end Form

/-! ## Names -/

/-- A field name without escapes, and the text after it. -/
def plainName? (cs : List Char) : Option (String × List Char) :=
  (name? cs).filter fun (name, _) =>
    (after? ('"' :: name.toList ++ ['"']) (skipSpace cs)).isSome

/-- A field name as the form wants it, and the text after it. -/
def formedName? : Form → List Char → Option (String × List Char)
  | .table _, cs => plainName? cs
  | _, cs => name? cs

/-! ## Values -/

mutual

/-- A value as the form wants it, `depth` levels above the deepest allowed. -/
def formed? : Nat → Nat → Form → List Char → Option (Json × List Char)
  | 0, _, _, _ => none
  | fuel + 1, depth, form, cs =>
    match form.wantsObject, form.wantsArray, depth, skipSpace cs with
    | true, _, depth + 1, '\x7b' :: rest =>
      match skipSpace rest with
      | '\x7d' :: rest => some (.object [], rest)
      | rest =>
        (formedFields? fuel depth form rest).map fun (fields, rest) => (.object fields, rest)
    | _, true, depth + 1, '[' :: rest =>
      match skipSpace rest with
      | ']' :: rest => some (.array [], rest)
      | rest => (formedItems? fuel depth form rest).map fun (items, rest) => (.array items, rest)
    | _, _, depth, rest => value? (fuel + 1) depth rest

/-- One field or more, up to and with the closing brace, without those passed over. -/
def formedFields? : Nat → Nat → Form → List Char → Option ((List (String × Json)) × List Char)
  | 0, _, _, _ => none
  | fuel + 1, depth, form, cs => do
    let (name, rest) ← formedName? form cs
    let rest ← after? [':'] (skipSpace rest)
    let (field, rest) ← match form.field? name with
      | some f => (formed? fuel depth f rest).map fun (v, rest) => ([(name, v)], rest)
      | none => (passOver? rest).map fun rest => ([], rest)
    match skipSpace rest with
    | ',' :: rest =>
      let (fields, rest) ← formedFields? fuel depth form rest
      some (field ++ fields, rest)
    | '\x7d' :: rest => some (field, rest)
    | _ => none

/-- One item or more, up to and with the closing bracket. -/
def formedItems? : Nat → Nat → Form → List Char → Option (List Json × List Char)
  | 0, _, _, _ => none
  | fuel + 1, depth, form, cs => do
    let (f, later) ← form.item?
    let (item, rest) ← formed? fuel depth f cs
    match skipSpace rest with
    | ',' :: rest =>
      let (items, rest) ← formedItems? fuel depth later rest
      some (item :: items, rest)
    | ']' :: rest => some ([item], rest)
    | _ => none

end

/-- The value that is the whole text, but for space around it, as the form wants it. -/
def readAs (form : Form) (s : String) : Option Json :=
  let cs := s.toList
  (formed? (2 * cs.length + 1) maxDepth form cs).bind fun (v, rest) =>
    if (skipSpace rest).isEmpty then some v else none

end Signalbox.Json
