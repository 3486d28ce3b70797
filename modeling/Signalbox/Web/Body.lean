import Signalbox.Json.Decode

/-
  Signalbox/Web/Body.lean --- reading the body of a request.

  A body is one record, an object or an array of the fields in their order.  It is
  read from the front, and the first thing that is wrong decides: that the text is
  no JSON, or that it has another shape than the record.  So a field of the wrong
  type is found before a brace that is missing further on, and an array or object in
  the place of something else at its first bracket.  Nothing is read beyond the
  record, and unknown fields are passed over.

  Where one of some names is wanted, a value that is neither a string nor an object
  counts as a text that is no JSON; so does a number beyond all binary numbers.
-/

set_option autoImplicit false

namespace Signalbox

/-- What is wrong with a body. -/
inductive BodyFault where
  /-- It is no JSON. -/
  | malformed
  /-- It is JSON of another shape. -/
  | misshapen
  deriving DecidableEq, Repr

/-- What the value of a field has to be. -/
inductive FieldShape where
  /-- A number, a truth value or a string. -/
  | scalar (accepts : Json → Bool)
  /-- One of some names. -/
  | choice (known : String → Bool)

/-- A field of a record; one that is not required may be missing or null. -/
structure BodyField where
  name : String
  shape : FieldShape
  required : Bool

namespace BodyField

/-- A field with a plain value. -/
def scalar {α : Type} (name : String) (decode : Json → Option α) : BodyField :=
  ⟨name, .scalar fun v => (decode v).isSome, true⟩

/-- A field with a plain value, which may be missing or null. -/
def optional {α : Type} (name : String) (decode : Json → Option α) : BodyField :=
  ⟨name, .scalar fun v => (decode v).isSome, false⟩

/-- A field with one of some names. -/
def choice {α : Type} (name : String) (named : String → Option α) : BodyField :=
  ⟨name, .choice fun s => (named s).isSome, true⟩

end BodyField

/-! ## Values -/

namespace BodyFault

/-- The fault of a value that has no business where it begins. -/
def ofMisfit (cs : List Char) : BodyFault :=
  match Json.skipSpace cs with
  | '[' :: _ => misshapen
  | '\x7b' :: _ => misshapen
  | cs => if (Json.scalar? cs).isSome then misshapen else malformed

end BodyFault

namespace Body

/-- What was read, or else the text is no JSON. -/
def orMalformed {α : Type} : Option α → Except BodyFault α
  | some a => .ok a
  | none => .error .malformed

/-- A plain value that is accepted, and the text after it. -/
def plain (accepts : Json → Bool) (cs : List Char) : Except BodyFault (Json × List Char) :=
  match Json.scalar? (Json.skipSpace cs) with
  | some (v, rest) => if accepts v then .ok (v, rest) else .error .misshapen
  | none => .error (.ofMisfit cs)

/-- A null, and the text after it. -/
def null (cs : List Char) : Except BodyFault (List Char) :=
  match Json.skipSpace cs with
  | 'n' :: rest => orMalformed (Json.after? "ull".toList rest)
  | cs => .error (.ofMisfit cs)

/-- A known name, whose opening quote is already read, and the text after it. -/
def known (isKnown : String → Bool) (cs : List Char) : Except BodyFault (String × List Char) := do
  let (s, rest) ← orMalformed (Json.string? cs)
  if isKnown s then .ok (s, rest) else .error .misshapen

/-- A known name, alone or in an object with null, and the text after it. -/
def chosen (isKnown : String → Bool) (cs : List Char) : Except BodyFault (Json × List Char) :=
  match Json.skipSpace cs with
  | '"' :: rest => do
    let (s, rest) ← known isKnown rest
    .ok (.string s, rest)
  | '\x7b' :: rest =>
    match Json.skipSpace rest with
    | '"' :: rest => do
      let (s, rest) ← known isKnown rest
      let rest ← orMalformed (Json.after? [':'] (Json.skipSpace rest))
      let rest ← null rest
      let rest ← orMalformed (Json.after? ['\x7d'] (Json.skipSpace rest))
      .ok (.string s, rest)
    | _ => .error .malformed
  | _ => .error .malformed

end Body

namespace BodyField

/-- The value of the field, and the text after it. -/
def read (f : BodyField) (cs : List Char) : Except BodyFault (Json × List Char) :=
  match f.shape with
  | .scalar accepts => Body.plain (fun v => accepts v || (!f.required && v.isNull)) cs
  | .choice isKnown => Body.chosen isKnown cs

end BodyField

/-! ## Records -/

namespace Body

/-- The record of the fields found, if no required one is missing. -/
def complete (form : List BodyField) (found : List (String × Json)) : Except BodyFault Json :=
  if form.all fun f => !f.required || found.any (·.1 == f.name) then .ok (.object found)
  else .error .misshapen

/-- An object from the name of its next field on, after the fields found so far. -/
def object (form : List BodyField) :
    Nat → List (String × Json) → List Char → Except BodyFault Json
  | 0, _, _ => .error .malformed
  | fuel + 1, found, cs => do
    let (name, rest) ← orMalformed (Json.name? cs)
    let field := form.find? (·.name == name)
    if field.isSome && found.any (·.1 == name) then .error .misshapen
    else
      let rest ← orMalformed (Json.after? [':'] (Json.skipSpace rest))
      let (found, rest) ← match field with
        | some f => (f.read rest).map fun (v, rest) => (found ++ [(name, v)], rest)
        | none => (orMalformed (Json.passOver? rest)).map fun rest => (found, rest)
      match Json.skipSpace rest with
      | ',' :: rest => object form fuel found rest
      | '\x7d' :: _ => complete form found
      | _ => .error .malformed

/-- The items of an array after the first ones, as the fields of the rest of the form. -/
def laterItems (form : List BodyField) :
    List BodyField → List (String × Json) → List Char → Except BodyFault Json
  | [], found, cs =>
    match Json.skipSpace cs with
    | ']' :: _ => complete form found
    | _ => .error .malformed
  | f :: fs, found, cs =>
    match Json.skipSpace cs with
    | ']' :: _ => complete form found
    | ',' :: rest => do
      let (v, rest) ← f.read rest
      laterItems form fs (found ++ [(f.name, v)]) rest
    | _ => .error .malformed

/-- An array from its first item on, as the fields of a form. -/
def array (form : List BodyField) (cs : List Char) : Except BodyFault Json :=
  match form, Json.skipSpace cs with
  | _, ']' :: _ => complete form []
  | [], _ => .error .malformed
  | f :: fs, cs => do
    let (v, rest) ← f.read cs
    laterItems form fs [(f.name, v)] rest

/-- The record in a body, as an object of its known fields. -/
def read (form : List BodyField) (text : String) : Except BodyFault Json :=
  match Json.skipSpace text.toList with
  | '\x7b' :: rest =>
    match Json.skipSpace rest with
    | '\x7d' :: _ => complete form []
    | _ => object form (rest.length + 1) [] rest
  | '[' :: rest => array form rest
  | cs => .error (.ofMisfit cs)

end Body

end Signalbox
