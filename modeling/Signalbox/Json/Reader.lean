import Signalbox.Json.Basic

/-
  Signalbox/Json/Reader.lean --- reading JSON text.

  A reader takes the text and answers what it read and the rest, or none when the
  text does not begin with it.  Values nest, so the readers of values, items and
  fields call each other; each call costs one unit of fuel and reads at least one
  character, so as much fuel as characters is enough, and `valueOf` supplies it.
  A value may nest 127 levels deep and no deeper.

  A value can also be passed over.  Its syntax has to be right then, but nobody
  asks what it is: a string may hold escapes that name no character, a number may
  be too large, and it may nest as deep as it likes.
-/

set_option autoImplicit false

namespace Signalbox.Json

/-! ## Blanks and literals -/

/-- The four characters that may stand between values. -/
def isSpace (c : Char) : Bool := c == ' ' || c == '\n' || c == '\t' || c == '\r'

/-- The text after leading space. -/
def skipSpace (cs : List Char) : List Char := cs.dropWhile isSpace

/-- The text after a literal that it begins with. -/
def after? : List Char → List Char → Option (List Char)
  | [], cs => some cs
  | l :: ls, c :: cs => if l == c then after? ls cs else none
  | _ :: _, [] => none

/-! ## Strings -/

/-- The value of a hexadecimal digit of either case. -/
def hexValue? (c : Char) : Option Nat :=
  let n := c.toNat
  if 48 ≤ n && n ≤ 57 then some (n - 48)
  else if 97 ≤ n && n ≤ 102 then some (n - 87)
  else if 65 ≤ n && n ≤ 70 then some (n - 55)
  else none

/-- Four hexadecimal digits. -/
def hexFour? : List Char → Option (Nat × List Char)
  | a :: b :: c :: d :: rest => do
    let a ← hexValue? a
    let b ← hexValue? b
    let c ← hexValue? c
    let d ← hexValue? d
    some (((a * 16 + b) * 16 + c) * 16 + d, rest)
  | _ => none

/-- The low half of a surrogate pair, as an escape. -/
def lowHalf? (cs : List Char) : Option (Nat × List Char) :=
  ((after? ['\\', 'u'] cs).bind hexFour?).filter fun half => 0xDC00 ≤ half.1 && half.1 ≤ 0xDFFF

/-- The character of an escape with a number, whose `u` is already read: none for half
of a surrogate pair without the other half. -/
def numbered? (cs : List Char) : Option (Option Char × List Char) :=
  (hexFour? cs).map fun (n, rest) =>
    if 0xD800 ≤ n && n ≤ 0xDBFF then
      match lowHalf? rest with
      | some (low, rest) =>
        (some (Char.ofNat (0x10000 + (n - 0xD800) * 1024 + (low - 0xDC00))), rest)
      | none => (none, rest)
    else if 0xDC00 ≤ n && n ≤ 0xDFFF then (none, rest)
    else (some (Char.ofNat n), rest)

/-- The character of an escape, whose backslash is already read. -/
def escape? : List Char → Option (Option Char × List Char)
  | '"' :: rest => some (some '"', rest)
  | '\\' :: rest => some (some '\\', rest)
  | '/' :: rest => some (some '/', rest)
  | 'b' :: rest => some (some (Char.ofNat 8), rest)
  | 'f' :: rest => some (some (Char.ofNat 12), rest)
  | 'n' :: rest => some (some '\n', rest)
  | 'r' :: rest => some (some '\r', rest)
  | 't' :: rest => some (some '\t', rest)
  | 'u' :: rest => numbered? rest
  | _ => none

/-- The characters of the rest of a string, whose opening quote is already read, with
none for each escape that names no character. -/
def stringBody : Nat → List Char → Option (List (Option Char) × List Char)
  | 0, _ => none
  | _ + 1, [] => none
  | _ + 1, '"' :: rest => some ([], rest)
  | fuel + 1, '\\' :: rest => do
    let (c, rest) ← escape? rest
    let (body, rest) ← stringBody fuel rest
    some (c :: body, rest)
  | fuel + 1, c :: rest =>
    if c.toNat < 32 then none
    else do
      let (body, rest) ← stringBody fuel rest
      some (some c :: body, rest)

/-- A string, whose opening quote is already read. -/
def string? (cs : List Char) : Option (String × List Char) := do
  let (body, rest) ← stringBody (cs.length + 1) cs
  let text ← body.mapM id
  some (String.ofList text, rest)

/-- The text after a string, whose opening quote is already read. -/
def passString? (cs : List Char) : Option (List Char) := (stringBody (cs.length + 1) cs).map (·.2)

/-- A field name, and the text after it. -/
def name? (cs : List Char) : Option (String × List Char) :=
  (after? ['"'] (skipSpace cs)).bind string?

/-! ## Numbers -/

/-- The decimal digits that the text begins with. -/
def digits (cs : List Char) : List Nat × List Char :=
  ((cs.takeWhile Text.isDigit).map fun c => c.toNat - 48, cs.dropWhile Text.isDigit)

/-- The number that digits write. -/
def ofDigits (ds : List Nat) : Nat := ds.foldl (fun n d => 10 * n + d) 0

/-- The digits after a point, if the text begins with one; a point needs a digit. -/
def fraction? : List Char → Option (List Nat × List Char)
  | '.' :: rest =>
    let (ds, rest) := digits rest
    if ds.isEmpty then none else some (ds, rest)
  | rest => some ([], rest)

/-- The digits of an exponent after its sign. -/
def exponentDigits? (negative : Bool) (cs : List Char) : Option (Option Int × List Char) :=
  let (ds, rest) := digits cs
  if ds.isEmpty then none
  else
    let e : Int := ofDigits ds
    some (some (if negative then -e else e), rest)

/-- An exponent, if the text begins with one. -/
def exponent? : List Char → Option (Option Int × List Char)
  | 'e' :: rest => signed rest
  | 'E' :: rest => signed rest
  | rest => some (none, rest)
where
  /-- An exponent after its letter. -/
  signed : List Char → Option (Option Int × List Char)
    | '-' :: rest => exponentDigits? true rest
    | '+' :: rest => exponentDigits? false rest
    | rest => exponentDigits? false rest

/-- A number without its minus sign.  A zero does not lead other digits. -/
def unsigned? (negative : Bool) (cs : List Char) : Option (Numeral × List Char) :=
  let (ds, rest) := digits cs
  if ds.isEmpty || (ds.head? == some 0 && ds.length != 1) then none
  else do
    let (fraction, rest) ← fraction? rest
    let (exponent, rest) ← exponent? rest
    some (⟨negative, ofDigits ds, fraction, exponent⟩, rest)

/-- A number. -/
def number? : List Char → Option (Numeral × List Char)
  | '-' :: rest => unsigned? true rest
  | rest => unsigned? false rest

/-! ## Plain values -/

/-- A null or a truth value. -/
def literal? (cs : List Char) : Option (Json × List Char) :=
  [("null", Json.null), ("true", .bool true), ("false", .bool false)].findSome? fun (word, v) =>
    (after? word.toList cs).map fun rest => (v, rest)

/-- A number that is not too large. -/
def boundedNumber? (cs : List Char) : Option (Numeral × List Char) :=
  (number? cs).filter fun read => read.1.toBinary64.isSome

/-- A value that is neither an array nor an object. -/
def scalar? : List Char → Option (Json × List Char)
  | '"' :: rest => (string? rest).map fun (s, rest) => (.string s, rest)
  | cs => (literal? cs).or ((boundedNumber? cs).map fun (n, rest) => (.number n, rest))

/-- The text after a value that is neither an array nor an object. -/
def passScalar? : List Char → Option (List Char)
  | '"' :: rest => passString? rest
  | cs => ((literal? cs).map (·.2)).or ((number? cs).map (·.2))

/-! ## Values -/

mutual

/-- A value, `depth` levels above the deepest allowed. -/
def value? : Nat → Nat → List Char → Option (Json × List Char)
  | 0, _, _ => none
  | fuel + 1, depth, cs =>
    match skipSpace cs with
    | '[' :: rest =>
      match depth with
      | 0 => none
      | depth + 1 =>
        match skipSpace rest with
        | ']' :: rest => some (.array [], rest)
        | rest => (items? fuel depth rest).map fun (items, rest) => (.array items, rest)
    | '\x7b' :: rest =>
      match depth with
      | 0 => none
      | depth + 1 =>
        match skipSpace rest with
        | '\x7d' :: rest => some (.object [], rest)
        | rest => (fields? fuel depth rest).map fun (fields, rest) => (.object fields, rest)
    | rest => scalar? rest

/-- One item or more, up to and with the closing bracket. -/
def items? : Nat → Nat → List Char → Option (List Json × List Char)
  | 0, _, _ => none
  | fuel + 1, depth, cs => do
    let (item, rest) ← value? fuel depth cs
    match skipSpace rest with
    | ',' :: rest =>
      let (items, rest) ← items? fuel depth rest
      some (item :: items, rest)
    | ']' :: rest => some ([item], rest)
    | _ => none

/-- One field or more, up to and with the closing brace. -/
def fields? : Nat → Nat → List Char → Option ((List (String × Json)) × List Char)
  | 0, _, _ => none
  | fuel + 1, depth, cs => do
    let (name, rest) ← name? cs
    let rest ← after? [':'] (skipSpace rest)
    let (value, rest) ← value? fuel depth rest
    match skipSpace rest with
    | ',' :: rest =>
      let (fields, rest) ← fields? fuel depth rest
      some ((name, value) :: fields, rest)
    | '\x7d' :: rest => some ([(name, value)], rest)
    | _ => none

end

/-- The deepest nesting of arrays and objects. -/
def maxDepth : Nat := 127

/-- The value that the text begins with. -/
def valueOf (cs : List Char) : Option (Json × List Char) := value? (2 * cs.length + 1) maxDepth cs

/-- The value that is the whole text, but for space around it. -/
def read (s : String) : Option Json :=
  (valueOf s.toList).bind fun (v, rest) => if (skipSpace rest).isEmpty then some v else none

/-! ## Passing over -/

mutual

/-- The text after a value. -/
def passValue? : Nat → List Char → Option (List Char)
  | 0, _ => none
  | fuel + 1, cs =>
    match skipSpace cs with
    | '[' :: rest =>
      match skipSpace rest with
      | ']' :: rest => some rest
      | rest => passItems? fuel rest
    | '\x7b' :: rest =>
      match skipSpace rest with
      | '\x7d' :: rest => some rest
      | rest => passFields? fuel rest
    | rest => passScalar? rest

/-- The text after one item or more and the closing bracket. -/
def passItems? : Nat → List Char → Option (List Char)
  | 0, _ => none
  | fuel + 1, cs => do
    let rest ← passValue? fuel cs
    match skipSpace rest with
    | ',' :: rest => passItems? fuel rest
    | ']' :: rest => some rest
    | _ => none

/-- The text after one field or more and the closing brace. -/
def passFields? : Nat → List Char → Option (List Char)
  | 0, _ => none
  | fuel + 1, cs => do
    let rest ← after? ['"'] (skipSpace cs)
    let rest ← passString? rest
    let rest ← after? [':'] (skipSpace rest)
    let rest ← passValue? fuel rest
    match skipSpace rest with
    | ',' :: rest => passFields? fuel rest
    | '\x7d' :: rest => some rest
    | _ => none

end

/-- The text after the value that it begins with. -/
def passOver? (cs : List Char) : Option (List Char) := passValue? (2 * cs.length + 1) cs

end Signalbox.Json
