import Signalbox.Text.Case

/-
  Signalbox/Web/MediaType.lean --- what a content type says.

  A content type is a kind and a subtype with a slash between them, then any number
  of parameters after semicolons.  A subtype may end in a plus sign and the name of
  the format that it is written in.  The values of parameters may be quoted.  Case
  does not matter.
-/

set_option autoImplicit false

namespace Signalbox

/-- A kind, a subtype, and the format after the last plus sign of the subtype. -/
structure MediaType where
  kind : List Char
  subtype : List Char
  format : Option (List Char)
  deriving DecidableEq, Repr

namespace MediaType

/-! ## Words -/

/-- Whether a character may stand in a word. -/
def isWordChar (c : Char) : Bool :=
  let n := c.toNat
  (48 ≤ n && n ≤ 57) || (65 ≤ n && n ≤ 90) || (94 ≤ n && n ≤ 122) || n == 124 || n == 126 ||
    "!#$%&'*+-.".toList.contains c

/-- Whether a character may stand between quotes. -/
def isQuotable (c : Char) : Bool := 32 ≤ c.toNat && c.toNat ≤ 126

/-- The part of a subtype before its last plus sign, and the part after it; a plus sign at
the beginning does not count. -/
def splitFormat (subtype : List Char) : List Char × Option (List Char) :=
  let format := (subtype.reverse.takeWhile (· != '+')).reverse
  match subtype.reverse.dropWhile (· != '+') with
  | _ :: base => if base.isEmpty then (subtype, none) else (base.reverse, some format)
  | [] => (subtype, none)

/-! ## Parameters -/

/-- Where the reader of parameters stands. -/
inductive ParameterMode where
  | beforeName
  | name
  | beforeValue
  | value
  | openQuote
  | quoted
  | afterQuote
  deriving DecidableEq, Repr

namespace ParameterMode

/-- Where the reader stands after one more character. -/
def next? (mode : ParameterMode) (c : Char) : Option ParameterMode :=
  match mode with
  | beforeName => if c == ' ' then some beforeName else if isWordChar c then some name else none
  | name => if isWordChar c then some name else if c == '=' then some beforeValue else none
  | beforeValue => if c == '"' then some openQuote else if isWordChar c then some value else none
  | value => if isWordChar c then some value else if c == ';' then some beforeName else none
  | openQuote => if isQuotable c then some quoted else none
  | quoted => if c == '"' then some afterQuote else if isQuotable c then some quoted else none
  | afterQuote => if c == ' ' then some afterQuote else if c == ';' then some beforeName else none

/-- Whether the text may end here. -/
def mayEnd : ParameterMode → Bool
  | beforeName | beforeValue | value | afterQuote => true
  | name | openQuote | quoted => false

end ParameterMode

/-- Whether a text is a list of parameters. -/
def areParameters (cs : List Char) : Bool :=
  (cs.foldlM ParameterMode.next? .beforeName).any (·.mayEnd)

/-! ## Types -/

/-- The media type that a text names. -/
def ofText? (text : String) : Option MediaType :=
  let cs := Text.lowerAscii text.toList
  let kind := cs.takeWhile isWordChar
  match cs.dropWhile isWordChar with
  | '/' :: rest =>
    let subtype := rest.takeWhile isWordChar
    let (base, format) := splitFormat subtype
    match rest.dropWhile isWordChar with
    | [] => if kind.isEmpty then none else some ⟨kind, base, format⟩
    | ';' :: parameters =>
      if kind.isEmpty || subtype.isEmpty || !areParameters parameters then none
      else some ⟨kind, base, format⟩
    | _ => none
  | _ => none

/-- Whether the type is JSON, or something written in it. -/
def isJson (m : MediaType) : Bool :=
  m.kind = "application".toList &&
    (m.subtype = "json".toList || m.format = some "json".toList)

end MediaType

end Signalbox
