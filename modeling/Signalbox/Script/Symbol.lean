import Signalbox.Script.Basic
import Signalbox.Script.Error
import Signalbox.Text.Case

/-
  Signalbox/Script/Symbol.lean --- script text as symbols.

  A symbol is a name with arguments in brackets, or a bare name.  Four passes lead
  from text to symbols, each a function on lists:

      stripComments   comments become blanks; `\//` stands for two slashes
      Text.words      blanks separate the words
      gather          words cut apart inside brackets are put together again
      ofWord          a word becomes one symbol, or several that touch

  Names are compared in upper case and are put into it here.  Quotes keep commas,
  brackets and blanks inside an argument, and are not part of it.
-/

set_option autoImplicit false

namespace Signalbox

/-- A name and its arguments, as written but for case, quotes and blanks. -/
structure Symbol where
  name : String
  args : List String
  deriving DecidableEq, Repr

namespace Symbol

/-- A symbol as errors show it. -/
def display (s : Symbol) : String :=
  if s.args.isEmpty then s.name else s.name ++ "(" ++ ",".intercalate s.args ++ ")"

/-! ## Comments -/

/-- Where the reader stands: in script text, in a line comment, in a block comment. -/
inductive CommentMode where
  | text
  | line
  | block
  deriving DecidableEq, Repr

/-- The text without comments.  A line comment ends before the line break, a block
comment leaves a blank behind, and `\//` is two slashes that begin no comment. -/
def strip : CommentMode → List Char → Except ScriptFault (List Char)
  | .text, '\\' :: '/' :: '/' :: cs => (strip .text cs).map fun rest => '/' :: '/' :: rest
  | .text, '/' :: '/' :: cs => strip .line cs
  | .text, '/' :: '*' :: cs => (strip .block cs).map fun rest => ' ' :: rest
  | .text, '*' :: '/' :: _ => .error .commentNotOpened
  | .text, c :: cs => (strip .text cs).map fun rest => c :: rest
  | .text, [] => .ok []
  | .line, '\n' :: cs => (strip .text cs).map fun rest => '\n' :: rest
  | .line, _ :: cs => strip .line cs
  | .line, [] => .ok []
  | .block, '*' :: '/' :: cs => strip .text cs
  | .block, _ :: cs => strip .block cs
  | .block, [] => .error .commentNotClosed

/-- The text without comments. -/
def stripComments (cs : List Char) : Except ScriptFault (List Char) := strip .text cs

/-! ## Words with brackets -/

/-- Whether a word opens a bracket and closes none. -/
def isOpen (word : List Char) : Bool := word.contains '(' && !word.contains ')'

/-- Puts the next word behind an open one: after a blank if the break was inside
quotes, which an odd number of quotes shows. -/
def join (word next : List Char) : List Char :=
  if (word.filter Script.isQuote).length % 2 == 1 then word ++ ' ' :: next else word ++ next

/-- Puts words together until none is open; `held` is the open word so far. -/
def gather : Option (List Char) → List (List Char) → Except ScriptError (List (List Char))
  | none, [] => .ok []
  | some word, [] => .error (.located (String.ofList word) .bracketNotClosed)
  | held, next :: rest =>
    let word := match held with
      | none => next
      | some word => join word next
    if isOpen word then gather (some word) rest
    else (gather none rest).map fun words => word :: words

/-! ## Arguments -/

/-- Splits at the commas outside quotes and drops the quotes; `quote` is the open quote
and `current` the argument so far. -/
def splitAt (quote : Option Char) (current : List Char) : List Char → List (List Char)
  | [] => [current]
  | c :: cs =>
    match quote with
    | none =>
      if Script.isQuote c then splitAt (some c) current cs
      else if c == ',' then current :: splitAt none [] cs
      else splitAt none (current ++ [c]) cs
    | some q =>
      if c == q then splitAt none current cs else splitAt (some q) (current ++ [c]) cs

/-- The arguments between brackets; blanks alone are none. -/
def argsOf (inner : List Char) : List String :=
  if Text.isBlankText inner then []
  else (splitAt none [] inner).map fun arg => String.ofList (Text.trim arg)

/-! ## Symbols of a word -/

/-- A symbol of a name as written and the text between its brackets. -/
def ofParts (name inner : List Char) : Symbol :=
  ⟨String.ofList (Text.upper name), argsOf inner⟩

/-- Where the reader of a word stands: in a name, or in the brackets after one, inside a
quote or not. -/
inductive WordMode where
  | name (sofar : List Char)
  | brackets (name inner : List Char) (quote : Option Char)
  deriving DecidableEq, Repr

/-- The symbols of a word.  The bracket that closes is the first one outside quotes; a
word that ends before it closes there. -/
def ofWordFrom : WordMode → List Char → List Symbol
  | .name sofar, [] => if sofar.isEmpty then [] else [ofParts sofar []]
  | .name sofar, c :: cs =>
    if c == '(' then ofWordFrom (.brackets sofar [] none) cs
    else ofWordFrom (.name (sofar ++ [c])) cs
  | .brackets name inner _, [] => [ofParts name inner]
  | .brackets name inner none, c :: cs =>
    if c == ')' then ofParts name inner :: ofWordFrom (.name []) cs
    else if Script.isQuote c then ofWordFrom (.brackets name (inner ++ [c]) (some c)) cs
    else ofWordFrom (.brackets name (inner ++ [c]) none) cs
  | .brackets name inner (some q), c :: cs =>
    if c == q then ofWordFrom (.brackets name (inner ++ [c]) none) cs
    else ofWordFrom (.brackets name (inner ++ [c]) (some q)) cs

/-- The symbols of a word. -/
def ofWord (word : List Char) : List Symbol := ofWordFrom (.name []) word

/-- The symbols of script text. -/
def ofText (text : String) : Except ScriptError (List Symbol) := do
  let plain ← (stripComments text.toList).mapError .anywhere
  let words ← gather none (Text.words plain)
  return words.flatMap ofWord

end Symbol

end Signalbox
