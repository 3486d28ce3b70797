import Signalbox.Script.Opcode

/-
  Signalbox/Script/Compile.lean --- from symbols to scripts.

  The reader takes one symbol at a time.  Between scripts it skips surplus closers
  and waits for an opening; inside a script it keeps the body that it is filling
  and the tests that are open around it.  So reading is a fold of one step over
  the symbols: an error depends only on the symbols up to it, and reading a list
  is reading its parts one after the other.

  Ids are checked when a script opens, against every script of the same text.
-/

set_option autoImplicit false

namespace Signalbox

/-! ## The state of the reader -/

/-- What the opening of a script says. -/
structure Header where
  kind : ScriptKind
  id : Int
  name : String
  event : Option TurnoutEvent
  label : String
  deriving DecidableEq, Repr

/-- The script of a header with its body. -/
def Header.script (h : Header) (children : List Command) : Script :=
  match h.event with
  | some e => .ofEvent e children
  | none => .ofUser h.kind h.id h.name children

/-- A test whose body is being read: what it tests, and the commands before it in the
body around it. -/
structure OpenTest where
  wanted : TurnoutState
  turnout : Int
  before : List Command
  deriving DecidableEq, Repr

/-- A script whose body is being read: the innermost body so far, and the open tests
from the inside out. -/
structure OpenScript where
  header : Header
  body : List Command
  around : List OpenTest
  deriving DecidableEq, Repr

/-- What has been read: the finished scripts, and the one that is open. -/
structure Reading where
  scripts : List Script
  current : Option OpenScript
  deriving DecidableEq, Repr

namespace Reading

/-- Nothing has been read. -/
def start : Reading := ⟨[], none⟩

/-! ## Opening a script -/

/-- The form that a symbol opens a script with. -/
def openingOf (s : Symbol) : Option Opening :=
  match s.opcode? with
  | some (.opening form) => some form
  | _ => none

/-- The header of a script that a form opens with a first argument and a name. -/
def headerOf (form : Opening) (keyword : String) (first : Int) (name : String) : Header :=
  let label := keyword ++ " " ++ Text.ofInt first
  match form with
  | .sequence => ⟨.sequence, first, name, none, label⟩
  | .route => ⟨.route, first, name, none, label⟩
  | .automation => ⟨.automation, first, name, none, label⟩
  | .on state =>
    let e : TurnoutEvent := ⟨first, state⟩
    ⟨.eventHandler, e.handlerId, name, some e, label⟩

/-- Opens a script: the symbol has to be an opening, its arguments have to be right, its
number may not be negative and its id may not be in use, and they are looked at in this
order. -/
def openScript (scripts : List Script) (s : Symbol) : Except ScriptError OpenScript :=
  let fail := fun fault => Except.error (ScriptError.located s.display fault)
  match openingOf s with
  | none => fail (.notAnOpening s.name)
  | some form =>
    match Parameter.check (Opcode.opening form).parameters s.args with
    | some fault => fail fault
    | none =>
      let header := headerOf form s.name s.number (s.args[1]?.getD "")
      if s.number < 0 then fail (.negativeId s.number)
      else if scripts.any (·.id == header.id) then fail (.idTaken header.id)
      else .ok ⟨header, [], []⟩

/-! ## The body of a script -/

/-- Adds a command to the innermost body. -/
def OpenScript.add (o : OpenScript) (c : Command) : OpenScript := { o with body := o.body ++ [c] }

/-- Closes the innermost body: that of a test, which becomes a command of the body around
it, or that of the script. -/
def close (scripts : List Script) (o : OpenScript) : Reading :=
  match o.around with
  | t :: around =>
    ⟨scripts, some ⟨o.header, t.before ++ [.test t.wanted t.turnout o.body], around⟩⟩
  | [] => ⟨scripts ++ [o.header.script o.body], none⟩

/-- Why a name that is no opcode is refused. -/
def refuse (label name : String) : ScriptError :=
  if Opcode.unimplemented.contains name then .within label (.unimplemented name)
  else .anywhere (.unknownCommand name label)

/-- Reads a symbol inside a script. -/
def inside (scripts : List Script) (o : OpenScript) (s : Symbol) : Except ScriptError Reading :=
  let label := o.header.label
  match s.opcode? with
  | none => .error (refuse label s.name)
  | some opcode =>
    if opcode.isOpening then .error (.located label .notClosed)
    else
      match Parameter.check opcode.parameters s.args with
      | some fault => .error (.located (s.display ++ " in " ++ label) fault)
      | none =>
        match opcode with
        | .test wanted => .ok ⟨scripts, some ⟨o.header, [], ⟨wanted, s.number, o.body⟩ :: o.around⟩⟩
        | _ =>
          match opcode.action? s.number with
          | some action => .ok ⟨scripts, some (OpenScript.add o (.act action))⟩
          | none => .ok (close scripts o)

/-! ## Reading -/

/-- Whether a symbol closes a body; its arguments do not matter between scripts. -/
def isCloser (s : Symbol) : Bool := s.opcode?.any (·.isCloser)

/-- Reads one symbol. -/
def step (r : Reading) (s : Symbol) : Except ScriptError Reading :=
  match r.current with
  | some o => inside r.scripts o s
  | none =>
    if isCloser s then .ok r
    else (openScript r.scripts s).map fun o => ⟨r.scripts, some o⟩

/-- The scripts that were read; none may be open. -/
def finish (r : Reading) : Except ScriptError (List Script) :=
  match r.current with
  | some o => .error (.located o.header.label .notClosed)
  | none => .ok r.scripts

end Reading

/-- The scripts that a list of symbols writes. -/
def Script.ofSymbols (symbols : List Symbol) : Except ScriptError (List Script) := do
  let r ← symbols.foldlM Reading.step Reading.start
  r.finish

/-- The scripts that a text writes. -/
def Script.compile (text : String) : Except ScriptError (List Script) := do
  Script.ofSymbols (← Symbol.ofText text)

end Signalbox
