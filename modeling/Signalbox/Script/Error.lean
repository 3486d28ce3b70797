import Signalbox.Text.Integer

/-
  Signalbox/Script/Error.lean --- what is wrong with a script.

  Each cause has its own constructor and one wording.  An error may also say where
  it is: at a symbol, at a symbol in a script, or in a script as a whole.
-/

set_option autoImplicit false

namespace Signalbox

/-- A reason to refuse script text. -/
inductive ScriptFault where
  /-- A block comment is never closed. -/
  | commentNotClosed
  /-- A block comment is closed that was never opened. -/
  | commentNotOpened
  /-- A bracket is opened and the text ends. -/
  | bracketNotClosed
  /-- A script opens with something else than an opening keyword. -/
  | notAnOpening (name : String)
  /-- Arguments for an opcode that takes none. -/
  | unexpectedArguments (given : Nat)
  /-- Fewer arguments than needed, or more than possible. -/
  | argumentCount (given declared : Nat)
  /-- A text where a number belongs; positions count from one. -/
  | notANumber (position : Nat) (argument : String)
  | negativeId (id : Int)
  | idTaken (id : Int)
  /-- A script is not closed before the next one opens or the text ends. -/
  | notClosed
  /-- A keyword of the language that this controller does not have. -/
  | unimplemented (name : String)
  | unknownCommand (name label : String)
  deriving DecidableEq, Repr

/-- The wording of a fault. -/
def ScriptFault.message : ScriptFault → String
  | commentNotClosed => "Missing end of comment block"
  | commentNotOpened => "Missing start of comment block"
  | bracketNotClosed => "Missing closing bracket"
  | notAnOpening name =>
    "Scripts must start with SEQUENCE, ROUTE, AUTOMATION, ONCLOSE or ONTHROW but \"" ++ name
      ++ "\" was given"
  | unexpectedArguments given =>
    "Unexpected parameters given (" ++ Text.ofNat given ++ " given but none needed)"
  | argumentCount given declared =>
    "Wrong number of arguments given (" ++ Text.ofNat given ++ " instead of "
      ++ Text.ofNat declared ++ ")"
  | notANumber position argument =>
    "Incorrect data type for argument " ++ Text.ofNat position
      ++ " (Should be a number but \"" ++ argument ++ "\" was given)"
  | negativeId id => "The id " ++ Text.ofInt id ++ " is negative; ids must be 0 or above"
  | idTaken id => "The id " ++ Text.ofInt id ++ " is already being used"
  | notClosed => "Missing DONE keyword"
  | unimplemented name =>
    "The command \"" ++ name ++ "\" hasn't been implemented yet so it won't work."
  | unknownCommand name label => "Unknown command \"" ++ name ++ "\" in " ++ label

/-- A fault, and where it is if that can be said. -/
structure ScriptError where
  fault : ScriptFault
  location : Option String
  deriving DecidableEq, Repr

namespace ScriptError

/-- A fault of the text as a whole. -/
def anywhere (fault : ScriptFault) : ScriptError := ⟨fault, none⟩

/-- A fault at a place. -/
def located (place : String) (fault : ScriptFault) : ScriptError := ⟨fault, some ("At " ++ place)⟩

/-- A fault inside a script. -/
def within (label : String) (fault : ScriptFault) : ScriptError := ⟨fault, some ("In " ++ label)⟩

/-- The wording of the error. -/
def message (e : ScriptError) : String := e.fault.message

end ScriptError

end Signalbox
