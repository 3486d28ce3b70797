import Signalbox.Script.Symbol

/-
  Signalbox/Script/Opcode.lean --- the vocabulary of scripts.

  An opcode is a keyword with a declared list of parameters.  It opens a script,
  acts, tests a turnout, or closes the innermost body.  Arguments are checked
  against the declaration before anything is built from them.
-/

set_option autoImplicit false

namespace Signalbox

/-- What an argument has to be. -/
inductive Parameter where
  /-- An integer; it may not be left out. -/
  | number
  /-- Any text; it may be left out. -/
  | optionalText
  deriving DecidableEq, Repr

/-- The forms that open a script. -/
inductive Opening where
  | sequence
  | route
  | automation
  | on (state : TurnoutState)
  deriving DecidableEq, Repr

/-- A keyword of the language. -/
inductive Opcode where
  | opening (form : Opening)
  | drive (heading : Heading)
  | speed
  | stop
  | emergencyStop
  | switch (on : Bool)
  | set (state : TurnoutState)
  | delay
  | test (wanted : TurnoutState)
  | done
  | endTask
  | endIf
  deriving DecidableEq, Repr

namespace Opcode

/-! ## Keywords -/

/-- Every opcode with its keyword. -/
def vocabulary : List (String × Opcode) :=
  [("SEQUENCE", opening .sequence), ("ROUTE", opening .route),
   ("AUTOMATION", opening .automation), ("ONCLOSE", opening (.on .closed)),
   ("ONTHROW", opening (.on .thrown)), ("FWD", drive .forward), ("REV", drive .reverse),
   ("SPEED", speed), ("STOP", stop), ("ESTOP", emergencyStop), ("FON", switch true),
   ("FOFF", switch false), ("THROW", set .thrown), ("CLOSE", set .closed), ("DELAY", delay),
   ("IFTHROWN", test .thrown), ("IFCLOSED", test .closed), ("DONE", done),
   ("ENDTASK", endTask), ("ENDIF", endIf)]

/-- The opcode with a keyword. -/
def ofName? (name : String) : Option Opcode :=
  (vocabulary.find? fun entry => entry.1 == name).map (·.2)

/-- Keywords of the wider language that this controller does not have. -/
def unimplemented : List String :=
  ["AFTER", "ALIAS", "AMBER", "AT", "ATTIMEOUT", "CALL", "DELAYMINS", "DELAYRANDOM", "ENDEXE",
   "FADE", "FOLLOW", "FREE", "GREEN", "IF", "IFNOT", "IFRANDOM", "IFRESERVE", "IFTIMEOUT",
   "INVERT_DIRECTION", "JOIN", "LATCH", "LCD", "ONACTIVATE", "ONDEACTIVATE", "PAUSE", "POWEROFF",
   "POWERON", "PRINT", "READ_LOCO", "RED", "RESERVE", "RESET", "RESUME", "RETURN", "ROSTER",
   "SENDLOCO", "SERIAL", "SERVO", "SET", "SETLOCO", "SIGNAL", "START", "TURNOUT", "UNJOIN",
   "UNLATCH"]

/-! ## Parameters -/

/-- The declared parameters of an opcode. -/
def parameters : Opcode → List Parameter
  | opening (.on _) => [.number]
  | opening _ => [.number, .optionalText]
  | stop | emergencyStop | done | endTask | endIf => []
  | _ => [.number]

/-- Whether the opcode opens a script. -/
def isOpening : Opcode → Bool
  | opening _ => true
  | _ => false

/-- Whether the opcode closes a body. -/
def isCloser : Opcode → Bool
  | done | endTask | endIf => true
  | _ => false

/-- The action of an opcode with an argument, if it acts. -/
def action? (argument : Int) : Opcode → Option Action
  | drive heading => some (.drive heading argument)
  | speed => some (.speed argument)
  | stop => some .stop
  | emergencyStop => some .emergencyStop
  | switch on => some (.switch on argument)
  | set state => some (.set state argument)
  | delay => some (.delay argument)
  | _ => none

end Opcode

/-! ## Arguments -/

namespace Parameter

/-- The first argument that is not the number that it should be. -/
def firstWrong (position : Nat) : List Parameter → List String → Option ScriptFault
  | .number :: ps, arg :: args =>
    if (Text.int64? (Text.trim arg.toList)).isNone then some (.notANumber position arg)
    else firstWrong (position + 1) ps args
  | .optionalText :: ps, _ :: args => firstWrong (position + 1) ps args
  | _, _ => none

/-- What is wrong with the arguments for the declared parameters, if anything: their
number is looked at first, then each in order. -/
def check (declared : List Parameter) (args : List String) : Option ScriptFault :=
  let needed := (declared.filter (· == number)).length
  if declared.isEmpty && !args.isEmpty then some (.unexpectedArguments args.length)
  else if args.length < needed || declared.length < args.length then
    some (.argumentCount args.length declared.length)
  else firstWrong 1 declared args

end Parameter

/-- The number that an argument is; 0 for one that is missing or none. -/
def Symbol.number (s : Symbol) : Int :=
  match s.args with
  | arg :: _ => (Text.int64? (Text.trim arg.toList)).getD 0
  | [] => 0

/-- The opcode that a symbol names. -/
def Symbol.opcode? (s : Symbol) : Option Opcode := Opcode.ofName? s.name

end Signalbox
