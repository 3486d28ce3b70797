import Signalbox.Script.Command
import Signalbox.Text.Blank

/-
  Signalbox/Script/Basic.lean --- scripts.

  A script is a body of commands under an id.  A user starts it, or a turnout
  reaching a state does; the second kind is an event handler, whose id is worked
  out from the turnout and the state and is negative, so that it never meets the
  id of a user's script.

  A script carries its canonical source, and compiling the source gives the script
  back.  Names lose their quotes in it, and a pair of slashes in a name is escaped
  so that it does not begin a comment.
-/

set_option autoImplicit false

namespace Signalbox

/-- What a script is for. -/
inductive ScriptKind where
  | sequence
  | route
  | automation
  | eventHandler
  deriving DecidableEq, Repr

namespace ScriptKind

/-- The name of the kind. -/
def name : ScriptKind → String
  | sequence => "sequence"
  | route => "route"
  | automation => "automation"
  | eventHandler => "eventHandler"

/-- The kind with a name. -/
def ofName? (s : String) : Option ScriptKind :=
  if s = "sequence" then some sequence
  else if s = "route" then some route
  else if s = "automation" then some automation
  else if s = "eventHandler" then some eventHandler
  else none

/-- The name of a script without a name of its own, but for the id. -/
def title : ScriptKind → String
  | sequence => "Sequence"
  | route => "Route"
  | _ => "Automation"

/-- The keyword that opens a user's script. -/
def keyword : ScriptKind → String
  | sequence => "SEQUENCE"
  | route => "ROUTE"
  | _ => "AUTOMATION"

end ScriptKind

/-- A turnout reaching a state. -/
structure TurnoutEvent where
  turnout : Int
  state : TurnoutState
  deriving DecidableEq, Repr

/-- The id of the handler of an event: `-(2t + 1)` for turnout `t` closing and `-(2t + 2)`
for it being thrown. -/
def TurnoutEvent.handlerId (e : TurnoutEvent) : Int :=
  match e.state with
  | .closed => -(2 * e.turnout + 1)
  | .thrown => -(2 * e.turnout + 2)

/-- The keyword that opens the handler of a turnout reaching a state. -/
def TurnoutState.handlerKeyword : TurnoutState → String
  | .closed => "ONCLOSE"
  | .thrown => "ONTHROW"

/-- A script.  A script without a trigger is started on request. -/
structure Script where
  id : Int
  name : String
  description : String
  kind : ScriptKind
  trigger : Option TurnoutEvent
  children : List Command
  source : String
  deriving DecidableEq, Repr

namespace Script

/-- The description of a script that nobody has described. -/
def defaultDescription : String := "Add a description"

/-! ## What a script is called -/

/-- The keyword that opens the script. -/
def keyword (s : Script) : String :=
  match s.trigger with
  | some e => e.state.handlerKeyword
  | none => s.kind.keyword

/-- The keyword with the id, or with the turnout for a handler. -/
def label (s : Script) : String :=
  match s.trigger with
  | some e => s.keyword ++ " " ++ Text.ofInt e.turnout
  | none => s.keyword ++ " " ++ Text.ofInt s.id

/-- Whether runs of the script drive a loco. -/
def bindsLoco (s : Script) : Bool := s.kind = .sequence || s.kind = .automation

/-- Whether the script is started by an event, and by which. -/
def handlerType (s : Script) : String := if s.trigger.isSome then "turnout" else "none"

/-! ## Source -/

/-- A name as the source writes it: without quotes, and with pairs of slashes escaped. -/
def escapeSlashes : List Char → List Char
  | '/' :: '/' :: rest => '\\' :: '/' :: '/' :: escapeSlashes rest
  | c :: rest => c :: escapeSlashes rest
  | [] => []

/-- Whether a character quotes. -/
def isQuote (c : Char) : Bool := c == '"' || c == '\''

/-- The name between the quotes of a source. -/
def sourceName (name : String) : String :=
  String.ofList (escapeSlashes (name.toList.filter fun c => !isQuote c))

/-- The opening line of the source. -/
def opening (s : Script) : String :=
  match s.trigger with
  | some e => s.keyword ++ "(" ++ Text.ofInt e.turnout ++ ")"
  | none => s.keyword ++ "(" ++ Text.ofInt s.id ++ ", \"" ++ sourceName s.name ++ "\")"

/-- The canonical source of a script: its opening, its commands one level in, and DONE. -/
def canonicalSource (s : Script) : String :=
  s.opening ++ Command.bodyTextAt 1 s.children ++ "\nDONE"

/-- The script with its canonical source. -/
def withSource (s : Script) : Script := { s with source := s.canonicalSource }

/-! ## Making scripts -/

/-- A script that users start.  A blank name becomes the kind and the id. -/
def ofUser (kind : ScriptKind) (id : Int) (name : String) (children : List Command) : Script :=
  withSource
    { id := id
      name := if Text.isBlankText name.toList then kind.title ++ " " ++ Text.ofInt id else name
      description := defaultDescription
      kind := kind
      trigger := none
      children := children
      source := "" }

/-- The handler of a turnout event. -/
def ofEvent (e : TurnoutEvent) (children : List Command) : Script :=
  withSource
    { id := e.handlerId
      name := e.state.handlerKeyword ++ " " ++ Text.ofInt e.turnout
      description := defaultDescription
      kind := .eventHandler
      trigger := some e
      children := children
      source := "" }

end Script

end Signalbox
