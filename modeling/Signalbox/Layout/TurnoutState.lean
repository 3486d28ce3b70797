import Signalbox.Text.Case
import Signalbox.Text.Blank

/-
  Signalbox/Layout/TurnoutState.lean --- the two states of a turnout.

  A turnout is closed, for its primary direction, or thrown, for its secondary
  one.  The state has three spellings: the name in documents and events' payloads,
  the verb in turnout events, and the number in packets to a command station.
-/

set_option autoImplicit false

namespace Signalbox

/-- The state of a turnout. -/
inductive TurnoutState where
  | closed
  | thrown
  deriving DecidableEq, Repr

namespace TurnoutState

/-- The name of the state. -/
def name : TurnoutState → String
  | closed => "closed"
  | thrown => "thrown"

/-- The verb for reaching the state. -/
def verb : TurnoutState → String
  | closed => "close"
  | thrown => "throw"

/-- The number that a packet gives the state. -/
def code : TurnoutState → Nat
  | closed => 0
  | thrown => 1

/-- The state that a person's text means: its name, its verb or its number, in either
case and with blanks around it. -/
def ofText? (s : String) : Option TurnoutState :=
  let word := String.ofList (Text.lowerAscii (Text.trim s.toList))
  if word = "closed" || word = "close" || word = "0" then some closed
  else if word = "thrown" || word = "throw" || word = "1" then some thrown
  else none

/-- The state with a name. -/
def ofName? (s : String) : Option TurnoutState :=
  if s = "closed" then some closed else if s = "thrown" then some thrown else none

theorem ofName?_name (s : TurnoutState) : ofName? s.name = some s := by
  cases s <;> decide

end TurnoutState

end Signalbox
