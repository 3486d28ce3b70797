import Signalbox.Text.Case
import Signalbox.Text.Blank

/-
  Signalbox/Loco/Direction.lean --- which way a loco travels.

  A loco travels forward or in reverse, or is stopped; stopped is a direction of
  its own, and what a new loco has.
-/

set_option autoImplicit false

namespace Signalbox

/-- The two ways of travel. -/
inductive Heading where
  | forward
  | reverse
  deriving DecidableEq, Repr

/-- The direction of a loco. -/
inductive Direction where
  | forward
  | reverse
  | stopped
  deriving DecidableEq, Repr

/-- The direction of a heading. -/
def Heading.direction : Heading → Direction
  | forward => .forward
  | reverse => .reverse

namespace Direction

/-- The name of the direction. -/
def name : Direction → String
  | forward => "forward"
  | reverse => "reverse"
  | stopped => "stopped"

/-- The direction with a name. -/
def ofName? (s : String) : Option Direction :=
  if s = "forward" then some forward
  else if s = "reverse" then some reverse
  else if s = "stopped" then some stopped
  else none

theorem ofName?_name (d : Direction) : ofName? d.name = some d := by
  cases d <;> decide

/-- The direction that a person's text means: its name or its opcode, in either case and
with blanks around it. -/
def ofText? (s : String) : Option Direction :=
  let word := String.ofList (Text.lowerAscii (Text.trim s.toList))
  if word = "forward" || word = "fwd" then some forward
  else if word = "reverse" || word = "rev" then some reverse
  else if word = "stopped" || word = "stop" then some stopped
  else none

/-- The number that a packet gives the direction. -/
def code : Direction → Int
  | forward => 1
  | reverse => 0
  | stopped => -1

/-- Forward and reverse exchanged; a stopped loco stays stopped. -/
def toggled : Direction → Direction
  | forward => reverse
  | reverse => forward
  | stopped => stopped

end Direction

end Signalbox
