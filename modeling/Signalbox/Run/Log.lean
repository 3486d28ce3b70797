import Signalbox.Script.Command
import Signalbox.Text.Blank

/-
  Signalbox/Run/Log.lean --- what a run has started.

  The log has the moment at which each command started, and the text of what would
  have to be done again if the run were resumed: the last command that is no delay,
  and the delay after it if one has started since.  A delay that nothing comes
  before leaves an empty text in the place of the command.

  To replay a log is to run a script of these texts, the delay cut down to what was
  left of it when the run was paused.
-/

set_option autoImplicit false

namespace Signalbox

/-- The moments at which commands started, and the texts to replay, two at most. -/
structure RunLog where
  starts : List Nat
  current : List String
  deriving DecidableEq, Repr

namespace RunLog

/-- Nothing has started. -/
def empty : RunLog := ⟨[], []⟩

/-- The texts to replay after a delay has started. -/
def delayed (text : String) : List String → List String
  | [] => ["", text]
  | command :: _ => [command, text]

/-- The log after a text has started at a moment. -/
def record (l : RunLog) (now : Nat) (isDelay : Bool) (text : String) : RunLog :=
  ⟨l.starts ++ [now], if isDelay then delayed text l.current else [text]⟩

/-- The moment at which the last command started. -/
def lastStart (l : RunLog) : Option Nat := l.starts.getLast?

/-! ## Replaying -/

/-- The rest of a text after a beginning. -/
def afterStart? : List Char → List Char → Option (List Char)
  | [], cs => some cs
  | p :: ps, c :: cs => if p = c then afterStart? ps cs else none
  | _ :: _, [] => none

/-- The milliseconds of the text of a delay. -/
def delayOf? (text : String) : Option Int := do
  let rest ← afterStart? "DELAY(".toList (Text.trim text.toList)
  let inner ← afterStart? [')'] rest.reverse
  Text.int64? (Text.trim inner.reverse)

/-- The milliseconds between the last start and a pause. -/
def elapsed (l : RunLog) (paused : Option Nat) : Nat :=
  match paused, l.lastStart with
  | some paused, some started => paused - started
  | _, _ => 0

/-- The delay with only what was left of it at a pause. -/
def remaining (l : RunLog) (paused : Option Nat) (text : String) : String :=
  match delayOf? text with
  | some declared => "DELAY(" ++ Text.ofInt (max (declared - (l.elapsed paused : Int)) 0) ++ ")"
  | none => text

/-- Whether a text is blank. -/
def isBlank (text : String) : Bool := Text.isBlankText text.toList

/-- The texts to replay, with the delay cut down. -/
def replayItems (l : RunLog) (paused : Option Nat) : List String :=
  match l.current with
  | [command, delay] => [command, l.remaining paused delay]
  | items => items

/-- The script to replay, if anything has started. -/
def replayText (l : RunLog) (paused : Option Nat) : Option String :=
  if l.current.all isBlank then none
  else
    let items := (l.replayItems paused).filter fun text => !isBlank text
    some ("AUTOMATION(0) " ++ " ".intercalate items ++ " DONE")

end RunLog

end Signalbox
