import Signalbox.Layout.TurnoutState
import Signalbox.Loco.Direction
import Signalbox.Text.Integer

/-
  Signalbox/Script/Command.lean --- the commands of a script.

  A command is an action, or a test of a turnout with a body of commands that runs
  only when the turnout is in the wanted state.  Bodies nest to any depth, so the
  commands are trees; arguments are integers as the script gives them, and what is
  out of range for a loco is settled when the command runs.

  Every command has one canonical text: an action is its keyword and argument, a
  test is its keyword and turnout, then its body four spaces deeper, then ENDIF.
-/

set_option autoImplicit false

namespace Signalbox

/-- A command without a body. -/
inductive Action where
  | drive (heading : Heading) (speed : Int)
  | speed (speed : Int)
  | stop
  | emergencyStop
  | switch (on : Bool) (function : Int)
  | set (state : TurnoutState) (turnout : Int)
  | delay (milliseconds : Int)
  deriving DecidableEq, Repr

/-- A command: an action, or a test with the commands that it guards. -/
inductive Command where
  | act (action : Action)
  | test (wanted : TurnoutState) (turnout : Int) (body : List Command)
  deriving Repr

namespace Action

/-- The keyword of an action. -/
def keyword : Action → String
  | drive .forward _ => "FWD"
  | drive .reverse _ => "REV"
  | speed _ => "SPEED"
  | stop => "STOP"
  | emergencyStop => "ESTOP"
  | switch true _ => "FON"
  | switch false _ => "FOFF"
  | set .thrown _ => "THROW"
  | set .closed _ => "CLOSE"
  | delay _ => "DELAY"

/-- The argument of an action, if it takes one. -/
def argument? : Action → Option Int
  | drive _ n => some n
  | speed n => some n
  | stop => none
  | emergencyStop => none
  | switch _ n => some n
  | set _ n => some n
  | delay n => some n

/-- The text of an action. -/
def text (a : Action) : String :=
  match a.argument? with
  | some n => a.keyword ++ "(" ++ Text.ofInt n ++ ")"
  | none => a.keyword

/-- Whether the action is a delay. -/
def isDelay : Action → Bool
  | delay _ => true
  | _ => false

end Action

namespace Command

/-! ## Equality -/

mutual

/-- Whether two commands are the same tree. -/
def decEq : (a b : Command) → Decidable (a = b)
  | .act a, .act b =>
    if h : a = b then isTrue (by rw [h]) else isFalse (by intro e; cases e; exact h rfl)
  | .act _, .test _ _ _ => isFalse (by intro e; cases e)
  | .test _ _ _, .act _ => isFalse (by intro e; cases e)
  | .test s t body, .test s' t' body' =>
    if hs : s = s' then
      if ht : t = t' then
        match decEqBody body body' with
        | isTrue hb => isTrue (by rw [hs, ht, hb])
        | isFalse hb => isFalse (by intro e; cases e; exact hb rfl)
      else isFalse (by intro e; cases e; exact ht rfl)
    else isFalse (by intro e; cases e; exact hs rfl)

/-- Whether two bodies are the same. -/
def decEqBody : (a b : List Command) → Decidable (a = b)
  | [], [] => isTrue rfl
  | [], _ :: _ => isFalse (by intro e; cases e)
  | _ :: _, [] => isFalse (by intro e; cases e)
  | a :: as, b :: bs =>
    match decEq a b, decEqBody as bs with
    | isTrue h, isTrue hs => isTrue (by rw [h, hs])
    | isFalse h, _ => isFalse (by intro e; cases e; exact h rfl)
    | _, isFalse hs => isFalse (by intro e; cases e; exact hs rfl)

end

instance : DecidableEq Command := decEq

instance : Inhabited Command := ⟨.act .stop⟩

/-! ## Text -/

/-- The keyword of a command. -/
def keyword : Command → String
  | .act a => a.keyword
  | .test .thrown _ _ => "IFTHROWN"
  | .test .closed _ _ => "IFCLOSED"

/-- The indentation of a depth. -/
def indent (depth : Nat) : String := String.ofList (List.replicate (4 * depth) ' ')

mutual

/-- The text of a command, `depth` levels in. -/
def textAt (depth : Nat) : Command → String
  | .act a => indent depth ++ a.text
  | .test wanted turnout body =>
    indent depth ++ keyword (.test wanted turnout []) ++ "(" ++ Text.ofInt turnout ++ ")"
      ++ bodyTextAt (depth + 1) body ++ "\n" ++ indent depth ++ "ENDIF"

/-- The text of a body, each command after a line break. -/
def bodyTextAt (depth : Nat) : List Command → String
  | [] => ""
  | c :: rest => "\n" ++ textAt depth c ++ bodyTextAt depth rest

end

/-- The canonical text of a command. -/
def text (c : Command) : String := textAt 0 c

end Command

end Signalbox
