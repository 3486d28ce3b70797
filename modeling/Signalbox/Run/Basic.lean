import Signalbox.Loco.Basic
import Signalbox.Run.Entry
import Signalbox.Run.Log
import Signalbox.Script.Compile

/-
  Signalbox/Run/Basic.lean --- one run of a script.

  A run goes on, is paused, or is being resumed, and it may be stopped in any of
  these for good.  Its own commands start only while it goes on; while it is being
  resumed, a replay starts commands in its name.  Nothing starts once it is
  stopped.

  Whoever waits for a run is woken when its state is set, so the number of times
  that happened is part of the run.
-/

set_option autoImplicit false

namespace Signalbox

/-- The number that tells all runs apart, also those with the same name one after the
other. -/
abbrev RunId := Nat

/-- Where a run is. -/
inductive RunState where
  | running
  | paused
  | resuming
  deriving DecidableEq, Repr

/-- The name of the state. -/
def RunState.name : RunState → String
  | running => "running"
  | paused => "paused"
  | resuming => "resuming"

/-- The state with a name. -/
def RunState.ofName? (s : String) : Option RunState :=
  if s = "running" then some .running
  else if s = "paused" then some .paused
  else if s = "resuming" then some .resuming
  else none

/-- Who starts a command: the run itself, which pauses hold up, or a replay. -/
inductive Part where
  | regular
  | replay
  deriving DecidableEq, Repr

/-- The loco that a run drives, and who follows what it does to it. -/
structure LocoHandle where
  address : Nat
  sync : SyncLevel
  deriving DecidableEq, Repr

/-- A run. -/
structure Run where
  pid : Pid
  script : Script
  loco : Option LocoHandle
  state : RunState
  stopped : Bool
  log : RunLog
  pausedAt : Option Nat
  changes : Nat
  deriving DecidableEq, Repr

/-- Whether a command may start. -/
inductive Readiness where
  | ready
  | held
  | never
  deriving DecidableEq, Repr

namespace Run

/-- A run before its first command. -/
def ofScript (pid : Pid) (script : Script) (loco : Option LocoHandle) : Run :=
  { pid := pid
    script := script
    loco := loco
    state := .running
    stopped := false
    log := .empty
    pausedAt := none
    changes := 0 }

/-! ## States -/

/-- The run in a state. -/
def withState (r : Run) (state : RunState) : Run :=
  { r with state := state, changes := r.changes + 1 }

/-- The run moved from one state to another, unless it is in a third. -/
def transition? (r : Run) (start finish : RunState) : Option Run :=
  if r.state = start then some (r.withState finish) else none

/-- The run stopped for good. -/
def stop (r : Run) : Run := { r with stopped := true, changes := r.changes + 1 }

/-- The run paused at a moment, if it goes on. -/
def pause? (r : Run) (now : Nat) : Option Run :=
  if r.stopped then none
  else (r.transition? .running .paused).map fun r => { r with pausedAt := some now }

/-- The run being resumed, if it is paused. -/
def resume? (r : Run) : Option Run := r.transition? .paused .resuming

/-- The run going on after it was resumed. -/
def settled (r : Run) : Run := (r.transition? .resuming .running).getD r

/-! ## Commands -/

/-- Whether a command of a part may start now. -/
def readiness (r : Run) (part : Part) : Readiness :=
  if r.stopped then .never
  else
    match part with
    | .replay => .ready
    | .regular => if r.state = .running then .ready else .held

/-- The run with the start of a text in its log. -/
def record (r : Run) (now : Nat) (isDelay : Bool) (text : String) : Run :=
  { r with log := r.log.record now isDelay text }

/-- Whether a delay of a part is cut short. -/
def cutsDelay (r : Run) (part : Part) : Bool := part = .regular && r.state = .paused

/-- The script to replay. -/
def replayText (r : Run) : Option String := r.log.replayText r.pausedAt

/-! ## What clients are shown -/

/-- Whether the run is held. -/
def status (r : Run) : RunStatus := if r.state = .paused then .paused else .running

/-- The run in the list of live runs. -/
def entry (r : Run) : RunEntry :=
  { name := r.script.name
    pid := r.pid
    kind := r.script.kind
    status := r.status
    description := r.script.description
    loco := r.loco.map (·.address) }

end Run

end Signalbox
