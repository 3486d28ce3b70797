import Signalbox.Control.Locos

/-
  Signalbox/Control/Runs.lean --- starting, pausing, resuming and stopping runs.

  A run that is started gets a name and a task of its own.  When its last command
  is over it gives the name back, unless it was stopped before and the name has
  gone on to another run.

  Pausing brings the loco to a stand; resuming first replays what the pause undid,
  in a task of its own.  Stopping takes the run off the list at once and brings its
  loco to a stand, whoever follows it.
-/

set_option autoImplicit false

namespace Signalbox

/-- The root of the names of runs that events start. -/
def eventRoot : Int := -1

namespace Controller

/-! ## Starting -/

/-- Starts a run of a script under a name of the given root. -/
def startRun (c : Controller) (script : Script) (loco : Option LocoHandle) (root : Int) :
    Pid × Controller :=
  let (pid, pids) := c.pids.allocate root
  let id := c.runs.size
  let c := { c with
    pids := pids
    live := c.live.insert pid id
    runs := c.runs.insert id (.ofScript pid script loco) }
  (pid, c.tellRuns.begin (script.jobs id))

/-- Runs a script, with a loco if it drives one and one is given. -/
def runScript (c : Controller) (id : Int) (loco : Option LocoId) : Outcome :=
  match c.catalog.scripts.get? id with
  | none => .fails c (.run (.noScript id))
  | some script =>
    match loco.filter fun _ => script.bindsLoco with
    | none =>
      let (pid, c) := c.startRun script none script.id
      .answers c (.started (some pid))
    | some l =>
      match c.roster.addressOf? l with
      | none => .fails c (.run (.loco .notFound))
      | some address =>
        let (pid, c) := c.startRun script (some ⟨address, c.defaultSync⟩) script.id
        .answers c (.started (some pid))

/-- Runs the handler of an event, if there is one. -/
def handle (c : Controller) (e : TurnoutEvent) : Option Pid × Controller :=
  match c.catalog.handlers.get? e with
  | none => (none, c)
  | some script =>
    let (pid, c) := c.startRun script none eventRoot
    (some pid, c)

/-- Runs the handler of an event given as text. -/
def trigger (c : Controller) (event : String) : Outcome :=
  match TurnoutEvent.ofText? event with
  | none => .answers c (.started none)
  | some e =>
    let (pid, c) := c.handle e
    .answers c (.started pid)

/-! ## Ending -/

/-- Takes the name of a run off the list and gives it back. -/
def retire (c : Controller) (pid : Pid) : Controller :=
  { c with live := c.live.erase pid, pids := c.pids.release pid }

/-- Ends a run whose commands are over. -/
def finishRun (c : Controller) (id : RunId) : Outcome :=
  match c.runs.get? id with
  | none => .finished c
  | some run =>
    if c.live.get? run.pid = some id then .finished (c.retire run.pid).tellRuns
    else .finished c

/-- Stops a run for good. -/
def stopRun (c : Controller) (id : RunId) : Controller := c.modifyRun id Run.stop

/-- The requests that bring a loco to a stand, whoever is to hear of it. -/
def halt (c : Controller) (h : LocoHandle) : Controller × List Job :=
  match c.act h .emergencyStop with
  | .ok (c, requests) => (c, sends .ignore requests)
  | .error _ => (c, [])

/-- Stops a live run and its loco. -/
def stop (c : Controller) (pid : Pid) : Outcome :=
  match c.liveRun? pid with
  | none => .fails c (.run (.noRun pid))
  | some (id, run) =>
    let c := ((c.retire pid).stopRun id).tellRuns
    match run.loco with
    | none => .finished c
    | some h =>
      let (c, next) := c.halt ⟨h.address, .all⟩
      .follows c next

/-! ## Pausing and resuming -/

/-- Pauses a run that goes on, and brings its loco to a stand. -/
def pauseRun (c : Controller) (now : Nat) (id : RunId) : Controller × List Job :=
  match (c.runs.get? id).bind (·.pause? now) with
  | none => (c, [])
  | some run =>
    let c := c.modifyRun id fun _ => run
    match run.loco with
    | none => (c, [])
    | some h => c.halt h

/-- Pauses a live run. -/
def pause (c : Controller) (now : Nat) (pid : Pid) : Outcome :=
  match c.liveRun? pid with
  | none => .fails c (.run (.noRun pid))
  | some (id, _) =>
    let (c, next) := c.pauseRun now id
    .follows c (next ++ [.announceRuns])

/-- Lets a run go on that was being resumed. -/
def settleRun (c : Controller) (id : RunId) : Controller := c.modifyRun id Run.settled

/-- Resumes a paused run: what it has to replay first, or that there is nothing. -/
def resumeRun (c : Controller) (id : RunId) : Outcome :=
  match (c.runs.get? id).bind Run.resume? with
  | none => .answers c (.replayed none)
  | some run =>
    let c := c.modifyRun id fun _ => run
    match run.replayText with
    | none => .answers (c.settleRun id) (.replayed none)
    | some text =>
      match Script.compile text with
      | .error e => .answers (c.settleRun id) (.failed (.run (.script e)))
      | .ok scripts =>
        let commands := (scripts.head?.map (·.children)).getD []
        .follows c (Command.jobs id .replay commands ++ [.endReplay id text])

/-- Resumes a live run by a task of its own. -/
def resume (c : Controller) (pid : Pid) : Outcome :=
  match c.liveRun? pid with
  | none => .fails c (.run (.noRun pid))
  | some (id, _) => .finished (c.begin [.resumeRun id, .announceRuns]).tellRuns

end Controller

end Signalbox
