import Signalbox.Control.Scripts
import Signalbox.Control.Turnouts

/-
  Signalbox/Control/Step.lean --- what the jobs of a controller do.
-/

set_option autoImplicit false

namespace Signalbox

/-! ## Commands -/

/-- The speed step of an integer that may be out of range. -/
def clampSpeed (n : Int) : Nat := min n.toNat maxSpeed

/-- What an action does to the loco of its run; a speed of -1 in a drive is an emergency
stop, and a function number that is no byte does nothing. -/
def Action.locoAct? : Action → Option LocoAct
  | drive heading n =>
    if n = -1 then some .emergencyStop else some (.drive heading.direction (clampSpeed n))
  | speed n => some (.speed (clampSpeed n))
  | stop => some (.speed 0)
  | emergencyStop => some .emergencyStop
  | switch on number =>
    if 0 ≤ number && number ≤ maxWord8 then some (.function number.toNat on) else none
  | set _ _ => none
  | delay _ => none

/-- Whether a command is a delay. -/
def Command.isDelay : Command → Bool
  | .act a => a.isDelay
  | .test _ _ _ => false

namespace Controller

/-- Begins a delay. -/
def beginDelay (c : Controller) (now : Nat) (run : RunId) (part : Part) (milliseconds : Nat) :
    Outcome :=
  let (alarm, c) := c.alarm (now + milliseconds)
  .follows c [.asleep run part alarm]

/-- Waits for the end of a delay, which a pause cuts short. -/
def asleep (c : Controller) (now : Nat) (id : RunId) (part : Part) (alarm : Alarm) : Outcome :=
  if alarm.moment ≤ now then .finished c
  else if (c.runs.get? id).any fun r => r.cutsDelay part then .finished c
  else
    let watched := match part with
      | .regular => some (Watched.run id)
      | .replay => none
    .waits ⟨watched, some alarm⟩

/-- What an action does to the loco of a run; a refusal is passed over. -/
def driveFor (c : Controller) (run : Run) (a : LocoAct) : Outcome :=
  match run.loco with
  | none => .finished c
  | some h =>
    match c.act h a with
    | .error _ => .finished c
    | .ok (c, requests) => .follows c (sends .ignore requests)

/-- What a command does once it has started. -/
def effect (c : Controller) (now : Nat) (id : RunId) (run : Run) (part : Part) :
    Command → Outcome
  | .act (.set state turnout) =>
    match c.setTurnout turnout state with
    | .error _ => .finished c
    | .ok (c, next) => .follows c next
  | .act (.delay milliseconds) => c.beginDelay now id part milliseconds.toNat
  | .act a =>
    match a.locoAct? with
    | none => .finished c
    | some act => c.driveFor run act
  | .test wanted turnout body =>
    if c.interlocking.turnoutState? turnout = some wanted then
      .follows c (Command.jobs id part body)
    else .finished c

/-- Starts a command when its run lets it. -/
def command (c : Controller) (now : Nat) (id : RunId) (part : Part) (cmd : Command) : Outcome :=
  match c.runs.get? id with
  | none => .finished c
  | some run =>
    match run.readiness part with
    | .never => .finished c
    | .held => .waits ⟨some (.run id), none⟩
    | .ready =>
      let c := c.modifyRun id (·.record now cmd.isDelay cmd.text)
      c.effect now id run part cmd

/-- Starts a text in a run when the run lets it. -/
def mark (c : Controller) (now : Nat) (id : RunId) (part : Part) (isDelay : Bool) (text : String) :
    Outcome :=
  match c.runs.get? id with
  | none => .finished c
  | some run =>
    match run.readiness part with
    | .never => .answers c (.began false run.log.current)
    | .held => .waits ⟨some (.run id), none⟩
    | .ready =>
      let run := run.record now isDelay text
      .answers (c.modifyRun id fun _ => run) (.began true run.log.current)

/-! ## Operations -/

/-- The beginning of an operation. -/
def operate (c : Controller) (now : Nat) : Operation → Outcome
  | .setTurnout id state =>
    match c.setTurnout id state with
    | .error e => .fails c (.layout e)
    | .ok (c, next) => .follows c next
  | .setRoute start finish => c.setRoute start finish
  | .clearRoute id => c.clearRoute id
  | .moveNode id coordinate => c.moveNode id coordinate
  | .addLoco name address => c.addLoco name address
  | .editLoco id name address => c.editLoco id name address
  | .deleteLoco id => c.deleteLoco id
  | .loadLocos => c.loadLocos
  | .setSpeed id speed => c.setSpeed id speed
  | .setDirection id d => c.setDirection id d
  | .toggleDirection id => c.toggleDirection id
  | .setFunction id number on => c.actingOn id .all (.function number on) fun _ => []
  | .syncLoco address level => c.syncLoco address level
  | .actOn handle act => c.acting handle act [] .done
  | .setPower on => .follows c [.send (.power on) .failDriver, .announcePower on]
  | .upload text => c.upload text
  | .loadScripts => c.loadScripts
  | .deleteScript id => c.deleteScript id
  | .describe id text => c.describe id text
  | .runScript id loco => c.runScript id loco
  | .trigger event => c.trigger event
  | .pause pid => c.pause now pid
  | .resume pid => c.resume pid
  | .stop pid => c.stop pid
  | .request r => .follows c [.send r .failDriver]
  | .selectDriver name address => .finished (c.selectDevice (Adapter.deviceFor name address))
  | .selectDevice d => .finished (c.selectDevice d)
  | .switchTo d attempt => .finished (c.switchTo d attempt)

/-! ## Jobs -/

/-- Notes the state of the track power. -/
def announcePower (c : Controller) (on : Bool) : Outcome :=
  .answers (tell { c with power := on } (.power on)) (.power on)

/-- What a job does at a moment. -/
def run (c : Controller) (now : Nat) : Job → Outcome
  | .operate op => c.operate now op
  | .command id part cmd => c.command now id part cmd
  | .mark id part isDelay text => c.mark now id part isDelay text
  | .delay id part milliseconds => c.beginDelay now id part milliseconds
  | .asleep id part alarm => c.asleep now id part alarm
  | .send r refused => c.sending r refused
  | .settings rest =>
    let (c, next) := c.nextSetting rest
    .follows c next
  | .finish id => c.finishRun id
  | .pauseRun id =>
    let (c, next) := c.pauseRun now id
    .follows c next
  | .resumeRun id => c.resumeRun id
  | .stopRun id => .finished (c.stopRun id)
  | .endReplay id text => .answers (c.settleRun id) (.replayed (some text))
  | .announceRuns => .finished c.tellRuns
  | .announceSpeed address => c.announceSpeed address
  | .announcePower on => c.announcePower on
  | .connect generation d attempt => c.connecting now generation d attempt
  | .connecting alarm generation d result => c.stillConnecting now alarm generation d result

/-- The tasks that were started, taken out of the controller. -/
def takeStarted (c : Controller) : List Task × Controller := (c.started, { c with started := [] })

end Controller

/-! ## Turns -/

/-- One job of a task. -/
def Task.step (now : Nat) (c : Controller) (t : Task) : Turn Controller Task Reply Watched :=
  match t.jobs with
  | [] => .ends c [] t.reply
  | job :: rest =>
    match c.run now job with
    | .waits wait => .waits wait
    | .done c next reply =>
      let (started, c) := c.takeStarted
      .goesOn c started ⟨next ++ rest, reply.getD t.reply⟩
    | .fails c f =>
      let (started, c) := c.takeStarted
      .ends c started (.failed f)

/-- How often something that tasks watch has been set. -/
def Controller.announced (c : Controller) : Watched → Nat
  | .run id => ((c.runs.get? id).map (·.changes)).getD 0
  | .hardware => c.adapter.changes

end Signalbox
