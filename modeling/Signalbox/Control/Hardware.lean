import Signalbox.Control.Controller

/-
  Signalbox/Control/Hardware.lean --- talking to drivers and switching between them.
-/

set_option autoImplicit false

namespace Signalbox

namespace Controller

/-! ## Calls -/

/-- Calls a driver. -/
def callDriver (c : Controller) (d : Driver) (call : DriverCall) :
    Except DriverError Unit × Controller :=
  let result := match c.faults d call with
    | some e => .error e
    | none => .ok ()
  (result, { c with calls := c.calls ++ [⟨d, call⟩] })

/-- Sends a request to the driver in place; none while there is a switch going on. -/
def send? (c : Controller) (r : Request) : Option (Except DriverError Unit × Controller) :=
  match c.adapter.status with
  | .switching => none
  | .unavailable => some (.error .unavailable, c)
  | .available => some (c.callDriver c.adapter.driver (.request r))

/-- The failure of a task whose request was refused, if the task cares. -/
def refusal (refused : OnRefusal) (e : DriverError) : Option Failure :=
  match refused with
  | .ignore => none
  | .failLoco => some (.loco (.hardware e))
  | .failDriver => some (.driver e)

/-- Sends a request when that is possible. -/
def sending (c : Controller) (r : Request) (refused : OnRefusal) : Outcome :=
  match c.send? r with
  | none => .waits ⟨some .hardware, none⟩
  | some (.ok (), c) => .finished c
  | some (.error e, c) =>
    match refusal refused e with
    | some f => .fails c f
    | none => .finished c

/-- The jobs that send requests. -/
def sends (refused : OnRefusal) (requests : List Request) : List Job :=
  requests.map fun r => .send r refused

/-! ## Switching -/

/-- Begins a switch: the driver in place is closed, and the next one is brought up by a
task of its own. -/
def switchTo (c : Controller) (d : Device) (attempt : Attempt) : Controller :=
  let previous := c.adapter.driver
  let c := { c with adapter := c.adapter.beginSwitch d }
  let (_, c) := c.callDriver previous .close
  c.begin [.connect c.adapter.generation d attempt]

/-- Switches to a device in the way that it needs. -/
def selectDevice (c : Controller) (d : Device) : Controller :=
  let (d, attempt) := c.adapter.attemptFor d
  c.switchTo d attempt

/-- Ends a switch.  A driver that comes too late is closed. -/
def connected (c : Controller) (generation : Nat) (d : Device) :
    Except DriverError DriverKind → Controller
  | .ok kind =>
    match c.adapter.install? generation d kind with
    | some a => tell { c with adapter := a } (.hardware a.view)
    | none => (c.callDriver ⟨kind, generation⟩ .close).2
  | .error e =>
    match c.adapter.fail? generation e with
    | some a => tell { c with adapter := a } (.hardware a.view)
    | none => c

/-- Begins to bring a driver up. -/
def connecting (c : Controller) (now generation : Nat) (d : Device) (attempt : Attempt) : Outcome :=
  if attempt.after = 0 then .finished (c.connected generation d attempt.result)
  else
    let (alarm, c) := c.alarm (now + attempt.after)
    .follows c [.connecting alarm generation d attempt.result]

/-- Brings a driver up when its time has come. -/
def stillConnecting (c : Controller) (now : Nat) (alarm : Alarm) (generation : Nat) (d : Device)
    (result : Except DriverError DriverKind) : Outcome :=
  if alarm.moment ≤ now then .finished (c.connected generation d result)
  else .waits ⟨none, some alarm⟩

end Controller

end Signalbox
