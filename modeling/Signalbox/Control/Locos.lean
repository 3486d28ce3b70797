import Signalbox.Control.Hardware

/-
  Signalbox/Control/Locos.lean --- driving locos, and keeping the roster.

  What is done to a loco is done to the roster first, then clients are told, then
  the hardware; the sync level of the handle says which of the two hear of it.  The
  hardware gets the speed and direction that the roster had at that moment.

  The roster follows the store: when the store refuses, the roster stays as it was.
-/

set_option autoImplicit false

namespace Signalbox

namespace LocoAct

/-- What the act does to the loco. -/
def change : LocoAct → Loco → Loco
  | speed n, l => l.withSpeed n
  | direction d, l => l.withDirection d
  | drive d n, l => l.driven d n
  | emergencyStop, l => l.driven .stopped 0
  | function n on, l => l.setFunction n on

/-- Why the act is refused, whatever the loco. -/
def refusal : LocoAct → Option LocoError
  | function n _ => if maxFunction < n then some (.functionRange n) else none
  | _ => none

/-- The events that tell clients how the loco runs. -/
def motion (address : Nat) (l : Loco) : List Event :=
  [.speed address l.speed, .direction address l.direction]

/-- The request that tells the hardware how the loco runs. -/
def motionRequest (address : Nat) (l : Loco) : Request := .speed address l.speed l.direction

/-- What clients are told, by the loco as it is after the act. -/
def events (address : Nat) (l : Loco) : LocoAct → List Event
  | function n on => [.function address n on]
  | _ => motion address l

/-- What the hardware is told, by the loco as it is after the act. -/
def request (address : Nat) (l : Loco) : LocoAct → Request
  | function n on => .function address n on
  | _ => motionRequest address l

end LocoAct

namespace Controller

/-! ## Driving -/

/-- Tells those who follow a loco: the clients now, the hardware by requests. -/
def follow (c : Controller) (level : SyncLevel) (events : List Event) (r : Request) :
    Controller × List Request :=
  (if level.reachesClients then c.tellAll events else c,
   if level.reachesHardware then [r] else [])

/-- Does something to the loco of a handle: the controller after that, and the requests to
send. -/
def act (c : Controller) (h : LocoHandle) (a : LocoAct) :
    Except LocoError (Controller × List Request) :=
  match a.refusal with
  | some e => .error e
  | none =>
    match c.roster.modify? h.address a.change with
    | none => .error .notFound
    | some (l, roster) =>
      .ok (follow { c with roster := roster } h.sync (a.events h.address l) (a.request h.address l))

/-- Does something to a loco as an operation, with jobs to follow and a reply. -/
def acting (c : Controller) (h : LocoHandle) (a : LocoAct) (next : List Job) (reply : Reply) :
    Outcome :=
  match c.act h a with
  | .error e => .fails c (.loco e)
  | .ok (c, requests) => .done c (sends .failLoco requests ++ next) (some reply)

/-- Does something to the loco that an identifier leads to. -/
def actingOn (c : Controller) (id : LocoId) (level : SyncLevel) (a : LocoAct)
    (next : Nat → List Job) : Outcome :=
  match c.roster.addressOf? id with
  | none => .fails c (.loco .notFound)
  | some address => c.acting ⟨address, level⟩ a (next address) .done

/-- Sets the speed of a loco; clients are told when the hardware has taken it. -/
def setSpeed (c : Controller) (id : LocoId) (speed : Nat) : Outcome :=
  c.actingOn id .hardwareOnly (.speed speed) fun address => [.announceSpeed address]

/-- Sets the direction of a loco; one that is stopped also loses its speed. -/
def setDirection (c : Controller) (id : LocoId) (d : Direction) : Outcome :=
  let a := if d = .stopped then LocoAct.emergencyStop else .direction d
  c.actingOn id .all a fun _ => []

/-- Turns a loco round. -/
def toggleDirection (c : Controller) (id : LocoId) : Outcome :=
  match c.roster.addressOf? id with
  | none => .fails c (.loco .notFound)
  | some address =>
    match c.roster.byAddress.get? address with
    | none => .fails c (.loco .notFound)
    | some l =>
      let d := l.direction.toggled
      c.acting ⟨address, .all⟩ (.direction d) [] (.direction d)

/-- Tells those who follow a loco how it runs. -/
def syncLoco (c : Controller) (address : Nat) (level : SyncLevel) : Outcome :=
  match c.roster.byAddress.get? address with
  | none => .fails c (.loco .notFound)
  | some l =>
    let (c, requests) := c.follow level (LocoAct.motion address l) (LocoAct.motionRequest address l)
    .follows c (sends .failLoco requests)

/-- Tells clients the speed of a loco. -/
def announceSpeed (c : Controller) (address : Nat) : Outcome :=
  match c.roster.byAddress.get? address with
  | none => .fails c (.loco .notFound)
  | some l => .finished (c.tell (.speed address l.speed))

/-! ## The roster -/

/-- Adds a loco. -/
def addLoco (c : Controller) (name : String) (address : Nat) : Outcome :=
  match c.roster.refusal name address none with
  | some e => .fails c (.loco e)
  | none =>
    let l := Loco.standing name address
    match c.save (.insertLoco l.record) with
    | (.error e, c) => .fails c (.loco (.storage e))
    | (.ok (), c) =>
      .answers (tell { c with roster := c.roster.insert l } (.locoAdded l)) (.loco l)

/-- Gives a loco another name, another address, or both. -/
def editLoco (c : Controller) (id : LocoId) (name : Option String) (address : Option Nat) :
    Outcome :=
  match c.roster.addressOf? id with
  | none => .fails c (.loco .notFound)
  | some current =>
    match c.roster.byAddress.get? current with
    | none => .fails c (.loco .notFound)
    | some l =>
      let l := Roster.edited l name address
      match c.roster.refusal l.name l.address (some current) with
      | some e => .fails c (.loco e)
      | none =>
        match c.save (.updateLoco current l.record) with
        | (.error e, c) => .fails c (.loco (.storage e))
        | (.ok (), c) =>
          .answers (tell { c with roster := c.roster.replace current l } (.locoEdited current l))
            (.loco l)

/-- Deletes a loco. -/
def deleteLoco (c : Controller) (id : LocoId) : Outcome :=
  match c.roster.addressOf? id with
  | none => .fails c (.loco .notFound)
  | some address =>
    match c.save (.deleteLoco address) with
    | (.error e, c) => .fails c (.loco (.storage e))
    | (.ok (), c) =>
      match c.roster.remove? address with
      | none => .fails c (.loco .notFound)
      | some (l, roster) =>
        .answers (tell { c with roster := roster } (.locoDeleted l.address)) (.loco l)

/-- Loads the saved locos that are not there yet. -/
def loadLocos (c : Controller) : Outcome :=
  match c.store.loadLocos with
  | .error e => .fails c (.loco (.storage e))
  | .ok records =>
    let (count, roster) := c.roster.loadAll records
    .answers { c with roster := roster } (.count count)

end Controller

end Signalbox
