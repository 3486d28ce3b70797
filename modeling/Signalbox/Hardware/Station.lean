import Signalbox.Hardware.Packet

/-
  Signalbox/Hardware/Station.lean --- the connection to a command station.

  After connecting, the driver asks for the status and waits until the station
  announces itself; other packets are noted on the way.  It gives up when the time
  for that is over or the station hangs up.  From then on it notes every packet
  until the station hangs up or the driver is closed.

  What a station does is a list of deeds with the moments at which they happen, so
  that a connection is a function of the moments of deeds and calls.
-/

set_option autoImplicit false

namespace Signalbox

/-- What a station does. -/
inductive StationDeed where
  | send (bytes : List UInt8)
  | hangUp
  deriving DecidableEq, Repr

/-- A deed and the moment when it happens. -/
structure StationEvent where
  moment : Nat
  deed : StationDeed
  deriving DecidableEq, Repr

/-- Deeds that each follow the one before after some time, with their moments. -/
def StationEvent.after (moment : Nat) : List (Nat × StationDeed) → List StationEvent
  | [] => []
  | (wait, deed) :: rest => ⟨moment + wait, deed⟩ :: StationEvent.after (moment + wait) rest

/-! ## The announcement -/

/-- An open connection: what the station announced, the bytes not used yet, whether
packets are still read and written, and what the station has yet to do. -/
structure StationLink where
  banner : String
  kept : List UInt8
  reading : Bool
  writable : Bool
  ahead : List StationEvent
  deriving DecidableEq, Repr

/-- How waiting for the announcement ended: the result, the moment, the packets noted
before it, and those that came with it. -/
structure Greeting where
  result : Except DriverError StationLink
  moment : Nat
  noted : List String
  extra : List String

/-- Splits packets at the first announcement. -/
def splitBanner : List String → List String × Option (String × List String)
  | [] => ([], none)
  | packet :: rest =>
    if isBanner packet then ([], some (packet, rest))
    else
      let (before, found) := splitBanner rest
      (packet :: before, found)

/-- Waits for the announcement. -/
def greet (timeout : Nat) (noted : List String) (kept : List UInt8) :
    List StationEvent → Greeting
  | [] => ⟨.error (.noResponse timeout), timeout, noted, []⟩
  | event :: ahead =>
    if timeout ≤ event.moment then ⟨.error (.noResponse timeout), timeout, noted, []⟩
    else
      match event.deed with
      | .hangUp => ⟨.error .closed, event.moment, noted, []⟩
      | .send bytes =>
        let (packets, kept) := PacketStream.feed kept bytes
        match splitBanner packets with
        | (before, some (banner, extra)) =>
          ⟨.ok ⟨banner, kept, true, true, ahead⟩, event.moment, noted ++ before, extra⟩
        | (before, none) => greet timeout (noted ++ before) kept ahead

/-! ## The open connection -/

/-- What is written to the log of a connection. -/
inductive StationLog where
  | sent (packet : String)
  | received (packet : String)
  | ready
  | closing
  | hungUp
  deriving DecidableEq, Repr

/-- The wording of an entry of the log. -/
def StationLog.message : StationLog → String
  | sent packet => "Tx " ++ packet
  | received packet => "Rx " ++ packet
  | ready => "DCC-EX ready"
  | closing => "DCC-EX driver closing"
  | hungUp => "DCC-EX connection closed"

namespace StationLink

/-- One deed of the station. -/
def observe (l : StationLink) : StationDeed → List StationLog × StationLink
  | .send bytes =>
    let (packets, kept) := PacketStream.feed l.kept bytes
    if l.reading then (packets.map .received, { l with kept := kept }) else ([], l)
  | .hangUp =>
    (if l.reading then [.hungUp] else [], { l with reading := false, writable := false })

/-- The deeds of the station up to a moment. -/
def observeUntil (moment : Nat) : List StationEvent → StationLink → List StationLog × StationLink
  | [], l => ([], { l with ahead := [] })
  | event :: ahead, l =>
    if moment < event.moment then ([], { l with ahead := event :: ahead })
    else
      let (log, l) := l.observe event.deed
      let (more, l) := observeUntil moment ahead l
      (log ++ more, l)

/-- What the station has done by a moment. -/
def catchUp (l : StationLink) (moment : Nat) : List StationLog × StationLink :=
  observeUntil moment l.ahead l

/-- What a call writes to the station. -/
def written (l : StationLink) : DriverCall → String
  | .request r => if l.writable then r.packet else ""
  | .close => ""

/-- A call of the driver: its result, the log and the connection after it. -/
def call (l : StationLink) : DriverCall → Except DriverError Unit × List StationLog × StationLink
  | .request r =>
    (if l.writable then .ok () else .error (.io "broken pipe"), [.sent r.packet], l)
  | .close => (.ok (), [.closing], { l with reading := false, writable := false })

end StationLink

end Signalbox
