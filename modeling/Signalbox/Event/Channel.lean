import Signalbox.Event.Basic
import Signalbox.Table

/-
  Signalbox/Event/Channel.lean --- delivering events.

  A channel keeps the last events for any number of receivers, each of which reads
  at its own pace from the moment it subscribed.  A receiver that falls behind by
  more than the channel keeps is told once how many events it lost, and goes on
  with the oldest one kept.  Nobody waits for a receiver.

  A fan-out hands each event to several channels and to a recorder.
-/

set_option autoImplicit false

namespace Signalbox

/-- The least power of two that is not below a number, by doubling. -/
def roundUp : Nat → Nat → Nat → Nat
  | 0, power, _ => power
  | fuel + 1, power, n => if n ≤ power then power else roundUp fuel (2 * power) n

/-- A channel: how many events it keeps, the events sent, and where each receiver
stands. -/
structure Channel where
  capacity : Nat
  sent : List Event
  receivers : Table Nat Nat
  deriving DecidableEq, Repr

/-- What a receiver gets. -/
inductive Received where
  | event (e : Event)
  | empty
  | lagged (lost : Nat)
  | noReceiver
  deriving DecidableEq, Repr

namespace Channel

/-- A channel that keeps at least one event, and a power of two. -/
def ofCapacity (n : Nat) : Channel := ⟨roundUp n 1 (max n 1), [], Table.empty⟩

/-- Sends an event. -/
def send (c : Channel) (e : Event) : Channel := { c with sent := c.sent ++ [e] }

/-- Adds a receiver, which sees what is sent from now on. -/
def subscribe (c : Channel) (receiver : Nat) : Channel :=
  { c with receivers := c.receivers.insert receiver c.sent.length }

/-- Removes a receiver. -/
def drop (c : Channel) (receiver : Nat) : Channel :=
  { c with receivers := c.receivers.erase receiver }

/-- The number of receivers. -/
def observers (c : Channel) : Nat := c.receivers.size

/-- What a receiver reads next, and the channel after it. -/
def receive (c : Channel) (receiver : Nat) : Received × Channel :=
  match c.receivers.get? receiver with
  | none => (.noReceiver, c)
  | some position =>
    let oldest := c.sent.length - c.capacity
    if position < oldest then
      (.lagged (oldest - position), { c with receivers := c.receivers.insert receiver oldest })
    else
      match c.sent[position]? with
      | some e => (.event e, { c with receivers := c.receivers.insert receiver (position + 1) })
      | none => (.empty, c)

end Channel

/-! ## Fan-out -/

/-- Channels, the channel of each receiver by the receiver's number, and a record of every
event if one is kept. -/
structure FanOut where
  channels : List Channel
  places : List Nat
  record : Option (List Event)
  deriving DecidableEq, Repr

namespace FanOut

/-- A fan-out without receivers, over channels of the given capacities. -/
def ofCapacities (capacities : List Nat) (recording : Bool) : FanOut :=
  ⟨capacities.map Channel.ofCapacity, [], if recording then some [] else none⟩

/-- Hands an event to every target. -/
def send (f : FanOut) (e : Event) : FanOut :=
  { f with channels := f.channels.map (·.send e), record := f.record.map (· ++ [e]) }

/-- Adds a receiver to a channel: its number, and the fan-out with it. -/
def subscribe (f : FanOut) (channel : Nat) : Nat × FanOut :=
  let receiver := f.places.length
  (receiver, { f with
    channels := f.channels.modify channel (·.subscribe receiver)
    places := f.places ++ [channel] })

/-- Removes a receiver from its channel. -/
def drop (f : FanOut) (receiver : Nat) : FanOut :=
  match f.places[receiver]? with
  | some place => { f with channels := f.channels.modify place (·.drop receiver) }
  | none => f

/-- What a receiver reads next, and the fan-out after it. -/
def receive (f : FanOut) (receiver : Nat) : Received × FanOut :=
  match f.places[receiver]? with
  | none => (.noReceiver, f)
  | some place =>
    match f.channels[place]? with
    | none => (.noReceiver, f)
    | some c =>
      let (received, c) := c.receive receiver
      (received, { f with channels := f.channels.set place c })

/-- The recorded events, oldest first. -/
def recorded (f : FanOut) : List Event := f.record.getD []

/-- The recorded events with a name. -/
def recordedAs (f : FanOut) (name : String) : List Event := f.recorded.filter (·.name == name)

/-- The fan-out with an empty record, if it keeps one. -/
def forget (f : FanOut) : FanOut := { f with record := f.record.map fun _ => [] }

end FanOut

end Signalbox
