import Signalbox.Hardware.View
import Signalbox.Layout.Document
import Signalbox.Loco.Basic
import Signalbox.Run.Entry
import Signalbox.Script.Error
import Signalbox.Script.Summary

/-
  Signalbox/Event/Basic.lean --- what clients are told.

  Every change that a client can see is broadcast as one event.  An event has a
  name and a payload, and is sent as a record of the two.
-/

set_option autoImplicit false

namespace Signalbox

/-- A message to every client. -/
inductive Event where
  | speed (address speed : Nat)
  | direction (address : Nat) (direction : Direction)
  | function (address number : Nat) (on : Bool)
  | power (on : Bool)
  | locoAdded (loco : Loco)
  | locoEdited (previous : Nat) (loco : Loco)
  | locoDeleted (address : Nat)
  | turnout (id : NodeId) (state : TurnoutState)
  | route (route : Route)
  /-- Components are held by a route from now on. -/
  | held (components : Components)
  /-- Components are held by no route any more. -/
  | released (components : Components)
  | moved (id : NodeId) (coordinate : Coordinate)
  | catalog (scripts : List ScriptSummary)
  | running (runs : List RunEntry)
  | scriptRefused (error : ScriptError)
  | hardware (view : HardwareView)
  deriving DecidableEq, Repr

namespace Event

/-- The name of the event. -/
def name : Event → String
  | speed .. => "throttle/speedUpdate"
  | direction .. => "throttle/directionUpdate"
  | function .. => "throttle/functionUpdate"
  | power .. => "throttle/trackPowerUpdate"
  | locoAdded .. => "config/newLocoAdded"
  | locoEdited .. => "config/locoEdited"
  | locoDeleted .. => "config/locoDeleted"
  | turnout .. => "routes/turnoutUpdate"
  | route .. => "routes/routeUpdate"
  | held .. => "routes/setRouteComponents"
  | released .. => "routes/unsetRouteComponents"
  | moved .. => "routes/changeObjectCoordinate"
  | catalog .. => "automation/fetchAllResponse"
  | running .. => "automation/fetchRunningResponse"
  | scriptRefused .. => "automation/processingError"
  | hardware .. => "hardware/newActiveDevice"

/-- A script error as a record; a location is left out when there is none. -/
def errorJson (e : ScriptError) : Json :=
  .object ([("kind", .string "syntax"), ("message", .string e.message)]
    ++ (e.location.map fun place => ("location", Json.string place)).toList)

/-- The payload of the event. -/
def payload : Event → Json
  | speed address step => .object [("address", .ofNat address), ("speed", .ofNat step)]
  | direction address d => .object [("address", .ofNat address), ("direction", d.toJson)]
  | function address number on =>
    .object [("address", .ofNat address), ("function", .ofNat number), ("state", .bool on)]
  | power on => .object [("state", .bool on)]
  | locoAdded loco => loco.toJson
  | locoEdited previous loco =>
    .object [("previous_address", .ofNat previous), ("loco", loco.toJson)]
  | locoDeleted address => .object [("address", .ofNat address)]
  | turnout id state => .object [("id", .ofInt id), ("state", state.toJson)]
  | route r => r.toJson
  | held components => components.toJson
  | released components => components.toJson
  | moved id coordinate => .object [("id", .ofInt id), ("coordinate", coordinate.toJson)]
  | catalog scripts => .ofList ScriptSummary.toJson scripts
  | running runs => .ofList RunEntry.toJson runs
  | scriptRefused error => errorJson error
  | hardware view => view.toJson

/-- The event as it is sent. -/
def toJson (e : Event) : Json := .object [("event", .string e.name), ("payload", e.payload)]

end Event

end Signalbox
