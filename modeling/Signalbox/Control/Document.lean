import Signalbox.Control.Controller
import Signalbox.Hardware.Document
import Signalbox.Layout.Document

/-
  Signalbox/Control/Document.lean --- operations, replies and views of a controller as
  JSON.

  An operation is a record with its name in the field `do`.  The loco that it is
  about is given by the address, by the name, or by a text that may be either.
-/

set_option autoImplicit false

namespace Signalbox

/-! ## Operations -/

/-- A loco as an operation names it. -/
def LocoId.ofMention? (j : Json) : Option LocoId :=
  (LocoId.ofJson? j).or ((j.fieldAs? "text" Json.asString).map LocoId.ofText)

/-- An attempt to bring up a driver that takes note of its calls. -/
def Attempt.ofJson? (j : Json) : Option Attempt := do
  let name ← j.fieldAs? "name" Json.asString
  let after ← j.fieldAs? "after" (Json.asWord maxWord64)
  match j.field? "failure" with
  | some (.string "timeout") => some ⟨after, .error (.noResponse after)⟩
  | some (.string "closed") => some ⟨after, .error .closed⟩
  | _ => some ⟨after, .ok (.noting name)⟩

namespace Operation

/-- The operations on the layout, by name. -/
def onLayout? (j : Json) : String → Option Operation
  | "set_turnout" => do
    let id ← j.fieldAs? "id" Json.asInt64
    let state ← j.fieldAs? "state" TurnoutState.ofJson?
    some (setTurnout id state)
  | "set_route" => do
    let start ← j.fieldAs? "start" Json.asInt64
    let finish ← j.fieldAs? "end" Json.asInt64
    some (setRoute start finish)
  | "clear_route" => (j.fieldAs? "id" (Json.asWord maxWord32)).map clearRoute
  | "coordinate" => do
    let id ← j.fieldAs? "id" Json.asInt64
    let place ← Coordinate.ofJson? j
    some (moveNode id place)
  | _ => none

/-- The operations on locos, by name. -/
def onLocos? (j : Json) (name : String) : Option Operation := do
  let loco := j.fieldAs? "loco" LocoId.ofMention?
  let address := j.fieldAs? "address" (Json.asWord maxWord16)
  match name with
  | "loco_add" => some (addLoco (← j.fieldAs? "name" Json.asString) (← address))
  | "loco_update" => some (editLoco (← loco) (j.fieldAs? "name" Json.asString) address)
  | "loco_delete" => some (deleteLoco (← loco))
  | "load_locos" => some loadLocos
  | "speed" => some (setSpeed (← loco) (← j.fieldAs? "speed" (Json.asWord maxWord8)))
  | "direction" => some (setDirection (← loco) (← j.fieldAs? "direction" Direction.ofJson?))
  | "toggle" => some (toggleDirection (← loco))
  | "function" =>
    let number ← j.fieldAs? "function" (Json.asWord maxWord8)
    some (setFunction (← loco) number (← j.fieldAs? "on" Json.asBool))
  | "sync_loco" => some (syncLoco (← address) (← j.fieldAs? "sync" SyncLevel.ofJson?))
  | "power" => some (setPower (← j.fieldAs? "on" Json.asBool))
  | _ => none

/-- The operations on scripts and runs, by name. -/
def onScripts? (j : Json) (name : String) : Option Operation := do
  let id := j.fieldAs? "id" Json.asInt64
  let text := j.fieldAs? "text" Json.asString
  let pid := j.fieldAs? "pid" Pid.ofJson?
  match name with
  | "upload" => some (upload (← text))
  | "load" => some loadScripts
  | "delete" => some (deleteScript (← id))
  | "describe" => some (describe (← id) (← text))
  | "run" => some (runScript (← id) (j.fieldAs? "loco" LocoId.ofMention?))
  | "trigger" => some (trigger (← j.fieldAs? "event" Json.asString))
  | "pause" => some (pause (← pid))
  | "resume" => some (resume (← pid))
  | "stop" => some (stop (← pid))
  | _ => none

/-- The operations on the hardware, by name. -/
def onHardware? (j : Json) (name : String) : Option Operation := do
  let device := j.fieldAs? "device" Device.ofJson?
  match name with
  | "hw" =>
    match ← j.fieldAs? "call" DriverCall.ofJson? with
    | .request r => some (request r)
    | .close => none
  | "select_driver" =>
    some (selectDriver (← j.fieldAs? "driver" Json.asString) (j.fieldAs? "address" Json.asString))
  | "select_device" => some (selectDevice (← device))
  | "switch" => some (switchTo (← device) (← Attempt.ofJson? j))
  | _ => none

/-- An operation from a record. -/
def ofJson? (j : Json) : Option Operation := do
  let name ← j.fieldAs? "do" Json.asString
  (((onLayout? j name).or (onLocos? j name)).or (onScripts? j name)).or (onHardware? j name)

end Operation

/-! ## Replies and views -/

/-- What clients are shown of a layout, as a record. -/
def LayoutView.toJson (v : LayoutView) : Json :=
  .object [("turnouts", .ofList Turnout.toJson v.turnouts),
    ("destinations", .ofList Destination.toJson v.destinations),
    ("links", .ofList Link.toJson v.links), ("locked", v.locked.toJson)]

/-- A route with its number as a record. -/
def Route.numbered (id : RouteId) (r : Route) : Json :=
  .object [("id", .ofNat id), ("route", r.toJson)]

/-- The data of a reply; null where there is nothing to tell. -/
def Reply.data : Reply → Json
  | done => .null
  | route id r => r.numbered id
  | components c => c.toJson
  | loco l => l.toJson
  | direction d => d.toJson
  | power on => .bool on
  | count n => .ofNat n
  | ids scripts => .ofList Json.ofInt scripts
  | started pid => .ofOption Pid.toJson pid
  | replayed text => .ofOption Json.string text
  | began b _ => .bool b
  | failed _ => .null

namespace Controller

/-- The live runs as records. -/
def entriesJson (c : Controller) : Json := .ofList RunEntry.toJson c.entries

/-- The scripts as records. -/
def summariesJson (c : Controller) : Json := .ofList ScriptSummary.toJson c.catalog.summaries

/-- The locos as records. -/
def locosJson (c : Controller) : Json := .ofList Loco.toJson c.roster.all

/-- The adapter, and what can be chosen. -/
def hardwareJson (c : Controller) : Json :=
  .object [("active", c.adapter.view.toJson), ("drivers", .ofList Json.string Adapter.drivers),
    ("devices", .ofList Device.toJson c.adapter.allDevices)]

/-- The state that a client needs when it begins. -/
def stateJson (c : Controller) : Json :=
  .object [("hardware", c.adapter.view.toJson), ("trackPower", .bool c.power),
    ("locos", c.locosJson), ("running", c.entriesJson)]

/-- The routes that are set, as records with their numbers. -/
def routesJson (c : Controller) : Json :=
  .array (c.interlocking.routes.rows.map fun (id, r) => r.numbered id)

end Controller

end Signalbox
