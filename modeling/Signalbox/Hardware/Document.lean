import Signalbox.Hardware.Request
import Signalbox.Json.Decode

/-
  Signalbox/Hardware/Document.lean --- driver calls as JSON.

  A call is an array that begins with its name.
-/

set_option autoImplicit false

namespace Signalbox

namespace DriverCall

/-- The items of the array that a call is. -/
def items : DriverCall → List Json
  | request (.speed address step d) =>
    [.string "speed", .ofNat address, .ofNat step, .string d.name]
  | request (.emergencyStop address) => [.string "estop", .ofNat address]
  | request (.power on) => [.string "power", .bool on]
  | request (.turnout id state) => [.string "turnout", .ofInt id, .string state.name]
  | request (.function address number on) =>
    [.string "function", .ofNat address, .ofNat number, .bool on]
  | close => [.string "close"]

/-- The name of a call. -/
def name (call : DriverCall) : String := (call.items.head?.bind Json.asString).getD ""

/-- A call from an array. -/
def ofJson? : Json → Option DriverCall
  | .array [.string "speed", address, step, d] => do
    let address ← address.asWord maxWord16
    let step ← step.asWord maxWord8
    let d ← d.asName Direction.ofName?
    some (.request (.speed address step d))
  | .array [.string "estop", address] => do
    let address ← address.asWord maxWord16
    some (.request (.emergencyStop address))
  | .array [.string "power", .bool on] => some (.request (.power on))
  | .array [.string "turnout", id, state] => do
    let id ← id.asInt64
    let state ← state.asName TurnoutState.ofName?
    some (.request (.turnout id state))
  | .array [.string "function", address, number, .bool on] => do
    let address ← address.asWord maxWord16
    let number ← number.asWord maxWord8
    some (.request (.function address number on))
  | .array [.string "close"] => some .close
  | _ => none

end DriverCall

end Signalbox
