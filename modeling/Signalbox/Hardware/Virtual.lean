import Signalbox.Hardware.Request

/-
  Signalbox/Hardware/Virtual.lean --- the driver without hardware behind it.

  It carries out every request by writing a line to the log.
-/

set_option autoImplicit false

namespace Signalbox

/-- What the driver says of itself. -/
def virtualMessage : String := "Virtual driver ready"

/-- What a driver says that only takes note of its calls. -/
def readyMessage (name : String) : String := name ++ " driver ready"

/-- A truth value in words. -/
def truthText (b : Bool) : String := if b then "true" else "false"

/-- The line that a call writes to the log. -/
def DriverCall.virtualLog : DriverCall → String
  | request (.speed address speed direction) =>
    "SetSpeed => " ++ Text.ofNat address ++ " - " ++ Text.ofNat speed ++ " - "
      ++ Text.ofInt direction.code
  | request (.emergencyStop address) => "EStop => " ++ Text.ofNat address
  | request (.power on) => "TrackPower => " ++ truthText on
  | request (.turnout id state) =>
    "SetTurnout => " ++ Text.ofInt id ++ " - " ++ Text.ofNat state.code
  | request (.function address number on) =>
    "SetFunction => " ++ Text.ofNat address ++ " - " ++ Text.ofNat number ++ " - "
      ++ truthText on
  | close => "Virtual driver closing"

end Signalbox
