import Signalbox.Layout.TurnoutState
import Signalbox.Loco.Direction
import Signalbox.Text.Integer

/-
  Signalbox/Hardware/Request.lean --- what is asked of the hardware.

  There are five requests.  A driver carries one out or says why not; a driver is
  also closed once, when another takes its place.
-/

set_option autoImplicit false

namespace Signalbox

/-- A request to the hardware. -/
inductive Request where
  | speed (address speed : Nat) (direction : Direction)
  | emergencyStop (address : Nat)
  | power (on : Bool)
  | turnout (id : Int) (state : TurnoutState)
  | function (address number : Nat) (on : Bool)
  deriving DecidableEq, Repr

/-- What reaches a driver: a request, or the call that closes it. -/
inductive DriverCall where
  | request (r : Request)
  | close
  deriving DecidableEq, Repr

/-- The sorts of calls, each of which a driver may fail at. -/
inductive CallKind where
  | speed
  | emergencyStop
  | power
  | turnout
  | function
  | close
  deriving DecidableEq, Repr

/-- The sort of a call. -/
def DriverCall.kind : DriverCall → CallKind
  | request (.speed _ _ _) => .speed
  | request (.emergencyStop _) => .emergencyStop
  | request (.power _) => .power
  | request (.turnout _ _) => .turnout
  | request (.function _ _ _) => .function
  | close => .close

/-- Why a driver fails. -/
inductive DriverError where
  /-- The connection failed, for the reason that the text gives. -/
  | io (reason : String)
  /-- The device did not announce itself in time. -/
  | noResponse (milliseconds : Nat)
  /-- The device hung up. -/
  | closed
  /-- There is no working driver. -/
  | unavailable
  deriving DecidableEq, Repr

/-- The wording of the error. -/
def DriverError.message : DriverError → String
  | io reason => "Device I/O error: " ++ reason
  | noResponse milliseconds => "No response from device after " ++ Text.ofNat milliseconds ++ "ms"
  | closed => "Device connection closed"
  | unavailable => "Hardware adapter unavailable"

end Signalbox
