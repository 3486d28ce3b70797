import Signalbox.Hardware.Device

/-
  Signalbox/Hardware/View.lean --- what clients are told about the hardware.
-/

set_option autoImplicit false

namespace Signalbox

/-- Whether requests can be sent. -/
inductive HardwareStatus where
  /-- Requests are sent straight away. -/
  | available
  /-- A driver is being brought up, and requests wait. -/
  | switching
  /-- The last switch failed, and requests fail. -/
  | unavailable
  deriving DecidableEq, Repr

/-- The name of the status. -/
def HardwareStatus.name : HardwareStatus → String
  | available => "available"
  | switching => "switching"
  | unavailable => "unavailable"

/-- The active driver and device, the status, and what the driver or the last failure
says. -/
structure HardwareView where
  driver : String
  device : Device
  status : HardwareStatus
  message : String
  deriving DecidableEq, Repr

/-- The view as a record. -/
def HardwareView.toJson (v : HardwareView) : Json :=
  .object [("driver", .string v.driver), ("device", v.device.toJson),
    ("status", .string v.status.name), ("message", .string v.message)]

end Signalbox
