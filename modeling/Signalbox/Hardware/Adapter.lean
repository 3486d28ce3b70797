import Signalbox.Hardware.Driver
import Signalbox.Hardware.View

/-
  Signalbox/Hardware/Adapter.lean --- the one driver that requests go to.

  The adapter has a driver at any time.  Switching closes it, but it stays until
  the next one is up; requests wait meanwhile.  Switches are counted: when a driver
  comes up and another switch has begun since, it is too late and is closed, and a
  failure that comes too late is not even told.
-/

set_option autoImplicit false

namespace Signalbox

/-- The adapter: its driver, the device behind it, what the driver or the last failure
says, the switch it is at, the status and how often that was set, the devices to choose
from, and what comes of connecting to an address. -/
structure Adapter where
  driver : Driver
  device : Device
  message : String
  generation : Nat
  status : HardwareStatus
  changes : Nat
  devices : List Device
  connect : String → Attempt

namespace Adapter

/-- An adapter that has a driver from the start. -/
def ofDriver (kind : DriverKind) (devices : List Device) (connect : String → Attempt) : Adapter :=
  { driver := ⟨kind, 0⟩
    device := .virtual
    message := kind.message
    generation := 0
    status := .available
    changes := 0
    devices := devices
    connect := connect }

/-- The drivers to choose from. -/
def drivers : List String := [virtualDriver, stationDriver]

/-- The devices to choose from, the virtual one first. -/
def allDevices (a : Adapter) : List Device := .virtual :: a.devices

/-- What clients are told. -/
def view (a : Adapter) : HardwareView := ⟨a.driver.kind.name, a.device, a.status, a.message⟩

/-- The adapter in a status. -/
def withStatus (a : Adapter) (status : HardwareStatus) : Adapter :=
  { a with status := status, changes := a.changes + 1 }

/-! ## Choosing a device -/

/-- The device that a driver's name and an address stand for; an unknown driver stands for
the virtual device. -/
def deviceFor (driver : String) (address : Option String) : Device :=
  if driver = stationDriver then
    match address with
    | some address => .station address address
    | none => .virtual
  else .virtual

/-- The device to switch to and the way to bring it up: a command station with an address
is connected to, anything else is the virtual device. -/
def attemptFor (a : Adapter) (d : Device) : Device × Attempt :=
  if d.driver = stationDriver then
    match d.address with
    | some address => (d, a.connect address)
    | none => (.virtual, .virtual)
  else (.virtual, .virtual)

/-! ## Switching -/

/-- The adapter with a switch to a device begun. -/
def beginSwitch (a : Adapter) (d : Device) : Adapter :=
  withStatus { a with generation := a.generation + 1, message := "Connecting to " ++ d.name }
    .switching

/-- The adapter with the driver of a switch in place, unless that is too late. -/
def install? (a : Adapter) (generation : Nat) (d : Device) (kind : DriverKind) : Option Adapter :=
  if a.generation = generation then
    some (withStatus { a with driver := ⟨kind, generation⟩, device := d, message := kind.message }
      .available)
  else none

/-- The adapter with a switch failed, unless that is too late. -/
def fail? (a : Adapter) (generation : Nat) (e : DriverError) : Option Adapter :=
  if a.generation = generation then some (withStatus { a with message := e.message } .unavailable)
  else none

end Adapter

end Signalbox
