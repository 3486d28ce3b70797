import Signalbox.Hardware.Device
import Signalbox.Hardware.Station
import Signalbox.Hardware.Virtual

/-
  Signalbox/Hardware/Driver.lean --- drivers, and how they are brought up.

  A driver is the virtual one, one that only takes note of its calls, or the
  connection to a command station.  Each driver has a number of its own, so that a
  call can be traced to the driver that got it.

  Bringing a driver up takes some time and ends with a driver or an error.
-/

set_option autoImplicit false

namespace Signalbox

/-- What a driver talks to. -/
inductive DriverKind where
  | virtual
  /-- Nothing: the driver takes note of its calls under a name. -/
  | noting (name : String)
  /-- A command station, which announced itself. -/
  | station (banner : String)
  deriving DecidableEq, Repr

/-- The name of the driver. -/
def DriverKind.name : DriverKind → String
  | virtual => virtualDriver
  | noting name => name
  | station _ => stationDriver

/-- What the driver says of itself. -/
def DriverKind.message : DriverKind → String
  | virtual => virtualMessage
  | noting name => readyMessage name
  | station banner => bannerText banner

/-- A driver that was brought up. -/
structure Driver where
  kind : DriverKind
  serial : Nat
  deriving DecidableEq, Repr

/-- A call that a driver got. -/
structure DriverRecord where
  driver : Driver
  call : DriverCall
  deriving DecidableEq, Repr

/-- What the call wrote to a command station. -/
def DriverRecord.packet? (r : DriverRecord) : Option String :=
  match r.driver.kind, r.call with
  | .station _, .request q => some q.packet
  | _, _ => none

/-- Bringing a driver up: how many milliseconds it takes, and how it ends. -/
structure Attempt where
  after : Nat
  result : Except DriverError DriverKind

namespace Attempt

/-- Bringing up the virtual driver takes no time. -/
def virtual : Attempt := ⟨0, .ok .virtual⟩

/-- Connecting to a command station, by how it greets. -/
def ofGreeting (g : Greeting) : Attempt := ⟨g.moment, g.result.map fun l => .station l.banner⟩

end Attempt

end Signalbox
