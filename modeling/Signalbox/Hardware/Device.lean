import Signalbox.Json.Decode

/-
  Signalbox/Hardware/Device.lean --- devices that an operator can select.

  A device has a name to show, the driver that talks to it, and for a station on
  the network an address.
-/

set_option autoImplicit false

namespace Signalbox

/-- The name of the driver without hardware behind it. -/
def virtualDriver : String := "Virtual"

/-- The name of the driver for command stations. -/
def stationDriver : String := "DCC-EX"

/-- A device. -/
structure Device where
  name : String
  driver : String
  address : Option String
  deriving DecidableEq, Repr

namespace Device

/-- The device without hardware behind it. -/
def virtual : Device := ⟨"Virtual Device", virtualDriver, none⟩

/-- A command station at an address. -/
def station (name address : String) : Device := ⟨name, stationDriver, some address⟩

/-- A device as a record; an absent address is left out. -/
def toJson (d : Device) : Json :=
  .object ([("name", .string d.name), ("driver", .string d.driver)]
    ++ (d.address.map fun a => ("address", Json.string a)).toList)

/-- What is read of a device. -/
def form : Json.Form := .flat ["name", "driver", "address"]

/-- A device from a record. -/
def ofJson? (j : Json) : Option Device := do
  let r ← j.asFields form.names
  let name ← r.required "name" Json.asString
  let driver ← r.required "driver" Json.asString
  let address ← r.optional "address" Json.asString
  some ⟨name, driver, address⟩

end Device

end Signalbox
