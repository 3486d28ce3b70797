import Signalbox.Loco.Direction
import Signalbox.Json.Decode

/-
  Signalbox/Loco/Basic.lean --- locos, and how they are named and followed.

  A loco has a name and an address, a speed from 0 to 126, a direction and
  twenty-nine functions that are on or off, kept as the bits of a word.  It is
  named by its address or its name.  A change to a loco reaches the clients, the
  hardware, both or neither; that is its sync level.
-/

set_option autoImplicit false

namespace Signalbox

/-- The highest speed step. -/
def maxSpeed : Nat := 126

/-- The highest function number. -/
def maxFunction : Nat := 28

/-- The highest address. -/
def maxAddress : Nat := 10293

/-! ## Locos -/

/-- A loco. -/
structure Loco where
  name : String
  address : Nat
  speed : Nat
  direction : Direction
  functions : UInt32
  deriving DecidableEq, Repr

/-- What is saved of a loco. -/
structure LocoRecord where
  name : String
  address : Nat
  deriving DecidableEq, Repr

namespace Loco

/-- A loco that stands still with every function off. -/
def standing (name : String) (address : Nat) : Loco := ⟨name, address, 0, .stopped, 0⟩

/-- What is saved of the loco. -/
def record (l : Loco) : LocoRecord := ⟨l.name, l.address⟩

/-- The word with one bit. -/
def bit (n : Nat) : UInt32 := (1 : UInt32) <<< UInt32.ofNat n

/-- Whether a function is on; a number beyond the highest is off. -/
def function (l : Loco) (n : Nat) : Bool := n ≤ maxFunction && l.functions &&& bit n != 0

/-- The loco with a function switched; a number beyond the highest changes nothing. -/
def setFunction (l : Loco) (n : Nat) (on : Bool) : Loco :=
  if n ≤ maxFunction then
    { l with functions := if on then l.functions ||| bit n else l.functions &&& ~~~(bit n) }
  else l

/-- The loco at another speed, no higher than the highest. -/
def withSpeed (l : Loco) (speed : Nat) : Loco := { l with speed := min speed maxSpeed }

/-- The loco in another direction. -/
def withDirection (l : Loco) (direction : Direction) : Loco := { l with direction := direction }

/-- The loco in another direction and at another speed. -/
def driven (l : Loco) (direction : Direction) (speed : Nat) : Loco :=
  (l.withDirection direction).withSpeed speed

end Loco

/-! ## Naming a loco -/

/-- The address or the name of a loco. -/
inductive LocoId where
  | address (n : Nat)
  | name (s : String)
  deriving DecidableEq, Repr

namespace LocoId

/-- The loco that a person's text means: an address if it is one, else a name. -/
def ofText (s : String) : LocoId :=
  match Text.word? maxWord16 (Text.trim s.toList) with
  | some n => address n
  | none => name s

/-- The address or name as text. -/
def text : LocoId → String
  | address n => Text.ofNat n
  | name s => s

end LocoId

/-! ## Sync levels -/

/-- Who follows a change to a loco. -/
inductive SyncLevel where
  | none
  | hardwareOnly
  | clientsOnly
  | all
  deriving DecidableEq, Repr

namespace SyncLevel

/-- The name of the level. -/
def levelName : SyncLevel → String
  | none => "none"
  | hardwareOnly => "serialOnly"
  | clientsOnly => "clientOnly"
  | all => "all"

/-- The level with a name. -/
def ofName? (s : String) : Option SyncLevel :=
  if s = "none" then some none
  else if s = "serialOnly" then some hardwareOnly
  else if s = "clientOnly" then some clientsOnly
  else if s = "all" then some all
  else Option.none

/-- Whether clients hear of the change. -/
def reachesClients : SyncLevel → Bool
  | clientsOnly | all => true
  | _ => false

/-- Whether the hardware is told. -/
def reachesHardware : SyncLevel → Bool
  | hardwareOnly | all => true
  | _ => false

end SyncLevel

/-! ## Documents -/

/-- A direction by name. -/
def Direction.toJson (d : Direction) : Json := .string d.name

/-- A direction from its name. -/
def Direction.ofJson? (j : Json) : Option Direction := j.asName Direction.ofName?

/-- A sync level by name. -/
def SyncLevel.toJson (s : SyncLevel) : Json := .string s.levelName

/-- A sync level from its name. -/
def SyncLevel.ofJson? (j : Json) : Option SyncLevel := j.asName SyncLevel.ofName?

/-- An address as a number, a name as a string. -/
def LocoId.toJson : LocoId → Json
  | address n => .ofNat n
  | name s => .string s

/-- An address or a name. -/
def LocoId.ofJson? : Json → Option LocoId
  | .number n => (n.word? maxWord16).map address
  | .string s => some (name s)
  | _ => none

/-- A loco as a record. -/
def Loco.toJson (l : Loco) : Json :=
  .object [("name", .string l.name), ("address", .ofNat l.address), ("speed", .ofNat l.speed),
    ("direction", l.direction.toJson), ("functions", .ofNat l.functions.toNat)]

/-- A loco from a record. -/
def Loco.ofJson? (j : Json) : Option Loco := do
  let r ← j.asFields ["name", "address", "speed", "direction", "functions"]
  let name ← r.required "name" Json.asString
  let address ← r.required "address" (Json.asWord maxWord16)
  let speed ← r.required "speed" (Json.asWord maxWord8)
  let direction ← r.required "direction" Direction.ofJson?
  let functions ← r.required "functions" (Json.asWord maxWord32)
  some ⟨name, address, speed, direction, UInt32.ofNat functions⟩

/-- What is saved of a loco, as a record. -/
def LocoRecord.toJson (r : LocoRecord) : Json :=
  .object [("name", .string r.name), ("address", .ofNat r.address)]

/-- What is read of a saved loco. -/
def LocoRecord.form : Json.Form := .flat ["name", "address"]

/-- What is saved of a loco, from a record. -/
def LocoRecord.ofJson? (j : Json) : Option LocoRecord := do
  let r ← j.asFields LocoRecord.form.names
  let name ← r.required "name" Json.asString
  let address ← r.required "address" (Json.asWord maxWord16)
  some ⟨name, address⟩

end Signalbox
