import Signalbox.Config

/-
  Signalbox/Config/Change.lean --- building a configuration step by step.

  Each change sets one key, or adds one device.  A name for the message broker is
  cut to a short name, so a built configuration is always one that its document
  reads back.
-/

set_option autoImplicit false

namespace Signalbox

/-- A change to a configuration. -/
inductive ConfigChange where
  | webEnabled (on : Bool)
  | webPort (port : Nat)
  | webBind (address : String)
  | webCors (permissive : Bool)
  | mqttEnabled (on : Bool)
  | mqttHost (host : String)
  | mqttPort (port : Nat)
  | mqttClient (id : String)
  | mqttPrefix (text : String)
  | driver (name : String) (address : Option String)
  | handshakeTimeout (milliseconds : Nat)
  | device (d : Device)
  | storagePath (path : String)
  | defaultSync (level : SyncLevel)
  | logFilter (filter : String)
  deriving DecidableEq, Repr

namespace ConfigChange

/-- The change that one value makes. -/
def ofValue {α : Type} (decode : Json → Option α) (change : α → ConfigChange) :
    List Json → Option ConfigChange
  | [v] => (decode v).map change
  | _ => none

/-- A driver by its name and perhaps an address. -/
def driverOf? : List Json → Option ConfigChange
  | name :: rest => do
    let name ← name.asString
    let address ← (rest.headD .null).asOption Json.asString
    some (driver name address)
  | [] => none

/-- The keys, and how the values for each are read. -/
def keys : List (String × (List Json → Option ConfigChange)) :=
  [("web.enabled", ofValue Json.asBool webEnabled),
   ("web.port", ofValue (Json.asWord maxWord16) webPort),
   ("web.bind", ofValue Json.asString webBind),
   ("web.cors", ofValue Json.asBool webCors),
   ("mqtt.enabled", ofValue Json.asBool mqttEnabled),
   ("mqtt.host", ofValue Json.asString mqttHost),
   ("mqtt.port", ofValue (Json.asWord maxWord16) mqttPort),
   ("mqtt.client", ofValue Json.asString mqttClient),
   ("mqtt.prefix", ofValue Json.asString mqttPrefix),
   ("hardware.driver", driverOf?),
   ("hardware.timeout", ofValue (Json.asWord maxWord64) handshakeTimeout),
   ("hardware.device", ofValue Device.ofJson? device),
   ("storage.path", ofValue Json.asString storagePath),
   ("automation.sync", ofValue SyncLevel.ofJson? defaultSync),
   ("log", ofValue Json.asString logFilter)]

/-- A change from an array, a key and the values for it. -/
def ofJson? : Json → Option ConfigChange
  | .array (.string key :: values) => (keys.lookup key).bind fun decode => decode values
  | _ => none

end ConfigChange

namespace Config

/-- The configuration after a change. -/
def apply (c : Config) : ConfigChange → Config
  | .webEnabled on => { c with web := { c.web with enabled := on } }
  | .webPort port => { c with web := { c.web with port := port } }
  | .webBind address => { c with web := { c.web with bindAddress := address } }
  | .webCors permissive => { c with web := { c.web with corsPermissive := permissive } }
  | .mqttEnabled on => { c with mqtt := { c.mqtt with enabled := on } }
  | .mqttHost host => { c with mqtt := { c.mqtt with brokerHost := host } }
  | .mqttPort port => { c with mqtt := { c.mqtt with brokerPort := port } }
  | .mqttClient id => { c with mqtt := c.mqtt.withClientId id }
  | .mqttPrefix text => { c with mqtt := c.mqtt.withTopicPrefix text }
  | .driver name address =>
    { c with hardware := { c.hardware with driver := name, address := address } }
  | .handshakeTimeout milliseconds =>
    { c with hardware := { c.hardware with handshakeTimeout := milliseconds } }
  | .device d => { c with hardware := { c.hardware with devices := c.hardware.devices ++ [d] } }
  | .storagePath path => { c with storagePath := some path }
  | .defaultSync level => { c with defaultSync := level }
  | .logFilter filter => { c with logFilter := filter }

/-- The default configuration after some changes. -/
def built (changes : List ConfigChange) : Config := changes.foldl apply default

end Config

end Signalbox
