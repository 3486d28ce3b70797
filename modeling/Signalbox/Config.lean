import Signalbox.Hardware.Device
import Signalbox.Loco.Basic
import Signalbox.Text.Utf8
import Signalbox.Json.Writer

/-
  Signalbox/Config.lean --- the configuration of a controller.

  A configuration has a section for each service.  Every key has a default, so a
  document names only what it changes; a section given twice, a key of the wrong
  shape and a name that is too long are refused.

  Names for the message broker are short: at most 64 bytes.  A topic is at most 128
  bytes, put together from the topic prefix, a slash and the name of the event.
-/

set_option autoImplicit false

namespace Signalbox

/-! ## Short texts -/

/-- The most bytes of a short name. -/
def shortNameSize : Nat := 64

/-- The most bytes of a topic. -/
def topicSize : Nat := 128

/-- The longest leading part of a text with at most so many bytes. -/
def bounded (capacity : Nat) (s : String) : String := String.ofList (Text.fitting capacity s.toList)

/-- The number of bytes of a text. -/
def byteSize (s : String) : Nat := Text.utf8Size s.toList

/-- Appends a piece if it fits as a whole. -/
def appendFitting (capacity : Nat) (s piece : String) : String :=
  if byteSize s + byteSize piece ≤ capacity then s ++ piece else s

/-! ## Sections -/

/-- The web server. -/
structure WebConfig where
  enabled : Bool
  port : Nat
  bindAddress : String
  corsPermissive : Bool
  deriving DecidableEq, Repr

/-- The message broker. -/
structure MqttConfig where
  enabled : Bool
  brokerHost : String
  brokerPort : Nat
  clientId : String
  topicPrefix : String
  keepAliveSeconds : Nat
  deriving DecidableEq, Repr

/-- The command station. -/
structure HardwareConfig where
  driver : String
  address : Option String
  handshakeTimeout : Nat
  devices : List Device
  deriving DecidableEq, Repr

/-- A configuration. -/
structure Config where
  web : WebConfig
  mqtt : MqttConfig
  hardware : HardwareConfig
  storagePath : Option String
  defaultSync : SyncLevel
  logFilter : String
  deriving DecidableEq, Repr

namespace WebConfig

/-- The web server as it is without a configuration. -/
def default : WebConfig := ⟨true, 3001, "0.0.0.0", true⟩

/-- Where the web server listens. -/
def socketAddress (w : WebConfig) : String := w.bindAddress ++ ":" ++ Text.ofNat w.port

end WebConfig

namespace MqttConfig

/-- The message broker as it is without a configuration. -/
def default : MqttConfig := ⟨false, "localhost", 1883, "rs-trainlink", "trainlink", 30⟩

/-- The broker with another client id, cut to a short name. -/
def withClientId (m : MqttConfig) (id : String) : MqttConfig :=
  { m with clientId := bounded shortNameSize id }

/-- The broker with another topic prefix, cut to a short name. -/
def withTopicPrefix (m : MqttConfig) (text : String) : MqttConfig :=
  { m with topicPrefix := bounded shortNameSize text }

/-- The topic under the prefix; a piece that does not fit is left out. -/
def topic (m : MqttConfig) (name : String) : String :=
  let pieces := [m.topicPrefix, "/", name]
  pieces.foldl (appendFitting topicSize) ""

end MqttConfig

/-- The command station as it is without a configuration. -/
def HardwareConfig.default : HardwareConfig := ⟨virtualDriver, none, 5000, []⟩

/-- A controller without a configuration. -/
def Config.default : Config := ⟨.default, .default, .default, none, .all, "info"⟩

/-! ## Documents -/

/-- A short name; a longer text is refused. -/
def asShortName (j : Json) : Option String :=
  j.asString.filter fun s => byteSize s ≤ shortNameSize

namespace WebConfig

/-- The web section as a record. -/
def toJson (w : WebConfig) : Json :=
  .object [("enabled", .bool w.enabled), ("port", .ofNat w.port),
    ("bindAddress", .string w.bindAddress), ("corsPermissive", .bool w.corsPermissive)]

/-- What is read of the web section. -/
def form : Json.Form := .flat ["enabled", "port", "bindAddress", "corsPermissive"]

/-- The web section from a record. -/
def ofJson? (j : Json) : Option WebConfig := do
  let r ← j.asFields form.names
  let enabled ← r.withDefault "enabled" default.enabled Json.asBool
  let port ← r.withDefault "port" default.port (Json.asWord maxWord16)
  let bindAddress ← r.withDefault "bindAddress" default.bindAddress Json.asString
  let corsPermissive ← r.withDefault "corsPermissive" default.corsPermissive Json.asBool
  some ⟨enabled, port, bindAddress, corsPermissive⟩

end WebConfig

namespace MqttConfig

/-- The broker section as a record. -/
def toJson (m : MqttConfig) : Json :=
  .object [("enabled", .bool m.enabled), ("brokerHost", .string m.brokerHost),
    ("brokerPort", .ofNat m.brokerPort), ("clientId", .string m.clientId),
    ("topicPrefix", .string m.topicPrefix), ("keepAliveSecs", .ofNat m.keepAliveSeconds)]

/-- What is read of the broker section. -/
def form : Json.Form :=
  .flat ["enabled", "brokerHost", "brokerPort", "clientId", "topicPrefix", "keepAliveSecs"]

/-- The broker section from a record. -/
def ofJson? (j : Json) : Option MqttConfig := do
  let r ← j.asFields form.names
  let enabled ← r.withDefault "enabled" default.enabled Json.asBool
  let brokerHost ← r.withDefault "brokerHost" default.brokerHost Json.asString
  let brokerPort ← r.withDefault "brokerPort" default.brokerPort (Json.asWord maxWord16)
  let clientId ← r.withDefault "clientId" default.clientId asShortName
  let topicPrefix ← r.withDefault "topicPrefix" default.topicPrefix asShortName
  let keepAlive ← r.withDefault "keepAliveSecs" default.keepAliveSeconds (Json.asWord maxWord16)
  some ⟨enabled, brokerHost, brokerPort, clientId, topicPrefix, keepAlive⟩

end MqttConfig

namespace HardwareConfig

/-- The hardware section as a record. -/
def toJson (h : HardwareConfig) : Json :=
  .object [("driver", .string h.driver), ("address", .ofOption Json.string h.address),
    ("handshakeTimeoutMs", .ofNat h.handshakeTimeout), ("devices", .ofList Device.toJson h.devices)]

/-- What is read of the hardware section. -/
def form : Json.Form :=
  .record [("driver", .whole), ("address", .whole), ("handshakeTimeoutMs", .whole),
    ("devices", .list Device.form)]

/-- The hardware section from a record. -/
def ofJson? (j : Json) : Option HardwareConfig := do
  let r ← j.asFields form.names
  let driver ← r.withDefault "driver" default.driver Json.asString
  let address ← r.optional "address" Json.asString
  let timeout ← r.withDefault "handshakeTimeoutMs" default.handshakeTimeout (Json.asWord maxWord64)
  let devices ← r.withDefault "devices" [] (Json.asList Device.ofJson?)
  some ⟨driver, address, timeout, devices⟩

end HardwareConfig

namespace Config

/-- What is read of the storage section. -/
def storageForm : Json.Form := .flat ["path"]

/-- The storage section from a record: the path of the store's file. -/
def storageOf? (j : Json) : Option (Option String) := do
  let r ← j.asFields storageForm.names
  r.optional "path" Json.asString

/-- What is read of the automation section. -/
def automationForm : Json.Form := .flat ["defaultSync"]

/-- The automation section from a record: the sync level of locos that scripts drive. -/
def automationOf? (j : Json) : Option SyncLevel := do
  let r ← j.asFields automationForm.names
  r.withDefault "defaultSync" .all SyncLevel.ofJson?

/-- The configuration as a document. -/
def toJson (c : Config) : Json :=
  .object [("web", c.web.toJson), ("mqtt", c.mqtt.toJson), ("hardware", c.hardware.toJson),
    ("storage", .object [("path", .ofOption Json.string c.storagePath)]),
    ("automation", .object [("defaultSync", c.defaultSync.toJson)]),
    ("logFilter", .string c.logFilter)]

/-- What is read of a configuration. -/
def form : Json.Form :=
  .record [("web", WebConfig.form), ("mqtt", MqttConfig.form), ("hardware", HardwareConfig.form),
    ("storage", storageForm), ("automation", automationForm), ("logFilter", .whole)]

/-- The configuration of a document. -/
def ofJson? (j : Json) : Option Config := do
  let r ← j.asFields form.names
  let web ← r.withDefault "web" .default WebConfig.ofJson?
  let mqtt ← r.withDefault "mqtt" .default MqttConfig.ofJson?
  let hardware ← r.withDefault "hardware" .default HardwareConfig.ofJson?
  let storagePath ← r.withDefault "storage" none storageOf?
  let defaultSync ← r.withDefault "automation" .all automationOf?
  let logFilter ← r.withDefault "logFilter" default.logFilter Json.asString
  some ⟨web, mqtt, hardware, storagePath, defaultSync, logFilter⟩

/-- The configuration that a text gives. -/
def read? (text : String) : Option Config := (Json.readAs form text).bind ofJson?

end Config

end Signalbox
