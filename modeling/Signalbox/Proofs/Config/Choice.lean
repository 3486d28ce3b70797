import Signalbox.Config.Change
import Signalbox.Proofs.Config.Topics
import Signalbox.Proofs.Store.Documents

/-
  Signalbox/Proofs/Config/Choice.lean --- a document that gives some of the keys.

  A reader of records looks for each of its fields and takes the default for one that is
  not there.  So leaving out fields of a record leaves out their values, and no other:
  a document that gives some keys of a configuration is read as the configuration with
  these values and the default for every other key.  It takes numbers that fit their
  words and names that are short, and a configuration that is built has them.
-/

set_option autoImplicit false

namespace Signalbox

open Json (Form IsReadable ReadsBy IsWriter Fields formed?)

/-! ## Records without some of their fields -/

namespace Json

variable {keep : String → Bool} {fields : List (String × Json)} {names : List String}

/-- The fields that are kept. -/
def kept (keep : String → Bool) (fields : List (String × Json)) : List (String × Json) :=
  fields.filter fun field => keep field.1

/-- The object with the fields that are kept; any other value is kept whole. -/
def only (keep : String → Bool) : Json → Json
  | .object fields => .object (kept keep fields)
  | v => v

theorem forall_mem_kept {p : String × Json → Prop} (h : ∀ field ∈ fields, p field) :
    ∀ field ∈ kept keep fields, p field := fun field hfield => h field (List.mem_of_mem_filter hfield)

theorem noRepetition_iff : noRepetition names = true ↔ names.Nodup := by
  induction names with
  | nil => simp [noRepetition]
  | cons name names ih => simp [noRepetition, ih]

/-- Fields that are kept of a record are fields of it. -/
theorem asFields_kept (hnames : fields.map (·.1) = names) (honce : noRepetition names = true) :
    (Json.object (kept keep fields)).asFields names = some ⟨kept keep fields⟩ := by
  have hall : (kept keep fields).filter (fun field => names.contains field.1) =
      kept keep fields := by
    rw [List.filter_eq_self]
    apply forall_mem_kept
    intro field hfield
    rw [List.contains_iff_mem, ← hnames]
    exact List.mem_map_of_mem hfield
  have honce' : noRepetition ((kept keep fields).map (·.1)) = true := by
    rw [noRepetition_iff, ← hnames] at *
    exact honce.sublist (List.filter_sublist.map _)
  simp only [asFields, hall, honce', if_true]

theorem find?_kept (name : String) : Fields.find? ⟨kept keep fields⟩ name =
    if keep name then Fields.find? ⟨fields⟩ name else none := by
  induction fields with
  | nil =>
    split <;> rfl
  | cons field fields ih =>
    rw [kept, List.filter_cons, Fields.find?_cons]
    by_cases hname : field.1 = name
    · rw [hname, if_pos rfl]
      split
      · rw [Fields.find?_cons, if_pos hname]
      · rename_i hkeep
        rw [← kept, ih, if_neg hkeep]
    · rw [if_neg hname]
      split
      · rw [Fields.find?_cons, if_neg hname]
        exact ih
      · exact ih

/-- A field is read if it is kept, and has its default if it is not. -/
theorem withDefault_kept {α : Type} {name : String} {v : Json} {a default : α}
    {decode : Json → Option α} (hfind : Fields.find? ⟨fields⟩ name = some v)
    (hdecode : decode v = some a) :
    Fields.withDefault ⟨kept keep fields⟩ name default decode =
      some (if keep name then a else default) := by
  rw [Fields.withDefault, find?_kept, hfind]
  by_cases hkeep : keep name = true
  · rw [if_pos hkeep, if_pos hkeep]
    exact hdecode
  · rw [if_neg hkeep, if_neg hkeep]

/-- Reading a record goes on with the fields that are kept. -/
theorem bind_asFields_kept {β : Type} {b : β} {next : Fields → Option β}
    (hnames : fields.map (·.1) = names) (honce : noRepetition names = true)
    (hnext : next ⟨kept keep fields⟩ = some b) :
    ((Json.object (kept keep fields)).asFields names >>= next) = some b := by
  rw [asFields_kept hnames honce]
  exact hnext

/-- Reading a field goes on with its value if it is kept, else with the default. -/
theorem bind_withDefault_kept {α β : Type} {name : String} {v : Json} {a default : α} {b : β}
    {decode : Json → Option α} {next : α → Option β}
    (hfind : Fields.find? ⟨fields⟩ name = some v) (hdecode : decode v = some a)
    (hnext : next (if keep name then a else default) = some b) :
    (Fields.withDefault ⟨kept keep fields⟩ name default decode >>= next) = some b := by
  rw [withDefault_kept hfind hdecode]
  exact hnext

/-! ### Numbers and texts -/

variable {depth : Nat}

theorem isReadable_word64 {n : Nat} (h : n ≤ maxWord64) : IsReadable depth (.ofNat n) := by
  have hread : (Numeral.ofInt n).IsProper ∧ (Numeral.ofInt n).toBinary64.isSome :=
    ⟨Numeral.isProper_ofInt n, Numeral.isSome_toBinary64_ofInt h⟩
  cases depth <;> exact hread

theorem isReadable_bool (b : Bool) : IsReadable depth (.bool b) := by
  cases depth <;> trivial

theorem isReadable_ofOption (s : Option String) : IsReadable depth (.ofOption Json.string s) := by
  cases s <;> cases depth <;> trivial

theorem asOption_ofOption (s : Option String) :
    (Json.ofOption Json.string s).asOption Json.asString = some s := by
  cases s <;> rfl

/-- Fields of a record are read by the form that has their names. -/
theorem IsWriter.reads_flat {write : Nat → Json → List Char} (hw : IsWriter write) {d : Nat}
    (h : ∀ field ∈ fields, field.1 ∈ names ∧ IsReadable depth field.2) :
    ReadsBy write (fun fuel => formed? fuel (depth + 1) (.flat names)) d (.object fields) := by
  refine hw.reads_record fun field hfield => ?_
  obtain ⟨hname, hread⟩ := h field hfield
  exact ⟨.whole, lookup_flat hname, hw.reads_whole hread⟩

end Json

/-! ## Numbers that fit and names that are short -/

/-- The numbers of a configuration fit their words, and its short names are short. -/
structure Config.Fits (c : Config) : Prop where
  webPort : c.web.port ≤ maxWord16
  brokerPort : c.mqtt.brokerPort ≤ maxWord16
  keepAlive : c.mqtt.keepAliveSeconds ≤ maxWord16
  timeout : c.hardware.handshakeTimeout ≤ maxWord64
  clientId : byteSize c.mqtt.clientId ≤ shortNameSize
  topicPrefix : byteSize c.mqtt.topicPrefix ≤ shortNameSize

/-- The number that a change sets fits its word. -/
def ConfigChange.Fits : ConfigChange → Prop
  | webPort port => port ≤ maxWord16
  | mqttPort port => port ≤ maxWord16
  | handshakeTimeout milliseconds => milliseconds ≤ maxWord64
  | _ => True

namespace Config

theorem fits_default : default.Fits :=
  ⟨by decide, by decide, by decide, by decide, by decide, by decide⟩

/-- A change whose number fits keeps this; whatever its text is, a short name is cut. -/
theorem Fits.apply {c : Config} (h : c.Fits) {change : ConfigChange} (hchange : change.Fits) :
    (c.apply change).Fits := by
  obtain ⟨hweb, hbroker, hkeep, htimeout, hclient, htopic⟩ := h
  cases change with
  | webPort port => exact ⟨hchange, hbroker, hkeep, htimeout, hclient, htopic⟩
  | mqttPort port => exact ⟨hweb, hchange, hkeep, htimeout, hclient, htopic⟩
  | handshakeTimeout ms => exact ⟨hweb, hbroker, hkeep, hchange, hclient, htopic⟩
  | mqttClient id =>
    exact ⟨hweb, hbroker, hkeep, htimeout, byteSize_bounded_le shortNameSize id, htopic⟩
  | mqttPrefix text =>
    exact ⟨hweb, hbroker, hkeep, htimeout, hclient, byteSize_bounded_le shortNameSize text⟩
  | _ => exact ⟨hweb, hbroker, hkeep, htimeout, hclient, htopic⟩

theorem fits_built {changes : List ConfigChange} (h : ∀ change ∈ changes, change.Fits) :
    (built changes).Fits := by
  suffices hfrom : ∀ c : Config, c.Fits → (changes.foldl Config.apply c).Fits from
    hfrom default fits_default
  induction changes with
  | nil => exact fun _ hc => hc
  | cons change changes ih =>
    intro c hc
    exact ih (fun next hnext => h next (List.mem_cons_of_mem _ hnext)) _
      (hc.apply (h change List.mem_cons_self))

end Config

/-! ## The sections -/

variable {keep : String → Bool}

namespace WebConfig

/-- The section with the keys that are kept, and the default for the others. -/
def only (w : WebConfig) (keep : String → Bool) : WebConfig where
  enabled := if keep "enabled" then w.enabled else default.enabled
  port := if keep "port" then w.port else default.port
  bindAddress := if keep "bindAddress" then w.bindAddress else default.bindAddress
  corsPermissive := if keep "corsPermissive" then w.corsPermissive else default.corsPermissive

theorem ofJson?_only {w : WebConfig} (hport : w.port ≤ maxWord16) (keep : String → Bool) :
    ofJson? (w.toJson.only keep) = some (w.only keep) := by
  refine Json.bind_asFields_kept rfl rfl ?_
  refine Json.bind_withDefault_kept rfl rfl ?_
  refine Json.bind_withDefault_kept rfl (Json.asWord_ofNat hport) ?_
  refine Json.bind_withDefault_kept rfl rfl ?_
  refine Json.bind_withDefault_kept rfl rfl ?_
  rfl

theorem reads_only {write : Nat → Json → List Char} (hw : IsWriter write) {w : WebConfig}
    (hport : w.port ≤ maxWord16) (keep : String → Bool) (depth d : Nat) :
    ReadsBy write (fun fuel => formed? fuel (depth + 1) form) d (w.toJson.only keep) := by
  apply hw.reads_flat
  apply Json.forall_mem_kept
  simp only [List.forall_mem_cons]
  exact ⟨⟨by decide, Json.isReadable_bool _⟩,
    ⟨by decide, Json.isReadable_word64 (hport.trans (by decide))⟩,
    ⟨by decide, Json.isReadable_string _⟩, ⟨by decide, Json.isReadable_bool _⟩, by simp⟩

end WebConfig

namespace MqttConfig

/-- The section with the keys that are kept, and the default for the others. -/
def only (m : MqttConfig) (keep : String → Bool) : MqttConfig where
  enabled := if keep "enabled" then m.enabled else default.enabled
  brokerHost := if keep "brokerHost" then m.brokerHost else default.brokerHost
  brokerPort := if keep "brokerPort" then m.brokerPort else default.brokerPort
  clientId := if keep "clientId" then m.clientId else default.clientId
  topicPrefix := if keep "topicPrefix" then m.topicPrefix else default.topicPrefix
  keepAliveSeconds := if keep "keepAliveSecs" then m.keepAliveSeconds else default.keepAliveSeconds

theorem asShortName_string {s : String} (h : byteSize s ≤ shortNameSize) :
    asShortName (.string s) = some s :=
  Option.filter_some_pos (decide_eq_true h)

variable {m : MqttConfig}

theorem ofJson?_only (hport : m.brokerPort ≤ maxWord16) (halive : m.keepAliveSeconds ≤ maxWord16)
    (hclient : byteSize m.clientId ≤ shortNameSize)
    (htopic : byteSize m.topicPrefix ≤ shortNameSize) (keep : String → Bool) :
    ofJson? (m.toJson.only keep) = some (m.only keep) := by
  refine Json.bind_asFields_kept rfl rfl ?_
  refine Json.bind_withDefault_kept rfl rfl ?_
  refine Json.bind_withDefault_kept rfl rfl ?_
  refine Json.bind_withDefault_kept rfl (Json.asWord_ofNat hport) ?_
  refine Json.bind_withDefault_kept rfl (asShortName_string hclient) ?_
  refine Json.bind_withDefault_kept rfl (asShortName_string htopic) ?_
  refine Json.bind_withDefault_kept rfl (Json.asWord_ofNat halive) ?_
  rfl

theorem reads_only {write : Nat → Json → List Char} (hw : IsWriter write)
    (hport : m.brokerPort ≤ maxWord16) (halive : m.keepAliveSeconds ≤ maxWord16)
    (keep : String → Bool) (depth d : Nat) :
    ReadsBy write (fun fuel => formed? fuel (depth + 1) form) d (m.toJson.only keep) := by
  apply hw.reads_flat
  apply Json.forall_mem_kept
  simp only [List.forall_mem_cons]
  exact ⟨⟨by decide, Json.isReadable_bool _⟩, ⟨by decide, Json.isReadable_string _⟩,
    ⟨by decide, Json.isReadable_word64 (hport.trans (by decide))⟩,
    ⟨by decide, Json.isReadable_string _⟩, ⟨by decide, Json.isReadable_string _⟩,
    ⟨by decide, Json.isReadable_word64 (halive.trans (by decide))⟩, by simp⟩

end MqttConfig

namespace Device

theorem ofJson?_toJson (d : Device) : ofJson? d.toJson = some d := by
  obtain ⟨name, driver, address⟩ := d
  cases address <;> rfl

theorem reads_toJson {write : Nat → Json → List Char} (hw : IsWriter write) (dev : Device)
    (depth d : Nat) :
    ReadsBy write (fun fuel => formed? fuel (depth + 1) form) d dev.toJson := by
  apply hw.reads_flat
  obtain ⟨name, driver, address⟩ := dev
  cases address with
  | none => simp [Json.isReadable_string]
  | some a => simp [Json.isReadable_string]

end Device

namespace HardwareConfig

/-- The section with the keys that are kept, and the default for the others. -/
def only (h : HardwareConfig) (keep : String → Bool) : HardwareConfig where
  driver := if keep "driver" then h.driver else default.driver
  address := if keep "address" then h.address else default.address
  handshakeTimeout :=
    if keep "handshakeTimeoutMs" then h.handshakeTimeout else default.handshakeTimeout
  devices := if keep "devices" then h.devices else default.devices

variable {h : HardwareConfig}

theorem ofJson?_only (htimeout : h.handshakeTimeout ≤ maxWord64) (keep : String → Bool) :
    ofJson? (h.toJson.only keep) = some (h.only keep) := by
  have hdevices : (Json.ofList Device.toJson h.devices).asList Device.ofJson? = some h.devices := by
    have hdevice : ∀ d ∈ h.devices, Device.ofJson? (Device.toJson d) = some d :=
      fun d _ => d.ofJson?_toJson
    have hmap := Json.mapM_map_eq_some hdevice
    rwa [List.map_id'] at hmap
  refine Json.bind_asFields_kept rfl rfl ?_
  refine Json.bind_withDefault_kept rfl rfl ?_
  refine Json.bind_withDefault_kept rfl (Json.asOption_ofOption h.address) ?_
  refine Json.bind_withDefault_kept rfl (Json.asWord_ofNat htimeout) ?_
  refine Json.bind_withDefault_kept rfl hdevices ?_
  rfl

theorem reads_only {write : Nat → Json → List Char} (hw : IsWriter write)
    (htimeout : h.handshakeTimeout ≤ maxWord64) (keep : String → Bool) (depth d : Nat) :
    ReadsBy write (fun fuel => formed? fuel (depth + 3) form) d (h.toJson.only keep) := by
  have hwhole {v : Json} (hv : IsReadable (depth + 2) v) :
      ReadsBy write (fun fuel => formed? fuel (depth + 2) .whole) (d + 1) v := hw.reads_whole hv
  have hdevices : ReadsBy write (fun fuel => formed? fuel (depth + 2) (.list Device.form)) (d + 1)
      (.ofList Device.toJson h.devices) := by
    refine hw.reads_list fun item hitem => ?_
    obtain ⟨dev, -, rfl⟩ := List.mem_map.mp hitem
    exact dev.reads_toJson hw depth _
  refine hw.reads_record (Json.forall_mem_kept ?_)
  simp only [List.forall_mem_cons]
  exact ⟨⟨_, rfl, hwhole (Json.isReadable_string _)⟩,
    ⟨_, rfl, hwhole (Json.isReadable_ofOption _)⟩,
    ⟨_, rfl, hwhole (Json.isReadable_word64 htimeout)⟩, ⟨_, rfl, hdevices⟩, by simp⟩

end HardwareConfig

/-! ## Configurations -/

/-- Which keys a document gives: sections, and in every section keys. -/
structure KeyChoice where
  sections : String → Bool
  keys : String → String → Bool

/-- Every section and every key. -/
def KeyChoice.all : KeyChoice := ⟨fun _ => true, fun _ _ => true⟩

namespace Config

variable {c : Config} (k : KeyChoice)

/-- The storage section as a record. -/
def storageJson (c : Config) : Json := .object [("path", .ofOption Json.string c.storagePath)]

/-- The automation section as a record. -/
def automationJson (c : Config) : Json := .object [("defaultSync", c.defaultSync.toJson)]

/-- The sections of a configuration, and the filter beside them, with the keys that are kept. -/
def chosen (c : Config) : List (String × Json) :=
  [("web", c.web.toJson.only (k.keys "web")), ("mqtt", c.mqtt.toJson.only (k.keys "mqtt")),
    ("hardware", c.hardware.toJson.only (k.keys "hardware")),
    ("storage", c.storageJson.only (k.keys "storage")),
    ("automation", c.automationJson.only (k.keys "automation")), ("logFilter", .string c.logFilter)]

/-- The document that gives the chosen keys with the values of a configuration, and no others. -/
def document (c : Config) : Json := .object (Json.kept k.sections (c.chosen k))

/-- The configuration with the chosen keys, and the default for the others. -/
def only (c : Config) : Config where
  web := if k.sections "web" then c.web.only (k.keys "web") else .default
  mqtt := if k.sections "mqtt" then c.mqtt.only (k.keys "mqtt") else .default
  hardware := if k.sections "hardware" then c.hardware.only (k.keys "hardware") else .default
  storagePath :=
    if k.sections "storage" then
      if k.keys "storage" "path" then c.storagePath else default.storagePath
    else default.storagePath
  defaultSync :=
    if k.sections "automation" then
      if k.keys "automation" "defaultSync" then c.defaultSync else default.defaultSync
    else default.defaultSync
  logFilter := if k.sections "logFilter" then c.logFilter else default.logFilter

theorem document_all (c : Config) : c.document .all = c.toJson := by
  simp [document, chosen, Json.kept, Json.only, KeyChoice.all, toJson, storageJson, automationJson,
    WebConfig.toJson, MqttConfig.toJson, HardwareConfig.toJson]

theorem only_all (c : Config) : c.only .all = c := rfl

theorem storageOf?_only (c : Config) (keep : String → Bool) :
    storageOf? (c.storageJson.only keep) =
      some (if keep "path" then c.storagePath else default.storagePath) := by
  refine Json.bind_asFields_kept rfl rfl ?_
  exact Json.withDefault_kept rfl (Json.asOption_ofOption c.storagePath)

theorem automationOf?_only (c : Config) (keep : String → Bool) :
    automationOf? (c.automationJson.only keep) =
      some (if keep "defaultSync" then c.defaultSync else default.defaultSync) := by
  have hsync : SyncLevel.ofJson? c.defaultSync.toJson = some c.defaultSync := by
    cases c.defaultSync <;> rfl
  refine Json.bind_asFields_kept rfl rfl ?_
  exact Json.withDefault_kept rfl hsync

theorem Fits.ofJson?_document (h : c.Fits) : ofJson? (c.document k) = some (c.only k) := by
  refine Json.bind_asFields_kept rfl rfl ?_
  refine Json.bind_withDefault_kept rfl (WebConfig.ofJson?_only h.webPort _) ?_
  refine Json.bind_withDefault_kept rfl (MqttConfig.ofJson?_only h.brokerPort h.keepAlive
    h.clientId h.topicPrefix _) ?_
  refine Json.bind_withDefault_kept rfl (HardwareConfig.ofJson?_only h.timeout _) ?_
  refine Json.bind_withDefault_kept rfl (c.storageOf?_only _) ?_
  refine Json.bind_withDefault_kept rfl (c.automationOf?_only _) ?_
  refine Json.bind_withDefault_kept rfl rfl ?_
  rfl

/-- The text of a document is read, however it is laid out. -/
theorem Fits.readAs_document (h : c.Fits) {write : Nat → Json → List Char} (hw : IsWriter write) :
    Json.readAs form (String.ofList (write 0 (c.document k))) = some (c.document k) := by
  have hstorage : ReadsBy write (fun fuel => formed? fuel 126 storageForm) 1
      (c.storageJson.only (k.keys "storage")) := by
    apply hw.reads_flat
    apply Json.forall_mem_kept
    simp [Json.isReadable_ofOption]
  have hautomation : ReadsBy write (fun fuel => formed? fuel 126 automationForm) 1
      (c.automationJson.only (k.keys "automation")) := by
    apply hw.reads_flat
    apply Json.forall_mem_kept
    simp [SyncLevel.toJson, Json.isReadable_string]
  apply Json.readAs_write
  refine hw.reads_record (Json.forall_mem_kept ?_)
  simp only [chosen, List.forall_mem_cons]
  exact ⟨⟨_, rfl, WebConfig.reads_only hw h.webPort _ 125 1⟩,
    ⟨_, rfl, MqttConfig.reads_only hw h.brokerPort h.keepAlive _ 125 1⟩,
    ⟨_, rfl, HardwareConfig.reads_only hw h.timeout _ 123 1⟩, ⟨_, rfl, hstorage⟩,
    ⟨_, rfl, hautomation⟩, ⟨_, rfl, hw.reads_whole (Json.isReadable_string _)⟩, by simp⟩

/-- A document with the chosen keys of a configuration, however it is laid out, is read as the
configuration with these and the default for the others. -/
theorem Fits.read?_document (h : c.Fits) {write : Nat → Json → List Char} (hw : IsWriter write) :
    read? (String.ofList (write 0 (c.document k))) = some (c.only k) := by
  rw [read?, h.readAs_document k hw, Option.bind_some, h.ofJson?_document]

/-- Whatever has been set in a configuration, a document that gives some of its keys is read as
the configuration with these and the default for the others, and the whole document is read as the
configuration. -/
theorem rereads_chosen {changes : List ConfigChange} (hfits : ∀ change ∈ changes, change.Fits)
    {write : Nat → Json → List Char} (hw : IsWriter write) :
    (∀ k : KeyChoice, read? (String.ofList (write 0 ((built changes).document k))) =
      some ((built changes).only k)) ∧
    read? (String.ofList (write 0 (built changes).toJson)) = some (built changes) := by
  have hbuilt := fits_built hfits
  refine ⟨fun k => hbuilt.read?_document k hw, ?_⟩
  rw [← document_all, hbuilt.read?_document .all hw, only_all]

/-- A topic prefix of which a part is cut, a device without an address, and a port. -/
def yardChanges : List ConfigChange :=
  [.mqttPrefix (String.ofList (List.replicate 40 'é')), .device .virtual, .webPort 8080]

/-- The topic prefix of that configuration. -/
def prefixOnly : KeyChoice := ⟨(· == "mqtt"), fun _ => (· == "topicPrefix")⟩

/-- On one line, the document with the topic prefix alone has the 32 characters that are left of
it, and gives the default for the rest. -/
theorem rereads_chosen_yard :
    (∀ change ∈ yardChanges, change.Fits) ∧ IsWriter (fun _ => Json.compact) ∧
      read? ((built yardChanges).document prefixOnly).write =
        some (built [.mqttPrefix (String.ofList (List.replicate 32 'é'))]) ∧
      read? (built yardChanges).toJson.write = some (built yardChanges) := by
  have hfits : ∀ change ∈ yardChanges, change.Fits := by
    simp [yardChanges, ConfigChange.Fits, maxWord16]
  have honly : (built yardChanges).only prefixOnly =
      built [.mqttPrefix (String.ofList (List.replicate 32 'é'))] := by decide +kernel
  obtain ⟨hchosen, hwhole⟩ := rereads_chosen hfits Json.isWriter_compact
  have htopic := hchosen prefixOnly
  rw [honly] at htopic
  exact ⟨hfits, Json.isWriter_compact, htopic, hwhole⟩

end Config

end Signalbox
