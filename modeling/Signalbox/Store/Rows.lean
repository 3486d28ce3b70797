import Signalbox.Layout.Document
import Signalbox.Loco.Basic
import Signalbox.Json.Writer

/-
  Signalbox/Store/Rows.lean --- what is kept between sessions.

  A store holds rows for scripts, nodes, links and locos, each under a number.
  Of a script only the source is kept, beside its name and description; it is
  compiled again when it is loaded.  Every change to the rows is one of seven, and
  a change either does its work or finds the row missing that it needs.

  The document of a store has one object for each kind of row, with the numbers as
  field names; an object that the document does not have is empty.  Fields that no
  row has are passed over, except in a node.
-/

set_option autoImplicit false

namespace Signalbox

/-- The row of a script. -/
structure StoredScript where
  id : Int
  name : String
  source : String
  description : String
  deriving DecidableEq, Repr

/-- All rows, each under its number. -/
structure Rows where
  scripts : Table Int StoredScript
  nodes : Table NodeId Node
  links : Table LinkId Link
  locos : Table Nat LocoRecord
  deriving DecidableEq, Repr

/-- A kind of row that a change may look for in vain. -/
inductive RowKind where
  | turnout
  | node
  | loco
  deriving DecidableEq, Repr

/-- The name of a kind of row. -/
def RowKind.name : RowKind → String
  | turnout => "Turnout"
  | node => "Node"
  | loco => "Loco"

/-- Why a store fails. -/
inductive StorageError where
  /-- Reading or writing failed, for the reason that the text gives. -/
  | io (reason : String)
  /-- The document is not one of a store. -/
  | unreadable
  | missing (kind : RowKind) (id : Int)
  deriving DecidableEq, Repr

/-- The wording of the error. -/
def StorageError.message : StorageError → String
  | io reason => "Storage I/O error: " ++ reason
  | unreadable => "Malformed store"
  | missing kind id => kind.name ++ " " ++ Text.ofInt id ++ " not found"

/-- A change to the rows. -/
inductive RowChange where
  | saveScript (row : StoredScript)
  | deleteScript (id : Int)
  | saveState (id : NodeId) (state : TurnoutState)
  | saveCoordinate (id : NodeId) (coordinate : Coordinate)
  | insertLoco (record : LocoRecord)
  | updateLoco (previous : Nat) (record : LocoRecord)
  | deleteLoco (address : Nat)
  deriving DecidableEq, Repr

namespace Rows

/-- No row. -/
def empty : Rows := ⟨Table.empty, Table.empty, Table.empty, Table.empty⟩

/-! ## Filling -/

/-- The rows with a node. -/
def withNode (r : Rows) (n : Node) : Rows := { r with nodes := r.nodes.insert n.id n }

/-- The rows with a link. -/
def withLink (r : Rows) (l : Link) : Rows := { r with links := r.links.insert l.id l }

/-- The rows with a script. -/
def withScript (r : Rows) (s : StoredScript) : Rows := { r with scripts := r.scripts.insert s.id s }

/-- The rows with a loco. -/
def withLoco (r : Rows) (record : LocoRecord) : Rows :=
  { r with locos := r.locos.insert record.address record }

/-! ## Changes -/

/-- The rows with the state of a turnout saved; a row that is no turnout is missing. -/
def saveState (r : Rows) (id : NodeId) (state : TurnoutState) : Except StorageError Rows :=
  match r.nodes.get? id with
  | some (.turnout t) =>
    .ok { r with nodes := r.nodes.insert id (.turnout { t with state := state }) }
  | _ => .error (.missing .turnout id)

/-- A node at another place. -/
def moved (coordinate : Coordinate) : Node → Node
  | .turnout t => .turnout { t with coordinate := coordinate }
  | .destination d => .destination { d with coordinate := coordinate }

/-- The rows with the place of a node saved. -/
def saveCoordinate (r : Rows) (id : NodeId) (c : Coordinate) : Except StorageError Rows :=
  match r.nodes.get? id with
  | some node => .ok { r with nodes := r.nodes.insert id (moved c node) }
  | none => .error (.missing .node id)

/-- The rows with a loco under its new address, which may be its old one. -/
def updateLoco (r : Rows) (previous : Nat) (record : LocoRecord) : Except StorageError Rows :=
  if r.locos.contains previous then
    .ok { r with locos := (r.locos.erase previous).insert record.address record }
  else .error (.missing .loco previous)

/-- The rows after a change. -/
def apply (r : Rows) : RowChange → Except StorageError Rows
  | .saveScript row => .ok (r.withScript row)
  | .deleteScript id => .ok { r with scripts := r.scripts.erase id }
  | .saveState id state => r.saveState id state
  | .saveCoordinate id c => r.saveCoordinate id c
  | .insertLoco record => .ok (r.withLoco record)
  | .updateLoco previous record => r.updateLoco previous record
  | .deleteLoco address => .ok { r with locos := r.locos.erase address }

/-! ## Nodes by kind -/

/-- The turnouts among the nodes, in the order of the rows. -/
def turnouts (r : Rows) : List Turnout :=
  r.nodes.values.filterMap fun
    | .turnout t => some t
    | .destination _ => none

/-- The destinations among the nodes, in the order of the rows. -/
def destinations (r : Rows) : List Destination :=
  r.nodes.values.filterMap fun
    | .destination d => some d
    | .turnout _ => none

/-- The first turnout with an id of its own, whatever number its row is under. -/
def turnout? (r : Rows) (id : NodeId) : Option Turnout := r.turnouts.find? (·.id == id)

/-- The first destination with an id of its own, whatever number its row is under. -/
def destination? (r : Rows) (id : NodeId) : Option Destination := r.destinations.find? (·.id == id)

end Rows

/-! ## Documents -/

/-- The row of a script as a record. -/
def StoredScript.toJson (s : StoredScript) : Json :=
  .object [("id", .ofInt s.id), ("name", .string s.name), ("source", .string s.source),
    ("description", .string s.description)]

/-- What is read of the row of a script. -/
def StoredScript.form : Json.Form := .flat ["id", "name", "source", "description"]

/-- The row of a script from a record. -/
def StoredScript.ofJson? (j : Json) : Option StoredScript := do
  let r ← j.asFields StoredScript.form.names
  let id ← r.required "id" Json.asInt64
  let name ← r.required "name" Json.asString
  let source ← r.required "source" Json.asString
  let description ← r.withDefault "description" "" Json.asString
  some ⟨id, name, source, description⟩

/-- A change from an array that begins with its name. -/
def RowChange.ofJson? : Json → Option RowChange
  | .array [.string "save_script", row] => (StoredScript.ofJson? row).map saveScript
  | .array [.string "delete_script", id] => id.asInt64.map deleteScript
  | .array [.string "turnout_state", id, state] => do
    let id ← id.asInt64
    let state ← TurnoutState.ofJson? state
    some (saveState id state)
  | .array [.string "coordinate", id, place] => do
    let id ← id.asInt64
    let place ← Coordinate.ofJson? place
    some (saveCoordinate id place)
  | .array [.string "insert_loco", record] => (LocoRecord.ofJson? record).map insertLoco
  | .array [.string "update_loco", previous, record] => do
    let previous ← previous.asWord maxWord16
    let record ← LocoRecord.ofJson? record
    some (updateLoco previous record)
  | .array [.string "delete_loco", address] => (address.asWord maxWord16).map deleteLoco
  | _ => none

namespace Rows

/-- Rows under integers as an object. -/
def tableJson {α : Type} (encode : α → Json) (t : Table Int α) : Json :=
  .object (t.rows.map fun (id, a) => (Text.ofInt id, encode a))

/-- Rows under addresses as an object. -/
def addressJson {α : Type} (encode : α → Json) (t : Table Nat α) : Json :=
  .object (t.rows.map fun (address, a) => (Text.ofNat address, encode a))

/-- Rows under integers from an object. -/
def tableOf? {α : Type} (decode : Json → Option α) (j : Json) : Option (Table Int α) :=
  (j.asEntries Json.Numeral.int64? decode).map Table.ofList

/-- Rows under addresses from an object. -/
def addressOf? {α : Type} (decode : Json → Option α) (j : Json) : Option (Table Nat α) :=
  (j.asEntries (Json.Numeral.word? maxWord16) decode).map Table.ofList

/-- The rows as a document. -/
def toJson (r : Rows) : Json :=
  .object [("scripts", tableJson StoredScript.toJson r.scripts),
    ("nodes", tableJson Node.toJson r.nodes), ("links", tableJson Link.toJson r.links),
    ("locos", addressJson LocoRecord.toJson r.locos)]

/-- What is read of a document; a node is read as a whole before its kind is known. -/
def form : Json.Form :=
  .record [("scripts", .table StoredScript.form), ("nodes", .table .whole),
    ("links", .table Link.form), ("locos", .table LocoRecord.form)]

/-- The rows of a document. -/
def ofJson? (j : Json) : Option Rows := do
  let r ← j.asFields form.names
  let scripts ← r.withDefault "scripts" Table.empty (tableOf? StoredScript.ofJson?)
  let nodes ← r.withDefault "nodes" Table.empty (tableOf? Node.ofJson?)
  let links ← r.withDefault "links" Table.empty (tableOf? Link.ofJson?)
  let locos ← r.withDefault "locos" Table.empty (addressOf? LocoRecord.ofJson?)
  some ⟨scripts, nodes, links, locos⟩

/-- The text of the document, indented. -/
def write (r : Rows) : String := r.toJson.writeIndented

/-- The rows of the text of a document. -/
def read? (text : String) : Option Rows := (Json.readAs form text).bind ofJson?

end Rows

end Signalbox
