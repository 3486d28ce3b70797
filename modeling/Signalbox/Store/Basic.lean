import Signalbox.Json.Bytes
import Signalbox.Store.Rows

/-
  Signalbox/Store/Basic.lean --- stores in memory and in a file.

  A store keeps its rows in memory.  One with a file writes the whole document
  after every change, in two steps: the bytes go into a draft beside the file, and
  the draft then takes the place of the file.  Either step may fail; the rows in
  memory have changed by then, and stay so.

  A store may also refuse a call before it does anything.  What it refuses is part
  of its state, and changes from the outside.
-/

set_option autoImplicit false

namespace Signalbox

/-! ## Files -/

/-- The file of a store, its draft, and what keeps the two steps from working. -/
structure StoreFile where
  document : Option (List UInt8)
  draft : Option (List UInt8)
  draftFault : Option String
  renameFault : Option String
  deriving DecidableEq, Repr

namespace StoreFile

/-- A file that works, with the bytes that are in it. -/
def holding (document : Option (List UInt8)) : StoreFile := ⟨document, none, none, none⟩

/-- Writes a text into the draft. -/
def writeDraft (f : StoreFile) (text : String) : Except StorageError StoreFile :=
  match f.draftFault with
  | some reason => .error (.io reason)
  | none => .ok { f with draft := some (Text.utf8 text.toList) }

/-- Puts the draft in the place of the file. -/
def promote (f : StoreFile) : Except StorageError StoreFile :=
  match f.renameFault with
  | some reason => .error (.io reason)
  | none => .ok { f with document := f.draft, draft := none }

/-- Replaces the document by a text: the file after it, also when that fails half way. -/
def replace (f : StoreFile) (text : String) : Except StorageError Unit × StoreFile :=
  match f.writeDraft text with
  | .error e => (.error e, f)
  | .ok drafted =>
    match drafted.promote with
    | .error e => (.error e, drafted)
    | .ok replaced => (.ok (), replaced)

/-- The rows of the document; a file that is not there has none. -/
def open? (f : StoreFile) : Except StorageError Rows :=
  match f.document with
  | none => .ok Rows.empty
  | some bytes =>
    match (Json.textOf? bytes).bind Rows.read? with
    | some rows => .ok rows
    | none => .error .unreadable

/-- The text of the file, if there is one and its bytes are a text. -/
def text? (f : StoreFile) : Option String :=
  (f.document.bind Text.ofUtf8?).map String.ofList

end StoreFile

/-! ## Stores -/

/-- A call of a store. -/
inductive StoreCall where
  | loadScripts
  | loadNodes
  | loadLinks
  | loadLocos
  | change (c : RowChange)
  deriving DecidableEq, Repr

/-- The names that a call goes by; the saving of a script goes also by one with the id. -/
def StoreCall.names : StoreCall → List String
  | loadScripts => ["load_scripts"]
  | loadNodes => ["nodes"]
  | loadLinks => ["links"]
  | loadLocos => ["load_locos"]
  | change (.saveScript row) => ["save_script", "save_script:" ++ Text.ofInt row.id]
  | change (.deleteScript _) => ["delete_script"]
  | change (.saveState _ _) => ["save_turnout_state"]
  | change (.saveCoordinate _ _) => ["save_coordinate"]
  | change (.insertLoco _) => ["insert_loco"]
  | change (.updateLoco _ _) => ["update_loco"]
  | change (.deleteLoco _) => ["delete_loco"]

/-- A store: its rows, its file if it has one, and the calls that it refuses. -/
structure Store where
  rows : Rows
  file : Option StoreFile
  refuses : StoreCall → Option StorageError

namespace Store

/-- A store in memory that refuses nothing. -/
def inMemory (rows : Rows) : Store := ⟨rows, none, fun _ => none⟩

/-- Opens a store with a file. -/
def openFile (f : StoreFile) : Except StorageError Store :=
  f.open?.map fun rows => ⟨rows, some f, fun _ => none⟩

/-- The store as it is found when it is opened again: a file is read again, and memory is as
it was left. -/
def reopen? (s : Store) : Except StorageError Store :=
  match s.file with
  | some f => openFile f
  | none => .ok s

/-- The store after others have used what it has in common with them: one file, or else the
rows themselves.  Stores with one file have rows of their own. -/
def besides (s other : Store) : Store :=
  match s.file with
  | some _ => { other with rows := s.rows }
  | none => other

/-- The store refusing the calls that go by one of the names, and no others. -/
def refusing (s : Store) (names : List String) (e : StorageError) : Store :=
  { s with refuses := fun call => if call.names.any names.contains then some e else none }

/-- Writes the rows to the file, if there is one. -/
def flush (s : Store) : Except StorageError Unit × Store :=
  match s.file with
  | none => (.ok (), s)
  | some f =>
    let (result, f) := f.replace s.rows.write
    (result, { s with file := some f })

/-- Makes a change: the store after it, also when the call fails. -/
def change (s : Store) (c : RowChange) : Except StorageError Unit × Store :=
  match s.refuses (.change c) with
  | some e => (.error e, s)
  | none =>
    match s.rows.apply c with
    | .error e => (.error e, s)
    | .ok rows => flush { s with rows := rows }

/-- The answer of a call that only reads. -/
def query {α : Type} (s : Store) (call : StoreCall) (rows : Rows → List α) :
    Except StorageError (List α) :=
  match s.refuses call with
  | some e => .error e
  | none => .ok (rows s.rows)

/-- The rows of scripts, by id. -/
def loadScripts (s : Store) : Except StorageError (List StoredScript) :=
  s.query .loadScripts fun r => r.scripts.values

/-- The nodes, by number. -/
def loadNodes (s : Store) : Except StorageError (List Node) :=
  s.query .loadNodes fun r => r.nodes.values

/-- The links, by number. -/
def loadLinks (s : Store) : Except StorageError (List Link) :=
  s.query .loadLinks fun r => r.links.values

/-- The records of locos, by address. -/
def loadLocos (s : Store) : Except StorageError (List LocoRecord) :=
  s.query .loadLocos fun r => r.locos.values

end Store

end Signalbox
