import Signalbox.Control.Controller

/-
  Signalbox/Control/Scripts.lean --- keeping the catalog.

  The scripts of an upload are saved and registered one by one, and a store that
  refuses one of them ends the upload there.
-/

set_option autoImplicit false

namespace Signalbox

namespace Controller

/-- Saves and registers scripts until the store refuses: the ids that came in, the
refusal, and the controller after that. -/
def addScripts (c : Controller) : List Script → List Int × Option StorageError × Controller
  | [] => ([], none, c)
  | s :: rest =>
    match c.save (.saveScript s.row) with
    | (.error e, c) => ([], some e, c)
    | (.ok (), c) =>
      let (ids, refusal, c) := addScripts { c with catalog := c.catalog.register s } rest
      (s.id :: ids, refusal, c)

/-- Compiles a text and adds its scripts. -/
def upload (c : Controller) (text : String) : Outcome :=
  match Script.compile text with
  | .error e => .fails (c.tell (.scriptRefused e)) (.run (.script e))
  | .ok scripts =>
    let (ids, refusal, c) := c.addScripts scripts
    let c := c.tellCatalog
    match refusal with
    | some e => .fails c (.run (.storage e))
    | none => .answers c (.ids ids)

/-- Loads the saved scripts. -/
def loadScripts (c : Controller) : Outcome :=
  match c.store.loadScripts with
  | .error e => .fails c (.run (.storage e))
  | .ok rows =>
    let scripts := Catalog.scriptsOf rows
    .answers { c with catalog := c.catalog.registerAll scripts } (.count scripts.length)

/-- Deletes a script, first from the catalog and then from the store. -/
def deleteScript (c : Controller) (id : Int) : Outcome :=
  match c.catalog.unregister? id with
  | none => .fails c (.run (.noScript id))
  | some catalog =>
    match save { c with catalog := catalog } (.deleteScript id) with
    | (.error e, c) => .fails c (.run (.storage e))
    | (.ok (), c) => .finished c.tellCatalog

/-- Describes a script, first in the catalog and then in the store. -/
def describe (c : Controller) (id : Int) (text : String) : Outcome :=
  match c.catalog.scripts.get? id with
  | none => .fails c (.run (.noScript id))
  | some s =>
    let s := { s with description := text }
    match save { c with catalog := c.catalog.register s } (.saveScript s.row) with
    | (.error e, c) => .fails c (.run (.storage e))
    | (.ok (), c) => .finished c.tellCatalog

end Controller

end Signalbox
