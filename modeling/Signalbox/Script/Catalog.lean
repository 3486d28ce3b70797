import Signalbox.Script.Summary
import Signalbox.Store.Rows
import Signalbox.Script.Compile
import Signalbox.Text.Parts

/-
  Signalbox/Script/Catalog.lean --- the scripts that can be run.

  Scripts are kept by id, and the handlers among them also by their event.  An
  event may be given as text: `turnout/throw/5`.
-/

set_option autoImplicit false

namespace Signalbox

/-! ## Events as text -/

namespace TurnoutEvent

/-- Handlers are kept in the order of their ids. -/
def precedes (a b : TurnoutEvent) : Prop := a.handlerId < b.handlerId

instance : LT TurnoutEvent := ⟨precedes⟩

instance (a b : TurnoutEvent) : Decidable (a < b) :=
  inferInstanceAs (Decidable (a.handlerId < b.handlerId))

/-- The event that a text names, in either case. -/
def ofText? (s : String) : Option TurnoutEvent :=
  match Text.parts '/' (Text.lowerAscii s.toList) with
  | [subject, verb, id] => do
    guard (subject = "turnout".toList)
    let state ←
      if verb = TurnoutState.thrown.verb.toList then some TurnoutState.thrown
      else if verb = TurnoutState.closed.verb.toList then some TurnoutState.closed
      else none
    let turnout ← Text.int64? (Text.trim id)
    return ⟨turnout, state⟩
  | _ => none

end TurnoutEvent

/-! ## The catalog -/

/-- Scripts by id, and handlers by event. -/
structure Catalog where
  scripts : Table Int Script
  handlers : Table TurnoutEvent Script
  deriving DecidableEq, Repr

/-- What is saved of a script. -/
def Script.row (s : Script) : StoredScript := ⟨s.id, s.name, s.source, s.description⟩

/-- The script with a saved description; an empty one leaves the script's own. -/
def Script.described (description : String) (s : Script) : Script :=
  if description.isEmpty then s else { s with description := description }

/-- The scripts of a saved row; none for a source that does not compile. -/
def StoredScript.scripts (row : StoredScript) : List Script :=
  match Script.compile row.source with
  | .ok scripts => scripts.map (Script.described row.description)
  | .error _ => []

namespace Catalog

/-- No script. -/
def empty : Catalog := ⟨Table.empty, Table.empty⟩

/-- The catalog with a script, in the place of one with its id. -/
def register (c : Catalog) (s : Script) : Catalog :=
  { scripts := c.scripts.insert s.id s
    handlers := match s.trigger with
      | some e => c.handlers.insert e s
      | none => c.handlers }

/-- The catalog without the script with an id. -/
def unregister? (c : Catalog) (id : Int) : Option Catalog :=
  (c.scripts.get? id).map fun s =>
    { scripts := c.scripts.erase id
      handlers := match s.trigger with
        | some e => c.handlers.erase e
        | none => c.handlers }

/-- The scripts of saved rows, in order. -/
def scriptsOf (rows : List StoredScript) : List Script := rows.flatMap StoredScript.scripts

/-- The catalog with several scripts, one after the other. -/
def registerAll (c : Catalog) (scripts : List Script) : Catalog := scripts.foldl register c

/-- What clients are shown. -/
def summaries (c : Catalog) : List ScriptSummary := c.scripts.values.map Script.summary

end Catalog

end Signalbox
