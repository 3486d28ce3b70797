import Signalbox.Script.Basic
import Signalbox.Json.Basic

/-
  Signalbox/Script/Summary.lean --- a script as the catalog lists it.
-/

set_option autoImplicit false

namespace Signalbox

/-- What clients are shown of a script. -/
structure ScriptSummary where
  id : Int
  name : String
  kind : ScriptKind
  description : String
  source : String
  handlerType : String
  deriving DecidableEq, Repr

/-- The summary of a script. -/
def Script.summary (s : Script) : ScriptSummary :=
  ⟨s.id, s.name, s.kind, s.description, s.source, s.handlerType⟩

/-- A summary as a record. -/
def ScriptSummary.toJson (s : ScriptSummary) : Json :=
  .object [("id", .ofInt s.id), ("name", .string s.name), ("type", .string s.kind.name),
    ("description", .string s.description), ("source", .string s.source),
    ("eventHandlerType", .string s.handlerType)]

end Signalbox
