import Signalbox.Run.Pid
import Signalbox.Script.Basic
import Signalbox.Json.Decode

/-
  Signalbox/Run/Entry.lean --- a run as the list of live runs shows it.

  A run that is being resumed counts as running.  A run without a loco has no field
  for one.
-/

set_option autoImplicit false

namespace Signalbox

/-- Whether a run goes on or is held. -/
inductive RunStatus where
  | running
  | paused
  deriving DecidableEq, Repr

/-- The name of the status. -/
def RunStatus.name : RunStatus → String
  | running => "running"
  | paused => "paused"

/-- What clients are shown of a live run. -/
structure RunEntry where
  name : String
  pid : Pid
  kind : ScriptKind
  status : RunStatus
  description : String
  loco : Option Nat
  deriving DecidableEq, Repr

/-- The name of a run as a string. -/
def Pid.toJson (p : Pid) : Json := .string p.text

/-- The name of a run from a string. -/
def Pid.ofJson? (j : Json) : Option Pid := j.asString.bind Pid.ofText?

/-- An entry as a record. -/
def RunEntry.toJson (e : RunEntry) : Json :=
  .object ([("name", .string e.name), ("pid", e.pid.toJson), ("type", .string e.kind.name),
    ("status", .string e.status.name), ("description", .string e.description)]
    ++ (e.loco.map fun address => ("locoAddress", Json.ofNat address)).toList)

end Signalbox
