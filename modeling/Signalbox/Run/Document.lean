import Signalbox.Run.Basic

/-
  Signalbox/Run/Document.lean --- runs as JSON, with all that is to know about them.
-/

set_option autoImplicit false

namespace Signalbox

namespace Run

/-- The fields for how far a run has come. -/
def progress (r : Run) : List (String × Json) :=
  [("state", .string r.state.name), ("stopped", .bool r.stopped),
   ("current", .ofList Json.string r.log.current), ("starts", .ofList Json.ofNat r.log.starts)]

/-- A run as a record. -/
def toJson (r : Run) : Json :=
  .object ([("pid", r.pid.toJson), ("script", .string r.script.label),
    ("locoAddress", .ofOption (fun h => .ofNat (LocoHandle.address h)) r.loco),
    ("status", .string r.status.name),
    ("sync", .ofOption (fun h => (LocoHandle.sync h).toJson) r.loco)] ++ r.progress)

end Run

end Signalbox
