import Signalbox.Loco.Error
import Signalbox.Run.Pid
import Signalbox.Script.Error

/-
  Signalbox/Run/Error.lean --- why a request about scripts or runs is refused.
-/

set_option autoImplicit false

namespace Signalbox

/-- A reason to refuse a request about scripts or runs. -/
inductive RunError where
  | noScript (id : Int)
  | noRun (pid : Pid)
  | script (e : ScriptError)
  | storage (e : StorageError)
  | loco (e : LocoError)
  deriving DecidableEq, Repr

/-- The wording of the error. -/
def RunError.message : RunError → String
  | noScript id => "No script with id " ++ Text.ofInt id
  | noRun pid => "No running automation with PID " ++ pid.text
  | script e => e.message
  | storage e => e.message
  | loco e => e.message

end Signalbox
