import Signalbox.Control.Document
import Signalbox.Control.Session
import Signalbox.Web.Call

/-
  Signalbox/Web/Server.lean --- answering requests.

  An answer is a record that says whether the request succeeded, with the data or
  with the wording of the error.  The status is 200 or says whose fault it is.

  A server that lets every origin read its answers says so in each of them, and
  answers any request for options by itself.
-/

set_option autoImplicit false

namespace Signalbox

/-! ## Status codes -/

/-- The status of an error of the layout. -/
def LayoutError.status : LayoutError → Nat
  | unknownNode _ | unknownTurnout _ | unknownRoute _ => 404
  | notSaved _ => 500
  | _ => 400

/-- The status of an error about a loco. -/
def LocoError.status : LocoError → Nat
  | notFound => 404
  | _ => 400

/-- The status of an error about scripts or runs. -/
def RunError.status : RunError → Nat
  | noScript _ | noRun _ => 404
  | loco e => e.status
  | storage _ => 500
  | script _ => 400

/-- The status of a failure. -/
def Failure.status : Failure → Nat
  | layout e => e.status
  | loco e => e.status
  | run e => e.status
  | driver _ => 503

/-- The status of a rejection. -/
def Rejection.status : Rejection → Nat
  | unknownPath => 404
  | wrongMethod => 405
  | wrongParameter => 400
  | wrongType => 415
  | wrongBody .malformed => 400
  | wrongBody .misshapen => 422
  | wrongPid _ => 400

/-! ## Answers -/

/-- The answer to a request that succeeded. -/
def successJson (data : Json) : Json := .object [("success", .bool true), ("data", data)]

/-- The answer to a request that failed. -/
def failureJson (message : String) : Json :=
  .object [("success", .bool false), ("error", .string message)]

/-- The wording of a text that names no run. -/
def invalidPid (text : String) : String := "Invalid PID \"" ++ text ++ "\""

/-- The answer to a request that was turned away, if there is one. -/
def Rejection.answer : Rejection → Option Json
  | unknownPath => some (failureJson "Not found")
  | wrongPid text => some (failureJson (invalidPid text))
  | _ => none

/-- The data of a view. -/
def Controller.viewJson (c : Controller) : View → Json
  | .state => c.stateJson
  | .layout => c.interlocking.view.toJson
  | .routes => c.routesJson
  | .locos => c.locosJson
  | .scripts => c.summariesJson
  | .runs => c.entriesJson
  | .hardware => c.hardwareJson

/-- The data that an operation is answered with. -/
def Operation.data (c : Controller) (reply : Reply) : Operation → Json
  | .clearRoute _ => .null
  | .upload _ => .object [("ids", reply.data)]
  | .selectDriver _ _ | .selectDevice _ => c.hardwareJson
  | _ => reply.data

/-- The status and the answer of an operation that was carried out. -/
def Operation.answer (op : Operation) (c : Controller) : Reply → Nat × Json
  | .failed f => (f.status, failureJson f.message)
  | reply => (200, successJson (op.data c reply))

/-! ## Serving -/

namespace Session

/-- The status and the answer of a call, and the session after it. -/
def answer (s : Session) : WebCall → (Nat × Json) × Session
  | .look v => ((200, successJson (s.controller.viewJson v)), s)
  | .operate op =>
    let (reply, s) := s.perform op
    (op.answer s.controller (reply.getD .done), s)

/-- Answers a request, whoever may read the answer. -/
def respond (s : Session) (r : WebRequest) : (Nat × Option Json) × Session :=
  match WebCall.ofRequest r with
  | .error e => ((e.status, e.answer), s)
  | .ok call =>
    let ((status, answer), s) := s.answer call
    ((status, if r.method = "HEAD" then none else some answer), s)

/-- Answers a request. -/
def serve (s : Session) (anyOrigin : Bool) (r : WebRequest) : WebResponse × Session :=
  let origin := if anyOrigin then some "*" else none
  if anyOrigin && r.method = "OPTIONS" then (⟨200, none, origin⟩, s)
  else
    let ((status, body), s) := s.respond r
    (⟨status, body, origin⟩, s)

end Session

end Signalbox
