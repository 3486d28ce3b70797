import Signalbox.Web.Request

/-
  Signalbox/Web/Endpoint.lean --- the paths of the web interface.

  A path leads to an endpoint, perhaps with a parameter.  A parameter that ends its path
  holds something, while one with more of the path behind it may be empty.  Each endpoint
  has its methods, and whatever can be got can also be asked for its head.
-/

set_option autoImplicit false

namespace Signalbox

/-- A method. -/
inductive WebMethod where
  | get
  | head
  | post
  | put
  | delete
  | options
  | other
  deriving DecidableEq, Repr

/-- The method with a name. -/
def WebMethod.ofName (s : String) : WebMethod :=
  if s = "GET" then .get
  else if s = "HEAD" then .head
  else if s = "POST" then .post
  else if s = "PUT" then .put
  else if s = "DELETE" then .delete
  else if s = "OPTIONS" then .options
  else .other

/-- What a path leads to. -/
inductive Endpoint where
  | state
  | layout
  | turnout
  | routes
  | route
  | coordinate
  | locos
  | loco
  | speed
  | direction
  | toggle
  | function
  | power
  | scripts
  | script
  | description
  | run
  | runs
  | pause
  | resume
  | stop
  | hardware
  | driver
  | device
  deriving DecidableEq, Repr

namespace Endpoint

/-- Every path: its segments, with none in the place of a parameter. -/
def paths : List (List (Option String) × Endpoint) :=
  [([some "state"], state), ([some "layout"], layout), ([some "turnouts", none], turnout),
   ([some "routes"], routes), ([some "routes", none], route),
   ([some "nodes", none, some "coordinate"], coordinate), ([some "locos"], locos),
   ([some "locos", none], loco), ([some "throttle", none, some "speed"], speed),
   ([some "throttle", none, some "direction"], direction),
   ([some "throttle", none, some "toggle"], toggle),
   ([some "throttle", none, some "function"], function), ([some "power"], power),
   ([some "automations"], scripts), ([some "automations", none], script),
   ([some "automations", none, some "description"], description),
   ([some "automations", none, some "run"], run), ([some "running"], runs),
   ([some "running", none, some "pause"], pause), ([some "running", none, some "resume"], resume),
   ([some "running", none, some "stop"], stop), ([some "hardware"], hardware),
   ([some "hardware", some "driver"], driver), ([some "hardware", some "device"], device)]

/--
The parameter of a path that has the given form; empty for a form without one.  A path
that ends where its last parameter would begin does not have the form.
-/
def parameter? : List (Option String) → List (List Char) → Option (List Char)
  | [], [] => some []
  | some word :: form, segment :: rest =>
    if word.toList = segment then parameter? form rest else none
  | none :: form, segment :: rest =>
    if form.isEmpty && segment.isEmpty then none
    else (parameter? form rest).map fun _ => segment
  | _, _ => none

/-- What a path leads to, and its parameter as it is written. -/
def ofSegments? : List (List Char) → Option (Endpoint × List Char)
  | root :: segments =>
    if root = "api".toList then
      paths.findSome? fun (form, e) => (parameter? form segments).map fun p => (e, p)
    else none
  | [] => none

/-- The methods of an endpoint; the head comes with the rest. -/
def methods : Endpoint → List WebMethod
  | state | layout | runs | hardware => [.get, .head]
  | routes | locos | scripts => [.get, .head, .post]
  | route | script => [.delete]
  | loco => [.put, .delete]
  | description => [.put]
  | _ => [.post]

end Endpoint

end Signalbox
