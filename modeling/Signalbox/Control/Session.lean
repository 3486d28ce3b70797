import Signalbox.Control.Succession

/-
  Signalbox/Control/Session.lean --- a controller at work.

  A session is a controller with its tasks and its clock.  An operation runs to its
  end, with time passing if it has to wait for that; the tasks that it has started
  or woken get their turns when the session settles.  The controller may be relieved
  by another one, with the clock and the tasks going on.
-/

set_option autoImplicit false

namespace Signalbox

/-- A controller and those before it, their tasks and their clock. -/
abbrev Session := Schedule Succession Duty Reply (Nat × Watched)

namespace Session

/-- The controller in charge. -/
def controller (s : Session) : Controller := s.world.current

/-- The session with its controller changed from the outside. -/
def modify (s : Session) (change : Controller → Controller) : Session :=
  { s with world := { s.world with current := change s.world.current } }

/-- The session with its controller changed and the tasks woken that watch for the change. -/
def announcing (s : Session) (change : Controller → Controller) : Session :=
  Schedule.announce Succession.program s (s.modify change).world

/-- Makes the tasks ready that the controller has started. -/
def launch (s : Session) : Session :=
  let (started, c) := s.controller.takeStarted
  (s.modify fun _ => c).startAll (started.map s.world.duty)

/-- A session of a controller. -/
def ofController (c : Controller) : Session := launch (Schedule.ofWorld (.ofController c))

/-- The session with another controller in charge; the tasks of the one before it go on. -/
def relieve (s : Session) (next : Controller) : Session :=
  launch { s.mapTasks (fun d => { d with task := d.task.relieved }) with
    world := s.world.relieve next }

/-- Starts a task, which gets its turn after all others. -/
def begin (s : Session) (jobs : List Job) : Session := s.start (s.world.duty (.ofJobs jobs))

/-- Runs jobs to their end. -/
def work (s : Session) (jobs : List Job) : Option Reply × Session :=
  s.call Succession.program (s.world.duty (.ofJobs jobs))

/-- Runs an operation to its end. -/
def perform (s : Session) (op : Operation) : Option Reply × Session := s.work [.operate op]

/-- Lets every task go on until all wait. -/
def settled (s : Session) : Session := s.settleAll Succession.program

/-- Lets some milliseconds pass. -/
def wait (s : Session) (milliseconds : Nat) : Session := s.pass Succession.program milliseconds

/-- The events and calls since the last time, and the session without them. -/
def collect (s : Session) : List Event × List DriverRecord × Session :=
  (s.controller.events, s.controller.calls, s.modify fun c => { c with events := [], calls := [] })

end Session

end Signalbox
