import Signalbox.Control.Step

/-
  Signalbox/Control/Succession.lean --- controllers that follow one another.

  When a controller is relieved, the next one is built over the same store and has
  everything else afresh.  The tasks of the one before it go on all the same, with
  the layout, the roster and the adapter that they began with: what they tell
  clients, call and save comes out among what the next one does.  Only the list of
  runs and the catalog are gone with their controller, so no handler is started any
  more and nobody is told that a run has ended.
-/

set_option autoImplicit false

namespace Signalbox

/-! ## Being relieved -/

/-- Whether a job is still done when its controller has been relieved. -/
def Job.survives : Job → Bool
  | finish _ | announceRuns => false
  | _ => true

/-- A task whose controller has been relieved. -/
def Task.relieved (t : Task) : Task := { t with jobs := t.jobs.filter Job.survives }

namespace Controller

/-- The controller when it has been relieved. -/
def relieved (c : Controller) : Controller := { c with catalog := .empty }

/-- The controller with what it has in common with another one as the other one has it: the
store, the faults of drivers, and what leaves them. -/
def besides (c other : Controller) : Controller :=
  { c with
    store := c.store.besides other.store
    faults := other.faults
    alarms := other.alarms
    events := other.events
    calls := other.calls }

/-- The controller when it takes over from another one. -/
def following (c previous : Controller) : Controller :=
  { c with
    alarms := previous.alarms
    events := previous.events ++ c.events
    calls := previous.calls ++ c.calls }

end Controller

/-! ## The succession -/

/-- The controller in charge, and those before it, the first one first. -/
structure Succession where
  current : Controller
  former : List Controller

/-- A task, and the place of its controller in the succession. -/
structure Duty where
  place : Nat
  task : Task

namespace Succession

/-- A controller that nobody was there before. -/
def ofController (c : Controller) : Succession := ⟨c, []⟩

/-- The place of the controller in charge. -/
def place (s : Succession) : Nat := s.former.length

/-- A task of the controller in charge. -/
def duty (s : Succession) (t : Task) : Duty := ⟨s.place, t⟩

/-- The controller at a place, with what all have in common up to date. -/
def controllerAt (s : Succession) (place : Nat) : Controller :=
  match s.former[place]? with
  | some c => c.besides s.current
  | none => s.current

/-- The succession with the controller at a place changed. -/
def put (s : Succession) (place : Nat) (c : Controller) : Succession :=
  if place < s.former.length then ⟨s.current.besides c, s.former.set place c⟩
  else { s with current := c }

/-- The succession with another controller in charge. -/
def relieve (s : Succession) (next : Controller) : Succession :=
  ⟨next.following s.current, s.former ++ [s.current.relieved]⟩

end Succession

/-! ## The program -/

/-- One job of a task, done for its controller. -/
def Duty.step (now : Nat) (s : Succession) (d : Duty) :
    Turn Succession Duty Reply (Nat × Watched) :=
  (d.task.step now (s.controllerAt d.place)).map (s.put d.place) (Duty.mk d.place)
    (Prod.mk d.place)

/-- What the tasks of controllers do that follow one another. -/
def Succession.program : Program Succession Duty Reply (Nat × Watched) :=
  ⟨fun now s d => d.step now s, fun s (place, key) => (s.controllerAt place).announced key⟩

end Signalbox
