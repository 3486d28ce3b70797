import Signalbox.Control.Job
import Signalbox.Event.Basic
import Signalbox.Loco.Roster
import Signalbox.Schedule
import Signalbox.Script.Catalog
import Signalbox.Store.Basic

/-
  Signalbox/Control/Controller.lean --- the state of a controller.

  A controller has the layout with its interlocking, the roster, the catalog, the
  runs, the adapter and the store behind them.  Runs stay on record after their
  end, because tasks may still refer to them; the live ones are found by name.

  What leaves the controller is collected in it, oldest first: events for clients,
  calls to drivers, and tasks that were started.
-/

set_option autoImplicit false

namespace Signalbox

/-- The state of a controller. -/
structure Controller where
  store : Store
  interlocking : Interlocking
  roster : Roster
  catalog : Catalog
  pids : PidAllocator
  live : Table Pid RunId
  runs : Table RunId Run
  adapter : Adapter
  power : Bool
  defaultSync : SyncLevel
  /-- What a driver answers instead of carrying out a call. -/
  faults : Driver → DriverCall → Option DriverError
  /-- The number of alarms set so far. -/
  alarms : Nat
  events : List Event
  calls : List DriverRecord
  started : List Task

namespace Controller

/-! ## Starting up -/

/-- A controller for a layout, before anything is loaded. -/
def ofLayout (store : Store) (layout : Layout) (adapter : Adapter) (sync : SyncLevel) :
    Controller :=
  { store := store
    interlocking := .ofLayout layout
    roster := .empty
    catalog := .empty
    pids := .empty
    live := Table.empty
    runs := Table.empty
    adapter := adapter
    power := false
    defaultSync := sync
    faults := fun _ _ => none
    alarms := 0
    events := []
    calls := []
    started := [] }

/-! ## What leaves the controller -/

/-- Tells clients. -/
def tell (c : Controller) (e : Event) : Controller := { c with events := c.events ++ [e] }

/-- Tells clients, if there is something to tell. -/
def tellAll (c : Controller) (es : List Event) : Controller := { c with events := c.events ++ es }

/-- Starts a task. -/
def begin (c : Controller) (jobs : List Job) : Controller :=
  { c with started := c.started ++ [.ofJobs jobs] }

/-- The next alarm for a moment. -/
def alarm (c : Controller) (moment : Nat) : Alarm × Controller :=
  (⟨moment, c.alarms⟩, { c with alarms := c.alarms + 1 })

/-! ## The store -/

/-- Makes a change in the store. -/
def save (c : Controller) (change : RowChange) : Except StorageError Unit × Controller :=
  let (result, store) := c.store.change change
  (result, { c with store := store })

/-- Makes a change in the store, for better or worse. -/
def saveAnyway (c : Controller) (change : RowChange) : Controller := (c.save change).2

/-! ## Runs -/

/-- The live run with a name. -/
def liveRun? (c : Controller) (pid : Pid) : Option (RunId × Run) := do
  let id ← c.live.get? pid
  let run ← c.runs.get? id
  return (id, run)

/-- Changes a run. -/
def modifyRun (c : Controller) (id : RunId) (change : Run → Run) : Controller :=
  { c with runs := c.runs.modify id change }

/-- The live runs as clients are shown them. -/
def entries (c : Controller) : List RunEntry :=
  c.live.values.filterMap fun id => (c.runs.get? id).map Run.entry

/-- Tells clients which runs are live. -/
def tellRuns (c : Controller) : Controller := c.tell (.running c.entries)

/-- Tells clients which scripts there are. -/
def tellCatalog (c : Controller) : Controller := c.tell (.catalog c.catalog.summaries)

end Controller

/-! ## Outcomes of jobs -/

/-- What tasks of a controller watch. -/
inductive Watched where
  | run (id : RunId)
  | hardware
  deriving DecidableEq, Repr

/-- What a job comes to: it has to wait, it is done with jobs to follow and perhaps a
reply, or it ends its task with a failure. -/
inductive Outcome where
  | waits (wait : Wait Watched)
  | done (c : Controller) (next : List Job) (reply : Option Reply)
  | fails (c : Controller) (f : Failure)

namespace Outcome

/-- Done, with nothing to follow. -/
def finished (c : Controller) : Outcome := .done c [] none

/-- Done, with a reply. -/
def answers (c : Controller) (reply : Reply) : Outcome := .done c [] (some reply)

/-- Done, with jobs to follow. -/
def follows (c : Controller) (next : List Job) : Outcome := .done c next none

end Outcome

end Signalbox
