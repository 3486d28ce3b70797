import Mathlib.Data.List.Perm.Basic
import Mathlib.Data.Multiset.MapFold
import Signalbox.Control.Start
import Signalbox.Proofs.Control.Serving
import Signalbox.Proofs.Control.Spheres
import Signalbox.Proofs.Except

/-
  Signalbox/Proofs/Control/World.lean --- a controller and its tasks in any order.

  A world is a controller with its clock and its tasks.  At any moment a client may
  ask for something, any task may have its turn, time may pass, and the store and
  the drivers may begin to answer otherwise.  A schedule picks one order of turns;
  here every order is possible, so that what holds of every reachable world does not
  depend on who is woken when.
-/

set_option autoImplicit false

namespace Signalbox

/-- A clock, a controller and the tasks that have not ended. -/
structure World where
  now : Nat
  controller : Controller
  tasks : List Task

namespace World

/-! ## Moves -/

/-- What may happen next. -/
inductive Move where
  /-- A client asks for something. -/
  | ask (op : Operation)
  /-- A task has its turn. -/
  | turn (place : Nat)
  | wait (milliseconds : Nat)
  /-- The store and the drivers are other than before. -/
  | outside (store : Store) (faults : Driver → DriverCall → Option DriverError)

/-- The world after a task has had its turn. -/
def turn (w : World) (place : Nat) : World :=
  match w.tasks[place]? with
  | none => w
  | some t =>
    match t.step w.now w.controller with
    | .waits _ => w
    | .goesOn c started t => { w with controller := c, tasks := w.tasks.set place t ++ started }
    | .ends c started _ =>
      { w with controller := c, tasks := w.tasks.eraseIdx place ++ started }

/-- The world after a move. -/
def after (w : World) : Move → World
  | .ask op => { w with tasks := w.tasks ++ [.ofJobs [.operate op]] }
  | .turn place => w.turn place
  | .wait milliseconds => { w with now := w.now + milliseconds }
  | .outside store faults =>
    { w with controller := { w.controller with store := store, faults := faults } }

/-- The world after some moves. -/
def afterAll (w : World) (moves : List Move) : World := moves.foldl after w

/-- The job that a move does, if any. -/
def job? (w : World) : Move → Option Job
  | .turn place => w.tasks[place]?.bind (·.jobs.head?)
  | _ => none

/-! ## Reachable worlds -/

/-- The world of a controller that has just been started. -/
def ofController (c : Controller) : World := ⟨0, c.takeStarted.2, c.takeStarted.1⟩

end World

/-- A controller that has run nothing yet. -/
structure Controller.IsFresh (c : Controller) : Prop where
  pids : c.pids = .empty
  live : c.live = Table.empty
  runs : c.runs = Table.empty
  started : ∀ t ∈ c.started, ∀ j ∈ t.jobs, j.IsPlain

/-- What some moves lead to from a controller that has run nothing. -/
inductive World.Reachable : World → Prop
  | start {c : Controller} (fresh : c.IsFresh) : Reachable (.ofController c)
  | move {w : World} (m : World.Move) (h : Reachable w) : Reachable (w.after m)

namespace Controller

/-- With nothing started there is nothing to take. -/
theorem takeStarted_eq {c : Controller} (h : c.started = []) : c.takeStarted = ([], c) := by
  rw [takeStarted, ← h]

/-- What is loaded is a controller for the layout in the store, with its locos and scripts. -/
theorem load_eq {store : Store} {adapter : Adapter} {sync : SyncLevel} {c : Controller}
    (h : load store adapter sync = .ok c) :
    ∃ nodes links roster rows, store.loadNodes = .ok nodes ∧
      c = { ofLayout store (.ofParts nodes links) adapter sync with
        roster := roster
        catalog := Catalog.empty.registerAll (Catalog.scriptsOf rows) } := by
  obtain ⟨nodes, hnodes, h⟩ := Steps.bind_eq_ok.mp h
  obtain ⟨links, -, h⟩ := Steps.bind_eq_ok.mp h
  obtain ⟨locos, -, h⟩ := Steps.bind_eq_ok.mp h
  obtain ⟨rows, -, h⟩ := Steps.bind_eq_ok.mp h
  exact ⟨nodes, links, _, rows, hnodes, (Except.ok.inj h).symm⟩

theorem isFresh_load {store : Store} {adapter : Adapter} {sync : SyncLevel} {c : Controller}
    (h : load store adapter sync = .ok c) : c.IsFresh := by
  obtain ⟨nodes, links, roster, rows, -, rfl⟩ := load_eq h
  exact ⟨rfl, rfl, rfl, by simp [ofLayout]⟩

/-- A controller that is started as a configuration wants it has run nothing. -/
theorem isFresh_ofConfig {store : Store} {config : Config} {connect : String → Attempt}
    {c : Controller} (h : ofConfig store config connect = .ok c) : c.IsFresh := by
  obtain ⟨c', hload, h⟩ := Steps.bind_eq_ok.mp h
  have hfresh := isFresh_load hload
  obtain rfl := Except.ok.inj h
  split
  · exact hfresh
  · refine ⟨hfresh.pids, hfresh.live, hfresh.runs, ?_⟩
    intro t ht
    rcases List.mem_append.mp ht with ht | ht
    · exact hfresh.started t ht
    · rw [List.mem_singleton.mp ht]
      simp [Task.ofJobs, Job.IsPlain]

/-- A driver that comes up in time takes its place. -/
theorem connected_eq {c : Controller} {generation : Nat} (d : Device) (kind : DriverKind)
    (h : c.adapter.generation = generation) :
    ∃ (a : Adapter) (events : List Event), a.status = .available ∧
      c.connected generation d (.ok kind) = { c with adapter := a, events := events } := by
  have hinstall : c.adapter.install? generation d kind =
      some (Adapter.withStatus { c.adapter with
        driver := ⟨kind, generation⟩
        device := d
        message := kind.message } .available) := by rw [Adapter.install?, if_pos h]
  rw [connected, hinstall]
  exact ⟨_, _, rfl, rfl⟩

end Controller

namespace World

theorem Reachable.afterAll {w : World} (h : w.Reachable) (moves : List Move) :
    (w.afterAll moves).Reachable := by
  induction moves generalizing w with
  | nil => exact h
  | cons m moves ih => exact ih (h.move m)

/-! ## Turns -/

section Turn

variable {w : World} {place : Nat} {t : Task} {job : Job} {rest : List Job}

theorem turn_none (h : w.tasks[place]? = none) : w.turn place = w := by
  rw [turn, h]

theorem turn_over (h : w.tasks[place]? = some t) (hjobs : t.jobs = []) :
    w.turn place = { w with tasks := w.tasks.eraseIdx place } := by
  simp [turn, h, Task.step, hjobs]

theorem turn_waits (h : w.tasks[place]? = some t) (hjobs : t.jobs = job :: rest)
    {wait : Wait Watched} (hrun : w.controller.run w.now job = .waits wait) :
    w.turn place = w := by
  simp [turn, h, Task.step, hjobs, hrun]

theorem turn_done (h : w.tasks[place]? = some t) (hjobs : t.jobs = job :: rest)
    {c : Controller} {next : List Job} {reply : Option Reply}
    (hrun : w.controller.run w.now job = .done c next reply) :
    w.turn place =
      { w with
        controller := c.takeStarted.2
        tasks := w.tasks.set place ⟨next ++ rest, reply.getD t.reply⟩ ++ c.started } := by
  simp [turn, h, Task.step, hjobs, hrun, Controller.takeStarted]

/-- A job is done by the turn of a task that begins with it. -/
theorem job?_eq_some {m : Move} (h : w.job? m = some job) :
    ∃ place t rest, m = .turn place ∧ w.tasks[place]? = some t ∧ t.jobs = job :: rest := by
  cases m with
  | turn place =>
    obtain ⟨t, ht, hjobs⟩ := Option.bind_eq_some_iff.mp h
    obtain ⟨rest, hrest⟩ := List.head?_eq_some_iff.mp hjobs
    exact ⟨place, t, rest, rfl, ht, hrest⟩
  | ask _ => simp [job?] at h
  | wait _ => simp [job?] at h
  | outside _ _ => simp [job?] at h

/-- After a turn, the task has what follows before the rest. -/
theorem tasks_turn_self (h : w.tasks[place]? = some t) (hjobs : t.jobs = job :: rest)
    {c : Controller} {next : List Job} {reply : Option Reply}
    (hrun : w.controller.run w.now job = .done c next reply) :
    (w.turn place).tasks[place]? = some ⟨next ++ rest, reply.getD t.reply⟩ := by
  obtain ⟨hplace, -⟩ := List.getElem?_eq_some_iff.mp h
  rw [turn_done h hjobs hrun, List.getElem?_append_left (by simpa using hplace)]
  simp [hplace]

theorem turn_fails (h : w.tasks[place]? = some t) (hjobs : t.jobs = job :: rest)
    {c : Controller} {f : Failure} (hrun : w.controller.run w.now job = .fails c f) :
    w.turn place =
      { w with controller := c.takeStarted.2, tasks := w.tasks.eraseIdx place ++ c.started } := by
  simp [turn, h, Task.step, hjobs, hrun, Controller.takeStarted]

/-! ## Moves -/

/-- A move that does a job leaves the controller as the job does, and the world as it was when
the job has to wait. -/
theorem after_cases {m : Move} (hjob : w.job? m = some job) :
    ((∃ wait, w.controller.run w.now job = .waits wait) ∧ w.after m = w) ∨
      (∃ c next reply, w.controller.run w.now job = .done c next reply ∧
        (w.after m).controller = c.takeStarted.2) ∨
      ∃ c f, w.controller.run w.now job = .fails c f ∧
        (w.after m).controller = c.takeStarted.2 := by
  obtain ⟨place, t, rest, rfl, ht, hjobs⟩ := job?_eq_some hjob
  cases hrun : w.controller.run w.now job with
  | waits wait => exact .inl ⟨⟨wait, rfl⟩, turn_waits ht hjobs hrun⟩
  | done c next reply =>
    exact .inr (.inl ⟨c, next, reply, rfl, congrArg controller (turn_done ht hjobs hrun)⟩)
  | fails c f => exact .inr (.inr ⟨c, f, rfl, congrArg controller (turn_fails ht hjobs hrun)⟩)

/-- A move that does a job leaves what the job leaves behind, but for tasks that were started. -/
theorem after_of_job {m : Move} (hjob : w.job? m = some job) :
    ∃ started, (w.after m).controller =
      { (w.controller.run w.now job).leaving w.controller with started := started } := by
  rcases after_cases hjob with ⟨⟨wait, hrun⟩, hafter⟩ | ⟨c, next, reply, hrun, hafter⟩ |
    ⟨c, f, hrun, hafter⟩
  · exact ⟨w.controller.started, by rw [hafter, hrun]; rfl⟩
  · exact ⟨[], by rw [hafter, hrun]; rfl⟩
  · exact ⟨[], by rw [hafter, hrun]; rfl⟩

/-- A move that does no job only changes the world around a controller. -/
theorem after_of_no_job {m : Move} (hjob : w.job? m = none) :
    ∃ store faults, (w.after m).controller =
      { w.controller with store := store, faults := faults } := by
  cases m with
  | turn place =>
    refine ⟨w.controller.store, w.controller.faults, ?_⟩
    change (w.turn place).controller = w.controller
    cases ht : w.tasks[place]? with
    | none => rw [turn_none ht]
    | some t =>
      have hjobs : t.jobs = [] := by simpa [job?, ht] using hjob
      rw [turn_over ht hjobs]
  | outside store faults => exact ⟨store, faults, rfl⟩
  | ask op => exact ⟨_, _, rfl⟩
  | wait milliseconds => exact ⟨_, _, rfl⟩

end Turn

/-! ## Bringing another driver up -/

section Switch

variable (w : World)

/-- A client asks for the virtual driver. -/
def switchAsked : World := w.after (.ask (.switchTo .virtual .virtual))

/-- Its task begins the switch, and starts another one that is to end it. -/
def switchBegun : World := w.switchAsked.turn w.tasks.length

/-- The driver is in place. -/
def switched : World := w.switchBegun.turn (w.tasks.length + 1)

variable {w}

theorem getElem?_switchAsked : w.switchAsked.tasks[w.tasks.length]? =
    some (.ofJobs [.operate (.switchTo .virtual .virtual)]) := by
  simp [switchAsked, after]

/-- The driver before has been closed, and the task that is to end the switch comes last. -/
theorem switchBegun_eq (hstarted : w.controller.started = []) :
    w.switchBegun =
      { w with
        controller := { w.controller with
          adapter := w.controller.adapter.beginSwitch .virtual
          calls := w.controller.calls ++ [⟨w.controller.adapter.driver, .close⟩] }
        tasks := w.tasks ++ [⟨[], .done⟩,
          .ofJobs [.connect (w.controller.adapter.generation + 1) .virtual .virtual]] } := by
  have hrun : w.switchAsked.controller.run w.switchAsked.now
      (.operate (.switchTo .virtual .virtual)) =
        .done (w.controller.switchTo .virtual .virtual) [] none := rfl
  have hbegun : (w.controller.switchTo .virtual .virtual).started =
      [.ofJobs [.connect (w.controller.adapter.generation + 1) .virtual .virtual]] := by
    change w.controller.started ++ [_] = _
    rw [hstarted, List.nil_append]
    rfl
  rw [switchBegun, turn_done getElem?_switchAsked rfl hrun, hbegun]
  simp [switchAsked, after, Task.ofJobs, Controller.takeStarted, Controller.switchTo,
    Controller.callDriver, Controller.begin, hstarted]

theorem getElem?_switchBegun (hstarted : w.controller.started = []) :
    w.switchBegun.tasks[w.tasks.length + 1]? =
      some (.ofJobs [.connect (w.controller.adapter.generation + 1) .virtual .virtual]) := by
  simp [switchBegun_eq hstarted]

/-- Requests can be sent again, and both tasks are over. -/
theorem switched_eq (hstarted : w.controller.started = []) :
    ∃ (a : Adapter) (events : List Event), a.status = .available ∧
      w.switched =
        { w with
          controller := { w.controller with
            adapter := a
            calls := w.controller.calls ++ [⟨w.controller.adapter.driver, .close⟩]
            events := events }
          tasks := w.tasks ++ [⟨[], .done⟩, ⟨[], .done⟩] } := by
  have hbegun := switchBegun_eq hstarted
  have hrun : w.switchBegun.controller.run w.switchBegun.now
      (.connect (w.controller.adapter.generation + 1) .virtual .virtual) =
        .finished (w.switchBegun.controller.connected (w.controller.adapter.generation + 1)
          .virtual (.ok .virtual)) := rfl
  have hgeneration : w.switchBegun.controller.adapter.generation =
      w.controller.adapter.generation + 1 := by rw [hbegun]; rfl
  obtain ⟨a, events, havailable, hconnected⟩ :=
    Controller.connected_eq .virtual .virtual hgeneration
  refine ⟨a, events, havailable, ?_⟩
  rw [switched, turn_done (getElem?_switchBegun hstarted) rfl hrun, hconnected, hbegun]
  simp [Controller.takeStarted, hstarted, Task.ofJobs]

end Switch

end World

end Signalbox
