import Signalbox.Proofs.Control.Books
import Signalbox.Proofs.Layout.Frames

/-
  Signalbox/Proofs/Control/Alone.lean --- operating turnouts and routes with nobody in between.

  A task that runs alone has one turn after the other until it ends; only the hardware may
  keep it waiting.  An operation on turnouts or routes that is refused leaves everything
  as it was.  One that is not changes the layout and the routes and tells clients, in one
  step, and then sees to the turnouts that it has changed: each in turn is saved, its
  handler is started, and the hardware is told.  Nothing else changes.
-/

set_option autoImplicit false

namespace Signalbox

/-! ## Running alone -/

/-- A task that runs alone from a moment on ends with a controller, with the tasks that it has
started and with a reply.  When it waited for the hardware, it finds an adapter of whatever
status. -/
inductive Task.Completes : Nat → Controller → Task → Controller → List Task → Reply → Prop
  | ends {now : Nat} {c c' : Controller} {t : Task} {started : List Task} {reply : Reply}
      (step : t.step now c = .ends c' started reply) : Completes now c t c' started reply
  | goesOn {now : Nat} {c c₁ c' : Controller} {t t₁ : Task} {first later : List Task}
      {reply : Reply} (step : t.step now c = .goesOn c₁ first t₁)
      (rest : Completes now c₁ t₁ c' later reply) : Completes now c t c' (first ++ later) reply
  | held {now later : Nat} {c c' : Controller} {t : Task} {wait : Wait Watched} {started : List Task}
      {reply : Reply} (adapter : Adapter) (step : t.step now c = .waits wait)
      (rest : Completes later { c with adapter := adapter } t c' started reply) :
      Completes now c t c' started reply

namespace Task

variable {now : Nat} {c c₁ c' : Controller} {job : Job} {next rest : List Job}
  {reply? : Option Reply} {reply reply' : Reply} {started : List Task}

theorem step_done (hrun : c.run now job = .done c₁ next reply?) :
    step now c ⟨job :: rest, reply⟩ =
      .goesOn { c₁ with started := [] } c₁.started ⟨next ++ rest, reply?.getD reply⟩ := by
  simp only [step, hrun, Controller.takeStarted]

theorem step_waits {wait : Wait Watched} (hrun : c.run now job = .waits wait) :
    step now c ⟨job :: rest, reply⟩ = .waits wait := by
  simp only [step, hrun]

theorem step_fails {f : Failure} (hrun : c.run now job = .fails c₁ f) :
    step now c ⟨job :: rest, reply⟩ = .ends { c₁ with started := [] } c₁.started (.failed f) := by
  simp only [step, hrun, Controller.takeStarted]

theorem completes_over : Completes now c ⟨[], reply⟩ c [] reply := .ends rfl

theorem completes_of_done (hrun : c.run now job = .done c₁ next reply?)
    (h : Completes now { c₁ with started := [] } ⟨next ++ rest, reply?.getD reply⟩ c' started
      reply') :
    Completes now c ⟨job :: rest, reply⟩ c' (c₁.started ++ started) reply' :=
  .goesOn (step_done hrun) h

namespace Completes

theorem ended (h : Completes now c ⟨[], reply⟩ c' started reply') :
    c' = c ∧ started = [] ∧ reply' = reply := by
  cases h with
  | ends step =>
    obtain ⟨rfl, rfl, rfl⟩ := Turn.ends.inj step
    exact ⟨rfl, rfl, rfl⟩
  | goesOn step _ => simp [Task.step] at step
  | held _ step _ => simp [Task.step] at step

theorem of_done (h : Completes now c ⟨job :: rest, reply⟩ c' started reply')
    (hrun : c.run now job = .done c₁ next reply?) :
    ∃ later, Completes now { c₁ with started := [] } ⟨next ++ rest, reply?.getD reply⟩ c' later
      reply' ∧ started = c₁.started ++ later := by
  cases h with
  | ends step => simp [step_done hrun] at step
  | goesOn step h =>
    obtain ⟨rfl, rfl, rfl⟩ := Turn.goesOn.inj ((step_done hrun).symm.trans step)
    exact ⟨_, h, rfl⟩
  | held _ step _ => simp [step_done hrun] at step

theorem of_fails {f : Failure} (h : Completes now c ⟨job :: rest, reply⟩ c' started reply')
    (hrun : c.run now job = .fails c₁ f) :
    c' = { c₁ with started := [] } ∧ started = c₁.started ∧ reply' = .failed f := by
  cases h with
  | ends step =>
    obtain ⟨rfl, rfl, rfl⟩ := Turn.ends.inj ((step_fails hrun).symm.trans step)
    exact ⟨rfl, rfl, rfl⟩
  | goesOn step _ => simp [step_fails hrun] at step
  | held _ step _ => simp [step_fails hrun] at step

end Completes

end Task

/-! ## What seeing to turnouts leaves behind -/

namespace Books

/-- The books after the handler of an event has been started, if there is one. -/
def fire (b : Books) (catalog : Catalog) (e : TurnoutEvent) : Books :=
  match catalog.handlers.get? e with
  | none => b
  | some script => b.startRun script none eventRoot

/-- The books after the handlers for some turnouts have been started, one after the other. -/
def fireAll (b : Books) (catalog : Catalog) (changes : List Setting) : Books :=
  changes.foldl (fun b x => b.fire catalog ⟨x.turnout, x.state⟩) b

/-- The books with tasks that were started before. -/
def behind (b : Books) (first : List Task) : Books := { b with started := first ++ b.started }

variable {b : Books} {catalog : Catalog} {first : List Task}

theorem fire_behind (e : TurnoutEvent) :
    (b.behind first).fire catalog e = (b.fire catalog e).behind first := by
  unfold fire
  split
  · rfl
  · simp [startRun, begin, behind, nextPid]

theorem fireAll_behind (changes : List Setting) :
    (b.behind first).fireAll catalog changes = (b.fireAll catalog changes).behind first := by
  induction changes generalizing b with
  | nil => rfl
  | cons x rest ih =>
    have hfirst : (b.behind first).fire catalog ⟨x.turnout, x.state⟩ = _ := fire_behind _
    change ((b.behind first).fire catalog _).fireAll catalog rest = _
    rw [hfirst, ih]
    rfl

theorem behind_taken (b : Books) : b.taken.behind b.started = b := by
  simp [taken, behind]

theorem taken_behind (b : Books) (first : List Task) : (b.behind first).taken = b.taken := rfl

end Books

/-- The store after the states of some turnouts have been saved, as far as it takes them. -/
def Store.saveAll (s : Store) (changes : List Setting) : Store :=
  changes.foldl (fun s x => (s.change (.saveState x.turnout x.state)).2) s

/-- The calls to a driver that some turnouts are good for: none when there is no driver. -/
def Adapter.callsFor (a : Adapter) (changes : List Setting) : List DriverRecord :=
  if a.status = .available then
    changes.map fun x => ⟨a.driver, .request (.turnout x.turnout x.state)⟩
  else []

theorem Adapter.callsFor_cons (a : Adapter) (x : Setting) (rest : List Setting) :
    a.callsFor (x :: rest) = a.callsFor [x] ++ a.callsFor rest := by
  unfold callsFor
  split <;> simp

namespace Controller

/-- A controller with other books. -/
def withBooks (c : Controller) (b : Books) : Controller :=
  { c with pids := b.pids, live := b.live, runs := b.runs, started := b.started }

/-- The controller that some turnouts were seen to, and the tasks that were started: each turnout
in turn is saved, its handler is started and the driver is called.  Clients are told which runs
are live now, and nothing else. -/
structure SeesTo (c : Controller) (changes : List Setting) (c' : Controller)
    (started : List Task) : Prop where
  left : ∃ told, (∀ e ∈ told, ∃ entries, e = .running entries) ∧
    c' = withBooks
      { c with
        store := c.store.saveAll changes
        adapter := c'.adapter
        events := c.events ++ told
        calls := c.calls ++ c'.adapter.callsFor changes }
      (c.books.fireAll c.catalog changes).taken
  started : started = (c.books.fireAll c.catalog changes).started
  /-- The driver is the one in place, or the one after the switch that was waited for. -/
  adapter : c.adapter.status ≠ .switching → c'.adapter = c.adapter
  sent : changes ≠ [] → c'.adapter.status ≠ .switching

variable {c c' c₁ : Controller} {now : Nat} {rest : List Job} {reply reply' : Reply}
  {started : List Task} {changes : List Setting}

/-- A turnout is saved and its handler started. -/
theorem noteTurnout_eq (c : Controller) (id : NodeId) (state : TurnoutState) :
    ∃ told, (∀ e ∈ told, ∃ entries, e = .running entries) ∧
      c.noteTurnout id state = withBooks
        { c with
          store := (c.store.change (.saveState id state)).2
          events := c.events ++ told } (c.books.fire c.catalog ⟨id, state⟩) := by
  let saved := c.saveAnyway (.saveState id state)
  have hhandle : c.noteTurnout id state = (saved.handle ⟨id, state⟩).2 := rfl
  have hcatalog : saved.catalog = c.catalog := rfl
  rw [hhandle, handle, Books.fire, hcatalog]
  cases c.catalog.handlers.get? ⟨id, state⟩ with
  | none => exact ⟨[], by simp, by simp [saved, saveAnyway, save, withBooks, books]⟩
  | some script =>
    refine ⟨[.running _], fun e he => ⟨_, List.mem_singleton.mp he⟩, rfl⟩

theorem adapter_noteTurnout (c : Controller) (id : NodeId) (state : TurnoutState) :
    (c.noteTurnout id state).adapter = c.adapter := by
  obtain ⟨told, -, hnoted⟩ := c.noteTurnout_eq id state
  rw [hnoted]
  rfl

/-- During a switch nothing can be sent. -/
theorem run_turnoutJob_switching (hstatus : c.adapter.status = .switching) (now : Nat)
    (x : Setting) :
    c.run now (turnoutJob x.turnout x.state) = .waits ⟨some .hardware, none⟩ := by
  simp only [turnoutJob, run, sending, send?, hstatus]

/-- Else the driver is called, if there is one, whatever it answers. -/
theorem run_turnoutJob (hstatus : c.adapter.status ≠ .switching) (now : Nat) (x : Setting) :
    c.run now (turnoutJob x.turnout x.state) =
      .finished { c with calls := c.calls ++ c.adapter.callsFor [x] } := by
  cases hadapter : c.adapter.status with
  | switching => exact absurd hadapter hstatus
  | unavailable => simp [turnoutJob, run, sending, send?, hadapter, refusal, Adapter.callsFor]
  | available =>
    simp only [turnoutJob, run, sending, send?, hadapter, callDriver, Adapter.callsFor, refusal]
    cases c.faults c.adapter.driver (.request (.turnout x.turnout x.state)) <;> rfl

/-- The controller after an adapter has told the hardware about a turnout. -/
def sentBy (c : Controller) (a : Adapter) (x : Setting) : Controller :=
  { c with adapter := a, calls := c.calls ++ a.callsFor [x], started := [] }

/-- A task that tells the hardware about a turnout goes on after that, however long it has to wait
for the hardware. -/
theorem sends_of_completes {x : Setting}
    (h : Task.Completes now c ⟨turnoutJob x.turnout x.state :: rest, reply⟩ c' started reply') :
    ∃ now' a later, (c.adapter.status ≠ .switching → a = c.adapter) ∧ a.status ≠ .switching ∧
      Task.Completes now' (c.sentBy a x) ⟨rest, reply⟩ c' later reply' ∧
      started = c.started ++ later := by
  generalize htask : (⟨turnoutJob x.turnout x.state :: rest, reply⟩ : Task) = t at h
  induction h with
  | @ends now c _ _ _ _ step =>
    subst htask
    by_cases hstatus : c.adapter.status = .switching
    · simp [Task.step_waits (run_turnoutJob_switching hstatus now x)] at step
    · simp [Task.step_done (run_turnoutJob hstatus now x)] at step
  | @goesOn now c _ _ _ _ _ later _ step h _ =>
    subst htask
    by_cases hstatus : c.adapter.status = .switching
    · simp [Task.step_waits (run_turnoutJob_switching hstatus now x)] at step
    · obtain ⟨rfl, rfl, rfl⟩ :=
        Turn.goesOn.inj ((Task.step_done (run_turnoutJob hstatus now x)).symm.trans step)
      exact ⟨now, c.adapter, later, fun _ => rfl, hstatus, h, rfl⟩
  | @held now _ c _ _ _ _ _ a step h ih =>
    subst htask
    by_cases hstatus : c.adapter.status = .switching
    · -- Whatever adapter it is that comes out of the switch.
      obtain ⟨now', a', later, -, hready, hrest, hstarted⟩ := ih rfl
      exact ⟨now', a', later, fun hnot => absurd hstatus hnot, hready, hrest, hstarted⟩
    · simp [Task.step_done (run_turnoutJob hstatus now x)] at step

/-- If the rest can be completed, the whole can. -/
theorem completes_of_sends {x : Setting}
    (h : ∀ a, ∃ c' started reply', Task.Completes now (c.sentBy a x) ⟨rest, reply⟩ c' started
      reply') :
    ∃ c' started reply',
      Task.Completes now c ⟨turnoutJob x.turnout x.state :: rest, reply⟩ c' started reply' := by
  by_cases hstatus : c.adapter.status = .switching
  · -- The adapter comes out of the switch with a driver.
    let a := c.adapter.withStatus .available
    obtain ⟨c', started, reply', hrest⟩ := h a
    have hready : ({ c with adapter := a } : Controller).adapter.status ≠ .switching := by
      simp [a, Adapter.withStatus]
    exact ⟨c', _, reply', .held a (Task.step_waits (run_turnoutJob_switching hstatus now x))
      (Task.completes_of_done (run_turnoutJob hready now x) hrest)⟩
  · obtain ⟨c', started, reply', hrest⟩ := h c.adapter
    exact ⟨c', _, reply', Task.completes_of_done (run_turnoutJob hstatus now x) hrest⟩

/-! ## Seeing to turnouts -/

theorem SeesTo.nothing (c : Controller) : c.SeesTo [] { c with started := [] } c.started := by
  have hcalls (a : Adapter) : a.callsFor [] = [] := by simp [Adapter.callsFor]
  refine ⟨⟨[], by simp, ?_⟩, rfl, fun _ => rfl, fun h => absurd rfl h⟩
  simp [hcalls, Store.saveAll, withBooks, Books.fireAll, Books.taken, books]

/-- The first turnout is seen to before the others. -/
theorem SeesTo.first {x : Setting} {others : List Setting} {a : Adapter} {later : List Task}
    (h : ((c.noteTurnout x.turnout x.state).sentBy a x).SeesTo others c' later)
    (hsame : (c.noteTurnout x.turnout x.state).adapter.status ≠ .switching →
      a = (c.noteTurnout x.turnout x.state).adapter) (hready : a.status ≠ .switching) :
    c.SeesTo (x :: others) c' ((c.noteTurnout x.turnout x.state).started ++ later) := by
  rw [adapter_noteTurnout] at hsame
  obtain ⟨told, htold, hnoted⟩ := c.noteTurnout_eq x.turnout x.state
  obtain ⟨⟨told', htold', hleft⟩, hstarted, hadapter, -⟩ := h
  have hplace : c'.adapter = a := hadapter hready
  -- The handlers of the others are started with nothing that was started before.
  have hfired : c.books.fireAll c.catalog (x :: others) =
      ((c.books.fire c.catalog ⟨x.turnout, x.state⟩).taken.fireAll c.catalog others).behind
        (c.books.fire c.catalog ⟨x.turnout, x.state⟩).started := by
    rw [← Books.fireAll_behind, Books.behind_taken]
    rfl
  rw [hnoted] at hleft hstarted ⊢
  refine ⟨⟨told ++ told', fun e he => ?_, ?_⟩, ?_, fun hnot => ?_, fun _ => hplace ▸ hready⟩
  · rcases List.mem_append.mp he with he | he
    · exact htold e he
    · exact htold' e he
  · rw [hfired, Books.taken_behind, Adapter.callsFor_cons, ← List.append_assoc, ← List.append_assoc]
    rw [hplace] at hleft ⊢
    exact hleft
  · rw [hfired, hstarted]
    rfl
  · rw [hplace, hsame hnot]

/-- A task that has turnouts to see to sees to them, and keeps its reply. -/
theorem seesTo_of_completes
    (h : Task.Completes now c ⟨[.settings changes], reply⟩ c' started reply') :
    c.SeesTo changes c' started ∧ reply' = reply := by
  induction changes generalizing now c started with
  | nil =>
    have hrun : c.run now (.settings []) = .done c [] none := rfl
    obtain ⟨later, hrest, rfl⟩ := h.of_done hrun
    obtain ⟨rfl, rfl, rfl⟩ := hrest.ended
    rw [List.append_nil]
    exact ⟨.nothing c, rfl⟩
  | cons x others ih =>
    have hrun : c.run now (.settings (x :: others)) = .done (c.noteTurnout x.turnout x.state)
        [turnoutJob x.turnout x.state, .settings others] none := rfl
    obtain ⟨later, hrest, rfl⟩ := h.of_done hrun
    obtain ⟨now', a, later', hsame, hready, hothers, rfl⟩ := sends_of_completes hrest
    obtain ⟨hsees, rfl⟩ := ih hothers
    exact ⟨SeesTo.first hsees hsame hready, rfl⟩

theorem exists_completes_settings (c : Controller) (now : Nat) (changes : List Setting)
    (reply : Reply) : ∃ c' started reply',
      Task.Completes now c ⟨[.settings changes], reply⟩ c' started reply' := by
  induction changes generalizing c with
  | nil =>
    have hrun : c.run now (.settings []) = .done c [] none := rfl
    exact ⟨_, _, reply, Task.completes_of_done hrun Task.completes_over⟩
  | cons x others ih =>
    have hrun : c.run now (.settings (x :: others)) = .done (c.noteTurnout x.turnout x.state)
        [turnoutJob x.turnout x.state, .settings others] none := rfl
    obtain ⟨c', started, reply', hrest⟩ : ∃ c' started reply', Task.Completes now
        { c.noteTurnout x.turnout x.state with started := [] }
        ⟨[turnoutJob x.turnout x.state, .settings others], reply⟩ c' started reply' :=
      completes_of_sends fun a => ih _
    exact ⟨c', _, reply', Task.completes_of_done hrun hrest⟩

/-! ## The operations on turnouts and routes -/

/-- How an operation on a turnout or a route ends: the controller, the tasks that it has started,
and the reply. -/
inductive Concludes (c : Controller) : Operation → Controller → List Task → Reply → Prop
  /-- An operation that the layout refuses leaves everything as it was. -/
  | turnoutRefused {id : NodeId} {state : TurnoutState} {e : LayoutError}
      (refused : c.interlocking.setTurnout id state = .error e) :
      Concludes c (.setTurnout id state) { c with started := [] } c.started (.failed (.layout e))
  | routeRefused {start finish : NodeId} {e : LayoutError}
      (refused : c.interlocking.setRoute start finish = .error e) :
      Concludes c (.setRoute start finish) { c with started := [] } c.started (.failed (.layout e))
  | clearRefused {id : RouteId} {e : LayoutError}
      (refused : c.interlocking.clearRoute id = .error e) :
      Concludes c (.clearRoute id) { c with started := [] } c.started (.failed (.layout e))
  | turnout {id : NodeId} {state : TurnoutState} {released : Components} {s : Interlocking}
      {c' : Controller} {started : List Task}
      (found : c.interlocking.setTurnout id state = .ok (released, s))
      (frees : c.interlocking.Frees id state s)
      (sees : (tellAll { c with interlocking := s }
        (releasedEvents released ++ [.turnout id state])).SeesTo [⟨id, state⟩] c' started) :
      Concludes c (.setTurnout id state) c' started .done
  | route {start finish : NodeId} {o : RouteOutcome} {c' : Controller} {started : List Task}
      (found : c.interlocking.setRoute start finish = .ok o)
      (replaces : c.interlocking.Replaces start finish o)
      (sees : (tellAll { c with interlocking := o.after } (routeEvents o)).SeesTo o.changes c'
        started) :
      Concludes c (.setRoute start finish) c' started (.route o.id o.route)
  | cleared {id : RouteId} {released : Components} {s : Interlocking}
      (found : c.interlocking.clearRoute id = .ok (released, s))
      (clears : c.interlocking.Clears id s) :
      Concludes c (.clearRoute id)
        { tell { c with interlocking := s } (.released released) with started := [] } c.started
        (.components released)

/-- An operation that runs alone comes to an end, and ends so however long it has to wait for the
hardware. -/
def AnswersAlone (c : Controller) (now : Nat) (op : Operation) : Prop :=
  (∃ c' started reply, Task.Completes now c (.ofJobs [.operate op]) c' started reply) ∧
    ∀ c' started reply, Task.Completes now c (.ofJobs [.operate op]) c' started reply →
      c.Concludes op c' started reply

variable {c c₁ : Controller} {now : Nat}

theorem answersAlone_of_fails {op : Operation} {f : Failure}
    (hrun : c.run now (.operate op) = .fails c f)
    (h : c.Concludes op { c with started := [] } c.started (.failed f)) :
    c.AnswersAlone now op := by
  refine ⟨⟨_, _, _, .ends (Task.step_fails hrun)⟩, fun c' started reply hdone => ?_⟩
  obtain ⟨rfl, rfl, rfl⟩ := hdone.of_fails hrun
  exact h

/-- An operation that does what the job for some turnouts does after it has changed the layout, and
has its reply by then. -/
theorem answersAlone_of_settings {op : Operation} {changes : List Setting} {reply : Reply}
    (hrun : c.run now (.operate op) =
      .done (c₁.nextSetting changes).1 (c₁.nextSetting changes).2 (some reply))
    (h : ∀ c' started, c₁.SeesTo changes c' started → c.Concludes op c' started reply) :
    c.AnswersAlone now op := by
  have hsettings : c₁.run now (.settings changes) =
      .done (c₁.nextSetting changes).1 (c₁.nextSetting changes).2 none := rfl
  constructor
  · obtain ⟨c', started, reply', hdone⟩ := exists_completes_settings c₁ now changes reply
    obtain ⟨later, hrest, -⟩ := hdone.of_done hsettings
    exact ⟨c', _, reply', Task.completes_of_done hrun hrest⟩
  · intro c' started reply' hdone
    obtain ⟨later, hrest, rfl⟩ := hdone.of_done hrun
    obtain ⟨hsees, rfl⟩ := seesTo_of_completes (Task.completes_of_done hsettings hrest)
    exact h c' _ hsees

variable {l : Layout}

theorem answersAlone_setRoute (hsound : Interlocking.Sound l c.interlocking) (hl : l.Keyed)
    (hvaries : l.Varies c.interlocking.layout) (start finish : NodeId) :
    c.AnswersAlone now (.setRoute start finish) := by
  cases hset : c.interlocking.setRoute start finish with
  | error e =>
    have hrun : c.run now (.operate (.setRoute start finish)) = .fails c (.layout e) := by
      simp only [run, operate, setRoute, hset]
    exact answersAlone_of_fails hrun (.routeRefused hset)
  | ok o =>
    have hrun : c.run now (.operate (.setRoute start finish)) =
        .done (nextSetting (tellAll { c with interlocking := o.after } (routeEvents o)) o.changes).1
          (nextSetting (tellAll { c with interlocking := o.after } (routeEvents o)) o.changes).2
          (some (.route o.id o.route)) := by
      simp only [run, operate, setRoute, hset]
    exact answersAlone_of_settings hrun fun c' started hsees =>
      .route hset (hsound.replaces hl hvaries hset) hsees

/-- A yard with two platforms, each behind its turnout, and a shed. -/
def stationNodes : List Node :=
  [.turnout ⟨10, "Throat", .origin, .closed, 101, 102⟩,
    .turnout ⟨11, "Shed lead", .origin, .closed, 103, 104⟩] ++
    ([1, 2, 3, 4] : List NodeId).map fun id => .destination ⟨id, "", "", .origin⟩

def stationLinks : List Link :=
  [(100, 1, 10), (101, 10, 2), (102, 10, 11), (103, 11, 3), (104, 11, 4)].map
    fun (id, start, finish) => ⟨id, 1, start, finish, []⟩

/-- The controller of the station after a route has been set from the yard to the first platform. -/
def stationController : Controller :=
  { Controller.ofLayout (.inMemory .empty) .empty
      (.ofDriver .virtual [] fun _ => .virtual) .all with
    interlocking := (Interlocking.ofLayout (.ofParts stationNodes stationLinks)).afterAll
      [.setRoute 1 2] }

end Controller

end Signalbox
