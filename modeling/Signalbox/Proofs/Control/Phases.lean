import Mathlib.Logic.Function.Iterate
import Signalbox.Proofs.Control.Calls

/-
  Signalbox/Proofs/Control/Phases.lean --- the phases of a run.

  A run goes on, is paused, is resumed and goes on again, in this order and whoever
  calls.  Its own commands start in the first of these phases and those of a replay
  in the last, of which there is one at a time.  Once the run is stopped, nothing of
  it starts in any phase, and what is left of its tasks comes to an end without
  another change of the layout, of a loco or of what the run has noted.
-/

set_option autoImplicit false

namespace Signalbox

/-- The state that comes after a state. -/
def RunState.next : RunState → RunState
  | running => paused
  | paused => resuming
  | resuming => running

/-! ## One run -/

namespace Run

variable {now : Nat} {id : RunId} {r r' : Run} {job : Option Job}

@[simp] theorem log_settled (r : Run) : r.settled.log = r.log := by
  rw [settled_eq]
  split <;> rfl

/-- The log tells that a text has started. -/
theorem log_record_ne (r : Run) (now : Nat) (isDelay : Bool) (text : String) :
    (r.record now isDelay text).log ≠ r.log := by
  intro h
  have hlength := congrArg (fun l => l.starts.length) h
  simp [record, RunLog.record] at hlength

/-- The state is moved on some times, and set no other time but when the run is stopped; it is
moved on twice at once only when there is nothing to replay. -/
theorem Becomes.state_eq (h : r.Becomes now id job r') :
    ∃ n, r'.state = RunState.next^[n] r.state ∧ n ≤ 2 ∧ (n = 2 → r.state = .paused) ∧
      (r'.changes = r.changes + n ∨ n = 0 ∧ r' = r.stop) := by
  cases h with
  | same => exact ⟨0, rfl, by simp, by simp, .inl rfl⟩
  | pause paused =>
    obtain ⟨-, hstate, rfl⟩ := Run.pause?_eq_some paused
    exact ⟨1, by simp [withState, hstate, RunState.next], by simp, by simp, .inl rfl⟩
  | resume resumed =>
    obtain ⟨hstate, rfl⟩ := Run.resume?_eq_some resumed
    exact ⟨1, by simp [withState, hstate, RunState.next], by simp, by simp, .inl rfl⟩
  | settle resumed =>
    obtain ⟨hstate, rfl⟩ := Run.resume?_eq_some resumed
    have hsettled : (r.withState .resuming).settled =
        (r.withState .resuming).withState .running := by
      rw [settled_eq]
      exact if_pos rfl
    rw [hsettled]
    exact ⟨2, by simp [withState, hstate, RunState.next], by simp, fun _ => hstate, .inl rfl⟩
  | replayed hstate =>
    rw [settled_eq, if_pos hstate]
    exact ⟨1, by simp [withState, hstate, RunState.next], by simp, by simp, .inl rfl⟩
  | stop => exact ⟨0, rfl, by simp, by simp, .inr ⟨rfl, rfl⟩⟩
  | start _ _ _ _ _ => exact ⟨0, rfl, by simp, by simp, .inl rfl⟩

/-- What a run has noted changes when a command starts, in its phase and before the run is
stopped, and not otherwise. -/
theorem Becomes.log_eq (h : r.Becomes now id job r') : r'.log = r.log ∨
    ∃ part c, job = some (.command id part c) ∧ r.readiness part = .ready ∧
      (part = .replay → r.state = .resuming) := by
  cases h with
  | same => exact .inl rfl
  | pause paused =>
    obtain ⟨-, -, rfl⟩ := Run.pause?_eq_some paused
    exact .inl rfl
  | resume resumed =>
    obtain ⟨-, rfl⟩ := Run.resume?_eq_some resumed
    exact .inl rfl
  | settle resumed =>
    obtain ⟨-, rfl⟩ := Run.resume?_eq_some resumed
    exact .inl (log_settled _)
  | replayed _ => exact .inl (log_settled r)
  | stop => exact .inl rfl
  | start part c doing ready phase => exact .inr ⟨part, c, doing, ready, phase⟩

/-- A run keeps the loco that it was started with. -/
theorem Becomes.loco_eq (h : r.Becomes now id job r') : r'.loco = r.loco := by
  cases h with
  | same => rfl
  | pause paused =>
    obtain ⟨-, -, rfl⟩ := Run.pause?_eq_some paused
    rfl
  | resume resumed =>
    obtain ⟨-, rfl⟩ := Run.resume?_eq_some resumed
    rfl
  | settle resumed =>
    obtain ⟨-, rfl⟩ := Run.resume?_eq_some resumed
    exact loco_settled _
  | replayed _ => exact loco_settled r
  | stop => rfl
  | start _ _ _ _ _ => rfl

/-- A run keeps its script. -/
theorem Becomes.script_eq (h : r.Becomes now id job r') : r'.script = r.script := by
  cases h with
  | same => rfl
  | pause paused =>
    obtain ⟨-, -, rfl⟩ := Run.pause?_eq_some paused
    rfl
  | resume resumed =>
    obtain ⟨-, rfl⟩ := Run.resume?_eq_some resumed
    rfl
  | settle resumed =>
    obtain ⟨-, rfl⟩ := Run.resume?_eq_some resumed
    exact script_settled _
  | replayed _ => exact script_settled r
  | stop => rfl
  | start _ _ _ _ _ => rfl

/-- A run that is stopped stays so. -/
theorem Becomes.stopped (h : r.Becomes now id job r') (hstopped : r.stopped = true) :
    r'.stopped = true := by
  cases h with
  | same => exact hstopped
  | pause paused =>
    obtain ⟨-, -, rfl⟩ := Run.pause?_eq_some paused
    exact hstopped
  | resume resumed =>
    obtain ⟨-, rfl⟩ := Run.resume?_eq_some resumed
    exact hstopped
  | settle resumed =>
    obtain ⟨-, rfl⟩ := Run.resume?_eq_some resumed
    exact (stopped_settled _).trans hstopped
  | replayed _ => exact (stopped_settled r).trans hstopped
  | stop => rfl
  | start _ _ _ _ _ => exact hstopped

theorem not_stopped_of_ready {part : Part} (h : r.readiness part = .ready) :
    r.stopped = false := by
  unfold readiness at h
  split at h
  · simp at h
  · exact Bool.eq_false_iff.mpr (by assumption)

/-- Nothing of a stopped run may start. -/
theorem readiness_of_stopped (h : r.stopped = true) (part : Part) :
    r.readiness part = .never := by
  unfold readiness
  exact if_pos h

end Run

/-! ## What starts nothing -/

namespace Controller

variable {c : Controller} {now : Nat} {id : RunId} {r : Run} {part : Part}

/-- What jobs of runs change besides the books: the layout and the locos. -/
def yard (c : Controller) : Interlocking × Roster := (c.interlocking, c.roster)

/-- A command that may not start yet, or ever, does nothing. -/
theorem run_command_of_not_ready {cmd : Command} (hr : c.runs.get? id = some r)
    (h : r.readiness part ≠ .ready) :
    (∃ wait, c.run now (.command id part cmd) = .waits wait) ∨
      c.run now (.command id part cmd) = .finished c := by
  simp only [run, command, hr]
  cases hready : r.readiness part with
  | ready => exact absurd hready h
  | held => exact .inl ⟨_, rfl⟩
  | never => exact .inr rfl

/-- A command that may start does, and its run notes it. -/
theorem run_command_of_ready {cmd : Command} (hr : c.runs.get? id = some r)
    (hnumbered : c.books.Numbered) (h : r.readiness part = .ready) :
    ∃ c' next reply, c.run now (.command id part cmd) = .done c' next reply ∧
      c'.runs.get? id = some (r.record now cmd.isDelay cmd.text) := by
  have hrun : c.run now (.command id part cmd) =
      (c.modifyRun id (·.record now cmd.isDelay cmd.text)).effect now id r part cmd := by
    simp only [run, command, hr, h]
  have heffect : (c.run now (.command id part cmd)).IsEffect
      (c.books.modifyRun id (·.record now cmd.isDelay cmd.text)) id part :=
    hrun ▸ (c.modifyRun id (·.record now cmd.isDelay cmd.text)).isEffect_effect r cmd
  cases hout : c.run now (.command id part cmd) with
  | waits wait =>
    rw [hout] at heffect
    exact heffect.elim
  | fails c' f =>
    rw [hout] at heffect
    exact heffect.elim
  | done c' next reply =>
    rw [hout] at heffect
    refine ⟨c', next, reply, rfl, ?_⟩
    refine Scene.runs_grows ((hnumbered.modifyRun id _) _ (Nat.le_refl _)) heffect.1 ?_
    rw [Books.runs_modifyRun, if_pos rfl]
    exact congrArg (Option.map _) hr

theorem yard_send? {request : Request} {result : Except DriverError Unit} {c' : Controller}
    (hsend : c.send? request = some (result, c')) : c'.yard = c.yard := by
  unfold send? at hsend
  split at hsend
  · simp at hsend
  · obtain ⟨-, rfl⟩ := Prod.mk.inj (Option.some.inj hsend)
    rfl
  · obtain rfl := congrArg Prod.snd (Option.some.inj hsend)
    rfl

/-- The jobs of a stopped run leave the layout and the locos as they are. -/
theorem yard_run_serves {j : Job} (hj : j.Serves id part) (hr : c.runs.get? id = some r)
    (hstopped : r.stopped = true) :
    (∃ wait, c.run now j = .waits wait) ∨
      ∃ c' next reply, c.run now j = .done c' next reply ∧ c'.yard = c.yard := by
  cases j with
  | command id' part' cmd =>
    obtain ⟨rfl, rfl⟩ := hj
    rcases run_command_of_not_ready hr (by simp [Run.readiness_of_stopped hstopped])
      with h | h
    · exact .inl h
    · exact .inr ⟨c, _, _, h, rfl⟩
  | asleep id' part' alarm =>
    simp only [run, asleep]
    split
    · exact .inr ⟨c, _, _, rfl, rfl⟩
    · split
      · exact .inr ⟨c, _, _, rfl, rfl⟩
      · exact .inl ⟨_, rfl⟩
  | send request refused =>
    obtain rfl : refused = .ignore := hj
    simp only [run, sending]
    split
    · exact .inl ⟨_, rfl⟩
    · rename_i hsend
      exact .inr ⟨_, _, _, rfl, yard_send? hsend⟩
    · rename_i hsend
      exact .inr ⟨_, _, _, rfl, yard_send? hsend⟩
  | _ => exact hj.elim

theorem yard_finishRun (c : Controller) (id : RunId) :
    ∃ c', c.finishRun id = .finished c' ∧ c'.yard = c.yard := by
  unfold finishRun
  split
  · exact ⟨c, rfl, rfl⟩
  · split
    · exact ⟨_, rfl, rfl⟩
    · exact ⟨c, rfl, rfl⟩

end Controller

/-! ## Worlds -/

namespace World

variable {w v : World} {a : Act} {id : RunId} {r : Run} {part : Part}

/-- A command of a part of a run starts in an act: it is what is done, and the run notes it. -/
def Starts (w : World) (a : Act) (id : RunId) (part : Part) : Prop :=
  ∃ c r r', w.doing? a = some (.command id part c) ∧ w.controller.runs.get? id = some r ∧
    (w.does a).controller.runs.get? id = some r' ∧ r'.log ≠ r.log

/-- What may become of a world. -/
def Later : World → World → Prop := Relation.ReflTransGen fun w w' => ∃ a, w' = w.does a

/-- A run and its replay keep to their phases in an act. -/
structure KeepsPhases (w : World) (a : Act) (id : RunId) (r : Run) : Prop where
  /-- The state moves along the cycle only, once or, with nothing to replay, twice. -/
  cycle : ∃ r' n, (w.does a).controller.runs.get? id = some r' ∧
    r'.state = RunState.next^[n] r.state ∧ n ≤ 2 ∧ (n = 2 → r.state = .paused) ∧
    (r'.changes = r.changes + n ∨ n = 0 ∧ r' = r.stop)
  regular : w.Starts a id .regular → r.stopped = false ∧ r.state = .running
  replayed : w.Starts a id .replay → r.stopped = false ∧ r.state = .resuming
  replays : Scene.underway w.scene.tasks (id, .replay) = if r.state = .resuming then 1 else 0
  /-- What the run has noted changes when a command starts, and not otherwise. -/
  noted : ∀ r', (w.does a).controller.runs.get? id = some r' → r'.log ≠ r.log →
    ∃ part, w.Starts a id part
  /-- A command that does not start has no effect. -/
  unstarted : ∀ part c, w.doing? a = some (.command id part c) → ¬ w.Starts a id part →
    (w.does a).controller = w.controller
  stops : (w.doing? a = some (.stopRun id) ∨
      ∃ pid, w.doing? a = some (.operate (.stop pid)) ∧ w.controller.live.get? pid = some id) →
    ∃ r', (w.does a).controller.runs.get? id = some r' ∧ r'.stopped = true

/-- A run is stopped, and nothing of it starts or changes anything. -/
structure IsOver (w : World) (id : RunId) (log : RunLog) : Prop where
  stopped : ∃ r, w.controller.runs.get? id = some r ∧ r.stopped = true ∧ r.log = log
  unstarted : ∀ a part, ¬ w.Starts a id part
  /-- The tasks that serve the run leave the layout and the locos alone. -/
  idle : ∀ place t part, w.tasks[place]? = some t → (id, part) ∈ closings t.jobs →
    (w.turn place).controller.interlocking = w.controller.interlocking ∧
      (w.turn place).controller.roster = w.controller.roster

theorem Attended.later (hw : w.Attended) (h : Later w v) : v.Attended := by
  induction h with
  | refl => exact hw
  | tail _ hact ih =>
    obtain ⟨a, rfl⟩ := hact
    exact ih.act a

theorem Attended.becomes (hw : w.Attended) (hr : w.controller.runs.get? id = some r) (a : Act) :
    ∃ r', (w.does a).controller.runs.get? id = some r' ∧ r.Becomes w.now id (w.doing? a) r' :=
  hw.phased.becomes (handled_does hw.phased a) hr

/-! ### Starting -/

/-- A command starts when its run lets it, in the phase of its part. -/
theorem Starts.ready (hw : w.Attended) (hr : w.controller.runs.get? id = some r)
    (h : w.Starts a id part) :
    r.readiness part = .ready ∧ (part = .replay → r.state = .resuming) := by
  obtain ⟨c, r₀, r', hjob, hr₀, hr', hlog⟩ := h
  obtain rfl := Option.some.inj (hr.symm.trans hr₀)
  obtain ⟨r'', hr'', hbecomes⟩ := hw.becomes hr a
  obtain rfl := Option.some.inj (hr'.symm.trans hr'')
  rcases hbecomes.log_eq with hsame | ⟨part', c', hjob', hready, hphase⟩
  · exact absurd hsame hlog
  · obtain ⟨-, rfl, -⟩ := Job.command.inj (Option.some.inj (hjob.symm.trans hjob'))
    exact ⟨hready, hphase⟩

/-- The job of an act is that of the task that has its turn. -/
theorem doing?_eq_some {job : Job} (h : w.doing? a = some job) :
    ∃ place t rest, a = .move (.turn place) ∧ w.tasks[place]? = some t ∧ t.jobs = job :: rest := by
  cases a with
  | move m =>
    obtain ⟨place, t, rest, rfl, ht, hjobs⟩ := job?_eq_some h
    exact ⟨place, t, rest, rfl, ht, hjobs⟩
  | call id c => simp [doing?] at h

theorem Attended.unstarted (hw : w.Attended) (hr : w.controller.runs.get? id = some r)
    {c : Command} (hjob : w.doing? a = some (.command id part c)) (h : ¬ w.Starts a id part) :
    (w.does a).controller = w.controller := by
  obtain ⟨place, t, rest, rfl, ht, hjobs⟩ := doing?_eq_some hjob
  change (w.turn place).controller = w.controller
  by_cases hready : r.readiness part = .ready
  · -- A command that may start does, against what is said.
    obtain ⟨c', next, reply, hrun, hr'⟩ :=
      (Controller.run_command_of_ready hr hw.phased.numbered hready :
        ∃ c' next reply, w.controller.run w.now (.command id part c) = .done c' next reply ∧ _)
    refine absurd ⟨c, r, _, hjob, hr, ?_, r.log_record_ne w.now c.isDelay c.text⟩ h
    change (w.turn place).controller.runs.get? id = _
    rw [turn_done ht hjobs hrun]
    exact hr'
  · rcases Controller.run_command_of_not_ready hr hready with ⟨wait, hrun⟩ | hrun
    · rw [turn_waits ht hjobs hrun]
    · rw [turn_done ht hjobs hrun]
      exact congrArg Prod.snd (Controller.takeStarted_eq hw.phased.taken)

/-! ### Stopping -/

theorem stopped_does (hr : w.controller.runs.get? id = some r)
    (h : w.doing? a = some (.stopRun id) ∨
      ∃ pid, w.doing? a = some (.operate (.stop pid)) ∧ w.controller.live.get? pid = some id) :
    ∃ r', (w.does a).controller.runs.get? id = some r' ∧ r'.stopped = true := by
  have hstop : (w.controller.books.modifyRun id Run.stop).runs.get? id = some r.stop := by
    rw [Books.runs_modifyRun, if_pos rfl]
    exact congrArg (Option.map _) hr
  refine ⟨r.stop, ?_, rfl⟩
  rcases h with hjob | ⟨pid, hjob, hlive⟩
  · obtain ⟨place, t, rest, rfl, ht, hjobs⟩ := doing?_eq_some hjob
    have hrun : w.controller.run w.now (.stopRun id) =
        .done (w.controller.stopRun id) [] none := rfl
    change (w.turn place).controller.runs.get? id = _
    rw [turn_done ht hjobs hrun]
    exact hstop
  · obtain ⟨place, t, rest, rfl, ht, hjobs⟩ := doing?_eq_some hjob
    obtain ⟨c, next, hrun, hbooks⟩ : ∃ c next,
        w.controller.run w.now (.operate (.stop pid)) = .done c next none ∧
          c.books = (w.controller.books.retire pid).modifyRun id Run.stop := by
      have hfound : w.controller.liveRun? pid = some (id, r) := by
        simp [Controller.liveRun?, hlive, hr]
      simp only [Controller.run, Controller.operate, Controller.stop, hfound]
      split
      · exact ⟨_, _, rfl, rfl⟩
      · refine ⟨_, _, rfl, ?_⟩
        rw [Controller.books_halt]
        rfl
    change (w.turn place).controller.runs.get? id = _
    rw [turn_done ht hjobs hrun]
    change c.books.runs.get? id = _
    rw [hbooks]
    exact hstop

/-- The turn of a task that serves a stopped run leaves the layout and the locos alone. -/
theorem Attended.yard_turn (hw : w.Attended) (hr : w.controller.runs.get? id = some r)
    (hstopped : r.stopped = true) {place : Nat} {t : Task} (ht : w.tasks[place]? = some t)
    (hid : (id, part) ∈ closings t.jobs) : (w.turn place).controller.yard = w.controller.yard := by
  have htask : IsTask t.jobs := by
    generalize hjobs : t.jobs = jobs at hid
    cases hjobs ▸ hw.phased.duty _ (jobs_mem_scene ht) with
    | task h => exact h
    | call id' c => simp [Scene.closings_call] at hid
  obtain ⟨active, closing, hjobs, hserves, hcloses⟩ := htask.of_closings hid
  cases active with
  | nil =>
    cases hcloses with
    | regular =>
      obtain ⟨c, hrun, hyard⟩ := w.controller.yard_finishRun id
      rw [turn_done ht hjobs hrun]
      exact hyard
    | @replay text rest _ =>
      have hrun : w.controller.run w.now (.endReplay id text) =
          .answers (w.controller.settleRun id) (.replayed (some text)) := rfl
      rw [turn_done ht hjobs hrun]
      rfl
  | cons j active =>
    rcases Controller.yard_run_serves (hserves j List.mem_cons_self) hr hstopped with
      ⟨wait, hrun⟩ | ⟨c, next, reply, hrun, hyard⟩
    · rw [turn_waits ht hjobs hrun]
    · rw [turn_done ht hjobs hrun]
      exact hyard

theorem Attended.isOver (hw : w.Attended) (hr : w.controller.runs.get? id = some r)
    (hstopped : r.stopped = true) : w.IsOver id r.log := by
  refine ⟨⟨r, hr, hstopped, rfl⟩, fun a part hstarts => ?_, fun place t part ht hid => ?_⟩
  · have hready := (hstarts.ready hw hr).1
    rw [Run.readiness_of_stopped hstopped] at hready
    simp at hready
  · exact Prod.mk.inj (hw.yard_turn hr hstopped ht hid)

/-- A run that is over stays so, whatever happens. -/
theorem Attended.isOver_later (hw : w.Attended) (hr : w.controller.runs.get? id = some r)
    (hstopped : r.stopped = true) (h : Later w v) : v.IsOver id r.log := by
  induction h with
  | refl => exact hw.isOver hr hstopped
  | @tail u _ hbefore hact ih =>
    obtain ⟨a, rfl⟩ := hact
    have hu := hw.later hbefore
    obtain ⟨r₁, hr₁, hstopped₁, hlog₁⟩ := ih.stopped
    obtain ⟨r₂, hr₂, hbecomes⟩ := hu.becomes hr₁ a
    have hlog₂ : r₂.log = r₁.log := by
      by_contra hne
      obtain ⟨part, c, hjob, -⟩ := hbecomes.log_eq.resolve_left hne
      exact ih.unstarted a part ⟨c, r₁, r₂, hjob, hr₁, hr₂, hne⟩
    rw [← hlog₁, ← hlog₂]
    exact (hu.act a).isOver hr₂ (hbecomes.stopped hstopped₁)

/-! ### All phases -/

theorem Attended.keepsPhases (hw : w.Attended) (hr : w.controller.runs.get? id = some r)
    (a : Act) : w.KeepsPhases a id r := by
  obtain ⟨r', hr', hbecomes⟩ := hw.becomes hr a
  refine ⟨?_, fun hstarts => ?_, fun hstarts => ?_, ?_, fun r'' hr'' hne => ?_,
    fun part c => hw.unstarted hr, stopped_does hr⟩
  · obtain ⟨n, hstate, hle, htwo, hchanges⟩ := hbecomes.state_eq
    exact ⟨r', n, hr', hstate, hle, htwo, hchanges⟩
  · exact Run.readiness_regular_iff.mp (hstarts.ready hw hr).1
  · obtain ⟨hready, hphase⟩ := hstarts.ready hw hr
    exact ⟨Run.not_stopped_of_ready hready, hphase rfl⟩
  · have hreplay := hw.phased.replay id
    rw [Books.isResuming_eq hr] at hreplay
    rw [hreplay]
    split <;> simp [*]
  · obtain rfl := Option.some.inj (hr'.symm.trans hr'')
    obtain ⟨part, c, hjob, -⟩ := hbecomes.log_eq.resolve_left hne
    exact ⟨part, c, r, r', hjob, hr, hr', hne⟩

/-- Whoever pauses, resumes and stops a run and in whatever order, it keeps to its phases, and
is over for good once it is stopped. -/
theorem phases_kept (hw : w.Attended) (hr : w.controller.runs.get? id = some r) :
    (∀ a, w.KeepsPhases a id r) ∧ (r.stopped = true → ∀ v, Later w v → v.IsOver id r.log) :=
  ⟨hw.keepsPhases hr, fun hstopped _ h => hw.isOver_later hr hstopped h⟩

theorem Reachable.attended (h : w.Reachable) : w.Attended := by
  induction h with
  | start fresh => exact .start fresh
  | move m _ ih => exact ih.act (.move m)

/-- Somebody who has got hold of the paused run stops it, which leaves it on the list. -/
def stoppedTrial : World :=
  ((pausedTrial [.act (.delay 100), .act .stop]).does (.call 0 .stop)).does (.move (.turn 3))

/-- The run is over for good, and keeps to its phases even so. -/
theorem phases_kept_stopped :
    ∃ r, stoppedTrial.controller.runs.get? 0 = some r ∧ r.stopped = true ∧
      (∀ a, stoppedTrial.KeepsPhases a 0 r) ∧ ∀ v, Later stoppedTrial v → v.IsOver 0 r.log := by
  have hw : stoppedTrial.Attended :=
    ((reachable_pausedTrial _).attended.act (.call 0 .stop)).act (.move (.turn 3))
  have hstopped : (stoppedTrial.controller.runs.get? 0).map Run.stopped = some true := by decide
  obtain ⟨r, hr, hr'⟩ := Option.map_eq_some_iff.mp hstopped
  obtain ⟨hkeeps, hover⟩ := phases_kept hw hr
  exact ⟨r, hr, hr', hkeeps, hover hr'⟩

end World

end Signalbox
