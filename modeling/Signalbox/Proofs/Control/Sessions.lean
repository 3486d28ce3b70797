import Signalbox.Proofs.Schedule
import Signalbox.Web.Server

/-
  Signalbox/Proofs/Control/Sessions.lean --- what sessions come to.

  A session is reachable when a controller comes to it by what clients ask for, by
  time, by stores and drivers that begin to answer otherwise, and by controllers
  that relieve each other.  Its tasks are numbered one after the other.  An
  operation that is over with its first job is answered at once, with the
  controller that the job leaves behind.
-/

set_option autoImplicit false

namespace Signalbox

open Schedule

/-! ## Controllers in their places -/

namespace Succession

theorem controllerAt_place (s : Succession) : s.controllerAt s.place = s.current := by
  simp [controllerAt, place]

theorem put_place (s : Succession) (c : Controller) :
    s.put s.place c = { s with current := c } := by
  simp [put, place]

/-- A task of the controller in charge does its jobs for that controller. -/
theorem step_duty (now : Nat) (s : Succession) (t : Task) :
    program.step now s (s.duty t) = (t.step now s.current).map (fun c => { s with current := c })
      (Duty.mk s.place) (Prod.mk s.place) := by
  change (t.step now (s.controllerAt s.place)).map (s.put s.place) _ _ = _
  rw [controllerAt_place, funext (put_place s)]
  rfl

end Succession

/-! ## Turns of a task -/

namespace Duty

variable {now : Nat} {s w : Succession} {d d' : Duty} {started : List Duty}

/-- A task goes on when its first job is done: with what follows that, and then the rest. -/
theorem step_eq_goesOn (h : d.step now s = .goesOn w started d') :
    ∃ j rest c next reply, d.task.jobs = j :: rest ∧
      (s.controllerAt d.place).run now j = .done c next reply ∧
        d'.task = ⟨next ++ rest, reply.getD d.task.reply⟩ := by
  unfold step Task.step at h
  split at h
  · simp [Turn.map] at h
  · rename_i j rest hjobs
    split at h
    · simp [Turn.map] at h
    · rename_i c next reply hrun
      obtain ⟨-, -, rfl⟩ := Turn.goesOn.inj h
      exact ⟨j, rest, c, next, reply, hjobs, hrun, rfl⟩
    · simp [Turn.map] at h

/-- A task ends when there is no job left, or when its first job fails. -/
theorem step_eq_ends {r : Reply} (h : d.step now s = .ends w started r) :
    (d.task.jobs = [] ∧ r = d.task.reply) ∨
      ∃ j rest c f, d.task.jobs = j :: rest ∧
        (s.controllerAt d.place).run now j = .fails c f ∧ r = .failed f := by
  unfold step Task.step at h
  split at h
  · rename_i hjobs
    exact .inl ⟨hjobs, (Turn.ends.inj h).2.2.symm⟩
  · rename_i j rest hjobs
    split at h
    · simp [Turn.map] at h
    · simp [Turn.map] at h
    · rename_i c f hrun
      exact .inr ⟨j, rest, c, f, hjobs, hrun, (Turn.ends.inj h).2.2.symm⟩

end Duty

namespace Session

/-! ## Reachable sessions -/

/-- What a controller comes to by what it is asked for and by what happens around it. -/
inductive Reachable : Session → Prop
  | start (c : Controller) : Reachable (.ofController c)
  | perform {s : Session} (op : Operation) (h : Reachable s) : Reachable (s.perform op).2
  /-- A task of its own is started, and nobody waits for its end. -/
  | begin {s : Session} (jobs : List Job) (h : Reachable s) : Reachable (s.begin jobs)
  | settled {s : Session} (h : Reachable s) : Reachable s.settled
  | wait {s : Session} (milliseconds : Nat) (h : Reachable s) : Reachable (s.wait milliseconds)
  /-- The store and the drivers are other than before. -/
  | outside {s : Session} (store : Store) (faults : Driver → DriverCall → Option DriverError)
      (h : Reachable s) : Reachable (s.modify fun c => { c with store := store, faults := faults })
  | relieve {s : Session} (next : Controller) (h : Reachable s) : Reachable (s.relieve next)
  /-- What has left the controller is collected. -/
  | collect {s : Session} (h : Reachable s) : Reachable s.collect.2.2

variable {s : Session}

theorem Reachable.respond (h : s.Reachable) (r : WebRequest) : Reachable (s.respond r).2 := by
  unfold Session.respond
  split
  · exact h
  · rename_i call _
    cases call with
    | look v => exact h
    | operate op => exact h.perform op

/-- Requests lead from reachable sessions to reachable ones. -/
theorem Reachable.serve (h : s.Reachable) (anyOrigin : Bool) (r : WebRequest) :
    Reachable (s.serve anyOrigin r).2 := by
  by_cases hoptions : (anyOrigin && r.method = "OPTIONS") = true
  · rw [Session.serve, if_pos hoptions]
    exact h
  · rw [Session.serve, if_neg hoptions]
    exact h.respond r

theorem numbered_launch (h : s.Numbered) : s.launch.Numbered :=
  Numbered.startAll (s := s.modify fun _ => s.controller.takeStarted.2)
    ⟨h.ready, h.waiting, h.ended⟩ _

theorem Reachable.numbered (h : s.Reachable) : s.Numbered := by
  induction h with
  | start c => exact numbered_launch (numbered_ofWorld _)
  | perform op _ ih => exact (ih.startFirst _).later (later_runUntil _ _ _ _)
  | begin jobs _ ih => exact ih.startAll [_]
  | settled _ ih => exact ih.later (later_settle _ _ _)
  | wait milliseconds _ ih => exact ih.later (later_pass _ _ _)
  | outside store faults _ ih => exact ⟨ih.ready, ih.waiting, ih.ended⟩
  | relieve next _ ih =>
    have htasks := ih.mapTasks fun d => { d with task := d.task.relieved }
    exact numbered_launch ⟨htasks.ready, htasks.waiting, htasks.ended⟩
  | collect _ ih => exact ⟨ih.ready, ih.waiting, ih.ended⟩

/-! ## Operations that are over at once -/

variable {op : Operation} {c : Controller}

/-- An operation that fails with its first job is answered with the failure. -/
theorem perform_of_fails (h : s.Numbered) {f : Failure}
    (hop : s.controller.operate s.now op = .fails c f) :
    (s.perform op).1 = some (.failed f) ∧ (s.perform op).2.controller = c.takeStarted.2 := by
  have hstep : Succession.program.step s.now s.world (s.world.duty (.ofJobs [.operate op])) =
      .ends { s.world with current := c.takeStarted.2 } (c.started.map (Duty.mk s.world.place))
        (.failed f) := by
    have hrun : s.world.current.run s.now (.operate op) = .fails c f := hop
    rw [Succession.step_duty]
    simp only [Task.step, Task.ofJobs, hrun, Controller.takeStarted, Turn.map]
  obtain ⟨hreply, hworld⟩ := call_of_ends h hstep
  exact ⟨hreply, congrArg Succession.current hworld⟩

/-- An operation that is done with its first job is answered with the reply. -/
theorem perform_of_done (h : s.Numbered) {reply : Option Reply}
    (hop : s.controller.operate s.now op = .done c [] reply) :
    (s.perform op).1 = some (reply.getD .done) ∧
      (s.perform op).2.controller = c.takeStarted.2 := by
  let after : Succession := { s.world with current := c.takeStarted.2 }
  have hfirst : Succession.program.step s.now s.world (s.world.duty (.ofJobs [.operate op])) =
      .goesOn after (c.started.map (Duty.mk s.world.place))
        (after.duty ⟨[], reply.getD .done⟩) := by
    have hrun : s.world.current.run s.now (.operate op) = .done c [] reply := hop
    rw [Succession.step_duty]
    simp only [Task.step, Task.ofJobs, hrun, Controller.takeStarted, Turn.map]
    rfl
  have hsecond : Succession.program.step s.now after (after.duty ⟨[], reply.getD .done⟩) =
      .ends after [] (reply.getD .done) := Succession.step_duty s.now after _
  obtain ⟨hreply, hworld⟩ := call_of_goesOn h hfirst hsecond
  exact ⟨hreply, congrArg Succession.current hworld⟩

end Session

end Signalbox
