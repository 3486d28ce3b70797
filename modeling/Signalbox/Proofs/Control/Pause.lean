import Mathlib.Logic.Relation
import Signalbox.Proofs.Control.Held

/-
  Signalbox/Proofs/Control/Pause.lean --- how long a pause lasts.

  One would think that a paused run stays on the list, paused, and starts nothing
  until somebody resumes or stops it.  It does when it has a command left to be held
  at and nobody had asked to resume it before the pause.  Otherwise it need not: a
  pause within the last command of a run cuts a delay short like any other, so the
  run comes to its end and goes off the list; and a task that is to resume the run,
  started by an earlier call, resumes it whenever it has its turn.
-/

set_option autoImplicit false

namespace Signalbox

namespace World

/-! ## What a pause should keep -/

/-- A move that neither resumes nor stops a run by its name. -/
def Spares (pid : Pid) (w w' : World) : Prop :=
  ∃ m, (∀ job, w.job? m = some job → ¬ job.Calls pid) ∧ w' = w.after m

/-- What may become of a world while nobody resumes or stops a run by its name. -/
def Undisturbed (pid : Pid) : World → World → Prop := Relation.ReflTransGen (Spares pid)

/-- A run is on the list under its name as paused, and its log is still the same. -/
structure ShowsPaused (w : World) (pid : Pid) (id : RunId) (log : RunLog) : Prop where
  live : w.controller.live.get? pid = some id
  paused : ∃ r, w.controller.runs.get? id = some r ∧ r.status = .paused ∧ r.log = log

/-- A run stays paused, and starts nothing, until somebody resumes or stops it. -/
def StaysPaused (w : World) (pid : Pid) (id : RunId) (log : RunLog) : Prop :=
  ∀ v, Undisturbed pid w v → v.ShowsPaused pid id log

/-- A run has a command that has not started. -/
def HasCommandLeft (w : World) (id : RunId) : Prop :=
  ∃ t ∈ w.tasks, ∃ c, .command id .regular c ∈ t.jobs

/-- A call to resume a run has been made whose task has yet to begin. -/
def IsToResume (w : World) (id : RunId) : Prop := ∃ t ∈ w.tasks, .resumeRun id ∈ t.jobs

variable {w v : World} {pid : Pid} {id : RunId} {r : Run} {log : RunLog}

/-! ## What keeps a run paused -/

theorem held_scene (hleft : w.HasCommandLeft id) (hnot : ¬ w.IsToResume id)
    (hlive : w.controller.live.get? pid = some id) (hrun : w.controller.runs.get? id = some r)
    (hpaused : r.status = .paused) : w.scene.Held pid id r.log := by
  refine ⟨hlive, ⟨r, hrun, Run.status_eq_paused_iff.mp hpaused, rfl⟩, ?_, ?_⟩
  · obtain ⟨t, ht, c, hc⟩ := hleft
    exact ⟨t.jobs, Multiset.mem_coe.mpr (List.mem_map_of_mem ht), c, hc⟩
  · intro jobs hjobs hr
    obtain ⟨t, ht, rfl⟩ := List.mem_map.mp (Multiset.mem_coe.mp hjobs)
    exact hnot ⟨t, ht, hr⟩

theorem Reachable.undisturbed (hw : w.Reachable) (h : Undisturbed pid w v) : v.Reachable := by
  induction h with
  | refl => exact hw
  | tail _ hmove ih =>
    obtain ⟨m, -, rfl⟩ := hmove
    exact ih.move m

/-- A held run stays held while nobody resumes or stops it. -/
theorem held_undisturbed (hw : w.Reachable) (hheld : w.scene.Held pid id log)
    (h : Undisturbed pid w v) : v.scene.Held pid id log := by
  induction h with
  | refl => exact hheld
  | tail hbefore hmove ih =>
    obtain ⟨m, hquiet, rfl⟩ := hmove
    have hs := (hw.undisturbed hbefore).sound
    exact ih.step hs (scene_after hs m) hquiet

/-! ## What ends a pause -/

theorem Undisturbed.turn {place : Nat} {t : Task} {job : Job} {rest : List Job}
    (h : w.tasks[place]? = some t) (hjobs : t.jobs = job :: rest) (hquiet : ¬ job.Calls pid) :
    Undisturbed pid w (w.turn place) := by
  refine .single ⟨.turn place, ?_, rfl⟩
  intro job' hjob'
  simp only [job?, h, Option.bind_some, hjobs, List.head?_cons, Option.some.injEq] at hjob'
  exact hjob' ▸ hquiet

/-- Requests can be sent again once another driver has been brought up. -/
theorem exists_ready (hw : w.Reachable) (pid : Pid) :
    ∃ v, Undisturbed pid w v ∧ v.controller.adapter.status ≠ .switching ∧
      v.controller.books = w.controller.books ∧
      ∀ (place : Nat) (t : Task), w.tasks[place]? = some t → v.tasks[place]? = some t := by
  have hstarted : w.controller.started = [] := hw.sound.taken
  obtain ⟨a, events, havailable, hswitched⟩ := switched_eq hstarted
  refine ⟨w.switched, ?_, ?_, ?_, fun place t ht => ?_⟩
  · have hask : Undisturbed pid w w.switchAsked :=
      .single ⟨.ask (.switchTo .virtual .virtual), by simp [job?], rfl⟩
    have hbegin : Undisturbed pid w.switchAsked w.switchBegun :=
      Undisturbed.turn getElem?_switchAsked rfl (by simp [Job.Calls])
    have hconnect : Undisturbed pid w.switchBegun w.switched :=
      Undisturbed.turn (getElem?_switchBegun hstarted) rfl (by simp [Job.Calls])
    exact (hask.trans hbegin).trans hconnect
  · rw [hswitched]
    simp [havailable]
  · rw [hswitched]
    rfl
  · obtain ⟨hplace, -⟩ := List.getElem?_eq_some_iff.mp ht
    rw [hswitched, List.getElem?_append_left hplace, ht]

/-- A request of a run is over at once unless a driver is being brought up. -/
theorem run_ignoring (c : Controller) (now : Nat) (request : Request)
    (hstatus : c.adapter.status ≠ .switching) :
    ∃ c', c.run now (.send request .ignore) = .finished c' ∧ c'.books = c.books ∧
      c'.adapter = c.adapter := by
  simp only [Controller.run, Controller.sending, Controller.send?]
  cases h : c.adapter.status with
  | switching => exact absurd h hstatus
  | unavailable => exact ⟨c, rfl, rfl, rfl⟩
  | available =>
    simp only [Controller.callDriver]
    cases c.faults c.adapter.driver (.request request) <;> exact ⟨_, rfl, rfl, rfl⟩

/-- What is left of a command that a pause has come upon is over at once. -/
theorem run_active (c : Controller) (now : Nat) {j : Job} (hj : j.Serves id .regular)
    (hcommand : ∀ cmd, j ≠ .command id .regular cmd) (hrun : c.runs.get? id = some r)
    (hpaused : r.state = .paused) (hstatus : c.adapter.status ≠ .switching) :
    ∃ c', c.run now j = .finished c' ∧ c'.books = c.books ∧ c'.adapter = c.adapter := by
  cases j with
  | command id' part cmd =>
    obtain ⟨rfl, rfl⟩ := hj
    exact absurd rfl (hcommand cmd)
  | asleep id' part alarm =>
    obtain ⟨rfl, rfl⟩ := hj
    refine ⟨c, ?_, rfl, rfl⟩
    simp [Controller.run, Controller.asleep, hrun, Run.cutsDelay, hpaused]
  | send request refused =>
    obtain rfl : refused = .ignore := hj
    exact run_ignoring c now request hstatus
  | _ => exact hj.elim

/-- With no command left, the task of a paused run comes to its end. -/
theorem exists_over (hw : w.Reachable) {place : Nat} {t : Task} {active : List Job}
    (ht : w.tasks[place]? = some t) (hjobs : t.jobs = active ++ [.finish id])
    (hserves : ∀ j ∈ active, j.Serves id .regular)
    (hcommand : ∀ j ∈ active, ∀ cmd, j ≠ .command id .regular cmd)
    (hlive : w.controller.live.get? pid = some id) (hrun : w.controller.runs.get? id = some r)
    (hpaused : r.state = .paused) (hstatus : w.controller.adapter.status ≠ .switching) :
    ∃ v, Undisturbed pid w v ∧ v.controller.live.get? pid = none := by
  induction active generalizing w t with
  | nil =>
    refine ⟨w.turn place, .turn ht hjobs (by simp [Job.Calls]), ?_⟩
    obtain ⟨c, hc, hbooks⟩ := w.controller.finishRun_eq id
    rw [turn_done ht hjobs hc]
    change c.books.live.get? pid = none
    rw [hbooks]
    by_contra hne
    obtain ⟨id', hid'⟩ := Option.ne_none_iff_exists'.mp hne
    obtain ⟨hlive', hne'⟩ := hw.sound.books.live_finishRun.mp hid'
    exact hne' (Option.some.inj (hlive'.symm.trans hlive))
  | cons j active ih =>
    obtain ⟨c, hc, hbooks, hadapter⟩ := run_active w.controller w.now (hserves j (by simp))
      (hcommand j (by simp)) hrun hpaused hstatus
    have hturn := turn_done ht hjobs hc
    have hnext : (w.turn place).controller.books = w.controller.books.taken := by
      rw [hturn, ← hbooks]
      rfl
    have hready : (w.turn place).controller.adapter.status ≠ .switching := by
      rw [hturn]
      exact hadapter ▸ hstatus
    obtain ⟨v, hv, hover⟩ := ih (hw.move (.turn place)) (tasks_turn_self ht hjobs hc) rfl
      (fun k hk => hserves k (List.mem_cons_of_mem _ hk))
      (fun k hk => hcommand k (List.mem_cons_of_mem _ hk))
      ((congrArg (·.live.get? pid) hnext).trans hlive)
      ((congrArg (·.runs.get? id) hnext).trans hrun) hready
    have hactive : Undisturbed pid w (w.turn place) :=
      Undisturbed.turn ht hjobs ((hserves j (by simp)).not_calls pid)
    exact ⟨v, hactive.trans hv, hover⟩

/-- A task that is to resume a paused run ends the pause when it has its turn. -/
theorem not_paused_of_isToResume (hw : w.Reachable) (h : w.IsToResume id)
    (hrun : w.controller.runs.get? id = some r) (hpaused : r.state = .paused) :
    ∃ v, Undisturbed pid w v ∧
      ∀ r', v.controller.runs.get? id = some r' → r'.state ≠ .paused := by
  obtain ⟨t, ht, hresume⟩ := h
  obtain ⟨place, hplace⟩ := List.mem_iff_getElem?.mp ht
  have htask : IsTask t.jobs := hw.sound.task _ (Multiset.mem_coe.mpr (List.mem_map_of_mem ht))
  obtain ⟨rest, hjobs⟩ : ∃ rest, t.jobs = .resumeRun id :: rest := htask.of_resumeRun hresume
  obtain ⟨c, next, reply, hc, deed⟩ := w.controller.resumeRun_eq id
  refine ⟨w.turn place, Undisturbed.turn hplace hjobs (by simp [Job.Calls]), ?_⟩
  intro r' hr'
  rw [turn_done hplace hjobs hc] at hr'
  have hr' : c.books.runs.get? id = some r' := hr'
  generalize c.books = b at deed hr'
  cases deed with
  | none hnone => exact absurd hpaused (hnone r hrun)
  | settle run resumed =>
    obtain ⟨-, rfl⟩ := Run.resume?_eq_some resumed
    rw [Books.runs_modifyRun, if_pos rfl] at hr'
    obtain ⟨r'', -, rfl⟩ := Option.map_eq_some_iff.mp hr'
    rw [Run.settled_eq]
    simp [Run.withState]
  | replay run resumed _ =>
    obtain ⟨-, rfl⟩ := Run.resume?_eq_some resumed
    rw [Books.runs_modifyRun, if_pos rfl] at hr'
    obtain ⟨r'', -, rfl⟩ := Option.map_eq_some_iff.mp hr'
    simp [Run.withState]

/-! ## Exactly when a pause lasts -/

/-- A paused run stays so, until somebody resumes or stops it, exactly when it has a command
left and no earlier call to resume it is still to be carried out. -/
theorem staysPaused_iff (hw : w.Reachable) (hlive : w.controller.live.get? pid = some id)
    (hrun : w.controller.runs.get? id = some r) (hpaused : r.status = .paused) :
    w.StaysPaused pid id r.log ↔ w.HasCommandLeft id ∧ ¬ w.IsToResume id := by
  have hstate := Run.status_eq_paused_iff.mp hpaused
  constructor
  · refine fun hstays => ⟨?_, ?_⟩
    · by_contra hnone
      -- The task of the run has nothing left but what the pause cuts short.
      have hone := hw.sound.live pid id hlive
      obtain ⟨jobs, hjobs, hmem⟩ := Scene.exists_of_underway_pos (hone ▸ Nat.one_pos)
      obtain ⟨active, closing, hactive, hserves, closes⟩ := (hw.sound.task _ hjobs).of_closings hmem
      obtain ⟨t, ht, rfl⟩ := List.mem_map.mp (Multiset.mem_coe.mp hjobs)
      obtain ⟨place, hplace⟩ := List.mem_iff_getElem?.mp ht
      cases closes
      obtain ⟨v, hv, hready, hbooks, htasks⟩ := exists_ready hw pid
      have hcommand : ∀ j ∈ active, ∀ cmd, j ≠ .command id .regular cmd := by
        rintro j hj cmd rfl
        exact hnone ⟨t, ht, cmd, hactive ▸ List.mem_append_left _ hj⟩
      obtain ⟨u, hu, hover⟩ := exists_over (hw.undisturbed hv) (htasks place t hplace) hactive
        hserves hcommand ((congrArg (·.live.get? pid) hbooks).trans hlive)
        ((congrArg (·.runs.get? id) hbooks).trans hrun) hstate hready
      have hshown := (hstays u (hv.trans hu)).live
      simp [hover] at hshown
    · intro hresume
      obtain ⟨v, hv, hresumed⟩ := not_paused_of_isToResume hw hresume hrun hstate
      obtain ⟨r', hr', hstatus, -⟩ := (hstays v hv).paused
      exact hresumed r' hr' (Run.status_eq_paused_iff.mp hstatus)
  · rintro ⟨hleft, hnot⟩ v hv
    have hheld := held_undisturbed hw (held_scene hleft hnot hlive hrun hpaused) hv
    obtain ⟨r', hr', hstate', hlog⟩ := hheld.run
    exact ⟨hheld.live, r', hr', Run.status_eq_paused_iff.mpr hstate', hlog⟩

/-! ### Trials -/

/-- A script of some commands. -/
def trialScript (commands : List Command) : Script :=
  { id := 1
    name := ""
    description := ""
    kind := .automation
    trigger := none
    children := commands
    source := "" }

/-- A controller without a layout that has the one script. -/
def trialController (commands : List Command) : Controller :=
  { Controller.ofLayout (.inMemory .empty) .empty
      (.ofDriver .virtual [] fun _ => .virtual) .all with
    catalog := Catalog.empty.register (trialScript commands) }

/-- The script is run, its first command starts, and the run is paused. -/
def pausedTrial (commands : List Command) : World :=
  (ofController (trialController commands)).afterAll
    [.ask (.runScript 1 none), .turn 0, .turn 1, .ask (.pause ⟨1, 0⟩), .turn 2]

theorem reachable_pausedTrial (commands : List Command) : (pausedTrial commands).Reachable :=
  Reachable.afterAll (.start ⟨rfl, rfl, rfl, by simp [trialController, Controller.ofLayout]⟩) _

/-- With a command after the delay, the pause lasts. -/
theorem staysPaused_commandLeft :
    ∃ r, (pausedTrial [.act (.delay 100), .act .stop]).controller.runs.get? 0 = some r ∧
      r.status = .paused ∧
      (pausedTrial [.act (.delay 100), .act .stop]).StaysPaused ⟨1, 0⟩ 0 r.log := by
  have hstatus : ((pausedTrial [.act (.delay 100), .act .stop]).controller.runs.get? 0).map
      Run.status = some .paused := by decide
  obtain ⟨r, hrun, hpaused⟩ := Option.map_eq_some_iff.mp hstatus
  have htasks : (pausedTrial [.act (.delay 100), .act .stop]).tasks =
      [⟨[], .started (some ⟨1, 0⟩)⟩,
        ⟨[.asleep 0 .regular ⟨100, 0⟩, .command 0 .regular (.act .stop), .finish 0], .done⟩,
        ⟨[.announceRuns], .done⟩] := rfl
  have hw := reachable_pausedTrial [.act (.delay 100), .act .stop]
  have hlive : (pausedTrial [.act (.delay 100), .act .stop]).controller.live.get? ⟨1, 0⟩ =
      some 0 := by decide
  have hleft : (pausedTrial [.act (.delay 100), .act .stop]).HasCommandLeft 0 := by
    simp [HasCommandLeft, htasks]
  have hnot : ¬ (pausedTrial [.act (.delay 100), .act .stop]).IsToResume 0 := by
    simp [IsToResume, htasks]
  exact ⟨r, hrun, hpaused, (staysPaused_iff hw hlive hrun hpaused).mpr ⟨hleft, hnot⟩⟩

/-- With nothing after the delay, the run comes to its end all the same. -/
theorem not_staysPaused_lastDelay :
    ¬ ∀ (w : World) (pid : Pid) (id : RunId) (r : Run), w.Reachable →
      w.controller.live.get? pid = some id → w.controller.runs.get? id = some r →
      r.status = .paused → w.StaysPaused pid id r.log := by
  intro h
  let w := pausedTrial [.act (.delay 100)]
  have hw : w.Reachable := reachable_pausedTrial _
  have hstatus : (w.controller.runs.get? 0).map Run.status = some .paused := by decide
  obtain ⟨r, hrun, hpaused⟩ := Option.map_eq_some_iff.mp hstatus
  have hlive : w.controller.live.get? ⟨1, 0⟩ = some 0 := by decide
  have hstays := h w ⟨1, 0⟩ 0 r hw hlive hrun hpaused
  -- Only what is left of the delay stands between the run and its end.
  let t : Task := ⟨[.asleep 0 .regular ⟨100, 0⟩, .finish 0], .done⟩
  have htasks : w.tasks = [⟨[], .started (some ⟨1, 0⟩)⟩, t, ⟨[.announceRuns], .done⟩] := rfl
  have ht : w.tasks[1]? = some t := by rw [htasks]; rfl
  have hjobs : t.jobs = [.asleep 0 .regular ⟨100, 0⟩] ++ [.finish 0] := rfl
  have hready : w.controller.adapter.status ≠ .switching := by decide
  obtain ⟨v, hv, hover⟩ := exists_over hw ht hjobs (by simp [Job.Serves]) (by simp) hlive hrun
    (Run.status_eq_paused_iff.mp hpaused) hready
  have hshown := (hstays v hv).live
  simp [hover] at hshown

end World

end Signalbox
