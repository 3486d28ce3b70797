import Signalbox.Proofs.Control.Progress

/-
  Signalbox/Proofs/Control/Held.lean --- runs that a pause holds.

  A pause holds a run when the run has commands left and nobody is about to resume
  it.  The task that carries the run on then comes to the next command and waits
  there.  No step but a call to resume or to stop the run changes anything about
  that, whatever task has its turn.
-/

set_option autoImplicit false

namespace Signalbox

/-- Whether a job is a call to resume or to stop a run by its name. -/
def Job.Calls (pid : Pid) : Job → Prop
  | operate (.resume pid') => pid' = pid
  | operate (.stop pid') => pid' = pid
  | _ => False

theorem Job.Serves.not_calls {j : Job} {id : RunId} {part : Part} (h : j.Serves id part)
    (pid : Pid) : ¬ j.Calls pid := by
  cases j <;> first | exact h.elim | exact fun hcalls => hcalls

/-! ## Tasks by their jobs -/

/-- A task with a command of a part of a run is to close that part. -/
theorem IsTask.mem_closings {jobs : List Job} (h : IsTask jobs) {id : RunId} {part : Part}
    {c : Command} (hc : .command id part c ∈ jobs) : (id, part) ∈ closings jobs := by
  cases h with
  | plain plain => exact (plain _ hc).elim
  | resuming plain =>
    rcases List.mem_cons.mp hc with hc | hc
    · simp at hc
    · exact (plain _ hc).elim
  | @serving id' part' active closing serves closes =>
    rw [closings_append, closes.closings]
    rcases List.mem_append.mp hc with hc | hc
    · obtain ⟨rfl, rfl⟩ := serves _ hc
      exact List.mem_append_right _ (List.mem_singleton.mpr rfl)
    · rcases closes.closes_or_plain hc with hc | hc
      · simp [Job.closes] at hc
      · exact hc.elim

/-- A task that is to close a part of a run serves it until then. -/
theorem IsTask.of_closings {jobs : List Job} (h : IsTask jobs) {id : RunId} {part : Part}
    (hid : (id, part) ∈ closings jobs) :
    ∃ active closing, jobs = active ++ closing ∧ (∀ j ∈ active, j.Serves id part) ∧
      Closing id part closing := by
  cases h with
  | plain plain => simp [closings_plain plain] at hid
  | resuming plain => simp [closings_resumeRun, closings_plain plain] at hid
  | @serving id' part' active closing serves closes =>
    rw [closings_append, closings_serves serves, closes.closings] at hid
    obtain ⟨rfl, rfl⟩ := Prod.mk.inj (List.mem_singleton.mp hid)
    exact ⟨active, closing, rfl, serves, closes⟩

/-- A task that is to resume a run begins with that. -/
theorem IsTask.of_resumeRun {jobs : List Job} (h : IsTask jobs) {id : RunId}
    (hid : .resumeRun id ∈ jobs) : ∃ rest, jobs = .resumeRun id :: rest := by
  cases h with
  | plain plain => exact (plain _ hid).elim
  | @resuming id' rest plain =>
    rcases List.mem_cons.mp hid with hid | hid
    · exact ⟨rest, by rw [hid]⟩
    · exact (plain _ hid).elim
  | serving serves closes =>
    rcases List.mem_append.mp hid with hid | hid
    · exact (serves _ hid).elim
    · rcases closes.closes_or_plain hid with hid | hid
      · simp [Job.closes] at hid
      · exact hid.elim

namespace Scene

theorem exists_of_underway_pos {tasks : Multiset (List Job)} {key : RunId × Part}
    (h : 0 < underway tasks key) : ∃ jobs ∈ tasks, key ∈ closings jobs := by
  by_contra hnone
  push Not at hnone
  have hzero : underway tasks key = 0 := Multiset.sum_eq_zero fun n hn => by
    obtain ⟨jobs, hjobs, rfl⟩ := Multiset.mem_map.mp hn
    exact List.count_eq_zero.mpr (hnone jobs hjobs)
  omega

/-! ## Growing books -/

variable {now : Nat} {s s' : Scene} {b b' : Books} {pid : Pid} {id : RunId} {r : Run}
  {log : RunLog} {job : Option Job}

/-- A live run stays live when another one is started. -/
theorem live_grows (hb : b.Sound) (hgrows : b.Grows b') (h : b.live.get? pid = some id) :
    b'.live.get? pid = some id := by
  cases hgrows with
  | same => exact h
  | startRun script loco root =>
    rw [Books.live_startRun]
    split
    · rename_i hpid
      rw [← hpid, hb.live_nextPid root] at h
      simp at h
    · exact h
  | begin _ => exact h

theorem runs_grows (hnew : b.runs.get? b.runs.size = none) (hgrows : b.Grows b')
    (h : b.runs.get? id = some r) : b'.runs.get? id = some r := by
  cases hgrows with
  | same => exact h
  | startRun script loco root =>
    have hne : b.runs.size ≠ id := by
      rintro rfl
      simp [hnew] at h
    rw [Books.runs_startRun, if_neg hne]
    exact h
  | begin _ => exact h

theorem begun_grows (hgrows : b.Grows b') (hb : b.started = []) {jobs : List Job}
    (h : jobs ∈ begun b') : .resumeRun id ∉ jobs := by
  intro hresume
  cases hgrows with
  | same => simp [begun, hb] at h
  | startRun script loco root =>
    rw [begun_startRun hb, Multiset.mem_singleton] at h
    subst h
    simp [Script.jobs, Command.jobs] at hresume
  | begin plain =>
    rw [begun_begin hb, Multiset.mem_singleton] at h
    subst h
    exact plain _ hresume

/-! ## Held runs -/

/-- A pause holds a live run, with the commands that had started by then. -/
structure Held (s : Scene) (pid : Pid) (id : RunId) (log : RunLog) : Prop where
  live : s.books.live.get? pid = some id
  run : ∃ r, s.books.runs.get? id = some r ∧ r.state = .paused ∧ r.log = log
  left : ∃ jobs ∈ s.tasks, ∃ c, .command id .regular c ∈ jobs
  unresumed : ∀ jobs ∈ s.tasks, .resumeRun id ∉ jobs

/-- The next turn of a task takes no command away from a held run and resumes none. -/
theorem Held.turned {old new : List Job} {started tasks : Multiset (List Job)}
    (h : Held ⟨b, old ::ₘ tasks⟩ pid id log) (hlive : b'.live.get? pid = some id)
    (hrun : ∃ r, b'.runs.get? id = some r ∧ r.state = .paused ∧ r.log = log)
    (hleft : ∀ c, .command id .regular c ∈ old → .command id .regular c ∈ new)
    (hnew : .resumeRun id ∉ new) (hstarted : ∀ jobs ∈ started, .resumeRun id ∉ jobs) :
    Held ⟨b'.taken, new ::ₘ (started + tasks)⟩ pid id log := by
  refine ⟨hlive, hrun, ?_, ?_⟩
  · obtain ⟨jobs, hjobs, c, hc⟩ := h.left
    rcases Multiset.mem_cons.mp hjobs with rfl | hjobs
    · exact ⟨new, Multiset.mem_cons_self _ _, c, hleft c hc⟩
    · exact ⟨jobs, Multiset.mem_cons_of_mem (Multiset.mem_add.mpr (.inr hjobs)), c, hc⟩
  · intro jobs hjobs
    rcases Multiset.mem_cons.mp hjobs with rfl | hjobs
    · exact hnew
    · rcases Multiset.mem_add.mp hjobs with hjobs | hjobs
      · exact hstarted jobs hjobs
      · exact h.unresumed jobs (Multiset.mem_cons_of_mem hjobs)

theorem Held.advanced {old new : List Job} {tasks : Multiset (List Job)}
    (h : Held ⟨b, old ::ₘ tasks⟩ pid id log) (hlive : b'.live.get? pid = some id)
    (hrun : ∃ r, b'.runs.get? id = some r ∧ r.state = .paused ∧ r.log = log)
    (hleft : ∀ c, .command id .regular c ∈ old → .command id .regular c ∈ new)
    (hnew : .resumeRun id ∉ new) : Held ⟨b', new ::ₘ tasks⟩ pid id log := by
  have hturned : Held ⟨b'.taken, new ::ₘ (0 + tasks)⟩ pid id log :=
    h.turned hlive hrun hleft hnew (by simp)
  rw [Multiset.zero_add] at hturned
  exact ⟨hturned.live, hturned.run, hturned.left, hturned.unresumed⟩

/-- The end of a task takes no command away if it had none. -/
theorem Held.ended {old : List Job} {tasks : Multiset (List Job)}
    (h : Held ⟨b, old ::ₘ tasks⟩ pid id log) (hold : ∀ c, .command id .regular c ∉ old) :
    Held ⟨b, tasks⟩ pid id log := by
  refine ⟨h.live, h.run, ?_, fun jobs hjobs => h.unresumed jobs (Multiset.mem_cons_of_mem hjobs)⟩
  obtain ⟨jobs, hjobs, c, hc⟩ := h.left
  rcases Multiset.mem_cons.mp hjobs with rfl | hjobs
  · exact absurd hc (hold c)
  · exact ⟨jobs, hjobs, c, hc⟩

/-- A held run has no replay. -/
theorem Held.no_replay (hs : s.Sound) (h : s.Held pid id log) :
    underway s.tasks (id, .replay) = 0 := by
  obtain ⟨r, hr, hstate, -⟩ := h.run
  obtain ⟨r', hr', -, hstopped⟩ := hs.books.live_run pid id h.live
  obtain rfl := Option.some.inj (hr.symm.trans hr')
  rw [hs.replay id r hr hstopped, hstate]
  rfl

/-- The change of another run leaves a held run as it is. -/
theorem Held.run_modifyRun (h : s.Held pid id log) {id' : RunId} (hne : id' ≠ id)
    (change : Run → Run) :
    ∃ r, (s.books.modifyRun id' change).runs.get? id = some r ∧ r.state = .paused ∧
      r.log = log := by
  rw [Books.runs_modifyRun_of_ne _ hne]
  exact h.run

/-! ## One step -/

theorem Held.plain {job : Job} {rest next : List Job} {tasks : Multiset (List Job)}
    (hs : Sound ⟨b, (job :: rest) ::ₘ tasks⟩) (h : Held ⟨b, (job :: rest) ::ₘ tasks⟩ pid id log)
    (plain : ∀ j ∈ job :: rest, j.IsPlain) (deed : b.Plainly now job b')
    (follow : ∀ j ∈ next, j.IsPlain) (quiet : ¬ job.Calls pid) :
    Held ⟨b'.taken, (next ++ rest) ::ₘ (begun b' + tasks)⟩ pid id log := by
  have hold : ∀ c, Job.command id .regular c ∉ job :: rest := fun c hc => plain _ hc
  have hnew : .resumeRun id ∉ next ++ rest := fun hr => by
    rcases List.mem_append.mp hr with hr | hr
    · exact follow _ hr
    · exact plain _ (List.mem_cons_of_mem _ hr)
  have hstarted : b.started = [] := hs.taken
  have hkeep : ∀ jobs ∈ begun b, .resumeRun id ∉ jobs := by simp [begun, hstarted]
  obtain ⟨r, hr, hstate, hlog⟩ := h.run
  cases deed with
  | grow hgrows =>
    exact h.turned (live_grows hs.books hgrows h.live)
      ⟨r, runs_grows hs.books.runs_size hgrows hr, hstate, hlog⟩
      (fun c hc => absurd hc (hold c)) hnew fun jobs hjobs => begun_grows hgrows hstarted hjobs
  | @pause pid' id' r₀ r' live run paused =>
    have hne : id' ≠ id := by
      rintro rfl
      obtain ⟨-, hrunning, -⟩ := Run.pause?_eq_some paused
      obtain rfl := Option.some.inj (hr.symm.trans run)
      simp [hstate] at hrunning
    exact h.turned h.live (h.run_modifyRun hne _) (fun c hc => absurd hc (hold c)) hnew hkeep
  | @resume pid' id' live =>
    have hne : id' ≠ id := by
      rintro rfl
      exact quiet (hs.books.live_unique live h.live)
    apply h.turned h.live h.run (fun c hc => absurd hc (hold c)) hnew
    intro jobs hjobs hresume
    rw [begun_begin hstarted, Multiset.mem_singleton] at hjobs
    subst hjobs
    simp [Ne.symm hne] at hresume
  | @stop pid' id' live =>
    have hpid : pid' ≠ pid := quiet
    have hne : id' ≠ id := by
      rintro rfl
      exact hpid (hs.books.live_unique live h.live)
    refine h.turned ?_ (h.run_modifyRun hne _) (fun c hc => absurd hc (hold c)) hnew hkeep
    exact (Table.get?_erase _ _ _).trans ((if_neg hpid).trans h.live)

theorem Held.serve {id' : RunId} {part : Part} {job : Job} {active closing next : List Job}
    {tasks : Multiset (List Job)} (hs : Sound ⟨b, (job :: (active ++ closing)) ::ₘ tasks⟩)
    (h : Held ⟨b, (job :: (active ++ closing)) ::ₘ tasks⟩ pid id log)
    (serves : ∀ j ∈ job :: active, j.Serves id' part) (closes : Closing id' part closing)
    (deed : b.Serving now id' part job b') (follow : ∀ j ∈ next, j.Serves id' part) :
    Held ⟨b'.taken, (next ++ (active ++ closing)) ::ₘ (begun b' + tasks)⟩ pid id log := by
  have hstarted : b.started = [] := hs.taken
  have hkeep : ∀ jobs ∈ begun b, .resumeRun id ∉ jobs := by simp [begun, hstarted]
  have hnew : .resumeRun id ∉ next ++ (active ++ closing) := fun hr => by
    rcases List.mem_append.mp hr with hr | hr
    · exact follow _ hr
    · exact h.unresumed _ (Multiset.mem_cons_self _ _) (List.mem_cons_of_mem _ hr)
  -- Unless the job is a command of the run itself, its commands are all further on.
  have hleft (hjob : ∀ c, job ≠ .command id .regular c) (c : Command)
      (hc : .command id .regular c ∈ job :: (active ++ closing)) :
      .command id .regular c ∈ next ++ (active ++ closing) := by
    rcases List.mem_cons.mp hc with hc | hc
    · exact absurd hc.symm (hjob c)
    · exact List.mem_append_right _ hc
  obtain ⟨r, hr, hstate, hlog⟩ := h.run
  obtain ⟨r', hr', -, hstopped⟩ := hs.books.live_run pid id h.live
  obtain rfl := Option.some.inj (hr.symm.trans hr')
  cases deed with
  | pass hjob =>
    refine h.turned h.live h.run (hleft ?_) hnew hkeep
    intro c hc
    have hserves := serves job List.mem_cons_self
    rw [hc] at hserves
    obtain ⟨rfl, rfl⟩ := hserves
    exact hjob c hc
  | @skip c hskip =>
    refine h.turned h.live h.run (hleft ?_) hnew hkeep
    intro c' hc
    obtain ⟨rfl, -⟩ := Job.command.inj hc
    simp [hskip r hr] at hstopped
  | @start c r₀ b' run ready grown =>
    have hne : id' ≠ id := by
      rintro rfl
      obtain rfl := Option.some.inj (hr.symm.trans run)
      cases part with
      | regular => simp [(Run.readiness_regular_iff.mp ready).2] at hstate
      | replay =>
        have hmem := (hs.task _ (Multiset.mem_cons_self _ _)).mem_closings List.mem_cons_self
        have hpos := underway_pos (Multiset.mem_cons_self _ tasks) hmem
        have hzero := h.no_replay hs
        exact Nat.ne_of_gt hpos hzero
    have hmodified := hs.books.modifyRun id' fun r _ =>
      (⟨rfl, rfl⟩ : (r.record now c.isDelay c.text).pid = r.pid ∧ _)
    have hrun : (b.modifyRun id' (·.record now c.isDelay c.text)).runs.get? id = some r :=
      (Books.runs_modifyRun_of_ne _ hne _).trans hr
    refine h.turned (live_grows hmodified grown h.live)
      ⟨r, runs_grows hmodified.runs_size grown hrun, hstate, hlog⟩ (hleft ?_) hnew
      fun jobs hjobs => begun_grows grown hstarted hjobs
    intro c' hc
    obtain ⟨rfl, -⟩ := Job.command.inj hc
    exact hne rfl

/-- What a step leaves of a held run when it is no call to resume or to stop it. -/
theorem Held.step (hs : s.Sound) (h : s.Held pid id log) (hstep : Step now s job s')
    (quiet : ∀ j, job = some j → ¬ j.Calls pid) : s'.Held pid id log := by
  obtain ⟨b, all⟩ := s
  cases hstep with
  | stay => exact h
  | @ask op =>
    obtain ⟨jobs, hjobs, hc⟩ := h.left
    refine ⟨h.live, h.run, ⟨jobs, Multiset.mem_cons_of_mem hjobs, hc⟩, ?_⟩
    intro jobs hjobs
    rcases Multiset.mem_cons.mp hjobs with rfl | hjobs
    · simp
    · exact h.unresumed jobs hjobs
  | ended task =>
    obtain rfl : all = _ := task
    exact h.ended (by simp)
  | plain task plain deed follow =>
    obtain rfl : all = _ := task
    exact h.plain hs plain deed follow (quiet _ rfl)
  | fail task plain =>
    obtain rfl : all = _ := task
    exact h.ended fun c hc => plain _ hc
  | serve task serves closes deed follow =>
    obtain rfl : all = _ := task
    exact h.serve hs serves closes deed follow
  | @finish id' tasks task =>
    obtain rfl : all = _ := task
    -- The task with the commands that are left would be a second one of the run.
    have hne : id ≠ id' := by
      rintro rfl
      obtain ⟨jobs, hjobs, c, hc⟩ := h.left
      rcases Multiset.mem_cons.mp hjobs with rfl | hother
      · simp at hc
      · have hpos := underway_pos hother ((hs.task jobs hjobs).mem_closings hc)
        have hle := hs.regular id
        have hclosings : closings [.finish id] = [(id, .regular)] := rfl
        simp only [underway_of_closings hclosings, if_true] at hle
        omega
    refine h.advanced (hs.books.live_finishRun.mpr ⟨h.live, hne⟩) ?_ (by simp) (by simp)
    rw [Books.runs_finishRun]
    exact h.run
  | @settle id' text rest tasks task plain =>
    obtain rfl : all = _ := task
    have hne : id' ≠ id := by
      rintro rfl
      have hmem : (id', Part.replay) ∈ closings (.endReplay id' text :: rest) :=
        List.mem_cons_self
      have hpos := underway_pos (Multiset.mem_cons_self _ tasks) hmem
      exact Nat.ne_of_gt hpos (h.no_replay hs)
    refine h.advanced h.live (h.run_modifyRun hne _) ?_ fun hr => plain _ hr
    intro c hc
    simpa using hc
  | @resume id' rest next tasks b' task plain deed =>
    obtain rfl : all = _ := task
    have hne : id' ≠ id := by
      rintro rfl
      exact h.unresumed _ (Multiset.mem_cons_self _ _) List.mem_cons_self
    have hold : ∀ c, Job.command id .regular c ∉ .resumeRun id' :: rest := fun c hc => by
      rcases List.mem_cons.mp hc with hc | hc
      · simp at hc
      · exact plain _ hc
    have hrest : .resumeRun id ∉ rest := fun hr => plain _ hr
    cases deed with
    | none _ => exact h.advanced h.live h.run (fun c hc => absurd hc (hold c)) hrest
    | settle _ _ =>
      exact h.advanced h.live (h.run_modifyRun hne _) (fun c hc => absurd hc (hold c)) hrest
    | replay _ _ serves =>
      refine h.advanced h.live (h.run_modifyRun hne _) (fun c hc => absurd hc (hold c)) ?_
      intro hr
      rcases List.mem_append.mp hr with hr | hr
      · rcases List.mem_append.mp hr with hr | hr
        · exact serves _ hr
        · simp at hr
      · exact hrest hr

end Scene

end Signalbox
