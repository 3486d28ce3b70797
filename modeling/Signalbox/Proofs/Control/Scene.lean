import Mathlib.Algebra.BigOperators.Group.Multiset.Basic
import Signalbox.Proofs.Control.World
import Signalbox.Proofs.Run.Basic

/-
  Signalbox/Proofs/Control/Scene.lean --- the books and the tasks beside them.

  What there is to say about runs needs no more of a world than its books and what
  each task has yet to do, and not the order of the tasks.  A task is plain, or it
  is about to resume a run, or it serves one part of one run and ends with the job
  that closes that part.  The scene is sound when these tasks agree with the books:
  a live run has the one task that carries it on, and a run that goes on has a
  replay exactly while it is being resumed.
-/

set_option autoImplicit false

namespace Signalbox

/-! ## Tasks -/

/-- The part of a run that is over with a job. -/
def Job.closes : Job → Option (RunId × Part)
  | finish id => some (id, .regular)
  | endReplay id _ => some (id, .replay)
  | _ => none

/-- The parts of runs that are over with some jobs. -/
def closings (jobs : List Job) : List (RunId × Part) := jobs.filterMap Job.closes

/-- The jobs after the last one of a part of a run: the one that closes it, and after a replay
what clients are told. -/
inductive Closing (id : RunId) : Part → List Job → Prop
  | regular : Closing id .regular [.finish id]
  | replay {text : String} {rest : List Job} (plain : ∀ j ∈ rest, j.IsPlain) :
      Closing id .replay (.endReplay id text :: rest)

/-- The jobs of a task. -/
inductive IsTask : List Job → Prop
  | plain {jobs : List Job} (plain : ∀ j ∈ jobs, j.IsPlain) : IsTask jobs
  | resuming {id : RunId} {rest : List Job} (plain : ∀ j ∈ rest, j.IsPlain) :
      IsTask (.resumeRun id :: rest)
  | serving {id : RunId} {part : Part} {active closing : List Job}
      (serves : ∀ j ∈ active, j.Serves id part) (closes : Closing id part closing) :
      IsTask (active ++ closing)

theorem Job.IsPlain.closes {j : Job} (h : j.IsPlain) : j.closes = none := by
  cases j <;> first | rfl | exact h.elim

theorem Job.Serves.closes {j : Job} {id : RunId} {part : Part} (h : j.Serves id part) :
    j.closes = none := by
  cases j <;> first | rfl | exact h.elim

theorem closings_append (left right : List Job) :
    closings (left ++ right) = closings left ++ closings right := List.filterMap_append

theorem closings_eq_nil {jobs : List Job} (h : ∀ j ∈ jobs, j.closes = none) :
    closings jobs = [] := List.filterMap_eq_nil_iff.mpr h

theorem closings_plain {jobs : List Job} (h : ∀ j ∈ jobs, j.IsPlain) : closings jobs = [] :=
  closings_eq_nil fun j hj => (h j hj).closes

theorem closings_serves {jobs : List Job} {id : RunId} {part : Part}
    (h : ∀ j ∈ jobs, j.Serves id part) : closings jobs = [] :=
  closings_eq_nil fun j hj => (h j hj).closes

theorem closings_resumeRun (id : RunId) (rest : List Job) :
    closings (.resumeRun id :: rest) = closings rest := rfl

theorem Closing.closings {id : RunId} {part : Part} {jobs : List Job}
    (h : Closing id part jobs) : closings jobs = [(id, part)] := by
  cases h with
  | regular => rfl
  | replay plain => exact congrArg (List.cons _) (closings_plain plain)

/-- The jobs after the last one of a part of a run close it or are plain. -/
theorem Closing.closes_or_plain {id : RunId} {part : Part} {jobs : List Job}
    (h : Closing id part jobs) {j : Job} (hj : j ∈ jobs) :
    j.closes = some (id, part) ∨ j.IsPlain := by
  cases h with
  | regular =>
    rw [List.mem_singleton.mp hj]
    exact .inl rfl
  | replay plain =>
    rcases List.mem_cons.mp hj with rfl | hj
    · exact .inl rfl
    · exact .inr (plain j hj)

/-- A run is begun by a task that serves it. -/
theorem isTask_scriptJobs (id : RunId) (script : Script) : IsTask (script.jobs id) :=
  .serving (serves_jobs id .regular script.children) .regular

theorem closings_scriptJobs (id : RunId) (script : Script) :
    closings (script.jobs id) = [(id, .regular)] := by
  rw [Script.jobs, closings_append, closings_serves (serves_jobs id .regular _)]
  rfl

/-! ## Scenes -/

/-- Books, and what each task has yet to do. -/
structure Scene where
  books : Books
  tasks : Multiset (List Job)

/-- The scene of a world. -/
def World.scene (w : World) : Scene := ⟨w.controller.books, (w.tasks.map Task.jobs : List _)⟩

namespace Scene

/-- The jobs of the tasks that have been started. -/
def begun (b : Books) : Multiset (List Job) := (b.started.map Task.jobs : List _)

theorem begun_eq_zero {b : Books} (h : b.started = []) : begun b = 0 := by
  rw [begun, h]
  rfl

theorem begun_begin {b : Books} (h : b.started = []) (jobs : List Job) :
    begun (b.begin jobs) = {jobs} := by
  simp [begun, Books.begin, h, Task.ofJobs]

theorem begun_startRun {b : Books} (h : b.started = []) (script : Script)
    (loco : Option LocoHandle) (root : Int) :
    begun (b.startRun script loco root) = {script.jobs b.runs.size} :=
  begun_begin h _

/-- How many tasks are to close a part of a run. -/
def underway (tasks : Multiset (List Job)) (key : RunId × Part) : Nat :=
  (tasks.map fun jobs => (closings jobs).count key).sum

theorem underway_cons (jobs : List Job) (tasks : Multiset (List Job)) (key : RunId × Part) :
    underway (jobs ::ₘ tasks) key = (closings jobs).count key + underway tasks key := by
  simp [underway]

theorem underway_of_closings {jobs : List Job} {key : RunId × Part}
    (h : closings jobs = [key]) (tasks : Multiset (List Job)) (key' : RunId × Part) :
    underway (jobs ::ₘ tasks) key' = (if key = key' then 1 else 0) + underway tasks key' := by
  simp [underway_cons, h, List.count_singleton]

/-- A part of a run that some task serves is under way. -/
theorem underway_pos {tasks : Multiset (List Job)} {jobs : List Job} {key : RunId × Part}
    (hjobs : jobs ∈ tasks) (hkey : key ∈ closings jobs) : 0 < underway tasks key := by
  obtain ⟨others, rfl⟩ := Multiset.exists_cons_of_mem hjobs
  have hcount := List.count_pos_iff.mpr hkey
  rw [underway_cons]
  omega

/-- The tasks agree with the books. -/
structure Sound (s : Scene) : Prop where
  books : s.books.Sound
  taken : s.books.started = []
  task : ∀ jobs ∈ s.tasks, IsTask jobs
  live : ∀ pid id, s.books.live.get? pid = some id → underway s.tasks (id, .regular) = 1
  regular : ∀ id, underway s.tasks (id, .regular) ≤ 1
  replay : ∀ id r, s.books.runs.get? id = some r → r.stopped = false →
    underway s.tasks (id, .replay) = if r.state = .resuming then 1 else 0
  unknown : ∀ id part, s.books.runs.get? id = none → underway s.tasks (id, part) = 0

variable {b : Books} {tasks : Multiset (List Job)} {jobs : List Job}

/-! ## Other tasks, the same books -/

/-- Tasks that close the same parts as before. -/
theorem Sound.withTasks (h : Sound ⟨b, tasks⟩) {tasks' : Multiset (List Job)}
    (htask : ∀ jobs ∈ tasks', IsTask jobs)
    (hsame : ∀ key, underway tasks' key = underway tasks key) :
    Sound ⟨b, tasks'⟩ := by
  refine ⟨h.books, h.taken, htask, fun pid id hid => ?_, fun id => ?_, fun id r hr hstopped => ?_,
    fun id part hid => ?_⟩ <;> simp only [hsame]
  · exact h.live pid id hid
  · exact h.regular id
  · exact h.replay id r hr hstopped
  · exact h.unknown id part hid

/-- A task goes on. -/
theorem Sound.advance (h : Sound ⟨b, jobs ::ₘ tasks⟩) {jobs' : List Job} (htask : IsTask jobs')
    (hclosings : closings jobs' = closings jobs) : Sound ⟨b, jobs' ::ₘ tasks⟩ := by
  refine h.withTasks ?_ fun key => by simp only [underway_cons, hclosings]
  intro k hk
  rcases Multiset.mem_cons.mp hk with rfl | hk
  · exact htask
  · exact h.task k (Multiset.mem_cons_of_mem hk)

/-- A task ends that closes nothing. -/
theorem Sound.drop (h : Sound ⟨b, jobs ::ₘ tasks⟩) (hclosings : closings jobs = []) :
    Sound ⟨b, tasks⟩ :=
  h.withTasks (fun k hk => h.task k (Multiset.mem_cons_of_mem hk)) fun key => by
    simp [underway_cons, hclosings]

/-- A task begins that closes nothing. -/
theorem Sound.add (h : Sound ⟨b, tasks⟩) (htask : IsTask jobs) (hclosings : closings jobs = []) :
    Sound ⟨b, jobs ::ₘ tasks⟩ := by
  refine h.withTasks ?_ fun key => by simp [underway_cons, hclosings]
  intro k hk
  rcases Multiset.mem_cons.mp hk with rfl | hk
  · exact htask
  · exact h.task k hk

/-! ## Other books, the same tasks -/

/-- A change of a run that leaves open whether it is being resumed. -/
theorem Sound.modifyRun (h : Sound ⟨b, tasks⟩) (id : RunId) {change : Run → Run}
    (hchange : ∀ r, b.runs.get? id = some r → (change r).pid = r.pid ∧
      (change r).stopped = r.stopped ∧ ((change r).state = .resuming ↔ r.state = .resuming)) :
    Sound ⟨b.modifyRun id change, tasks⟩ := by
  have hbooks := h.books.modifyRun id fun r hr => ⟨(hchange r hr).1, (hchange r hr).2.1⟩
  refine ⟨hbooks, h.taken, h.task, h.live, h.regular, ?_,
    ?_⟩
  · intro id' r' hr' hstopped
    rw [Books.runs_modifyRun] at hr'
    split at hr'
    · rename_i hid
      subst hid
      obtain ⟨r, hr, rfl⟩ := Option.map_eq_some_iff.mp hr'
      obtain ⟨-, hs, hstate⟩ := hchange r hr
      rw [h.replay id r hr (hs ▸ hstopped)]
      simp only [hstate]
    · exact h.replay id' r' hr' hstopped
  · intro id' part hid'
    exact h.unknown id' part (Books.runs_modifyRun_eq_none.mp hid')

theorem Sound.retire (h : Sound ⟨b, tasks⟩) (pid : Pid) : Sound ⟨b.retire pid, tasks⟩ := by
  refine ⟨h.books.retire pid, h.taken, h.task, ?_, h.regular, h.replay,
    h.unknown⟩
  intro pid' id hid
  simp only [Books.retire, Table.get?_erase] at hid
  split at hid
  · simp at hid
  · exact h.live pid' id hid

/-- A run is stopped when its name is taken off the list. -/
theorem Sound.stop (h : Sound ⟨b, tasks⟩) {pid : Pid} {id : RunId}
    (hlive : b.live.get? pid = some id) :
    Sound ⟨(b.retire pid).modifyRun id Run.stop, tasks⟩ := by
  have hretired := h.retire pid
  refine ⟨h.books.stop hlive, h.taken, h.task, hretired.live, h.regular,
    ?_, ?_⟩
  · intro id' r' hr' hstopped
    rw [Books.runs_modifyRun] at hr'
    split at hr'
    · -- The run that is stopped is no concern of the books on replays.
      obtain ⟨r, -, rfl⟩ := Option.map_eq_some_iff.mp hr'
      simp [Run.stop] at hstopped
    · exact h.replay id' r' hr' hstopped
  · intro id' part hid'
    exact h.unknown id' part (Books.runs_modifyRun_eq_none.mp hid')

/-! ## Both -/

/-- The run that a script is started as has its task. -/
theorem Sound.startRun (h : Sound ⟨b, tasks⟩) (script : Script) (loco : Option LocoHandle)
    (root : Int) :
    Sound ⟨(b.startRun script loco root).taken, script.jobs b.runs.size ::ₘ tasks⟩ := by
  have hnew := h.books.runs_size
  have hcount := underway_of_closings (closings_scriptJobs b.runs.size script) tasks
  refine ⟨(h.books.startRun script loco root).taken, rfl, fun k hk => ?_, fun pid id hid => ?_,
    fun id => ?_, fun id r hr hstopped => ?_, fun id part hid => ?_⟩ <;>
    simp only [hcount, Books.taken] at *
  · rcases Multiset.mem_cons.mp hk with rfl | hk
    · exact isTask_scriptJobs _ script
    · exact h.task k hk
  · rw [Books.live_startRun] at hid
    split at hid
    · obtain rfl := Option.some.inj hid
      simp [h.unknown _ _ hnew]
    · obtain ⟨r, hr, -, -⟩ := h.books.live_run pid id hid
      simp [Nat.ne_of_gt (h.books.lt_size hr), h.live pid id hid]
  · by_cases hid : b.runs.size = id
    · subst hid
      simp [h.unknown _ _ hnew]
    · simp [hid, h.regular id]
  · rw [Books.runs_startRun] at hr
    split at hr
    · rename_i hid
      subst hid
      obtain rfl := Option.some.inj hr
      simp [h.unknown _ _ hnew, Run.ofScript]
    · simp [h.replay id r hr hstopped]
  · rw [Books.runs_startRun] at hid
    split at hid
    · simp at hid
    · rename_i hne
      simp [hne, h.unknown id part hid]

/-- A task is started that closes nothing. -/
theorem Sound.begin (h : Sound ⟨b, tasks⟩) (htask : IsTask jobs) (hclosings : closings jobs = []) :
    Sound ⟨(b.begin jobs).taken, begun (b.begin jobs) + tasks⟩ := by
  have htaken : b.started = [] := h.taken
  have hsame : (b.begin jobs).taken = b := by rw [Books.taken, Books.begin, ← htaken]
  rw [begun_begin htaken, hsame, Multiset.singleton_add]
  exact h.add htask hclosings

/-- What jobs start is added to the tasks. -/
theorem Sound.grow (h : Sound ⟨b, tasks⟩) {b' : Books} (hgrows : b.Grows b') :
    Sound ⟨b'.taken, begun b' + tasks⟩ := by
  have htaken : b.started = [] := h.taken
  cases hgrows with
  | same =>
    rw [Books.taken_eq htaken, begun_eq_zero htaken, Multiset.zero_add]
    exact h
  | startRun script loco root =>
    rw [begun_startRun htaken, Multiset.singleton_add]
    exact h.startRun script loco root
  | begin plain => exact h.begin (.plain plain) (closings_plain plain)

/-- A run is over, and no task serves it any more. -/
theorem Sound.finishRun {id : RunId} (h : Sound ⟨b, [.finish id] ::ₘ tasks⟩) :
    Sound ⟨b.finishRun id, tasks⟩ := by
  have hclosings : closings [.finish id] = [(id, .regular)] := rfl
  have hcount := underway_of_closings hclosings tasks
  refine ⟨h.books.finishRun id, (Books.started_finishRun b id).trans h.taken,
    fun k hk => h.task k (Multiset.mem_cons_of_mem hk), fun pid id' hid => ?_, fun id' => ?_,
    fun id' r hr hstopped => ?_, fun id' part hid => ?_⟩ <;>
    simp only [Books.runs_finishRun] at *
  · obtain ⟨hlive, hne⟩ := h.books.live_finishRun.mp hid
    have := h.live pid id' hlive
    simpa [hcount, Ne.symm hne] using this
  · have := h.regular id'
    simp only [hcount] at this
    omega
  · have := h.replay id' r hr hstopped
    simpa [hcount] using this
  · have := h.unknown id' part hid
    simp only [hcount] at this
    omega

/-- A replay is over, and its run goes on. -/
theorem Sound.settle {id : RunId} {text : String} {rest : List Job}
    (h : Sound ⟨b, (.endReplay id text :: rest) ::ₘ tasks⟩) (hplain : ∀ j ∈ rest, j.IsPlain) :
    Sound ⟨b.modifyRun id Run.settled, rest ::ₘ tasks⟩ := by
  have hclosings : closings (.endReplay id text :: rest) = [(id, .replay)] :=
    (Closing.replay hplain).closings
  have hcount := underway_of_closings hclosings tasks
  have hrest (key : RunId × Part) : underway (rest ::ₘ tasks) key = underway tasks key := by
    simp [underway_cons, closings_plain hplain]
  refine ⟨h.books.modifyRun id fun r _ => ⟨r.pid_settled, r.stopped_settled⟩, h.taken,
    ?_, ?_, ?_, ?_,
    ?_⟩
  · intro k hk
    rcases Multiset.mem_cons.mp hk with rfl | hk
    · exact .plain hplain
    · exact h.task k (Multiset.mem_cons_of_mem hk)
  · intro pid id' hid
    have := h.live pid id' hid
    simpa [hcount, hrest] using this
  · intro id'
    have := h.regular id'
    simpa [hcount, hrest] using this
  · intro id' r' hr' hstopped
    rw [Books.runs_modifyRun] at hr'
    split at hr'
    · rename_i hid
      subst hid
      obtain ⟨r, hr, rfl⟩ := Option.map_eq_some_iff.mp hr'
      have hone := h.replay id r hr (r.stopped_settled ▸ hstopped)
      simp only [hcount, if_true] at hone
      simp only [hrest, if_neg r.state_settled_ne]
      split at hone <;> omega
    · rename_i hid
      have := h.replay id' r' hr' hstopped
      simpa [hcount, hrest, hid] using this
  · intro id' part hid
    have := h.unknown id' part (Books.runs_modifyRun_eq_none.mp hid)
    simp only [hcount] at this
    simp only [hrest]
    omega

/-- A paused run is being resumed, and its replay begins. -/
theorem Sound.replayed {id : RunId} {r r' : Run} {text : String} {active rest : List Job}
    (h : Sound ⟨b, (.resumeRun id :: rest) ::ₘ tasks⟩) (hplain : ∀ j ∈ rest, j.IsPlain)
    (hrun : b.runs.get? id = some r) (hresume : r.resume? = some r')
    (hserves : ∀ j ∈ active, j.Serves id .replay) :
    Sound ⟨b.modifyRun id fun _ => r', (active ++ .endReplay id text :: rest) ::ₘ tasks⟩ := by
  obtain ⟨hpaused, rfl⟩ := Run.resume?_eq_some hresume
  have hclosings : closings (active ++ .endReplay id text :: rest) = [(id, .replay)] := by
    rw [closings_append, closings_serves hserves]
    exact (Closing.replay hplain : Closing id .replay (.endReplay id text :: rest)).closings
  have hcount := underway_of_closings hclosings tasks
  have hbefore (key : RunId × Part) :
      underway ((.resumeRun id :: rest) ::ₘ tasks) key = underway tasks key := by
    simp [underway_cons, closings_resumeRun, closings_plain hplain]
  refine ⟨h.books.modifyRun id ?_, h.taken, ?_,
    ?_, ?_, ?_,
    ?_⟩
  · intro r'' hr''
    obtain rfl := Option.some.inj (hrun.symm.trans hr'')
    exact ⟨rfl, rfl⟩
  · intro k hk
    rcases Multiset.mem_cons.mp hk with rfl | hk
    · exact .serving hserves (.replay hplain)
    · exact h.task k (Multiset.mem_cons_of_mem hk)
  · intro pid id' hid
    have := h.live pid id' hid
    simpa [hcount, hbefore] using this
  · intro id'
    have := h.regular id'
    simpa [hcount, hbefore] using this
  · intro id' r'' hr'' hstopped
    rw [Books.runs_modifyRun] at hr''
    split at hr''
    · rename_i hid
      subst hid
      obtain ⟨r₀, hr₀, rfl⟩ := Option.map_eq_some_iff.mp hr''
      obtain rfl := Option.some.inj (hrun.symm.trans hr₀)
      have hzero := h.replay id r hrun hstopped
      simp only [hbefore, hpaused] at hzero
      simp [hcount, hzero, Run.withState]
    · rename_i hid
      have := h.replay id' r'' hr'' hstopped
      simpa [hcount, hbefore, hid] using this
  · intro id' part hid
    have hnone := Books.runs_modifyRun_eq_none.mp hid
    have hne : id ≠ id' := by
      rintro rfl
      simp [hrun] at hnone
    have := h.unknown id' part hnone
    simpa [hcount, hbefore, hne] using this

end Scene

end Signalbox
