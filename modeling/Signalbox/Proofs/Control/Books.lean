import Signalbox.Control.Step
import Signalbox.Proofs.Run.Pid

/-
  Signalbox/Proofs/Control/Books.lean --- the books on runs.

  Of a controller, only four parts say anything about runs: the names in use, the
  live runs, all runs, and the tasks it has started.  They are its books.  The books
  are sound when runs are numbered without a gap, and every live name is in use and
  leads to a run that has this name and is not stopped.  So no run has two names,
  and a new run gets a name and a number that no other run has.
-/

set_option autoImplicit false

namespace Signalbox

/-- What a controller knows about runs, and the tasks it has started. -/
structure Books where
  pids : PidAllocator
  live : Table Pid RunId
  runs : Table RunId Run
  started : List Task

/-- The books of a controller. -/
def Controller.books (c : Controller) : Books := ⟨c.pids, c.live, c.runs, c.started⟩

namespace Books

variable {b : Books}

/-! ## Entries -/

/-- Starts a task. -/
def begin (b : Books) (jobs : List Job) : Books :=
  { b with started := b.started ++ [.ofJobs jobs] }

/-- Changes a run. -/
def modifyRun (b : Books) (id : RunId) (change : Run → Run) : Books :=
  { b with runs := b.runs.modify id change }

/-- Takes a name off the list and gives it back. -/
def retire (b : Books) (pid : Pid) : Books :=
  { b with live := b.live.erase pid, pids := b.pids.release pid }

/-- The name that the next run of a script gets. -/
def nextPid (b : Books) (root : Int) : Pid := (b.pids.allocate root).1

/-- Starts a run under a name of the given root. -/
def startRun (b : Books) (script : Script) (loco : Option LocoHandle) (root : Int) : Books :=
  begin { b with
    pids := (b.pids.allocate root).2
    live := b.live.insert (b.nextPid root) b.runs.size
    runs := b.runs.insert b.runs.size (.ofScript (b.nextPid root) script loco) }
    (script.jobs b.runs.size)

/-- Ends a run whose commands are over. -/
def finishRun (b : Books) (id : RunId) : Books :=
  match b.runs.get? id with
  | none => b
  | some run => if b.live.get? run.pid = some id then b.retire run.pid else b

/-- The books without the tasks started, which somebody has taken. -/
def taken (b : Books) : Books := { b with started := [] }

theorem taken_eq (h : b.started = []) : b.taken = b := by
  rw [taken, ← h]

theorem modifyRun_modifyRun (b : Books) (id : RunId) (f g : Run → Run) :
    (b.modifyRun id f).modifyRun id g = b.modifyRun id fun r => g (f r) := by
  rw [modifyRun, modifyRun, modifyRun, Table.modify_modify]

theorem runs_modifyRun (b : Books) (id id' : RunId) (change : Run → Run) :
    (b.modifyRun id change).runs.get? id' =
      if id = id' then (b.runs.get? id').map change else b.runs.get? id' :=
  Table.get?_modify _ _ _ _

theorem runs_modifyRun_of_ne (b : Books) {id id' : RunId} (hne : id ≠ id')
    (change : Run → Run) : (b.modifyRun id change).runs.get? id' = b.runs.get? id' := by
  rw [runs_modifyRun, if_neg hne]

/-- A change makes no run, and takes none away. -/
theorem runs_modifyRun_eq_none {id id' : RunId} {change : Run → Run} :
    (b.modifyRun id change).runs.get? id' = none ↔ b.runs.get? id' = none := by
  rw [runs_modifyRun]
  split
  · exact Option.map_eq_none_iff
  · exact Iff.rfl

/-! ## Soundness -/

/-- Runs are numbered without a gap, and every live name is in use and leads to a run of
that name that goes on. -/
structure Sound (b : Books) : Prop where
  run_none : ∀ id, b.runs.get? id = none ↔ b.runs.size ≤ id
  live_run : ∀ pid id, b.live.get? pid = some id →
    ∃ r, b.runs.get? id = some r ∧ r.pid = pid ∧ r.stopped = false
  live_pid : ∀ pid id, b.live.get? pid = some id → b.pids.isLive pid = true
  pids : b.pids.Sound

theorem sound_empty (started : List Task) : Sound ⟨.empty, Table.empty, Table.empty, started⟩ :=
  ⟨fun id => iff_of_true (Table.get?_empty id) (Nat.zero_le id), by simp [Table.get?_empty],
    by simp [Table.get?_empty], PidAllocator.sound_empty⟩

/-- A run has one name. -/
theorem Sound.live_unique (h : b.Sound) {pid pid' : Pid} {id : RunId}
    (hpid : b.live.get? pid = some id) (hpid' : b.live.get? pid' = some id) : pid = pid' := by
  obtain ⟨r, hr, rfl, -⟩ := h.live_run pid id hpid
  obtain ⟨r', hr', rfl, -⟩ := h.live_run pid' id hpid'
  rw [hr] at hr'
  rw [Option.some.inj hr']

/-- The next name leads to no run yet. -/
theorem Sound.live_nextPid (h : b.Sound) (root : Int) : b.live.get? (b.nextPid root) = none := by
  by_contra hne
  obtain ⟨id, hid⟩ := Option.ne_none_iff_exists'.mp hne
  have hlive := h.live_pid _ _ hid
  rw [nextPid, PidAllocator.isLive_allocated] at hlive
  exact Bool.false_ne_true hlive

/-- The next number leads to no run yet. -/
theorem Sound.runs_size (h : b.Sound) : b.runs.get? b.runs.size = none :=
  (h.run_none _).mpr (Nat.le_refl _)

theorem Sound.lt_size (h : b.Sound) {id : RunId} {r : Run} (hr : b.runs.get? id = some r) :
    id < b.runs.size := by
  by_contra hle
  rw [(h.run_none id).mpr (Nat.le_of_not_lt hle)] at hr
  simp at hr

/-! ## Entries keep the books sound -/

theorem Sound.taken (h : b.Sound) : b.taken.Sound :=
  ⟨h.run_none, h.live_run, h.live_pid, h.pids⟩

theorem Sound.run_none_modifyRun (h : b.Sound) (id : RunId) (change : Run → Run) (id' : RunId) :
    (b.modifyRun id change).runs.get? id' = none ↔ (b.modifyRun id change).runs.size ≤ id' := by
  rw [runs_modifyRun_eq_none, Books.modifyRun, Table.size_modify]
  exact h.run_none id'

/-- A change that stops no run and gives none another name. -/
theorem Sound.modifyRun (h : b.Sound) (id : RunId) {change : Run → Run}
    (hchange : ∀ r, b.runs.get? id = some r →
      (change r).pid = r.pid ∧ (change r).stopped = r.stopped) :
    (b.modifyRun id change).Sound := by
  refine ⟨h.run_none_modifyRun id change, ?_, h.live_pid, h.pids⟩
  intro pid id' hid'
  obtain ⟨r, hr, hpid, hstopped⟩ := h.live_run pid id' hid'
  rw [runs_modifyRun]
  split
  · rename_i hid
    subst hid
    obtain ⟨hp, hs⟩ := hchange r hr
    exact ⟨change r, by rw [hr]; rfl, hp.trans hpid, hs.trans hstopped⟩
  · exact ⟨r, hr, hpid, hstopped⟩

theorem Sound.retire (h : b.Sound) (pid : Pid) : (b.retire pid).Sound := by
  refine ⟨h.run_none, fun pid' id hid => ?_, fun pid' id hid => ?_, h.pids.release pid⟩ <;>
    rw [Books.retire, Table.get?_erase] at hid <;> split at hid
  · simp at hid
  · exact h.live_run pid' id hid
  · simp at hid
  · rename_i hne
    exact (PidAllocator.isLive_release _ _ _).mpr ⟨Ne.symm hne, h.live_pid pid' id hid⟩

/-- A run may be stopped once its name is off the list. -/
theorem Sound.stop (h : b.Sound) {pid : Pid} {id : RunId} (hlive : b.live.get? pid = some id) :
    ((b.retire pid).modifyRun id Run.stop).Sound := by
  have hretired := h.retire pid
  refine ⟨hretired.run_none_modifyRun id Run.stop, ?_, hretired.live_pid,
    hretired.pids⟩
  intro pid' id' hid'
  obtain ⟨r, hr, hpid, hstopped⟩ := hretired.live_run pid' id' hid'
  -- Another name cannot lead to the run that is stopped.
  have hne : id ≠ id' := by
    rintro rfl
    rw [Books.modifyRun, Books.retire, Table.get?_erase] at hid'
    split at hid'
    · simp at hid'
    · rename_i hpids
      exact hpids (h.live_unique hlive hid')
  exact ⟨r, (runs_modifyRun_of_ne _ hne _).trans hr, hpid, hstopped⟩

theorem Sound.finishRun (h : b.Sound) (id : RunId) : (b.finishRun id).Sound := by
  unfold Books.finishRun
  split
  · exact h
  · split
    · exact h.retire _
    · exact h

@[simp] theorem runs_finishRun (b : Books) (id : RunId) : (b.finishRun id).runs = b.runs := by
  unfold finishRun
  split
  · rfl
  · split <;> rfl

@[simp] theorem started_finishRun (b : Books) (id : RunId) :
    (b.finishRun id).started = b.started := by
  unfold finishRun
  split
  · rfl
  · split <;> rfl

/-- The end of a run takes its name off the list, and no other. -/
theorem Sound.live_finishRun (h : b.Sound) {id id' : RunId} {pid : Pid} :
    (b.finishRun id).live.get? pid = some id' ↔ b.live.get? pid = some id' ∧ id' ≠ id := by
  unfold Books.finishRun
  split
  · rename_i hrun
    refine ⟨fun hlive => ⟨hlive, ?_⟩, And.left⟩
    rintro rfl
    obtain ⟨r, hr, -⟩ := h.live_run pid id' hlive
    simp [hrun] at hr
  · rename_i r hrun
    split
    · rename_i hlive
      rw [Books.retire, Table.get?_erase]
      split
      · rename_i hpid
        subst hpid
        simp only [reduceCtorEq, hlive, Option.some.injEq, false_iff, not_and, not_not]
        exact Eq.symm
      · rename_i hpid
        refine ⟨fun hlive' => ⟨hlive', ?_⟩, And.left⟩
        rintro rfl
        exact hpid (h.live_unique hlive hlive')
    · rename_i hnone
      refine ⟨fun hlive => ⟨hlive, ?_⟩, And.left⟩
      rintro rfl
      obtain ⟨r', hr', rfl, -⟩ := h.live_run pid id' hlive
      obtain rfl := Option.some.inj (hrun.symm.trans hr')
      exact hnone hlive

theorem live_startRun (b : Books) (script : Script) (loco : Option LocoHandle) (root : Int)
    (pid : Pid) : (b.startRun script loco root).live.get? pid =
      if b.nextPid root = pid then some b.runs.size else b.live.get? pid :=
  Table.get?_insert _ _ _ _

theorem runs_startRun (b : Books) (script : Script) (loco : Option LocoHandle) (root : Int)
    (id : RunId) : (b.startRun script loco root).runs.get? id =
      if b.runs.size = id then some (.ofScript (b.nextPid root) script loco)
      else b.runs.get? id :=
  Table.get?_insert _ _ _ _

theorem Sound.startRun (h : b.Sound) (script : Script) (loco : Option LocoHandle) (root : Int) :
    (b.startRun script loco root).Sound := by
  have hsize : (b.startRun script loco root).runs.size = b.runs.size + 1 :=
    Table.size_insert _ h.runs_size
  refine ⟨?_, ?_, ?_, h.pids.allocate root⟩
  · intro id
    rw [runs_startRun, hsize]
    split
    · rename_i hid
      simp [← hid]
    · rename_i hid
      rw [h.run_none]
      omega
  · intro pid id hid
    rw [live_startRun] at hid
    rw [runs_startRun]
    split at hid
    · rename_i hpid
      obtain rfl := Option.some.inj hid
      exact ⟨_, if_pos rfl, hpid, rfl⟩
    · obtain ⟨r, hr, hpid, hstopped⟩ := h.live_run pid id hid
      rw [if_neg (Nat.ne_of_gt (h.lt_size hr))]
      exact ⟨r, hr, hpid, hstopped⟩
  · intro pid id hid
    rw [live_startRun] at hid
    apply (h.pids.isLive_allocate root pid).mpr
    split at hid
    · rename_i hpid
      exact .inl hpid.symm
    · exact .inr (h.live_pid pid id hid)

end Books

end Signalbox
