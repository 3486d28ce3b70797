import Signalbox.Proofs.Control.Pause

/-
  Signalbox/Proofs/Control/Names.lean --- every name of a run is given back once.

  A run has its name from its start until it is stopped or comes to its end,
  whichever is first.  Then the name is free for another run at once, while the task
  of a stopped run may still be under way; when that task comes to its end, the name
  is none of its business any more.

  So the names in use are at all times those on the list of live runs, and over its
  whole history a run that is off the list has given its name back exactly once.
-/

set_option autoImplicit false

namespace Signalbox

namespace Books

variable {b b' : Books} {job : Option Job} {pid : Pid} {id : RunId}

/-! ## What a step does to names -/

/-- The name of a run. -/
def name? (b : Books) (id : RunId) : Option Pid := (b.runs.get? id).map Run.pid

/-- What a job does to the names in use and to those that have them: nothing, or one new run
is given a name, or one live run gives its name back, at its end or when it is stopped. -/
inductive Naming (b b' : Books) (job : Option Job) : Prop
  | keeps (pids : b'.pids = b.pids) (live : b'.live = b.live)
      (names : ∀ id, b'.name? id = b.name? id)
  | gives (root : Int) (pids : b'.pids = (b.pids.allocate root).2)
      (live : b'.live = b.live.insert (b.nextPid root) b.runs.size)
      (names : ∀ id, b'.name? id = if b.runs.size = id then some (b.nextPid root) else b.name? id)
  | takes (pid : Pid) (id : RunId) (listed : b.live.get? pid = some id)
      (cause : job = some (.finish id) ∨ job = some (.operate (.stop pid)))
      (pids : b'.pids = b.pids.release pid) (live : b'.live = b.live.erase pid)
      (names : ∀ id, b'.name? id = b.name? id)

theorem name?_modifyRun (b : Books) (id : RunId) {change : Run → Run}
    (hchange : ∀ r, b.runs.get? id = some r → (change r).pid = r.pid) (id' : RunId) :
    (b.modifyRun id change).name? id' = b.name? id' := by
  rw [name?, runs_modifyRun]
  split
  · rename_i hid
    subst hid
    cases hr : b.runs.get? id with
    | none => simp [name?, hr]
    | some r => simp [name?, hr, hchange r hr]
  · rfl

theorem Grows.naming (h : b.Grows b') : b.Naming b' job := by
  cases h with
  | same => exact .keeps rfl rfl fun _ => rfl
  | startRun script loco root =>
    refine .gives root rfl rfl fun id => ?_
    rw [name?, runs_startRun]
    split <;> rfl
  | begin _ => exact .keeps rfl rfl fun _ => rfl

theorem naming_modifyRun (b : Books) (id : RunId) {change : Run → Run}
    (hchange : ∀ r, b.runs.get? id = some r → (change r).pid = r.pid) :
    b.Naming (b.modifyRun id change) job :=
  .keeps rfl rfl (b.name?_modifyRun id hchange)

theorem naming_put {r r' : Run} (hrun : b.runs.get? id = some r) (hpid : r'.pid = r.pid) :
    b.Naming (b.modifyRun id fun _ => r') job := by
  apply naming_modifyRun
  intro r'' hr''
  obtain rfl := Option.some.inj (hrun.symm.trans hr'')
  exact hpid

/-- Taking the tasks started changes nothing about names. -/
theorem Naming.taken (h : b.Naming b' job) : b.Naming b'.taken job := by
  cases h with
  | keeps pids live names => exact .keeps pids live names
  | gives root pids live names => exact .gives root pids live names
  | takes pid id listed cause pids live names => exact .takes pid id listed cause pids live names

/-- Before a run starts, what its predecessor in the step did to a run changes no name. -/
theorem Naming.of_modifyRun (change : Run → Run) (hchange : ∀ r, (change r).pid = r.pid)
    (h : (b.modifyRun id change).Naming b' job) : b.Naming b' job := by
  have hnames := b.name?_modifyRun id fun r _ => hchange r
  have hsize : (b.modifyRun id change).runs.size = b.runs.size := Table.size_modify _ _ _
  cases h with
  | keeps pids live names => exact .keeps pids live fun id => (names id).trans (hnames id)
  | gives root pids live names =>
    refine .gives root pids (hsize ▸ live) fun id' => ?_
    rw [names, hsize, hnames]
    rfl
  | takes pid id' listed cause pids live names =>
    exact .takes pid id' listed cause pids live fun id => (names id).trans (hnames id)

theorem Plainly.naming {now : Nat} {j : Job} (h : b.Plainly now j b') :
    b.Naming b' (some j) := by
  cases h with
  | grow grown => exact grown.naming
  | pause live run paused =>
    obtain ⟨-, -, rfl⟩ := Run.pause?_eq_some paused
    exact naming_put run rfl
  | resume live => exact .keeps rfl rfl fun _ => rfl
  | @stop pid id live =>
    exact .takes pid id live (.inr rfl) rfl rfl (name?_modifyRun (b.retire pid) id fun _ _ => rfl)

theorem Serving.naming {now : Nat} {part : Part} {j : Job} (h : b.Serving now id part j b') :
    b.Naming b' (some j) := by
  cases h with
  | pass _ => exact .keeps rfl rfl fun _ => rfl
  | skip _ => exact .keeps rfl rfl fun _ => rfl
  | @start c r _ run ready grown =>
    exact grown.naming.of_modifyRun (·.record now c.isDelay c.text) fun _ => rfl

theorem naming_finishRun (b : Books) (id : RunId) :
    b.Naming (b.finishRun id) (some (.finish id)) := by
  unfold finishRun
  split
  · exact .keeps rfl rfl fun _ => rfl
  · rename_i r _
    split
    · rename_i listed
      exact .takes r.pid id listed (.inl rfl) rfl rfl fun _ => rfl
    · exact .keeps rfl rfl fun _ => rfl

theorem Resuming.naming {next : List Job} (h : b.Resuming id b' next) : b.Naming b' job := by
  cases h with
  | none _ => exact .keeps rfl rfl fun _ => rfl
  | settle run resumed =>
    obtain ⟨-, rfl⟩ := Run.resume?_eq_some resumed
    exact naming_put run (Run.pid_settled _)
  | replay run resumed _ =>
    obtain ⟨-, rfl⟩ := Run.resume?_eq_some resumed
    exact naming_put run rfl

end Books

theorem Scene.Step.naming {now : Nat} {s s' : Scene} {job : Option Job}
    (h : Scene.Step now s job s') : s.books.Naming s'.books job := by
  cases h with
  | stay => exact .keeps rfl rfl fun _ => rfl
  | ask => exact .keeps rfl rfl fun _ => rfl
  | ended _ => exact .keeps rfl rfl fun _ => rfl
  | plain _ _ deed _ => exact deed.naming.taken
  | fail _ _ => exact .keeps rfl rfl fun _ => rfl
  | serve _ _ _ deed _ => exact deed.naming.taken
  | finish _ => exact s.books.naming_finishRun _
  | settle _ _ => exact s.books.naming_modifyRun _ fun r _ => r.pid_settled
  | resume _ _ deed => exact deed.naming

/-! ## Names in use -/

namespace Books

variable {b b' : Books} {job : Option Job} {pid : Pid} {id : RunId} {r : Run}

/-- The names in use are those on the list. -/
def Listed (b : Books) : Prop := ∀ pid, b.live.contains pid = b.pids.isLive pid

/-- Whether a run is still to give its name back: it has yet to be started, or it is on the
list under its name. -/
def keepsName (b : Books) (id : RunId) : Bool :=
  (b.name? id).all fun pid => b.live.get? pid = some id

/-- Whether the name of a run on the list is given back. -/
def freesName (b b' : Books) (id : RunId) : Bool :=
  (b.name? id).any fun pid =>
    b.live.get? pid = some id && (b.pids.isLive pid && !b'.pids.isLive pid)

theorem isLive_gives (hb : b.Sound) {root : Int} (hpids : b'.pids = (b.pids.allocate root).2)
    (pid : Pid) : b'.pids.isLive pid = (decide (b.nextPid root = pid) || b.pids.isLive pid) := by
  rw [Bool.eq_iff_iff, hpids, hb.pids.isLive_allocate, Bool.or_eq_true, decide_eq_true_iff]
  exact or_congr eq_comm Iff.rfl

theorem isLive_takes {pid : Pid} (hpids : b'.pids = b.pids.release pid) (pid' : Pid) :
    b'.pids.isLive pid' = (decide (pid' ≠ pid) && b.pids.isLive pid') := by
  rw [Bool.eq_iff_iff, hpids, PidAllocator.isLive_release]
  simp

/-- What happens to names keeps the list in agreement with the names in use. -/
theorem Naming.listed (hb : b.Sound) (hlisted : b.Listed) (h : b.Naming b' job) : b'.Listed := by
  intro pid
  cases h with
  | keeps pids live _ => rw [pids, live, hlisted]
  | gives root pids live _ =>
    rw [isLive_gives hb pids, ← hlisted, live, Table.contains, Table.get?_insert]
    split <;> simp_all [Table.contains]
  | takes pid' id _ _ pids live _ =>
    rw [isLive_takes pids, ← hlisted, live, Table.contains, Table.get?_erase]
    split <;> simp_all [Table.contains, eq_comm]

/-- A run that keeps its name does so until it gives it back. -/
theorem Naming.keepsName (hb : b.Sound) (h : b.Naming b' job) (id : RunId) :
    (b.keepsName id).toNat = (b.freesName b' id).toNat + (b'.keepsName id).toNat := by
  cases h with
  | keeps pids live names =>
    have hfrees : b.freesName b' id = false := by simp [freesName, pids]
    simp [Books.keepsName, names, live, hfrees]
  | gives root pids live names =>
    have hlive := isLive_gives hb pids
    by_cases hid : b.runs.size = id
    · -- The run is the new one.
      have hbefore : b.name? id = none := by rw [name?, ← hid, hb.runs_size]; rfl
      simp [Books.keepsName, freesName, names, hbefore, live, hid]
    · cases hname : b.name? id with
      | none => simp [Books.keepsName, freesName, names, hname, hid]
      | some pid =>
        by_cases hpid : b.nextPid root = pid
        · have hnone : b.live.get? pid = none := hpid ▸ hb.live_nextPid root
          simp [Books.keepsName, freesName, names, hname, hid, live, hpid, hnone]
        · simp [Books.keepsName, freesName, names, hname, hid, live, hpid, hlive]
  | takes pid' id' listed _ pids live names =>
    have hlive := isLive_takes pids
    cases hname : b.name? id with
    | none => simp [Books.keepsName, freesName, names, hname]
    | some pid =>
      by_cases hpid : pid' = pid
      · subst hpid
        have hinUse : b.pids.isLive pid' = true := hb.live_pid pid' id' listed
        simp [Books.keepsName, freesName, names, hname, live, hlive, listed, hinUse]
      · simp [Books.keepsName, freesName, names, hname, live, hlive, hpid, Ne.symm hpid]

/-- A run that has just been started has a name that was not on the list. -/
theorem Naming.name_new (hb : b.Sound) (h : b.Naming b' job) (hnone : b.name? id = none)
    (hname : b'.name? id = some pid) :
    b.live.get? pid = none ∧ b'.live.get? pid = some id := by
  cases h with
  | keeps _ _ names => simp [names, hnone] at hname
  | gives root pids live names =>
    rw [names] at hname
    split at hname
    · rename_i hid
      obtain rfl := Option.some.inj hname
      exact ⟨hb.live_nextPid root, by rw [live, Table.get?_insert, if_pos rfl, hid]⟩
    · simp [hnone] at hname
  | takes _ _ _ _ _ _ names => simp [names, hnone] at hname

/-- A name is given back by the run that is on the list under it. -/
theorem Naming.released (hb : b.Sound) (h : b.Naming b' job) (hbefore : b.pids.isLive pid = true)
    (hafter : b'.pids.isLive pid = false) :
    ∃ id, b.live.get? pid = some id ∧
      (job = some (.finish id) ∨ job = some (.operate (.stop pid))) := by
  cases h with
  | keeps pids _ _ => simp [pids, hbefore] at hafter
  | gives root pids _ _ => simp [isLive_gives hb pids, hbefore] at hafter
  | takes pid' id listed cause pids _ _ =>
    obtain rfl : pid = pid' := by simpa [isLive_takes pids, hbefore] using hafter
    exact ⟨id, listed, cause⟩

theorem name?_eq_some (hr : b.runs.get? id = some r) : b.name? id = some r.pid := by
  rw [name?, hr]
  rfl

theorem finishRun_of_unlisted (hr : b.runs.get? id = some r)
    (hlive : b.live.get? r.pid ≠ some id) : b.finishRun id = b := by
  simp [finishRun, hr, hlive]

end Books

namespace World

variable {w : World} {place : Nat} {t : Task} {rest : List Job} {pid : Pid} {id : RunId} {r : Run}

/-! ## Turns that give names back -/

theorem books_turn_finish (ht : w.tasks[place]? = some t) (hjobs : t.jobs = .finish id :: rest) :
    (w.turn place).controller.books = (w.controller.books.finishRun id).taken := by
  obtain ⟨c, hc, hbooks⟩ := w.controller.finishRun_eq id
  rw [turn_done ht hjobs hc, ← hbooks]
  rfl

theorem live_turn_stop (hb : w.controller.books.Sound) (ht : w.tasks[place]? = some t)
    (hjobs : t.jobs = .operate (.stop pid) :: rest) :
    (w.turn place).controller.live.get? pid = none := by
  cases hrun : w.controller.liveRun? pid with
  | none =>
    have hstop : w.controller.run w.now (.operate (.stop pid)) =
        .fails w.controller (.run (.noRun pid)) := by
      simp [Controller.run, Controller.operate, Controller.stop, hrun]
    rw [turn_fails ht hjobs hstop]
    by_contra hne
    obtain ⟨id, hid⟩ := Option.ne_none_iff_exists'.mp hne
    obtain ⟨r, hr, -⟩ := hb.live_run pid id hid
    have hlive : w.controller.liveRun? pid = some (id, r) := by
      have hid : w.controller.live.get? pid = some id := hid
      have hr : w.controller.runs.get? id = some r := hr
      simp [Controller.liveRun?, hid, hr]
    simp [hrun] at hlive
  | some found =>
    obtain ⟨id, r⟩ := found
    obtain ⟨c, next, hstop, hbooks⟩ : ∃ c next,
        w.controller.run w.now (.operate (.stop pid)) = .done c next none ∧
          c.books.live = w.controller.live.erase pid := by
      simp only [Controller.run, Controller.operate, Controller.stop, hrun]
      split
      · exact ⟨_, _, rfl, rfl⟩
      · refine ⟨_, _, rfl, ?_⟩
        rw [Controller.books_halt]
        rfl
    rw [turn_done ht hjobs hstop]
    change c.books.live.get? pid = none
    rw [hbooks, Table.get?_erase, if_pos rfl]

/-! ## Histories -/

/-- How many times the name of a run has been given back after some moves. -/
def timesFreed (id : RunId) : World → List Move → Nat
  | _, [] => 0
  | w, m :: moves =>
    (w.controller.books.freesName (w.after m).controller.books id).toNat +
      timesFreed id (w.after m) moves

/-- The names in use are those on the list, and a live run is listed under its own. -/
structure ListsNames (w : World) : Prop where
  inUse : ∀ pid, w.controller.live.contains pid = w.controller.pids.isLive pid
  own : ∀ pid id, w.controller.live.get? pid = some id →
    ∃ r, w.controller.runs.get? id = some r ∧ r.pid = pid

/-- What a move does to names: a new run gets one that is not on the list, only a run that
ends or is stopped gives its own back, and the end of a run that is off the list does nothing. -/
structure HandlesNames (w : World) (m : Move) : Prop where
  new : ∀ id r, w.controller.runs.get? id = none →
    (w.after m).controller.runs.get? id = some r →
    w.controller.live.get? r.pid = none ∧ (w.after m).controller.live.get? r.pid = some id
  freed : ∀ pid, w.controller.pids.isLive pid = true →
    (w.after m).controller.pids.isLive pid = false →
    ∃ id, w.controller.live.get? pid = some id ∧
      (w.job? m = some (.finish id) ∨ w.job? m = some (.operate (.stop pid)))
  finished : ∀ id r, w.controller.runs.get? id = some r → w.job? m = some (.finish id) →
    (w.after m).controller.live.get? r.pid ≠ some id
  stopped : ∀ pid, w.job? m = some (.operate (.stop pid)) →
    (w.after m).controller.live.get? pid = none
  late : ∀ id r, w.controller.runs.get? id = some r → w.controller.live.get? r.pid ≠ some id →
    w.job? m = some (.finish id) →
    (w.after m).controller.live = w.controller.live ∧
      (w.after m).controller.pids = w.controller.pids

theorem Reachable.naming (hw : w.Reachable) (m : Move) :
    w.controller.books.Naming (w.after m).controller.books (w.job? m) :=
  (scene_after hw.sound m).naming

theorem Reachable.listed (hw : w.Reachable) : w.controller.books.Listed := by
  induction hw with
  | start fresh =>
    intro pid
    simp [ofController, Controller.takeStarted, Controller.books, fresh.live, fresh.pids,
      Table.contains, Table.get?_empty, PidAllocator.isLive, PidAllocator.ofScript,
      PidAllocator.empty, Allocator.isLive_startingAt]
  | move m hw ih => exact (hw.naming m).listed hw.sound.books ih

theorem Reachable.listsNames (hw : w.Reachable) : w.ListsNames := by
  refine ⟨hw.listed, fun pid id hlive => ?_⟩
  obtain ⟨r, hr, hpid, -⟩ := hw.sound.books.live_run pid id hlive
  exact ⟨r, hr, hpid⟩

theorem Reachable.handlesNames (hw : w.Reachable) (m : Move) : w.HandlesNames m := by
  have hb := hw.sound.books
  refine ⟨fun id r hnone hr => ?_, fun pid => (hw.naming m).released hb,
    fun id r hr hjob hlive => ?_, fun pid hjob => ?_, fun id r hr hlive hjob => ?_⟩
  · refine (hw.naming m).name_new hb ?_ (Books.name?_eq_some hr)
    exact Option.map_eq_none_iff.mpr hnone
  · obtain ⟨place, t, rest, rfl, ht, hjobs⟩ := job?_eq_some hjob
    have hbooks := books_turn_finish ht hjobs
    have hafter : (w.controller.books.finishRun id).live.get? r.pid = some id := by
      rw [← hlive]
      exact congrArg (·.live.get? r.pid) hbooks.symm
    exact (hb.live_finishRun.mp hafter).2 rfl
  · obtain ⟨place, t, rest, rfl, ht, hjobs⟩ := job?_eq_some hjob
    exact live_turn_stop hb ht hjobs
  · obtain ⟨place, t, rest, rfl, ht, hjobs⟩ := job?_eq_some hjob
    have hbooks := books_turn_finish ht hjobs
    rw [Books.finishRun_of_unlisted hr hlive] at hbooks
    exact ⟨congrArg Books.live hbooks, congrArg Books.pids hbooks⟩

/-- Over any moves, a run that keeps its name at first keeps it still or has given it back
once, and one that does not gives nothing back. -/
theorem Reachable.timesFreed_add (hw : w.Reachable) (id : RunId) (moves : List Move) :
    (w.controller.books.keepsName id).toNat =
      w.timesFreed id moves + ((w.afterAll moves).controller.books.keepsName id).toNat := by
  induction moves generalizing w with
  | nil => exact (Nat.zero_add _).symm
  | cons m moves ih =>
    have hstep := (hw.naming m).keepsName hw.sound.books id
    have hrest := ih (hw.move m)
    calc (w.controller.books.keepsName id).toNat
        = _ + ((w.after m).controller.books.keepsName id).toNat := hstep
      _ = _ + (_ + _) := congrArg _ hrest
      _ = _ := (Nat.add_assoc _ _ _).symm

/-- Whatever happens, the names in use are those on the list of live runs, and a run that is
off the list has given its name back exactly once. -/
theorem name_freed_once {c : Controller} (fresh : c.IsFresh) (moves : List Move) (m : Move) :
    ((ofController c).afterAll moves).ListsNames ∧
      ((ofController c).afterAll moves).HandlesNames m ∧
      ∀ id r, ((ofController c).afterAll moves).controller.runs.get? id = some r →
        (ofController c).timesFreed id moves =
          if ((ofController c).afterAll moves).controller.live.get? r.pid = some id
          then 0 else 1 := by
  have hstart : (ofController c).Reachable := .start fresh
  have hw := hstart.afterAll moves
  refine ⟨hw.listsNames, hw.handlesNames m, fun id r hr => ?_⟩
  have hcount := hstart.timesFreed_add id moves
  have hbefore : (ofController c).controller.books.keepsName id = true := by
    simp [Books.keepsName, Books.name?, ofController, Controller.takeStarted, Controller.books,
      fresh.runs, Table.get?_empty]
  have hafter : ((ofController c).afterAll moves).controller.books.keepsName id =
      decide (((ofController c).afterAll moves).controller.live.get? r.pid = some id) := by
    rw [Books.keepsName, Books.name?_eq_some hr]
    rfl
  rw [hbefore, hafter, Bool.toNat_true] at hcount
  split
  · rename_i hlive
    simp only [hlive, decide_true, Bool.toNat_true] at hcount
    omega
  · rename_i hlive
    simp only [hlive, decide_false, Bool.toNat_false] at hcount
    omega

/-- A run is stopped, and before its task comes to its end the next one has got its name. -/
def reuseMoves : List Move :=
  [.ask (.runScript 1 none), .turn 0, .ask (.stop ⟨1, 0⟩), .turn 2, .ask (.runScript 1 none),
    .turn 3, .turn 1]

/-- The end of the first run, with its name in use by the second one. -/
theorem name_freed_once_reuse :
    ((ofController (trialController [.act .stop])).afterAll reuseMoves).job? (.turn 1) =
        some (.finish 0) ∧
      (ofController (trialController [.act .stop])).timesFreed 0 reuseMoves = 1 ∧
      (ofController (trialController [.act .stop])).timesFreed 1 reuseMoves = 0 ∧
      (((ofController (trialController [.act .stop])).afterAll reuseMoves).after
        (.turn 1)).controller.live.get? ⟨1, 0⟩ = some 1 := by
  have fresh : (trialController [.act .stop]).IsFresh :=
    ⟨rfl, rfl, rfl, by simp [trialController, Controller.ofLayout]⟩
  obtain ⟨-, hnames, hfreed⟩ := name_freed_once fresh reuseMoves (.turn 1)
  have hjob : ((ofController (trialController [.act .stop])).afterAll reuseMoves).job?
      (.turn 1) = some (.finish 0) := rfl
  have hlive : ((ofController (trialController [.act .stop])).afterAll
      reuseMoves).controller.live.get? ⟨1, 0⟩ = some 1 := by decide
  have hnames₀ : (((ofController (trialController [.act .stop])).afterAll
      reuseMoves).controller.runs.get? 0).map Run.pid = some ⟨1, 0⟩ := by decide
  have hnames₁ : (((ofController (trialController [.act .stop])).afterAll
      reuseMoves).controller.runs.get? 1).map Run.pid = some ⟨1, 0⟩ := by decide
  obtain ⟨r₀, hr₀, hpid₀⟩ := Option.map_eq_some_iff.mp hnames₀
  obtain ⟨r₁, hr₁, hpid₁⟩ := Option.map_eq_some_iff.mp hnames₁
  have hunlisted : ((ofController (trialController [.act .stop])).afterAll
      reuseMoves).controller.live.get? r₀.pid ≠ some 0 := by
    rw [hpid₀, hlive]
    decide
  refine ⟨hjob, ?_, ?_, ?_⟩
  · rw [hfreed 0 r₀ hr₀, if_neg hunlisted]
  · rw [hfreed 1 r₁ hr₁, hpid₁, hlive, if_pos rfl]
  · exact (congrArg (·.get? ⟨1, 0⟩) (hnames.late 0 r₀ hr₀ hunlisted hjob).1).trans hlive

end World

end Signalbox
