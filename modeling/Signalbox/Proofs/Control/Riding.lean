import Signalbox.Proofs.Control.Ride

/-
  Signalbox/Proofs/Control/Riding.lean --- how the ride of a run goes on in a world.

  A run is on a ride when the books, the roster and the tasks say so: the run is as the
  ride has it, its loco is at its address, and each part of it has at most one task with
  commands left, which are those of the ride.  As long as nobody else drives the loco or
  stops the run, every act is a step of the ride or a pause.
-/

set_option autoImplicit false

namespace Signalbox

/-- A task with a command of a part of a run is to close that part, also among calls. -/
theorem Scene.IsDuty.mem_closings {jobs : List Job} (h : Scene.IsDuty jobs) {id : RunId}
    {part : Part} {c : Command} (hc : .command id part c ∈ jobs) : (id, part) ∈ closings jobs := by
  cases h with
  | task htask => exact htask.mem_closings hc
  | call id' call => cases call <;> simp [RunCall.job] at hc

/-- A task has no commands of a part of a run that it is not to close. -/
theorem Scene.IsDuty.commandsOf_eq_nil {jobs : List Job} (h : Scene.IsDuty jobs) {id : RunId}
    {part : Part} (hid : (id, part) ∉ closings jobs) : commandsOf id part jobs = [] := by
  refine Signalbox.commandsOf_eq_nil fun j hj => ?_
  by_contra hsome
  obtain ⟨c, hc⟩ := Option.ne_none_iff_exists'.mp hsome
  exact hid (h.mem_closings (command?_eq_some hc ▸ hj))

/-! ## The ride of a run -/

/-- A run is as a ride says, with its loco at an address. -/
structure Ride.IsOf (x : Ride) (address : Nat) (r : Run) : Prop where
  bound : ∃ sync, r.loco = some ⟨address, sync⟩
  stopped : r.stopped = false
  state : r.state = x.state
  remembers : r.log.Remembers x.last

namespace World

/-- A run is on a ride, with its loco at an address. -/
structure Rides (w : World) (id : RunId) (address : Nat) (x : Ride) : Prop where
  run : ∃ r, w.controller.runs.get? id = some r ∧ x.IsOf address r
  loco : w.controller.loco? address = some x.loco
  left : ∀ part, strands id part w.tasks = strand ((x.left part).map .act)
  driving : ∀ a, (a ∈ x.last ∨ ∃ part, a ∈ x.left part) → a.Drives ∧ a.Fits

/-- A run that goes on is paused in an act. -/
def Pauses (w : World) (a : Act) (id : RunId) : Prop :=
  (w.doing? a = some (.pauseRun id) ∨
    ∃ pid, w.doing? a = some (.operate (.pause pid)) ∧ w.controller.live.get? pid = some id) ∧
  ∃ r r', w.controller.runs.get? id = some r ∧ r.pause? w.now = some r'

/-- In an act nobody stops or pauses a run, and nobody but the run drives the loco at an
address. -/
structure LetsRide (w : World) (a : Act) (id : RunId) (address : Nat) : Prop where
  unstopped : w.doing? a ≠ some (.stopRun id) ∧ ∀ pid, w.doing? a = some (.operate (.stop pid)) →
    w.controller.live.get? pid ≠ some id
  unpaused : ¬ w.Pauses a id
  alone : (∃ part c, w.doing? a = some (.command id part c)) ∨
    (w.does a).controller.loco? address = w.controller.loco? address

variable {w : World} {id : RunId} {address : Nat} {x y : Ride} {place : Nat} {t : Task} {job : Job}
  {rest : List Job}

/-- A run that is not being resumed has no command to replay. -/
theorem commandsOf_replay (hp : w.scene.Phased) {r : Run}
    (hr : w.controller.runs.get? id = some r) (hstate : r.state ≠ .resuming) (ht : t ∈ w.tasks) :
    commandsOf id .replay t.jobs = [] := by
  have hno : w.scene.books.isResuming id = false := by
    rw [Books.isResuming_eq hr]
    exact decide_eq_false hstate
  have hjobs : t.jobs ∈ w.scene.tasks := Multiset.mem_coe.mpr (List.mem_map_of_mem ht)
  refine (hp.duty _ hjobs).commandsOf_eq_nil fun hid => ?_
  rw [hp.isResuming hjobs hid] at hno
  exact Bool.noConfusion hno

/-! ### One turn -/

/-- What a run rides after a job of a task is done. -/
theorem rides_turn (ht : w.tasks[place]? = some t) (hjobs : t.jobs = job :: rest)
    {c : Controller} {next : List Job} {reply : Option Reply}
    (hrun : w.controller.run w.now job = .done c next reply)
    (run : ∃ r, c.runs.get? id = some r ∧ y.IsOf address r)
    (loco : c.loco? address = some y.loco)
    (left : ∀ (part : Part) (new : Task), new.jobs = next ++ rest →
      strands id part (w.tasks.set place new ++ c.started) = strand ((y.left part).map .act))
    (driving : ∀ a, (a ∈ y.last ∨ ∃ part, a ∈ y.left part) → a.Drives ∧ a.Fits) :
    (w.turn place).Rides id address y := by
  have hleft (part : Part) := left part ⟨next ++ rest, reply.getD t.reply⟩ rfl
  rw [turn_done ht hjobs hrun]
  exact ⟨run, loco, hleft, driving⟩

/-- The commands left of a part stay as they are in a turn that has none of them before and
after it. -/
theorem Rides.strands_set (h : w.Rides id address x) (ht : w.tasks[place]? = some t)
    (hjobs : t.jobs = job :: rest) {part : Part} {next : List Job} {started : List Task}
    (hnext : commandsOf id part next = []) (hjob : job.command? id part = none)
    (hstarted : ∀ t' ∈ started, commandsOf id part t'.jobs = []) {new : Task}
    (hnew : new.jobs = next ++ rest) :
    strands id part (w.tasks.set place new ++ started) = strand ((x.left part).map .act) := by
  refine strands_stay (h.left part) ht ?_ hstarted
  rw [hnew, hjobs, commandsOf_append, hnext, List.nil_append]
  exact List.filterMap_cons_none hjob

/-- A job before and after which a run has the same commands left. -/
theorem Rides.turned (h : w.Rides id address x) (ht : w.tasks[place]? = some t)
    (hjobs : t.jobs = job :: rest) {c : Controller} {next : List Job} {reply : Option Reply}
    (hrun : w.controller.run w.now job = .done c next reply)
    (run : ∃ r, c.runs.get? id = some r ∧ y.IsOf address r)
    (loco : c.loco? address = some y.loco)
    (idle : ∀ part, commandsOf id part next = [] ∧ job.command? id part = none)
    (started : ∀ part, ∀ t' ∈ c.started, commandsOf id part t'.jobs = [])
    (same : y.last = x.last ∧ y.left = x.left) :
    (w.turn place).Rides id address y := by
  refine rides_turn ht hjobs hrun run loco (fun part new hnew => ?_) ?_
  · rw [same.2]
    exact h.strands_set ht hjobs (idle part).1 (idle part).2 (started part) hnew
  · rw [same.1, same.2]
    exact h.driving

/-- A job that has nothing to do with a run leaves the ride of the run as it is. -/
theorem Rides.pass (h : w.Rides id address x) (ht : w.tasks[place]? = some t)
    (hjobs : t.jobs = job :: rest) {c : Controller} {next : List Job} {reply : Option Reply}
    (hrun : w.controller.run w.now job = .done c next reply)
    (run : c.runs.get? id = w.controller.runs.get? id)
    (loco : c.loco? address = w.controller.loco? address)
    (idle : ∀ part, commandsOf id part next = [] ∧ job.command? id part = none)
    (started : ∀ part, ∀ t' ∈ c.started, commandsOf id part t'.jobs = []) :
    (w.turn place).Rides id address x := by
  refine h.turned ht hjobs hrun ?_ (loco.trans h.loco) idle started ⟨rfl, rfl⟩
  rw [run]
  exact h.run

theorem doing?_turn (ht : w.tasks[place]? = some t) (hjobs : t.jobs = job :: rest) :
    w.doing? (.move (.turn place)) = some job := by
  simp [doing?, job?, ht, hjobs]

/-- Unless it is a command of the run, a job that is let leaves the loco as it is. -/
theorem LetsRide.loco_done (lets : w.LetsRide (.move (.turn place)) id address)
    (ht : w.tasks[place]? = some t) (hjobs : t.jobs = job :: rest) {c : Controller}
    {next : List Job} {reply : Option Reply}
    (hrun : w.controller.run w.now job = .done c next reply)
    (hjob : ∀ part, job.command? id part = none) :
    c.loco? address = w.controller.loco? address := by
  have hloco : (w.turn place).controller.loco? address = w.controller.loco? address := by
    refine lets.alone.resolve_left ?_
    rintro ⟨part, cmd, hcmd⟩
    obtain rfl := Option.some.inj ((doing?_turn ht hjobs).symm.trans hcmd)
    simpa [Job.command?] using hjob part
  rw [turn_done ht hjobs hrun] at hloco
  exact hloco

/-! ### Tasks by their kind -/

theorem Rides.plain (h : w.Rides id address x) (hp : w.scene.Phased)
    (lets : w.LetsRide (.move (.turn place)) id address) (ht : w.tasks[place]? = some t)
    (hjobs : t.jobs = job :: rest) (plain : ∀ j ∈ job :: rest, j.IsPlain) :
    (w.turn place).Rides id address x := by
  have hdoing := doing?_turn ht hjobs
  have hstarted : w.controller.books.started = [] := hp.taken
  have hnew := hp.numbered _ (Nat.le_refl _)
  have hjob (part : Part) : job.command? id part = none :=
    (plain job List.mem_cons_self).command?
  obtain ⟨r, hr, hof⟩ := h.run
  have hout : (w.controller.run w.now job).IsPlain w.controller.books w.now job :=
    w.controller.isPlain_run (plain job List.mem_cons_self)
  cases hrun : w.controller.run w.now job with
  | waits wait =>
    rw [turn_waits ht hjobs hrun]
    exact h
  | done c next reply =>
    rw [hrun] at hout
    obtain ⟨deed, follow⟩ := hout
    have hruns : c.runs.get? id = some r := by
      refine Books.runs_plainly hnew hr deed (fun pid hpid hlive => ?_) fun pid hpid => ?_
      · by_contra hpause
        obtain ⟨r', hr'⟩ := Option.ne_none_iff_exists'.mp hpause
        exact lets.unpaused ⟨.inr ⟨pid, hdoing.trans (congrArg some hpid), hlive⟩, r, r', hr, hr'⟩
      · exact lets.unstopped.2 pid (hdoing.trans (congrArg some hpid))
    exact h.pass ht hjobs hrun (hruns.trans hr.symm) (lets.loco_done ht hjobs hrun hjob)
      (fun part => ⟨commandsOf_plain follow, hjob part⟩)
      fun part => Books.idle_of_plainly hstarted hnew hr deed
  | fails c f =>
    rw [hrun] at hout
    have hbooks : c.books = w.controller.books := hout
    have hnone : c.started = [] := (congrArg Books.started hbooks).trans hstarted
    have hloco : (w.turn place).controller.loco? address = some x.loco := by
      refine (lets.alone.resolve_left ?_).trans h.loco
      rintro ⟨part, cmd, hcmd⟩
      obtain rfl := Option.some.inj (hdoing.symm.trans hcmd)
      simpa [Job.command?] using hjob part
    rw [turn_fails ht hjobs hrun] at hloco ⊢
    refine ⟨⟨r, ?_, hof⟩, hloco, fun part => ?_, h.driving⟩
    · exact (congrArg (·.runs.get? id) hbooks).trans hr
    · exact strands_ended (h.left part) ht (hjobs ▸ commandsOf_plain plain) (by simp [hnone])

theorem Rides.finish (h : w.Rides id address x) (hp : w.scene.Phased)
    (lets : w.LetsRide (.move (.turn place)) id address) (ht : w.tasks[place]? = some t)
    {id' : RunId} (hjobs : t.jobs = [.finish id']) : (w.turn place).Rides id address x := by
  obtain ⟨c, hrun, hbooks⟩ :=
    (w.controller.finishRun_eq id' : ∃ c, w.controller.run w.now (.finish id') = .finished c ∧ _)
  have hruns : c.books.runs = w.controller.books.runs := by rw [hbooks, Books.runs_finishRun]
  have hnone : c.books.started = [] := by
    rw [hbooks, Books.started_finishRun]
    exact hp.taken
  exact h.pass ht hjobs hrun (congrArg (·.get? id) hruns)
    (lets.loco_done ht hjobs hrun fun part => rfl) (fun part => ⟨rfl, rfl⟩)
    fun part => Books.idle_of_none hnone

/-- A run that is not being resumed has nothing left to replay. -/
theorem Rides.replay_eq_nil (h : w.Rides id address x) (hp : w.scene.Phased)
    (hstate : x.state ≠ .resuming) : x.left .replay = [] := by
  obtain ⟨r, hr, hof⟩ := h.run
  have hnil : strands id .replay w.tasks = [] :=
    strands_eq_nil fun t ht => commandsOf_replay hp hr (hof.state ▸ hstate) ht
  have hstrand := (h.left .replay).symm.trans hnil
  exact List.map_eq_nil_iff.mp (strand_inj (hstrand.trans (rfl : [] = strand [])))

theorem Rides.settle (h : w.Rides id address x) (hp : w.scene.Phased)
    (lets : w.LetsRide (.move (.turn place)) id address) (ht : w.tasks[place]? = some t)
    {id' : RunId} {text : String} (hjobs : t.jobs = .endReplay id' text :: rest)
    (plain : ∀ j ∈ rest, j.IsPlain) : ∃ y, (w.turn place).Rides id address y ∧ x.Step y := by
  have hrun : w.controller.run w.now (.endReplay id' text) =
      .answers (w.controller.settleRun id') (.replayed (some text)) := rfl
  have hloco := lets.loco_done ht hjobs hrun fun part => rfl
  have hnone : (w.controller.settleRun id').books.started = [] := hp.taken
  have hruns := w.controller.books.runs_modifyRun id' id Run.settled
  by_cases hid : id' = id
  · subst hid
    obtain ⟨r, hr, hof⟩ := h.run
    have hresuming : r.state = .resuming := by
      have hmem : (id', Part.replay) ∈ closings t.jobs := by
        rw [hjobs, (Closing.replay plain : Closing id' .replay _).closings]
        exact List.mem_singleton.mpr rfl
      have htrue := hp.isResuming (jobs_mem_scene ht) hmem
      rw [Books.isResuming_eq hr] at htrue
      exact of_decide_eq_true htrue
    rw [if_pos rfl] at hruns
    have hsettled : ({ x with state := .running } : Ride).IsOf address r.settled := by
      rw [Run.settled_eq, if_pos hresuming]
      exact ⟨hof.bound, hof.stopped, rfl, hof.remembers⟩
    have hy : (w.turn place).Rides id' address { x with state := .running } :=
      h.turned ht hjobs hrun
        ⟨r.settled, hruns.trans (congrArg (Option.map Run.settled) hr), hsettled⟩
        (hloco.trans h.loco) (fun part => ⟨rfl, rfl⟩) (fun part => Books.idle_of_none hnone)
        ⟨rfl, rfl⟩
    have hp' : (w.turn place).scene.Phased := hp.handled (handled_does hp (.move (.turn place)))
    have hover : x.left .replay = [] := hy.replay_eq_nil hp' (by simp)
    exact ⟨_, hy, .settle (hof.state ▸ hresuming) hover⟩
  · rw [if_neg hid] at hruns
    exact ⟨x, h.pass ht hjobs hrun hruns hloco (fun part => ⟨rfl, rfl⟩)
      fun part => Books.idle_of_none hnone, .stay⟩

/-- The run itself is resumed: what it is to replay is left, or there is nothing. -/
theorem Rides.resumed (h : w.Rides id address x) (hp : w.scene.Phased)
    (lets : w.LetsRide (.move (.turn place)) id address) (ht : w.tasks[place]? = some t)
    (hjobs : t.jobs = .resumeRun id :: rest) (plain : ∀ j ∈ rest, j.IsPlain)
    (paused : x.state = .paused) : ∃ y, (w.turn place).Rides id address y ∧ x.Step y := by
  obtain ⟨r, hr, hof⟩ := h.run
  obtain ⟨c, next, reply, r', hrun, hr', resumes, hstarted⟩ :=
    Controller.resumeRun_resumes hr (hof.state.trans paused) hof.remembers fun a ha =>
      (h.driving a (.inl ha)).2
  have hnone : c.books.started = [] := hstarted.trans hp.taken
  have hloco : c.loco? address = some x.loco :=
    (lets.loco_done ht hjobs hrun fun part => rfl).trans h.loco
  cases resumes with
  | goesOn nothing =>
    exact ⟨{ x with state := .running },
      h.turned ht hjobs hrun ⟨_, hr', hof.bound, hof.stopped, rfl, hof.remembers⟩ hloco
        (fun part => ⟨rfl, rfl⟩) (fun part => Books.idle_of_none hnone) ⟨rfl, rfl⟩,
      .skip paused nothing⟩
  | repeats delays text delay =>
    refine ⟨_, ?_, .resume paused fun d hd => (delay d hd).1⟩
    refine rides_turn ht hjobs hrun ⟨_, hr', hof.bound, hof.stopped, rfl, hof.remembers⟩ hloco
      (fun part new hnew => ?_) ?_
    · have hcommands := @commandsOf_resumption id part ((x.last.toList ++ delays).map .act) text
        rest plain
      rw [← hnew] at hcommands
      have hold : commandsOf id part t.jobs = [] := by
        rw [hjobs]
        exact (List.filterMap_cons_none rfl).trans (commandsOf_plain plain)
      cases part with
      | regular =>
        exact strands_stay (h.left .regular) ht (hold.trans hcommands.symm)
          (Books.idle_of_none hnone)
      | replay =>
        have hown : commandsOf id .replay t.jobs = (x.left .replay).map .act := by
          rw [hold, h.replay_eq_nil hp (by simp [paused])]
          rfl
        exact (strands_own (h.left .replay) ht hown (Books.idle_of_none hnone)).trans
          (congrArg strand hcommands)
    · rintro a (ha | ⟨part, ha⟩)
      · exact h.driving a (.inl ha)
      · cases part with
        | regular => exact h.driving a (.inr ⟨.regular, ha⟩)
        | replay =>
          rcases List.mem_append.mp ha with ha | ha
          · exact h.driving a (.inl (Option.mem_toList.mp ha))
          · obtain ⟨hdelay, hfits⟩ := delay a ha
            exact ⟨Action.drives_of_isDelay hdelay, hfits⟩

theorem Rides.resume (h : w.Rides id address x) (hp : w.scene.Phased)
    (lets : w.LetsRide (.move (.turn place)) id address) (ht : w.tasks[place]? = some t)
    {id' : RunId} (hjobs : t.jobs = .resumeRun id' :: rest) (plain : ∀ j ∈ rest, j.IsPlain) :
    ∃ y, (w.turn place).Rides id address y ∧ x.Step y := by
  by_cases hpaused : id' = id ∧ x.state = .paused
  · obtain ⟨rfl, hpaused⟩ := hpaused
    exact h.resumed hp lets ht hjobs plain hpaused
  · obtain ⟨r, hr, hof⟩ := h.run
    obtain ⟨c, next, reply, hrun, deed⟩ := w.controller.resumeRun_eq id'
    obtain ⟨hruns, hidle⟩ :=
      deed.leaves hr fun hid hstate => hpaused ⟨hid, hof.state.symm.trans hstate⟩
    exact ⟨x, h.pass ht hjobs hrun hruns (lets.loco_done ht hjobs hrun fun part => rfl)
      (fun part => ⟨hidle part, rfl⟩)
      fun part => Books.idle_of_none (deed.started_eq.trans hp.taken), .stay⟩

/-- A command of the run starts in its phase, and waits otherwise. -/
theorem Rides.start (h : w.Rides id address x) (hp : w.scene.Phased)
    (ht : w.tasks[place]? = some t) {part : Part} {cmd : Command}
    (hjobs : t.jobs = .command id part cmd :: rest)
    (phase : part = .replay → x.state = .resuming) :
    ∃ y, (w.turn place).Rides id address y ∧ x.Step y := by
  obtain ⟨r, hr, hof⟩ := h.run
  obtain ⟨sync, bound⟩ := hof.bound
  have htaken : w.controller.started = [] := hp.taken
  by_cases hphase : x.state = part.phase
  · -- The command is the first of those left of the part.
    have hcommands : commandsOf id part t.jobs = cmd :: commandsOf id part rest := by
      rw [hjobs]
      exact List.filterMap_cons_some (if_pos ⟨rfl, rfl⟩)
    have hown := commandsOf_eq (h.left part) ht (by simp [hcommands])
    obtain ⟨a, left, hleft, rfl, hrest⟩ := List.map_eq_cons_iff.mp (hown.symm.trans hcommands)
    have hdriving := h.driving a (.inr ⟨part, hleft ▸ List.mem_cons_self⟩)
    have ready := Run.readiness_of_phase hof.stopped (hof.state.trans hphase)
    obtain ⟨c, next, hrun, hr', hloco, hstarted, hnext⟩ :=
      Controller.run_act hr ready bound h.loco hdriving.1 w.now
    refine ⟨_, ?_, .start hphase hleft⟩
    refine rides_turn ht hjobs hrun ⟨_, hr', ⟨sync, bound⟩, hof.stopped, hof.state,
      hof.remembers.record hdriving.2 w.now⟩ hloco (fun part' new hnew => ?_) ?_
    · by_cases hpart : part' = part
      · subst hpart
        have hnew' : commandsOf id part' new.jobs = left.map .act := by
          rw [hnew, commandsOf_append, commandsOf_eq_nil fun k hk => hnext k hk id part', hrest]
          rfl
        have hstrands := @strands_own id part' _ _ _ _ new c.started (h.left part') ht hown
          (by simp [hstarted, htaken])
        simp only [hstrands, hnew', Function.update_self]
      · simp only [Function.update_of_ne hpart]
        exact h.strands_set ht hjobs (commandsOf_eq_nil fun k hk => hnext k hk id part')
          (if_neg fun hsame => hpart hsame.2.symm) (by simp [hstarted, htaken]) hnew
    · rintro b (hb | ⟨part', hb⟩)
      · rcases RunLog.mem_lastAfter hb with rfl | hb
        · exact hdriving
        · exact h.driving b (.inl hb)
      · refine h.driving b (.inr ⟨part', ?_⟩)
        by_cases hpart : part' = part
        · subst hpart
          simp only [Function.update_self] at hb
          exact hleft ▸ List.mem_cons_of_mem _ hb
        · simpa only [Function.update_of_ne hpart] using hb
  · have hwaits : ∃ wait, w.controller.run w.now (.command id part cmd) = .waits wait := by
      have hregular : part = .regular := by
        cases part with
        | regular => rfl
        | replay => exact absurd (phase rfl) hphase
      subst hregular
      have hheld := Run.readiness_of_held hof.stopped (hof.state ▸ hphase)
      simp only [Controller.run, Controller.command, hr, hheld]
      exact ⟨_, rfl⟩
    obtain ⟨wait, hrun⟩ := hwaits
    rw [turn_waits ht hjobs hrun]
    exact ⟨x, h, .stay⟩

/-- What is left of a command of the run is over, or waits. -/
theorem Rides.serve (h : w.Rides id address x) (hp : w.scene.Phased)
    (lets : w.LetsRide (.move (.turn place)) id address) (ht : w.tasks[place]? = some t)
    (hjobs : t.jobs = job :: rest) {id' : RunId} {part : Part} (serves : job.Serves id' part) :
    ∃ y, (w.turn place).Rides id address y ∧ x.Step y := by
  obtain ⟨r, hr, hof⟩ := h.run
  by_cases hcommand : ∃ part cmd, job = .command id part cmd
  · obtain ⟨part, cmd, rfl⟩ := hcommand
    refine h.start hp ht hjobs ?_
    rintro rfl
    have hmem : .command id .replay cmd ∈ t.jobs := by
      rw [hjobs]
      exact List.mem_cons_self
    have hjobs := jobs_mem_scene ht
    have hresuming := hp.isResuming hjobs ((hp.duty _ hjobs).mem_closings hmem)
    rw [Books.isResuming_eq hr] at hresuming
    exact hof.state ▸ of_decide_eq_true hresuming
  · have hidle (part : Part) : job.command? id part = none := by
      by_contra hsome
      obtain ⟨c, hc⟩ := Option.ne_none_iff_exists'.mp hsome
      exact hcommand ⟨part, c, command?_eq_some hc⟩
    have hout : (w.controller.run w.now job).IsServing w.controller.books w.now id' part job :=
      w.controller.isServing_run serves
    refine ⟨x, ?_, .stay⟩
    cases hrun : w.controller.run w.now job with
    | waits wait =>
      rw [turn_waits ht hjobs hrun]
      exact h
    | fails c f =>
      rw [hrun] at hout
      exact hout.elim
    | done c next reply =>
      rw [hrun] at hout
      obtain ⟨deed, follow⟩ := hout
      have hleaves : c.runs.get? id = w.controller.runs.get? id ∧
          ∀ part, commandsOf id part next = [] := by
        by_cases hid : id' = id
        · subst hid
          have hno (cmd : Command) : job ≠ .command id' part cmd :=
            fun hjob => hcommand ⟨part, cmd, hjob⟩
          refine ⟨?_, fun part => ?_⟩
          · exact congrArg (·.get? id') (deed.runs_eq hno)
          · rw [Controller.next_serves serves hno hrun]
            rfl
        · exact ⟨(Books.runs_serving_of_ne hp.numbered hr deed hid).trans hr.symm, fun part =>
            commandsOf_serves_of_ne follow fun h => hid (Prod.mk.inj h).1⟩
      exact h.pass ht hjobs hrun hleaves.1 (lets.loco_done ht hjobs hrun hidle)
        (fun part => ⟨hleaves.2 part, hidle part⟩)
        fun part => Books.idle_of_serving hp.taken hp.numbered hr deed

/-- A call that pauses or stops another run leaves the ride of a run as it is. -/
theorem Rides.call (h : w.Rides id address x) (hp : w.scene.Phased)
    (lets : w.LetsRide (.move (.turn place)) id address) (ht : w.tasks[place]? = some t)
    {id' : RunId} {c : RunCall} (hjobs : t.jobs = [c.job id']) :
    ∃ y, (w.turn place).Rides id address y ∧ x.Step y := by
  have hdoing := doing?_turn ht hjobs
  cases c with
  | resume => exact h.resume hp lets ht hjobs (List.forall_mem_nil _)
  | stop =>
    have hrun : w.controller.run w.now (.stopRun id') =
        .finished (w.controller.stopRun id') := rfl
    have hne : id' ≠ id := by
      rintro rfl
      exact lets.unstopped.1 hdoing
    exact ⟨x, h.pass ht hjobs hrun (w.controller.books.runs_modifyRun_of_ne hne _)
      (lets.loco_done ht hjobs hrun fun part => rfl) (fun part => ⟨rfl, rfl⟩)
      fun part => Books.idle_of_none (b := w.controller.books.modifyRun id' Run.stop) hp.taken,
      .stay⟩
  | pause =>
    have hrun : w.controller.run w.now (.pauseRun id') =
        .follows (w.controller.pauseRun w.now id').1 (w.controller.pauseRun w.now id').2 := rfl
    have hplain : ∀ j ∈ (w.controller.pauseRun w.now id').2, j.IsPlain :=
      w.controller.plain_pauseRun id'
    have hbooks : (w.controller.pauseRun w.now id').1.books.runs.get? id =
          w.controller.books.runs.get? id ∧
        (w.controller.pauseRun w.now id').1.books.started = [] := by
      rcases (w.controller.books_pauseRun id' :
        (w.controller.pauseRun w.now id').1.books = _ ∨ _) with
        hsame | ⟨r, r', run, paused, hchanged⟩
      · rw [hsame]
        exact ⟨rfl, hp.taken⟩
      · have hne : id' ≠ id := by
          rintro rfl
          exact lets.unpaused ⟨.inl hdoing, r, r', run, paused⟩
        rw [hchanged]
        exact ⟨Books.runs_modifyRun_of_ne _ hne _, hp.taken⟩
    exact ⟨x, h.pass ht hjobs hrun hbooks.1 (lets.loco_done ht hjobs hrun fun part => rfl)
      (fun part => ⟨commandsOf_plain hplain, rfl⟩) fun part => Books.idle_of_none hbooks.2, .stay⟩

/-! ### Acts -/

/-- An act that does no job leaves the ride of a run as it is. -/
theorem Rides.idle (h : w.Rides id address x) {a : Act} (hdoing : w.doing? a = none) :
    (w.does a).Rides id address x := by
  have hadded {t : Task} (hidle : ∀ part, commandsOf id part t.jobs = []) :
      ({ w with tasks := w.tasks ++ [t] } : World).Rides id address x := by
    refine ⟨h.run, h.loco, fun part => ?_, h.driving⟩
    rw [strands, List.flatMap_append, ← h.left part]
    simp [strands, hidle part, strand]
  cases a with
  | call id' c => exact hadded fun part => by cases c <;> rfl
  | move m =>
    cases m with
    | ask op => exact hadded fun part => rfl
    | wait milliseconds => exact ⟨h.run, h.loco, h.left, h.driving⟩
    | outside store faults => exact ⟨h.run, h.loco, h.left, h.driving⟩
    | turn place =>
      change (w.turn place).Rides id address x
      cases ht : w.tasks[place]? with
      | none => rwa [turn_none ht]
      | some t =>
        have hjobs : t.jobs = [] := by simpa [doing?, job?, ht] using hdoing
        rw [turn_over ht hjobs]
        refine ⟨h.run, h.loco, fun part => ?_, h.driving⟩
        have hended := strands_ended (h.left part) ht (hjobs ▸ rfl) (List.forall_mem_nil _)
        rwa [List.append_nil] at hended

/-- An act in which nobody interferes is a step of the ride. -/
theorem Rides.does (h : w.Rides id address x) (hw : w.Attended) {a : Act}
    (lets : w.LetsRide a id address) : ∃ y, (w.does a).Rides id address y ∧ x.Step y := by
  have hp := hw.phased
  cases hdoing : w.doing? a with
  | none => exact ⟨x, h.idle hdoing, .stay⟩
  | some job =>
    obtain ⟨place, t, rest, rfl, ht, hjobs⟩ := doing?_eq_some hdoing
    change ∃ y, (w.turn place).Rides id address y ∧ x.Step y
    cases hjobs ▸ hp.duty _ (jobs_mem_scene ht) with
    | task htask =>
      rcases htask.kinds with plain | ⟨id', rfl, plain⟩ | ⟨id', rfl, rfl⟩ |
        ⟨id', text, rfl, plain⟩ | ⟨id', part, active, closing, -, serves, -⟩
      · exact ⟨x, h.plain hp lets ht hjobs plain, .stay⟩
      · exact h.resume hp lets ht hjobs plain
      · exact ⟨x, h.finish hp lets ht hjobs, .stay⟩
      · exact h.settle hp lets ht hjobs plain
      · exact h.serve hp lets ht hjobs (serves job List.mem_cons_self)
    | call id' c => exact h.call hp lets ht hjobs

/-- A pause is one of the ride. -/
theorem Rides.pauses (h : w.Rides id address x) (hw : w.Attended) {a : Act}
    (pauses : w.Pauses a id) : (w.does a).Rides id address x.pause ∧ x.state = .running := by
  obtain ⟨hdoing, r, r', hr, paused⟩ := pauses
  obtain ⟨r₀, hr₀, hof⟩ := h.run
  obtain rfl := Option.some.inj (hr.symm.trans hr₀)
  obtain ⟨sync, bound⟩ := hof.bound
  obtain ⟨hruns, hloco, hstarted⟩ := Controller.pauseRun_eq hr paused bound h.loco
  obtain ⟨-, hrunning, rfl⟩ := Run.pause?_eq_some paused
  refine ⟨?_, hof.state ▸ hrunning⟩
  have hplain : ∀ j ∈ (w.controller.pauseRun w.now id).2, j.IsPlain :=
    w.controller.plain_pauseRun id
  have htaken : w.controller.started = [] := hw.phased.taken
  have hpaused {job : Job} {next : List Job} (hjob : w.doing? a = some job)
      (hidle : ∀ part, job.command? id part = none) (hnext : ∀ j ∈ next, j.IsPlain)
      (hrun : w.controller.run w.now job =
        .follows (w.controller.pauseRun w.now id).1 next) :
      (w.does a).Rides id address x.pause := by
    obtain ⟨place, t, rest, rfl, ht, hjobs⟩ := doing?_eq_some hjob
    exact h.turned ht hjobs hrun ⟨_, hruns, ⟨sync, bound⟩, hof.stopped, rfl, hof.remembers⟩ hloco
      (fun part => ⟨commandsOf_plain hnext, hidle part⟩) (by simp [hstarted, htaken]) ⟨rfl, rfl⟩
  rcases hdoing with hdoing | ⟨pid, hdoing, hlive⟩
  · exact hpaused hdoing (fun part => rfl) hplain rfl
  · have hfound : w.controller.liveRun? pid = some (id, r) := by
      simp [Controller.liveRun?, hlive, hr]
    have hrun : w.controller.run w.now (.operate (.pause pid)) =
        .follows (w.controller.pauseRun w.now id).1
          ((w.controller.pauseRun w.now id).2 ++ [.announceRuns]) := by
      simp only [Controller.run, Controller.operate, Controller.pause, hfound]
    refine hpaused hdoing (fun part => rfl) ?_ hrun
    simpa [Job.IsPlain, or_imp, forall_and] using hplain

end World

end Signalbox
