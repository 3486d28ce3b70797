import Signalbox.Proofs.Control.Order
import Signalbox.Proofs.Control.Origins
import Signalbox.Proofs.Control.Resumption

/-
  Signalbox/Proofs/Control/Repeats.lean --- what a resumption repeats.

  A resumption is meant to repeat what the pause has cut off, that is actions which the
  run itself had started.  What is remembered of a test is its whole text, though,
  whether its condition held or not, and the condition is decided again when the text is
  replayed.  So the body of a test that the run has passed over is started after all when
  the turnout has been operated since.

  Turnouts may be operated at any time, also while a replay goes on.  So a replay may
  start whatever is in what is remembered, however deep in its tests, and nothing else;
  it keeps to what the run had started just when all of that had been started.
-/

set_option autoImplicit false

namespace Signalbox

/-- A command comes to an action when the turnouts of a layout happen to be right for it. -/
inductive Command.Reaches (l : Layout) (a : Action) : Command → Prop
  | act : Reaches l a (.act a)
  | body {wanted : TurnoutState} {turnout : Int} {body : List Command} {cmd : Command}
      (known : (l.turnouts.get? turnout).isSome) (mem : cmd ∈ body) (reaches : Reaches l a cmd) :
      Reaches l a (.test wanted turnout body)

/-- An action is what is left of another one, all of it or what remains of a delay. -/
def Action.IsRestOf (a b : Action) : Prop := a = b ∨ ∃ elapsed, a = b.rest elapsed

/-- The run itself has started an action, or the one that this is left of. -/
def Action.WasStarted (a : Action) (history : List (Part × Command)) : Prop :=
  ∃ b, (Part.regular, Command.act b) ∈ history ∧ a.IsRestOf b

namespace World

/-- An act before a run goes on. -/
def HeldStep (id : RunId) (w w' : World) : Prop :=
  (∃ r, w.controller.runs.get? id = some r ∧ r.state ≠ .running) ∧ ∃ a, w' = w.does a

/-- What may become of a world before a run goes on. -/
def Suspended (id : RunId) : World → World → Prop := Relation.ReflTransGen (HeldStep id)

/-- Until it goes on, nothing is repeated in the name of a run but what the run had started. -/
def RepeatsOnly (w : World) (id : RunId) (history : List (Part × Command)) : Prop :=
  ∀ v, Suspended id w v → ∀ act a, v.starting? id act = some (.replay, .act a) →
    a.WasStarted history

end World

/-! ## Nothing else is repeated -/

/-- A run that has not gone on since is paused as it was. -/
theorem Run.Becomes.of_paused {now : Nat} {id : RunId} {r r' : Run} {job : Option Job}
    (h : r.Becomes now id job r') (hstate : r.state ≠ .running) (hpaused : r'.state = .paused) :
    r.state = .paused ∧ r'.log = r.log ∧ r'.pausedAt = r.pausedAt := by
  cases h with
  | same => exact ⟨hpaused, rfl, rfl⟩
  | pause paused => exact absurd (Run.pause?_eq_some paused).2.1 hstate
  | resume resumed =>
    obtain ⟨-, rfl⟩ := Run.resume?_eq_some resumed
    simp [withState] at hpaused
  | settle resumed =>
    obtain ⟨-, rfl⟩ := Run.resume?_eq_some resumed
    simp [settled_eq, withState] at hpaused
  | replayed resuming =>
    simp [settled_eq, withState, resuming] at hpaused
  | stop => exact ⟨hpaused, rfl, rfl⟩
  | start part c _ ready phase =>
    cases part with
    | regular => exact absurd (Run.readiness_regular_iff.mp ready).2 hstate
    | replay => exact absurd (hpaused.symm.trans (phase rfl)) (by simp)

namespace World

variable {w v : World} {id : RunId} {r : Run} {l : Layout} {items : List Command}

theorem varies_does (w : World) (a : Act) :
    w.controller.interlocking.layout.Varies (w.does a).controller.interlocking.layout := by
  cases a with
  | move m => exact w.varies_after m
  | call id' c => exact .refl

/-- Since a run was paused it has noted nothing until a replay began, and what is left of a replay
comes to nothing that the commands to repeat do not come to. -/
structure KeepsTo (v : World) (id : RunId) (r : Run) (l : Layout) (items : List Command) :
    Prop where
  attended : v.Attended
  run : ∃ r', v.controller.runs.get? id = some r' ∧
    (r'.state = .paused → r'.log = r.log ∧ r'.pausedAt = r.pausedAt)
  layout : l.Varies v.controller.interlocking.layout
  left : ∀ t ∈ v.tasks, ∀ cmd ∈ commandsOf id .replay t.jobs, ∀ a, cmd.Reaches l a →
    ∃ item ∈ items, item.Reaches l a

theorem KeepsTo.does (h : v.KeepsTo id r l items)
    (replayed : ∀ text script scripts, r.replayText = some text →
      Script.compile text = .ok (script :: scripts) → script.children = items)
    {r' : Run} (hr' : v.controller.runs.get? id = some r') (hstate : r'.state ≠ .running)
    (a : Act) : (v.does a).KeepsTo id r l items := by
  obtain ⟨r₁, hr₁, hsame⟩ := h.run
  obtain rfl := Option.some.inj (hr'.symm.trans hr₁)
  refine ⟨h.attended.act a, ?_, h.layout.trans (v.varies_does a), ?_⟩
  · obtain ⟨r₂, hr₂, hbecomes⟩ := h.attended.becomes hr' a
    refine ⟨r₂, hr₂, fun hpaused => ?_⟩
    obtain ⟨hbefore, hlog, hmoment⟩ := hbecomes.of_paused hstate hpaused
    exact ⟨hlog.trans (hsame hbefore).1, hmoment.trans (hsame hbefore).2⟩
  · intro t ht cmd hcmd b hreaches
    rcases h.attended.mem_commandsOf a ht hcmd with ⟨t', ht', hcmd'⟩ | ⟨job, hdoing, hoffers⟩
    · exact h.left t' ht' cmd hcmd' b hreaches
    · generalize hpart : Part.replay = part at hoffers
      cases hoffers with
      | @body part wanted turnout body cmd r₂ doing run ready holds mem =>
        -- The test itself was left of a replay, and its turnout is in the layout.
        subst hpart
        obtain ⟨t', ht', htest⟩ := mem_of_doing? (doing ▸ hdoing)
        have hknown : (l.turnouts.get? turnout).isSome := by
          rw [← h.layout.isSome_turnout turnout]
          obtain ⟨t₀, ht₀, -⟩ := Option.map_eq_some_iff.mp holds
          exact Option.isSome_of_eq_some ht₀
        exact h.left t' ht' _ htest b (.body hknown mem hreaches)
      | @replay r₂ text script scripts cmd doing run paused htext compiled mem =>
        -- The run is still paused as it was, so the text to replay is still the same.
        obtain rfl := Option.some.inj (hr'.symm.trans run)
        obtain ⟨hlog, hmoment⟩ := hsame paused
        have htext' : r.replayText = some text := by
          rw [← htext, Run.replayText, Run.replayText, hlog, hmoment]
        exact ⟨cmd, replayed text script scripts htext' compiled ▸ mem, hreaches⟩
      | begins _ _ _ => simp at hpart

theorem KeepsTo.suspended (h : w.KeepsTo id r l items)
    (replayed : ∀ text script scripts, r.replayText = some text →
      Script.compile text = .ok (script :: scripts) → script.children = items)
    (hv : Suspended id w v) : v.KeepsTo id r l items := by
  induction hv with
  | refl => exact h
  | tail _ hstep ih =>
    obtain ⟨⟨r', hr', hstate⟩, a, rfl⟩ := hstep
    exact ih.does replayed hr' hstate a

/-- Whatever is repeated, the commands to repeat come to it. -/
theorem KeepsTo.starts (h : v.KeepsTo id r l items) {act : Act} {a : Action}
    (hstart : v.starting? id act = some (.replay, .act a)) : ∃ item ∈ items, item.Reaches l a := by
  obtain ⟨t, ht, hcmd⟩ := mem_of_doing? (starting?_eq_some.mp hstart).1
  exact h.left t ht _ hcmd a .act

/-- A run that has just been paused. -/
theorem Attended.keepsTo (hw : w.Attended) (hr : w.controller.runs.get? id = some r)
    (hpaused : r.state = .paused) (items : List Command) :
    w.KeepsTo id r w.controller.interlocking.layout items := by
  refine ⟨hw, ⟨r, hr, fun _ => ⟨rfl, rfl⟩⟩, .refl, fun t ht cmd hcmd => ?_⟩
  rw [commandsOf_replay hw.phased hr (by simp [hpaused]) ht] at hcmd
  simp at hcmd

end World

/-! ## All of it may be repeated -/

namespace Controller

variable {c : Controller} {id : RunId} {part : Part} {r : Run}

/-- A turnout that is there can be put into any state. -/
theorem setTurnout_known {turnout : NodeId}
    (known : (c.interlocking.layout.turnouts.get? turnout).isSome) (state : TurnoutState) :
    ∃ c' next, c.setTurnout turnout state = .ok (c', next) ∧
      c'.interlocking.turnoutState? turnout = some state := by
  let released := c.interlocking.release (c.interlocking.turnoutHolders.get? turnout).toList
  let moved := released.2.moveTurnout turnout state
  have hset : c.interlocking.setTurnout turnout state = .ok (released.1, moved) := if_pos known
  have hmoved : moved.turnoutState? turnout = some state := by
    obtain ⟨t, ht⟩ := Option.isSome_iff_exists.mp known
    have hlayout : released.2.layout = c.interlocking.layout := Interlocking.layout_release _ _
    rw [Interlocking.turnoutState?_moveTurnout, if_pos rfl, Interlocking.turnoutState?, hlayout, ht]
    rfl
  refine ⟨_, _, by simp only [setTurnout, hset]; rfl, ?_⟩
  have hnoted := leaves_noteTurnout (c := tellAll { c with interlocking := moved }
    (releasedEvents released.1 ++ [.turnout turnout state])) turnout state .layout
  exact (congrArg (Interlocking.turnoutState? · turnout)
    (LeavesLayout.interlocking hnoted)).trans hmoved

/-- A test goes on to its body, or it is over. -/
theorem run_test (hr : c.runs.get? id = some r) (ready : r.readiness part = .ready) (now : Nat)
    (wanted : TurnoutState) (turnout : Int) (body : List Command) :
    ∃ c', c'.runs.get? id = some (r.record now false (Command.test wanted turnout body).text) ∧
      c.run now (.command id part (.test wanted turnout body)) =
        if c.interlocking.turnoutState? turnout = some wanted then
          .follows c' (Command.jobs id part body)
        else .finished c' := by
  refine ⟨c.modifyRun id (·.record now false (Command.test wanted turnout body).text), ?_, ?_⟩
  · have hget := Table.get?_modify c.runs id id
      (·.record now false (Command.test wanted turnout body).text)
    rw [if_pos rfl, hr] at hget
    exact hget
  · simp only [run, command, hr, ready, effect]
    rfl

/-- What is left of a command is over in time. -/
theorem run_left {j : Job} (serves : j.Serves id part) (hno : ∀ cmd, j ≠ .command id part cmd)
    (hstatus : c.adapter.status ≠ .switching) (now : Nat) :
    ∃ milliseconds c', c.run (now + milliseconds) j = .finished c' ∧ c'.books = c.books := by
  cases j with
  | command id' part' cmd =>
    obtain ⟨rfl, rfl⟩ := serves
    exact absurd rfl (hno cmd)
  | asleep id' part' alarm =>
    exact ⟨alarm.moment, c, if_pos (Nat.le_add_left _ _), rfl⟩
  | send request refused =>
    obtain rfl : refused = .ignore := serves
    obtain ⟨c', hrun, hbooks, -⟩ := World.run_ignoring c now request hstatus
    exact ⟨0, c', hrun, hbooks⟩
  | _ => exact serves.elim

end Controller

namespace World

variable {w v : World} {id : RunId} {r : Run} {l : Layout} {place : Nat} {job : Job}
  {jobs rest : List Job}

/-- A run is being resumed, and a task has some jobs to do. -/
structure Replays (v : World) (id : RunId) (l : Layout) (place : Nat) (jobs : List Job) :
    Prop where
  attended : v.Attended
  run : ∃ r, v.controller.runs.get? id = some r ∧ r.state = .resuming ∧ r.stopped = false
  layout : l.Varies v.controller.interlocking.layout
  task : ∃ t, v.tasks[place]? = some t ∧ t.jobs = jobs

namespace Replays

theorem suspended (h : v.Replays id l place jobs) (a : Act) : Suspended id v (v.does a) := by
  obtain ⟨r, hr, hstate, -⟩ := h.run
  exact .single ⟨⟨r, hr, by simp [hstate]⟩, a, rfl⟩

/-- An act that leaves the run and the task as they are. -/
theorem other (h : v.Replays id l place jobs) (a : Act)
    (run : (v.does a).controller.runs.get? id = v.controller.runs.get? id)
    (task : ∀ t, v.tasks[place]? = some t → (v.does a).tasks[place]? = some t) :
    (v.does a).Replays id l place jobs := by
  obtain ⟨t, ht, hjobs⟩ := h.task
  refine ⟨h.attended.act a, ?_, h.layout.trans (v.varies_does a), t, task t ht, hjobs⟩
  rw [run]
  exact h.run

/-- The task has its turn, and the run is still being resumed. -/
theorem turned (h : v.Replays id l place (job :: rest)) {c : Controller} {next : List Job}
    {reply : Option Reply} (hrun : v.controller.run v.now job = .done c next reply)
    (run : ∃ r, c.runs.get? id = some r ∧ r.state = .resuming ∧ r.stopped = false) :
    (v.turn place).Replays id l place (next ++ rest) := by
  obtain ⟨t, ht, hjobs⟩ := h.task
  refine ⟨h.attended.act (.move (.turn place)), ?_,
    h.layout.trans (v.varies_does (.move (.turn place))), _, tasks_turn_self ht hjobs hrun, rfl⟩
  rw [turn_done ht hjobs hrun]
  exact run

/-! ### Others do something -/

/-- A client operates a turnout. -/
theorem operate (h : v.Replays id l place jobs) {turnout : Int}
    (known : (l.turnouts.get? turnout).isSome) (state : TurnoutState) :
    ∃ u, Suspended id v u ∧ u.Replays id l place jobs ∧
      u.controller.interlocking.turnoutState? turnout = some state := by
  let asked := v.does (.move (.ask (.setTurnout turnout state)))
  obtain ⟨t₀, ht₀, -⟩ := h.task
  obtain ⟨hplace, -⟩ := List.getElem?_eq_some_iff.mp ht₀
  have hasked : asked.Replays id l place jobs := h.other _ rfl fun t ht => by
    change (v.tasks ++ [_])[place]? = some t
    rw [List.getElem?_append_left hplace, ht]
  have htask : asked.tasks[v.tasks.length]? = some (.ofJobs [.operate (.setTurnout turnout state)]) :=
    List.getElem?_concat_length
  have hknown : (asked.controller.interlocking.layout.turnouts.get? turnout).isSome := by
    rw [hasked.layout.isSome_turnout turnout]
    exact known
  obtain ⟨c, next, hset, hstate⟩ := Controller.setTurnout_known hknown state
  have hrun : asked.controller.run asked.now (.operate (.setTurnout turnout state)) =
      .follows c next := by
    simp only [Controller.run, Controller.operate, hset]
  have hturn := turn_done htask rfl hrun
  refine ⟨asked.turn v.tasks.length, (h.suspended _).trans (hasked.suspended (.move (.turn _))),
    hasked.other (.move (.turn _)) ?_ fun t ht => ?_, ?_⟩
  · change (asked.turn _).controller.runs.get? id = _
    rw [hturn]
    obtain ⟨r, hr, -⟩ := hasked.run
    rw [hr]
    exact Scene.runs_grows (hasked.attended.phased.numbered _ (Nat.le_refl _))
      (Controller.grows_setTurnout _ hset).1 hr
  · change (asked.turn _).tasks[place]? = _
    rw [hturn, List.getElem?_append_left, List.getElem?_set_ne (Nat.ne_of_gt hplace), ht]
    rw [List.length_set]
    exact (List.getElem?_eq_some_iff.mp ht).1
  · rw [hturn]
    exact hstate

/-- Requests can be sent again once another driver has been brought up. -/
theorem ready (h : v.Replays id l place jobs) : ∃ u, Suspended id v u ∧
    u.Replays id l place jobs ∧ u.controller.adapter.status ≠ .switching := by
  have hstarted : v.controller.started = [] := h.attended.phased.taken
  obtain ⟨adapter, events, havailable, hswitched⟩ := switched_eq hstarted
  have hbegun := switchBegun_eq hstarted
  obtain ⟨t₀, ht₀, -⟩ := h.task
  obtain ⟨hplace, -⟩ := List.getElem?_eq_some_iff.mp ht₀
  have hadded (t : Task) (ht : v.tasks[place]? = some t) (added : List Task) :
      (v.tasks ++ added)[place]? = some t := by rw [List.getElem?_append_left hplace, ht]
  have hasked : v.switchAsked.Replays id l place jobs :=
    h.other (.move (.ask (.switchTo .virtual .virtual))) rfl fun t ht => hadded t ht _
  have htasks (t : Task) (ht : v.switchAsked.tasks[place]? = some t) : v.tasks[place]? = some t := by
    rw [← ht]
    exact (List.getElem?_append_left hplace).symm
  have hbegins : v.switchBegun.Replays id l place jobs :=
    hasked.other (.move (.turn _)) (congrArg (·.controller.runs.get? id) hbegun) fun t ht =>
      (congrArg (·.tasks[place]?) hbegun).trans (hadded t (htasks t ht) _)
  have hruns : v.switched.controller.runs.get? id = v.switchBegun.controller.runs.get? id := by
    rw [hswitched, hbegun]
  have htasks' (t : Task) (ht : v.switchBegun.tasks[place]? = some t) :
      v.tasks[place]? = some t := by
    rw [← ht, hbegun]
    exact (List.getElem?_append_left hplace).symm
  refine ⟨v.switched, ?_, hbegins.other (.move (.turn _)) hruns fun t ht =>
    (congrArg (·.tasks[place]?) hswitched).trans (hadded t (htasks' t ht) _), ?_⟩
  · exact ((h.suspended (.move (.ask _))).trans (hasked.suspended (.move (.turn _)))).trans
      (hbegins.suspended (.move (.turn _)))
  · rw [hswitched]
    simp [havailable]

/-! ### The task has its turns -/

/-- What is left of a command comes to its end. -/
theorem pass (h : v.Replays id l place (job :: rest)) (serves : job.Serves id .replay)
    (hno : ∀ cmd, job ≠ .command id .replay cmd) :
    ∃ u, Suspended id v u ∧ u.Replays id l place rest := by
  obtain ⟨u, hu, hready, hstatus⟩ := h.ready
  obtain ⟨milliseconds, c, hrun, hbooks⟩ := Controller.run_left serves hno hstatus u.now
  let waited := u.does (.move (.wait milliseconds))
  have hwaited : waited.Replays id l place (job :: rest) := hready.other _ rfl fun t ht => ht
  have hruns : c.runs = u.controller.runs := congrArg Books.runs hbooks
  refine ⟨waited.turn place,
    (hu.trans (hready.suspended _)).trans (hwaited.suspended (.move (.turn _))),
    hwaited.turned hrun ?_⟩
  rw [hruns]
  exact hready.run

theorem passAll {active : List Job} (h : v.Replays id l place (active ++ rest))
    (serves : ∀ j ∈ active, j.Serves id .replay) (idle : commandsOf id .replay active = []) :
    ∃ u, Suspended id v u ∧ u.Replays id l place rest := by
  induction active generalizing v with
  | nil => exact ⟨v, .refl, h⟩
  | cons j active ih =>
    have hnone := List.filterMap_eq_nil_iff.mp idle
    have hno (cmd : Command) : j ≠ .command id .replay cmd := by
      rintro rfl
      simpa [Job.command?] using hnone _ List.mem_cons_self
    obtain ⟨u, hu, hpassed⟩ := h.pass (serves j List.mem_cons_self) hno
    obtain ⟨u', hu', hrest⟩ := ih hpassed (fun k hk => serves k (List.mem_cons_of_mem _ hk))
      (List.filterMap_eq_nil_iff.mpr fun k hk => hnone k (List.mem_cons_of_mem _ hk))
    exact ⟨u', hu.trans hu', hrest⟩

/-- With the turnout in a state, a test goes on to its body or is over. -/
theorem test {wanted : TurnoutState} {turnout : Int} {body : List Command}
    (h : v.Replays id l place (.command id .replay (.test wanted turnout body) :: rest)) :
    (v.turn place).Replays id l place
      ((if v.controller.interlocking.turnoutState? turnout = some wanted then
        Command.jobs id .replay body else []) ++ rest) := by
  obtain ⟨r, hr, hstate, hstopped⟩ := h.run
  have hready : r.readiness .replay = .ready := Run.readiness_of_phase hstopped hstate
  obtain ⟨c, hrecorded, hrun⟩ :=
    Controller.run_test hr hready v.now wanted turnout body
  have hresuming : ∃ r, c.runs.get? id = some r ∧ r.state = .resuming ∧ r.stopped = false :=
    ⟨_, hrecorded, hstate, hstopped⟩
  split
  · rename_i hholds
    rw [if_pos hholds] at hrun
    exact h.turned hrun hresuming
  · rename_i hnot
    rw [if_neg hnot] at hrun
    exact h.turned hrun hresuming

/-- The body of a test is entered once the turnout has been operated. -/
theorem enter {wanted : TurnoutState} {turnout : Int} {body : List Command}
    (h : v.Replays id l place (.command id .replay (.test wanted turnout body) :: rest))
    (known : (l.turnouts.get? turnout).isSome) :
    ∃ u, Suspended id v u ∧ u.Replays id l place (Command.jobs id .replay body ++ rest) := by
  obtain ⟨u, hu, hset, hstate⟩ := h.operate known wanted
  have hentered := hset.test
  rw [if_pos hstate] at hentered
  exact ⟨u.turn place, hu.trans (hset.suspended (.move (.turn _))), hentered⟩

/-- A command can be left behind. -/
theorem skip {cmd : Command} (h : v.Replays id l place (.command id .replay cmd :: rest)) :
    ∃ u, Suspended id v u ∧ u.Replays id l place rest := by
  cases cmd with
  | act a =>
    obtain ⟨r, hr, hstate, hstopped⟩ := h.run
    have hready : r.readiness .replay = .ready := Run.readiness_of_phase hstopped hstate
    obtain ⟨c, next, reply, hrun, hrecorded⟩ :=
      (Controller.run_command_of_ready hr h.attended.phased.numbered hready :
        ∃ c next reply, v.controller.run v.now (.command id .replay (.act a)) =
          .done c next reply ∧ _)
    have hserves : (v.controller.run v.now (.command id .replay (.act a))).IsServing
        v.controller.books v.now id .replay (.command id .replay (.act a)) :=
      v.controller.isServing_run ⟨rfl, rfl⟩
    rw [hrun] at hserves
    -- What follows an action is a request or a delay, and no other command.
    have hidle : commandsOf id .replay next = [] := by
      refine List.eq_nil_iff_forall_not_mem.mpr fun cmd hcmd => ?_
      cases Controller.offers_command hrun hcmd with
      | body doing => simp at doing
      | replay doing => simp at doing
    obtain ⟨u, hu, hrest⟩ :=
      (h.turned hrun ⟨_, hrecorded, hstate, hstopped⟩).passAll hserves.2 hidle
    exact ⟨u, (h.suspended (.move (.turn _))).trans hu, hrest⟩
  | test wanted turnout body =>
    -- The turnout is put into the other state first; one that is not there has no state.
    obtain ⟨u, hu, hpassed, hnot⟩ : ∃ u, Suspended id v u ∧
        u.Replays id l place (.command id .replay (.test wanted turnout body) :: rest) ∧
        u.controller.interlocking.turnoutState? turnout ≠ some wanted := by
      by_cases known : (l.turnouts.get? turnout).isSome
      · obtain ⟨state, hne⟩ : ∃ state : TurnoutState, state ≠ wanted := by
          cases wanted with
          | closed => exact ⟨.thrown, by decide⟩
          | thrown => exact ⟨.closed, by decide⟩
        obtain ⟨u, hu, hset, hstate⟩ := h.operate known state
        exact ⟨u, hu, hset, by simp [hstate, hne]⟩
      · refine ⟨v, .refl, h, fun hstate => known ?_⟩
        rw [← h.layout.isSome_turnout turnout]
        obtain ⟨t, ht, -⟩ := Option.map_eq_some_iff.mp hstate
        exact Option.isSome_of_eq_some ht
    have hover := hpassed.test
    rw [if_neg hnot] at hover
    exact ⟨u.turn place, hu.trans (hpassed.suspended (.move (.turn _))), hover⟩

/-- Any of some commands can be got to. -/
theorem skipTo {cmd : Command} {commands : List Command} (mem : cmd ∈ commands)
    (h : v.Replays id l place (Command.jobs id .replay commands ++ rest)) :
    ∃ u rest', Suspended id v u ∧ u.Replays id l place (.command id .replay cmd :: rest') := by
  induction commands generalizing v with
  | nil => simp at mem
  | cons first commands ih =>
    rcases List.mem_cons.mp mem with rfl | mem
    · exact ⟨v, _, .refl, h⟩
    · obtain ⟨u, hu, hrest⟩ := h.skip
      obtain ⟨u', rest', hu', hfound⟩ := ih mem hrest
      exact ⟨u', rest', hu.trans hu', hfound⟩

/-- An action that a command comes to can be started. -/
theorem starts {cmd : Command} {a : Action} (reaches : cmd.Reaches l a)
    (h : v.Replays id l place (.command id .replay cmd :: rest)) :
    ∃ u act, Suspended id v u ∧ u.starting? id act = some (.replay, .act a) := by
  induction reaches generalizing v rest with
  | act =>
    obtain ⟨r, hr, hstate, hstopped⟩ := h.run
    obtain ⟨t, ht, hjobs⟩ := h.task
    exact ⟨v, .move (.turn place), .refl, starting?_eq_some.mpr
      ⟨doing?_turn ht hjobs, r, hr, Run.readiness_of_phase hstopped hstate⟩⟩
  | body known mem _ ih =>
    obtain ⟨u, hu, hentered⟩ := h.enter known
    obtain ⟨u', rest', hu', hfound⟩ := hentered.skipTo mem
    obtain ⟨u'', act, hu'', hstart⟩ := ih hfound
    exact ⟨u'', act, (hu.trans hu').trans hu'', hstart⟩

end Replays

/-- Somebody resumes a paused run, and what is to be replayed is about to be started. -/
theorem Attended.replays (hw : w.Attended) (hr : w.controller.runs.get? id = some r)
    (hpaused : r.state = .paused) (hstopped : r.stopped = false) {text : String} {script : Script}
    (htext : r.replayText = some text) (hcompile : Script.compile text = .ok [script]) :
    ∃ u rest, Suspended id w u ∧ u.Replays id w.controller.interlocking.layout w.tasks.length
      (Command.jobs id .replay script.children ++ rest) := by
  let asked := w.does (.call id .resume)
  have htask : asked.tasks[w.tasks.length]? = some (.ofJobs [.resumeRun id]) :=
    List.getElem?_concat_length
  obtain ⟨c, hrun, hresuming, -⟩ := Controller.resumeRun_replays hr hpaused htext hcompile
  have hjobs : (Task.ofJobs [.resumeRun id]).jobs = [.resumeRun id] := rfl
  have hturn := turn_done htask hjobs hrun
  refine ⟨asked.turn w.tasks.length, [.endReplay id text], ?_, ?_⟩
  · have hheld : r.state ≠ .running := by simp [hpaused]
    have hcall : HeldStep id w asked := ⟨⟨r, hr, hheld⟩, _, rfl⟩
    have hturn : HeldStep id asked (asked.turn w.tasks.length) :=
      ⟨⟨r, hr, hheld⟩, .move (.turn _), rfl⟩
    exact (Relation.ReflTransGen.single hcall).tail hturn
  · refine ⟨(hw.act _).act (.move (.turn _)), ⟨r.withState .resuming, ?_, rfl, hstopped⟩,
      asked.varies_does (.move (.turn _)), _, tasks_turn_self htask hjobs hrun, ?_⟩
    · rw [hturn]
      exact hresuming
    · rw [List.append_nil]

/-! ## What a resumption repeats -/

variable {history : List (Part × Command)}

/-- A stopped run has nothing repeated. -/
theorem Attended.repeatsOnly_of_stopped (hw : w.Attended)
    (hr : w.controller.runs.get? id = some r) (hstopped : r.stopped = true)
    (history : List (Part × Command)) : w.RepeatsOnly id history := by
  intro v hv act a hstart
  have hlater : Later w v := hv.lift (fun u => u) fun _ _ hstep => hstep.2
  obtain ⟨r', hr', hstopped', -⟩ := (hw.isOver_later hr hstopped hlater).stopped
  obtain ⟨-, r'', hr'', hready⟩ := starting?_eq_some.mp hstart
  obtain rfl := Option.some.inj (hr'.symm.trans hr'')
  simp [Run.readiness_of_stopped hstopped'] at hready

/-- Until a paused run goes on, nothing is repeated but what it had started, exactly when it is
stopped or had started all that the commands to repeat come to. -/
theorem repeatsOnly_iff (h : HasStarted id w history) (hr : w.controller.runs.get? id = some r)
    (fits : Command.bodyFits r.script.children = true) (hpaused : r.state = .paused) :
    w.RepeatsOnly id history ↔ r.stopped = true ∨
      ∀ item ∈ (Slot.ofHistory history).items (r.log.elapsed r.pausedAt), ∀ a,
        item.Reaches w.controller.interlocking.layout a → a.WasStarted history := by
  have hw := h.attended
  have hnotes := h.notes hr fits
  have hreplay := Slot.replay hnotes.log hnotes.slot r.pausedAt
  constructor
  · intro hrepeats
    refine or_iff_not_imp_left.mpr fun hgoes item hitem a hreaches => ?_
    rcases hreplay with ⟨hnone, -⟩ | ⟨text, script, htext, hcompile, hchildren⟩
    · simp [hnone] at hitem
    · obtain ⟨u, rest, hu, hreplays⟩ :=
        hw.replays hr hpaused (Bool.eq_false_iff.mpr hgoes) htext hcompile
      obtain ⟨u', rest', hu', hfound⟩ := hreplays.skipTo (hchildren ▸ hitem)
      obtain ⟨v, act, hv, hstart⟩ := hfound.starts hreaches
      exact hrepeats v ((hu.trans hu').trans hv) act a hstart
  · rintro (hstopped | hall)
    · exact hw.repeatsOnly_of_stopped hr hstopped history
    · intro v hv act a hstart
      -- The text to replay compiles to the commands to repeat, and to nothing else.
      have hreplayed (text : String) (script : Script) (scripts : List Script)
          (htext : r.replayText = some text)
          (hcompile : Script.compile text = .ok (script :: scripts)) :
          script.children = (Slot.ofHistory history).items (r.log.elapsed r.pausedAt) := by
        rcases hreplay with ⟨-, hnone⟩ | ⟨text', script', htext', hcompile', hchildren⟩
        · exact absurd (htext.symm.trans hnone) (by simp)
        · obtain rfl := Option.some.inj (htext.symm.trans htext')
          obtain ⟨rfl, -⟩ := List.cons.inj (Except.ok.inj (hcompile.symm.trans hcompile'))
          exact hchildren
      obtain ⟨item, hitem, hreaches⟩ :=
        ((hw.keepsTo hr hpaused _).suspended hreplayed hv).starts hstart
      exact hall item hitem a hreaches

/-! ### Tests that held and tests that did not -/

/-- The commands of a run that start in some acts. -/
def startedIn (w : World) (id : RunId) : List Act → List (Part × Command)
  | [] => []
  | a :: acts => (w.starting? id a).toList ++ (w.does a).startedIn id acts

theorem HasStarted.doesAll (h : HasStarted id w history) (acts : List Act) :
    HasStarted id (w.doesAll acts) (history ++ w.startedIn id acts) := by
  induction acts generalizing w history with
  | nil =>
    rw [startedIn, List.append_nil]
    exact h
  | cons a acts ih =>
    rw [startedIn, ← List.append_assoc]
    exact ih (h.act a)

/-- A check that a run does not go on before some acts are over. -/
def isHeldIn (w : World) (id : RunId) : List Act → Bool
  | [] => true
  | a :: acts => (w.controller.runs.get? id).any (fun r => r.state ≠ .running) &&
      (w.does a).isHeldIn id acts

theorem suspended_of_check {acts : List Act} (h : w.isHeldIn id acts = true) :
    Suspended id w (w.doesAll acts) := by
  induction acts generalizing w with
  | nil => exact .refl
  | cons a acts ih =>
    obtain ⟨hheld, hacts⟩ := Bool.and_eq_true_iff.mp h
    obtain ⟨r, hr, hstate⟩ := (Option.any_eq_true _ _).mp hheld
    exact .head ⟨⟨r, hr, of_decide_eq_true hstate⟩, a, rfl⟩ (ih hacts)

/-- A controller with a closed turnout and a script. -/
def pointsController (commands : List Command) : Controller :=
  { trialController commands with
    interlocking := .ofLayout (.ofParts [.turnout ⟨5, "", .origin, .closed, 101, 102⟩] []) }

/-- The script is run until it comes to a delay, and is paused in it. -/
def pointsActs (times : Nat) : List Act :=
  .move (.ask (.runScript 1 none)) :: .move (.turn 0) :: turns 1 times ++
    [.move (.wait 400), .call 0 .pause, .move (.turn 2)]

def pointsTrial (commands : List Command) (times : Nat) : World :=
  (ofController (pointsController commands)).doesAll (pointsActs times)

theorem hasStarted_pointsTrial (commands : List Command) (times : Nat) :
    HasStarted 0 (pointsTrial commands times)
      ((ofController (pointsController commands)).startedIn 0 (pointsActs times)) :=
  HasStarted.doesAll (.start ⟨rfl, rfl, rfl, by
    simp [pointsController, trialController, Controller.ofLayout]⟩) _

/-- A test that holds, with a drive in its body, and a delay after it. -/
def enteredCommands : List Command :=
  [.test .closed 5 [.act (.drive .forward 40)], .act (.delay 1000), .act .stop]

/-- The same with a test that does not hold. -/
def skippedCommands : List Command :=
  [.test .thrown 5 [.act (.drive .forward 40)], .act (.delay 1000), .act .stop]

/-- The run had started the drive, which is what is remembered. -/
theorem repeatsOnly_entered :
    (pointsTrial enteredCommands 3).RepeatsOnly 0
      [(.regular, .test .closed 5 [.act (.drive .forward 40)]),
        (.regular, .act (.drive .forward 40)), (.regular, .act (.delay 1000))] := by
  have hstarted := hasStarted_pointsTrial enteredCommands 3
  have hhistory : (ofController (pointsController enteredCommands)).startedIn 0 (pointsActs 3) =
      [(.regular, .test .closed 5 [.act (.drive .forward 40)]),
        (.regular, .act (.drive .forward 40)), (.regular, .act (.delay 1000))] := by
    decide +kernel
  rw [hhistory] at hstarted
  have hrun : ((pointsTrial enteredCommands 3).controller.runs.get? 0).map (fun r =>
      (r.script.children, r.state, r.log.elapsed r.pausedAt)) =
        some (enteredCommands, .paused, 400) := by
    decide +kernel
  obtain ⟨r, hr, hsame⟩ := Option.map_eq_some_iff.mp hrun
  obtain ⟨hchildren, hsame⟩ := Prod.mk.inj hsame
  obtain ⟨hpaused, helapsed⟩ := Prod.mk.inj hsame
  refine (repeatsOnly_iff hstarted hr (hchildren ▸ by decide) hpaused).mpr (.inr ?_)
  rw [helapsed]
  intro item hitem a hreaches
  have hitems : item ∈ [Command.act (.drive .forward 40), .act (.delay 600)] := hitem
  rcases List.mem_pair.mp hitems with rfl | rfl
  · cases hreaches
    exact ⟨.drive .forward 40, by simp, .inl rfl⟩
  · cases hreaches
    exact ⟨.delay 1000, by simp, .inr ⟨400, rfl⟩⟩

/-- Somebody throws the turnout and resumes the run, until its test has started again. -/
def thrownActs : List Act :=
  [.move (.ask (.setTurnout 5 .thrown)), .move (.turn 3), .call 0 .resume, .move (.turn 4),
    .move (.turn 4)]

/-- The run had passed over the drive, which is started all the same. -/
theorem not_repeatsOnly_skipped :
    ¬ ∀ (w : World) (id : RunId) (r : Run) (history : List (Part × Command)),
      HasStarted id w history → w.controller.runs.get? id = some r →
      Command.bodyFits r.script.children = true → r.state = .paused →
      w.RepeatsOnly id history := by
  intro h
  have hstarted := hasStarted_pointsTrial skippedCommands 2
  have hhistory : (ofController (pointsController skippedCommands)).startedIn 0 (pointsActs 2) =
      [(.regular, .test .thrown 5 [.act (.drive .forward 40)]), (.regular, .act (.delay 1000))] := by
    decide +kernel
  rw [hhistory] at hstarted
  have hrun : ((pointsTrial skippedCommands 2).controller.runs.get? 0).map (fun r =>
      (r.script.children, r.state)) = some (skippedCommands, .paused) := by
    decide +kernel
  obtain ⟨r, hr, hsame⟩ := Option.map_eq_some_iff.mp hrun
  obtain ⟨hchildren, hpaused⟩ := Prod.mk.inj hsame
  have hrepeats := h _ 0 r _ hstarted hr (hchildren ▸ by decide) hpaused
  have hstart : ((pointsTrial skippedCommands 2).doesAll thrownActs).starting? 0 (.move (.turn 4)) =
      some (.replay, .act (.drive .forward 40)) := by
    decide +kernel
  obtain ⟨b, hb, hrest⟩ := hrepeats _ (suspended_of_check (by decide +kernel)) _ _ hstart
  have hdelay : b = .delay 1000 := by simpa using hb
  rw [hdelay] at hrest
  rcases hrest with hrest | ⟨elapsed, hrest⟩ <;> simp [Action.rest] at hrest

end World

end Signalbox
