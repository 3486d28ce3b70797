import Signalbox.Proofs.Control.Binding
import Signalbox.Proofs.Run.Replay

/-
  Signalbox/Proofs/Control/Ride.lean --- a run that drives a loco which nobody else drives.

  Of all that a world has, little matters for the loco of such a run: the state of the
  run, the command that its log remembers, the commands that it and a replay have left,
  and the loco.  This is its ride.  Whatever happens in the world is one of a few steps
  of the ride, or leaves it as it is.
-/

set_option autoImplicit false

namespace Signalbox

/-! ## Actions and locos -/

namespace Action

/-- The action has to do with the loco of its run or is a delay; no turnout is set. -/
def Drives : Action → Prop
  | set _ _ => False
  | _ => True

theorem drives_of_isDelay {a : Action} (h : a.isDelay = true) : a.Drives := by
  cases a <;> trivial

/-- What an action makes of the loco of its run. -/
def onLoco (a : Action) (l : Loco) : Loco :=
  match a.locoAct? with
  | some act => act.change l
  | none => l

end Action

/-- What some actions make of the loco of their run, one after the other. -/
def Loco.after (l : Loco) (actions : List Action) : Loco :=
  actions.foldl (fun l a => a.onLoco l) l

/-- The loco brought to a stand, as a pause does. -/
def Loco.halted (l : Loco) : Loco := l.driven .stopped 0

theorem Loco.after_append (l : Loco) (before actions : List Action) :
    l.after (before ++ actions) = (l.after before).after actions := List.foldl_append

/-- Delays leave the loco as it is. -/
theorem Loco.after_delays {actions : List Action} (h : ∀ a ∈ actions, a.isDelay = true)
    (l : Loco) : l.after actions = l := by
  induction actions generalizing l with
  | nil => rfl
  | cons a actions ih =>
    have ha := h a List.mem_cons_self
    cases a with
    | delay n => exact ih (fun b hb => h b (List.mem_cons_of_mem _ hb)) l
    | _ => simp [Action.isDelay] at ha

/-! ## Rides -/

/-- The state of a run in which the commands of a part of it start. -/
def Part.phase : Part → RunState
  | regular => .running
  | replay => .resuming

/-- A command of a part may start in the phase of the part. -/
theorem Run.readiness_of_phase {r : Run} {part : Part} (hstopped : r.stopped = false)
    (h : r.state = part.phase) : r.readiness part = .ready := by
  cases part with
  | regular => exact Run.readiness_regular_iff.mpr ⟨hstopped, h⟩
  | replay => simp [readiness, hstopped]

/-- A command of a run that does not go on is held. -/
theorem Run.readiness_of_held {r : Run} (hstopped : r.stopped = false)
    (h : r.state ≠ .running) : r.readiness .regular = .held := by
  simp [readiness, hstopped, h]

/-- A run with its loco: the state, the command that its log remembers, what is left of its own
commands and of those of a replay, and the loco. -/
structure Ride where
  state : RunState
  last : Option Action
  left : Part → List Action
  loco : Loco

/-- What may happen to a ride as long as nobody pauses it. -/
inductive Ride.Step (x : Ride) : Ride → Prop
  | stay : Step x x
  | start {part : Part} {a : Action} {rest : List Action} (phase : x.state = part.phase)
      (first : x.left part = a :: rest) :
      Step x { x with
        last := RunLog.lastAfter x.last a
        left := Function.update x.left part rest
        loco := a.onLoco x.loco }
  | resume {delays : List Action} (paused : x.state = .paused)
      (delay : ∀ d ∈ delays, d.isDelay = true) :
      Step x { x with
        state := .resuming
        left := Function.update x.left .replay (x.last.toList ++ delays) }
  | skip (paused : x.state = .paused) (nothing : x.last = none) :
      Step x { x with state := .running }
  | settle (resuming : x.state = .resuming) (ended : x.left .replay = []) :
      Step x { x with state := .running }

/-- A pause of a ride. -/
def Ride.pause (x : Ride) : Ride := { x with state := .paused, loco := x.loco.halted }

/-- What a paused run is resumed as, with the jobs to follow: it goes on at once if it remembers
no command, and otherwise repeats the one it does, and maybe a delay. -/
inductive Run.Resumes (id : RunId) (last : Option Action) (r : Run) : Run → List Job → Prop
  | goesOn (nothing : last = none) : Resumes id last r (r.withState .resuming).settled []
  | repeats (delays : List Action) (text : String)
      (delay : ∀ d ∈ delays, d.isDelay = true ∧ d.Fits) :
      Resumes id last r (r.withState .resuming)
        (Command.jobs id .replay ((last.toList ++ delays).map .act) ++ [.endReplay id text])

/-! ## Commands that are left -/

/-- The command of a part of a run that a job is about to start. -/
def Job.command? (id : RunId) (part : Part) : Job → Option Command
  | command id' part' c => if id' = id ∧ part' = part then some c else none
  | _ => none

/-- The commands of a part of a run among some jobs. -/
def commandsOf (id : RunId) (part : Part) (jobs : List Job) : List Command :=
  jobs.filterMap (Job.command? id part)

/-- Commands as those of the only task that has any. -/
def strand (commands : List Command) : List (List Command) := [commands].filter (!·.isEmpty)

/-- The commands of a part of a run, task by task. -/
def strands (id : RunId) (part : Part) (tasks : List Task) : List (List Command) :=
  tasks.flatMap fun t => strand (commandsOf id part t.jobs)

section Strands

variable {id : RunId} {part : Part} {tasks : List Task} {place : Nat} {t : Task}

theorem commandsOf_append (left right : List Job) :
    commandsOf id part (left ++ right) = commandsOf id part left ++ commandsOf id part right :=
  List.filterMap_append

theorem commandsOf_eq_nil {jobs : List Job} (h : ∀ j ∈ jobs, j.command? id part = none) :
    commandsOf id part jobs = [] := List.filterMap_eq_nil_iff.mpr h

theorem command?_eq_some {j : Job} {c : Command} (h : j.command? id part = some c) :
    j = .command id part c := by
  cases j with
  | command id' part' c' =>
    simp only [Job.command?] at h
    split at h
    · rename_i hsame
      obtain ⟨rfl, rfl⟩ := hsame
      rw [Option.some.inj h]
    · simp at h
  | _ => simp [Job.command?] at h

theorem Job.IsPlain.command? {j : Job} (h : j.IsPlain) : j.command? id part = none := by
  cases j <;> first | rfl | exact h.elim

theorem commandsOf_plain {jobs : List Job} (h : ∀ j ∈ jobs, j.IsPlain) :
    commandsOf id part jobs = [] := commandsOf_eq_nil fun j hj => (h j hj).command?

/-- The jobs of one part of a run have no command of another part. -/
theorem commandsOf_serves_of_ne {id' : RunId} {part' : Part} {jobs : List Job}
    (h : ∀ j ∈ jobs, j.Serves id' part') (hne : (id', part') ≠ (id, part)) :
    commandsOf id part jobs = [] := by
  refine commandsOf_eq_nil fun j hj => ?_
  by_contra hsome
  obtain ⟨c, hc⟩ := Option.ne_none_iff_exists'.mp hsome
  have hserves := h j hj
  rw [command?_eq_some hc] at hserves
  exact hne (Prod.ext hserves.1.symm hserves.2.symm)

theorem Closing.commandsOf {id' : RunId} {part' : Part} {jobs : List Job}
    (h : Closing id' part' jobs) : commandsOf id part jobs = [] := by
  refine commandsOf_eq_nil fun j hj => ?_
  rcases h.closes_or_plain hj with hj | hj
  · cases j <;> first | rfl | simp [Job.closes] at hj
  · exact hj.command?

theorem commandsOf_jobs (commands : List Command) :
    commandsOf id part (Command.jobs id part commands) = commands := by
  have hsome : Job.command? id part ∘ Job.command id part = some := by
    funext c
    simp [Job.command?]
  rw [commandsOf, Command.jobs, List.filterMap_map, hsome, List.filterMap_some]

/-- The jobs of a run have the commands of its script, as its own. -/
theorem commandsOf_script (s : Script) : commandsOf id part (s.jobs id) =
    if part = .regular then s.children else [] := by
  have hend : commandsOf id part [.finish id] = [] := rfl
  rw [Script.jobs, commandsOf_append, hend, List.append_nil]
  split
  · rename_i hpart
    rw [hpart, commandsOf_jobs]
  · rename_i hpart
    exact commandsOf_serves_of_ne (serves_jobs _ _ _) fun h => hpart (Prod.mk.inj h).2.symm

/-- The jobs of a resumption have the commands of the replay, and no others. -/
theorem commandsOf_resumption (commands : List Command) (text : String) {rest : List Job}
    (plain : ∀ j ∈ rest, j.IsPlain) :
    commandsOf id part (Command.jobs id .replay commands ++ [.endReplay id text] ++ rest) =
      if part = .replay then commands else [] := by
  have hend : commandsOf id part [.endReplay id text] = [] := rfl
  rw [commandsOf_append, commandsOf_append, hend, commandsOf_plain plain, List.append_nil,
    List.append_nil]
  split
  · rename_i hpart
    rw [hpart, commandsOf_jobs]
  · rename_i hpart
    exact commandsOf_serves_of_ne (serves_jobs _ _ _) fun h => hpart (Prod.mk.inj h).2.symm

theorem strand_of_ne {commands : List Command} (h : commands ≠ []) :
    strand commands = [commands] := by
  cases commands with
  | nil => exact absurd rfl h
  | cons c commands => rfl

theorem strand_inj {left right : List Command} (h : strand left = strand right) :
    left = right := by
  cases left <;> cases right <;> simp_all [strand]

theorem strands_eq_nil (h : ∀ t ∈ tasks, commandsOf id part t.jobs = []) :
    strands id part tasks = [] := by
  refine List.flatMap_eq_nil_iff.mpr fun t ht => ?_
  rw [h t ht]
  rfl

theorem flatten_strand (commands : List Command) : (strand commands).flatten = commands := by
  cases commands <;> simp [strand]

theorem flatten_strands (tasks : List Task) :
    (strands id part tasks).flatten = tasks.flatMap fun t => commandsOf id part t.jobs := by
  induction tasks with
  | nil => rfl
  | cons t tasks ih =>
    rw [List.flatMap_cons, ← ih, ← flatten_strand (commandsOf id part t.jobs),
      ← List.flatten_append]
    rfl

/-- The strand of a task is between those of the tasks before it and after it, whatever becomes
of the task. -/
theorem strands_split (ht : tasks[place]? = some t) :
    ∃ before after,
      strands id part tasks = before ++ (strand (commandsOf id part t.jobs) ++ after) ∧
      ∀ started : List Task, (∀ t' ∈ started, commandsOf id part t'.jobs = []) →
        strands id part (tasks.eraseIdx place ++ started) = before ++ after ∧
        ∀ new : Task, strands id part (tasks.set place new ++ started) =
          before ++ (strand (commandsOf id part new.jobs) ++ after) := by
  obtain ⟨hplace, rfl⟩ := List.getElem?_eq_some_iff.mp ht
  have happend (left right : List Task) :
      strands id part (left ++ right) = strands id part left ++ strands id part right :=
    List.flatMap_append
  have hcons (t : Task) (tasks : List Task) : strands id part (t :: tasks) =
      strand (commandsOf id part t.jobs) ++ strands id part tasks := List.flatMap_cons
  have hset (new : Task) : strands id part (tasks.set place new) =
      strands id part (tasks.take place) ++
        (strand (commandsOf id part new.jobs) ++ strands id part (tasks.drop (place + 1))) := by
    rw [List.set_eq_take_append_cons_drop, if_pos hplace, happend, hcons]
  refine ⟨strands id part (tasks.take place), strands id part (tasks.drop (place + 1)), ?_,
    fun started hstarted => ⟨?_, fun new => ?_⟩⟩
  · rw [← hset, List.set_getElem_self]
  · rw [happend, strands_eq_nil hstarted, List.append_nil, List.eraseIdx_eq_take_drop_succ, happend]
  · rw [happend, strands_eq_nil hstarted, List.append_nil, hset]

variable {commands : List Command} {new : Task} {started : List Task}

/-- The commands of a task that has any are those of the only one. -/
theorem commandsOf_eq (h : strands id part tasks = strand commands) (ht : tasks[place]? = some t)
    (hne : commandsOf id part t.jobs ≠ []) : commandsOf id part t.jobs = commands := by
  obtain ⟨before, after, hbefore, -⟩ := @strands_split id part _ _ _ ht
  have hmem : commandsOf id part t.jobs ∈ strand commands := by
    rw [← h, hbefore, strand_of_ne hne]
    simp
  exact List.mem_singleton.mp (List.mem_of_mem_filter hmem)

/-- A task goes on that has none of the commands. -/
theorem strands_stay (h : strands id part tasks = strand commands) (ht : tasks[place]? = some t)
    (hold : commandsOf id part t.jobs = commandsOf id part new.jobs)
    (hstarted : ∀ t' ∈ started, commandsOf id part t'.jobs = []) :
    strands id part (tasks.set place new ++ started) = strand commands := by
  obtain ⟨before, after, hbefore, hafter⟩ := @strands_split id part _ _ _ ht
  rw [(hafter started hstarted).2 new, ← hold, ← hbefore, h]

/-- A task ends that has none of the commands. -/
theorem strands_ended (h : strands id part tasks = strand commands) (ht : tasks[place]? = some t)
    (hidle : commandsOf id part t.jobs = [])
    (hstarted : ∀ t' ∈ started, commandsOf id part t'.jobs = []) :
    strands id part (tasks.eraseIdx place ++ started) = strand commands := by
  obtain ⟨before, after, hbefore, hafter⟩ := @strands_split id part _ _ _ ht
  rw [(hafter started hstarted).1, ← h, hbefore, hidle]
  rfl

/-- The task goes on that has all of the commands. -/
theorem strands_own (h : strands id part tasks = strand commands) (ht : tasks[place]? = some t)
    (hown : commandsOf id part t.jobs = commands)
    (hstarted : ∀ t' ∈ started, commandsOf id part t'.jobs = []) :
    strands id part (tasks.set place new ++ started) = strand (commandsOf id part new.jobs) := by
  obtain ⟨before, after, hbefore, hafter⟩ := @strands_split id part _ _ _ ht
  rw [h, hown] at hbefore
  have hlength := congrArg List.length hbefore
  simp only [List.length_append] at hlength
  have hfirst : before = [] := List.eq_nil_of_length_eq_zero (by omega)
  have hlast : after = [] := List.eq_nil_of_length_eq_zero (by omega)
  rw [(hafter started hstarted).2 new, hfirst, hlast, List.nil_append, List.append_nil]

end Strands

namespace Controller

variable {c : Controller} {now : Nat} {id : RunId} {part : Part} {r : Run} {h : LocoHandle}
  {l : Loco}

/-- A script that is run with a loco starts a run that keeps its address. -/
theorem run_runScript {number : Int} {name : LocoId} {script : Script} {address : Nat}
    (hscript : c.catalog.scripts.get? number = some script) (binds : script.bindsLoco = true)
    (haddress : c.roster.addressOf? name = some address) (now : Nat) :
    ∃ reply, c.run now (.operate (.runScript number (some name))) =
      .answers (c.startRun script (some ⟨address, c.defaultSync⟩) script.id).2 reply := by
  have hfilter : (some name).filter (fun _ => script.bindsLoco) = some name := by
    simp [Option.filter, binds]
  simp only [run, operate, runScript, hscript, hfilter, haddress]
  exact ⟨_, rfl⟩

/-! ## Commands that drive -/

/-- An act that is refused would have changed nothing. -/
theorem change_of_refusal {act : LocoAct} {e : LocoError} (hrefusal : act.refusal = some e)
    (l : Loco) : act.change l = l := by
  cases act with
  | function n on =>
    simp only [LocoAct.refusal] at hrefusal
    split at hrefusal
    · rename_i hn
      exact if_neg (Nat.not_le.mpr hn)
    · simp at hrefusal
  | _ => simp [LocoAct.refusal] at hrefusal

/-- What is done to the loco of a run is done, and only requests follow. -/
theorem driveFor_eq (bound : r.loco = some h) (hl : c.loco? h.address = some l) (act : LocoAct) :
    ∃ c' requests, c.driveFor r act = .follows c' (sends .ignore requests) ∧
      c'.loco? h.address = some (act.change l) ∧ c'.runs = c.runs ∧ c'.started = c.started := by
  cases hrefusal : act.refusal with
  | some e =>
    refine ⟨c, [], ?_, by rw [hl, change_of_refusal hrefusal], rfl, rfl⟩
    simp only [driveFor, bound, Controller.act, hrefusal]
    rfl
  | none =>
    have hget := Table.get?_modify c.roster.byAddress h.address h.address act.change
    have hmodify : c.roster.modify? h.address act.change =
        some (act.change l, { c.roster with
          byAddress := c.roster.byAddress.modify h.address act.change }) :=
      Option.map_eq_some_iff.mpr ⟨l, hl, rfl⟩
    rw [if_pos rfl] at hget
    have hl' : c.roster.byAddress.get? h.address = some l := hl
    rw [hl'] at hget
    simp only [driveFor, bound, Controller.act, hrefusal, hmodify, follow]
    split <;> exact ⟨_, _, rfl, hget, rfl, rfl⟩

/-- An action of a run that may start is noted, and done to the loco of the run. -/
theorem run_act {a : Action} (hr : c.runs.get? id = some r) (ready : r.readiness part = .ready)
    (bound : r.loco = some h) (hl : c.loco? h.address = some l) (drives : a.Drives) (now : Nat) :
    ∃ c' next, c.run now (.command id part (.act a)) = .follows c' next ∧
      c'.runs.get? id = some (r.record now a.isDelay a.text) ∧
      c'.loco? h.address = some (a.onLoco l) ∧ c'.started = c.started ∧
      ∀ k ∈ next, ∀ id' part', k.command? id' part' = none := by
  let c₁ := c.modifyRun id (·.record now a.isDelay (Command.act a).text)
  have htext : (Command.act a).text = a.text := by
    simp [Command.text, Command.textAt, Command.indent]
  have hrun₁ : c₁.runs.get? id = some (r.record now a.isDelay a.text) := by
    have hget := Table.get?_modify c.runs id id (·.record now a.isDelay (Command.act a).text)
    rw [if_pos rfl, hr, htext] at hget
    exact hget
  have hstarts : c.run now (.command id part (.act a)) = c₁.effect now id r part (.act a) := by
    simp only [run, command, hr, ready]
    rfl
  cases hact : a.locoAct? with
  | some act =>
    have heffect : c₁.effect now id r part (.act a) = c₁.driveFor r act := by
      cases a with
      | set state turnout => exact drives.elim
      | delay n => simp [Action.locoAct?] at hact
      | _ => simp only [effect, hact]
    obtain ⟨c', requests, hdrive, hloco, hruns, hstarted⟩ := driveFor_eq (c := c₁) bound hl act
    refine ⟨c', _, hstarts.trans (heffect.trans hdrive), hruns ▸ hrun₁, ?_, hstarted, ?_⟩
    · rw [hloco, Action.onLoco, hact]
    · exact fun k hk id' part' => (plain_sends _ _ k hk).command?
  | none =>
    have hsame : c₁.loco? h.address = some (a.onLoco l) := by
      rw [Action.onLoco, hact]
      exact hl
    cases a with
    | set state turnout => exact drives.elim
    | delay n => exact ⟨_, _, hstarts, hrun₁, hsame, rfl, by simp [Job.command?]⟩
    | switch on n =>
      have heffect : c₁.effect now id r part (.act (.switch on n)) = .follows c₁ [] := by
        simp only [effect, hact]
        rfl
      exact ⟨c₁, [], hstarts.trans heffect, hrun₁, hsame, rfl, by simp⟩
    | drive heading n =>
      rw [Action.locoAct?] at hact
      split at hact <;> simp at hact
    | _ => simp [Action.locoAct?] at hact

/-- A pause takes hold of a run that goes on, and brings its loco to a stand. -/
theorem pauseRun_eq {r' : Run} (hr : c.runs.get? id = some r) (paused : r.pause? now = some r')
    (bound : r.loco = some h) (hl : c.loco? h.address = some l) :
    (c.pauseRun now id).1.runs.get? id = some r' ∧
      (c.pauseRun now id).1.loco? h.address = some l.halted ∧
      (c.pauseRun now id).1.started = c.started := by
  let c₁ := c.modifyRun id fun _ => r'
  have hbound : r'.loco = some h := by
    obtain ⟨-, -, rfl⟩ := Run.pause?_eq_some paused
    exact bound
  have hpause : c.pauseRun now id = c₁.halt h := by
    simp only [pauseRun, hr, Option.bind_some, paused, hbound]
    rfl
  have hruns : c₁.runs.get? id = some r' := by
    have hget := Table.get?_modify c.runs id id fun _ => r'
    rw [if_pos rfl, hr] at hget
    exact hget
  have hbooks : (c₁.halt h).1.books = c₁.books := c₁.books_halt h
  have hl₁ : c₁.loco? h.address = some l := hl
  rw [hpause]
  refine ⟨(congrArg (·.runs.get? id) hbooks).trans hruns, ?_, congrArg Books.started hbooks⟩
  rw [loco?_halt, if_pos rfl, hl₁]
  rfl

/-- The resumption of a paused run replays the commands of its text. -/
theorem resumeRun_replays (hr : c.runs.get? id = some r) (paused : r.state = .paused)
    {text : String} {script : Script} (htext : r.replayText = some text)
    (hcompile : Script.compile text = .ok [script]) :
    ∃ c', c.resumeRun id = .follows c' (Command.jobs id .replay script.children ++
        [.endReplay id text]) ∧
      c'.runs.get? id = some (r.withState .resuming) ∧ c'.started = c.started := by
  have hfound : (c.runs.get? id).bind Run.resume? = some (r.withState .resuming) := by
    rw [hr]
    exact if_pos paused
  refine ⟨c.modifyRun id fun _ => r.withState .resuming, ?_, ?_, rfl⟩
  · have hreplay : (r.withState .resuming).replayText = some text := htext
    simp only [resumeRun, hfound, hreplay, hcompile]
    rfl
  · have hget := Table.get?_modify c.runs id id fun _ => r.withState .resuming
    rw [if_pos rfl, hr] at hget
    exact hget

/-- What the resumption of a paused run makes of it, with the jobs to follow. -/
theorem resumeRun_resumes {last : Option Action} (hr : c.runs.get? id = some r)
    (paused : r.state = .paused) (remembers : r.log.Remembers last)
    (fits : ∀ a, last = some a → a.Fits) :
    ∃ c' next reply r', c.resumeRun id = .done c' next reply ∧ c'.runs.get? id = some r' ∧
      r.Resumes id last r' next ∧ c'.started = c.started := by
  rcases remembers.replay fits r.pausedAt with
    ⟨hnone, hlast⟩ | ⟨text, s, delays, htext, hcompile, hchildren, hdelays⟩
  · have hfound : (c.runs.get? id).bind Run.resume? = some (r.withState .resuming) := by
      rw [hr]
      exact if_pos paused
    let c₁ := c.modifyRun id fun _ => r.withState .resuming
    have hput : c₁.runs.get? id = some (r.withState .resuming) := by
      have hget := Table.get?_modify c.runs id id fun _ => r.withState .resuming
      rw [if_pos rfl, hr] at hget
      exact hget
    have hsettled : (c₁.settleRun id).runs.get? id = some (r.withState .resuming).settled := by
      have hget := Table.get?_modify c₁.runs id id Run.settled
      rw [if_pos rfl, hput] at hget
      exact hget
    have hdone : c.resumeRun id = .answers (c₁.settleRun id) (.replayed none) := by
      have hreplay : (r.withState .resuming).replayText = none := hnone
      simp only [resumeRun, hfound, hreplay]
      rfl
    exact ⟨_, _, _, _, hdone, hsettled, .goesOn hlast, rfl⟩
  · obtain ⟨c', hdone, hput, hstarted⟩ := resumeRun_replays hr paused htext hcompile
    rw [hchildren] at hdone
    exact ⟨_, _, _, _, hdone, hput, .repeats delays text hdelays, hstarted⟩

/-- What is left of a command of a run is over without another command. -/
theorem next_serves {j : Job} (serves : j.Serves id part)
    (hne : ∀ cmd, j ≠ .command id part cmd) {c' : Controller} {next : List Job}
    {reply : Option Reply} (hrun : c.run now j = .done c' next reply) : next = [] := by
  cases j with
  | command id' part' cmd =>
    obtain ⟨rfl, rfl⟩ := serves
    exact absurd rfl (hne cmd)
  | asleep id' part' alarm =>
    simp only [run, asleep] at hrun
    split at hrun
    · exact (Outcome.done.inj hrun).2.1.symm
    · split at hrun
      · exact (Outcome.done.inj hrun).2.1.symm
      · simp at hrun
  | send request refused =>
    obtain rfl : refused = .ignore := serves
    simp only [run, sending] at hrun
    split at hrun
    · simp at hrun
    · exact (Outcome.done.inj hrun).2.1.symm
    · exact (Outcome.done.inj hrun).2.1.symm
  | _ => exact serves.elim

end Controller

/-! ## Jobs that leave a run as it is -/

namespace Books

variable {b b' : Books} {now : Nat} {id id' : RunId} {r : Run} {j : Job} {part : Part}

/-- What is started has no commands of a run that is there already. -/
theorem idle_of_grows (hstarted : b.started = []) (hnew : b.runs.get? b.runs.size = none)
    (hr : b.runs.get? id = some r) (grown : b.Grows b') :
    ∀ t ∈ b'.started, commandsOf id part t.jobs = [] := by
  cases grown with
  | same => simp [hstarted]
  | startRun script loco root =>
    have hne : (b.runs.size, Part.regular) ≠ (id, part) := by
      rintro h
      rw [(Prod.mk.inj h).1, hr] at hnew
      simp at hnew
    have hjobs : (b.startRun script loco root).started = [.ofJobs (script.jobs b.runs.size)] := by
      simp [startRun, begin, hstarted]
    rw [hjobs]
    intro t ht
    rw [List.mem_singleton.mp ht]
    change commandsOf id part (script.jobs b.runs.size) = []
    rw [Script.jobs, commandsOf_append, commandsOf_serves_of_ne (serves_jobs _ _ _) hne]
    rfl
  | @begin jobs plain =>
    have hjobs : (b.begin jobs).started = [.ofJobs jobs] := by simp [begin, hstarted]
    rw [hjobs]
    intro t ht
    rw [List.mem_singleton.mp ht]
    exact commandsOf_plain plain

theorem idle_of_none (hstarted : b.started = []) :
    ∀ t ∈ b.started, commandsOf id part t.jobs = [] := by simp [hstarted]

theorem idle_of_plainly (hstarted : b.started = []) (hnew : b.runs.get? b.runs.size = none)
    (hr : b.runs.get? id = some r) (deed : b.Plainly now j b') :
    ∀ t ∈ b'.started, commandsOf id part t.jobs = [] := by
  cases deed with
  | grow grown => exact idle_of_grows hstarted hnew hr grown
  | pause _ _ _ => exact idle_of_none hstarted
  | @resume pid id' _ =>
    have hjobs : (b.begin [.resumeRun id', .announceRuns]).started =
        [.ofJobs [.resumeRun id', .announceRuns]] := by simp [begin, hstarted]
    rw [hjobs]
    intro t ht
    rw [List.mem_singleton.mp ht]
    rfl
  | stop _ => exact idle_of_none hstarted

/-- A plain job leaves a run as it is that it neither pauses nor stops. -/
theorem runs_plainly (hnew : b.runs.get? b.runs.size = none) (hr : b.runs.get? id = some r)
    (deed : b.Plainly now j b')
    (unpaused : ∀ pid, j = .operate (.pause pid) → b.live.get? pid = some id →
      r.pause? now = none)
    (unstopped : ∀ pid, j = .operate (.stop pid) → b.live.get? pid ≠ some id) :
    b'.runs.get? id = some r := by
  cases deed with
  | grow grown => exact Scene.runs_grows hnew grown hr
  | @pause pid id' r₀ r' live run paused =>
    have hne : id' ≠ id := by
      rintro rfl
      obtain rfl := Option.some.inj (hr.symm.trans run)
      rw [unpaused pid rfl live] at paused
      simp at paused
    rw [runs_modifyRun_of_ne _ hne, hr]
  | resume _ => exact hr
  | @stop pid id' live =>
    have hne : id' ≠ id := fun h => unstopped pid rfl (h ▸ live)
    exact (runs_modifyRun_of_ne _ hne _).trans hr

/-- A job of another run leaves a run as it is. -/
theorem runs_serving_of_ne (hnumbered : b.Numbered) (hr : b.runs.get? id = some r)
    (deed : b.Serving now id' part j b') (hne : id' ≠ id) : b'.runs.get? id = some r := by
  cases deed with
  | pass _ => exact hr
  | skip _ => exact hr
  | start _ _ grown =>
    refine Scene.runs_grows ((hnumbered.modifyRun _ _) _ (Nat.le_refl _)) grown ?_
    rw [runs_modifyRun_of_ne _ hne, hr]

theorem idle_of_serving {part' : Part} (hstarted : b.started = []) (hnumbered : b.Numbered)
    (hr : b.runs.get? id = some r) (deed : b.Serving now id' part' j b') :
    ∀ t ∈ b'.started, commandsOf id part t.jobs = [] := by
  cases deed with
  | pass _ => exact idle_of_none hstarted
  | skip _ => exact idle_of_none hstarted
  | @start cmd r₀ _ _ _ grown =>
    have hmodified := hnumbered.modifyRun id' (·.record now cmd.isDelay cmd.text)
    obtain ⟨r', hr'⟩ : ∃ r', (b.modifyRun id' (·.record now cmd.isDelay cmd.text)).runs.get? id =
        some r' := by
      by_contra hnone
      have hnone' := runs_modifyRun_eq_none.mp
        (Option.eq_none_iff_forall_ne_some.mpr fun r' hr' => hnone ⟨r', hr'⟩)
      simp [hr] at hnone'
    have hnone : (b.modifyRun id' (·.record now cmd.isDelay cmd.text)).started = [] := hstarted
    exact idle_of_grows hnone (hmodified _ (Nat.le_refl _)) hr' grown

/-- A job of a run that is no command leaves the runs as they are. -/
theorem Serving.runs_eq (deed : b.Serving now id part j b') (hne : ∀ c, j ≠ .command id part c) :
    b'.runs = b.runs := by
  cases deed with
  | pass _ => rfl
  | skip _ => rfl
  | @start c _ _ _ _ _ => exact absurd rfl (hne c)

/-- The resumption of another run, or of one that is not paused, leaves a run as it is. -/
theorem Resuming.leaves {next : List Job} (deed : b.Resuming id' b' next)
    (hr : b.runs.get? id = some r) (hne : id' = id → r.state ≠ .paused) :
    b'.runs.get? id = b.runs.get? id ∧ ∀ part, commandsOf id part next = [] := by
  have hother {r₀ r' : Run} (run : b.runs.get? id' = some r₀) (resumed : r₀.resume? = some r') :
      id' ≠ id := by
    rintro rfl
    obtain rfl := Option.some.inj (hr.symm.trans run)
    exact hne rfl (Run.resume?_eq_some resumed).1
  cases deed with
  | none _ => exact ⟨rfl, fun part => rfl⟩
  | settle run resumed =>
    exact ⟨runs_modifyRun_of_ne _ (hother run resumed) _, fun part => rfl⟩
  | replay run resumed serves =>
    have hid := hother run resumed
    refine ⟨runs_modifyRun_of_ne _ hid _, fun part => ?_⟩
    rw [commandsOf_append, commandsOf_serves_of_ne serves fun h => hid (Prod.mk.inj h).1]
    rfl

end Books

end Signalbox
