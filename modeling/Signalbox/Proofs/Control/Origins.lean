import Signalbox.Proofs.Control.Riding
import Signalbox.Proofs.Script.Compiled

/-
  Signalbox/Proofs/Control/Origins.lean --- where the commands of a run come from.

  A task has a command of a run because the run was started with its script, because a
  test of the run held whose body it is in, or because the run is being resumed and the
  command is in the text to replay.  There is no fourth way.  So what is true of the
  script, goes from a test to its body, and is true of what is replayed is true of every
  command that the run ever starts, and the log always has the texts of the last ones.
-/

set_option autoImplicit false

namespace Signalbox

/-! ## One job -/

/-- The ways in which a job gives a task a command of a part of a run. -/
inductive Controller.Offers (c c' : Controller) (job : Job) (id : RunId) : Part → Command → Prop
  | body {part : Part} {wanted : TurnoutState} {turnout : Int} {body : List Command}
      {cmd : Command} {r : Run} (doing : job = .command id part (.test wanted turnout body))
      (run : c.runs.get? id = some r) (ready : r.readiness part = .ready)
      (holds : c.interlocking.turnoutState? turnout = some wanted) (mem : cmd ∈ body) :
      Offers c c' job id part cmd
  | replay {r : Run} {text : String} {script : Script} {scripts : List Script} {cmd : Command}
      (doing : job = .resumeRun id) (run : c.runs.get? id = some r) (paused : r.state = .paused)
      (replayed : r.replayText = some text) (compiled : Script.compile text = .ok (script :: scripts))
      (mem : cmd ∈ script.children) : Offers c c' job id .replay cmd
  | begins {r : Run} {cmd : Command} (new : c.runs.get? id = none)
      (run : c'.runs.get? id = some r) (mem : cmd ∈ r.script.children) :
      Offers c c' job id .regular cmd

theorem Controller.Offers.of_runs {c c' c'' : Controller} {job : Job} {id : RunId} {part : Part}
    {cmd : Command} (h : c.Offers c' job id part cmd) (hruns : c''.runs = c'.runs) :
    c.Offers c'' job id part cmd := by
  cases h with
  | body doing run ready holds mem => exact .body doing run ready holds mem
  | replay doing run paused replayed compiled mem =>
    exact .replay doing run paused replayed compiled mem
  | begins new run mem => exact .begins new (hruns ▸ run) mem

/-- A job gives tasks such commands only: what follows it, and what it starts. -/
structure Controller.OffersOnly (c c' : Controller) (job : Job) (next : List Job) : Prop where
  next : ∀ id part, ∀ cmd ∈ commandsOf id part next, c.Offers c' job id part cmd
  started : ∀ t ∈ c'.started, ∀ id part, ∀ cmd ∈ commandsOf id part t.jobs,
    c.Offers c' job id part cmd

namespace Books

variable {b b' : Books} {now : Nat} {id : RunId} {part : Part} {j : Job} {cmd : Command}

/-- A run is new, with a command in its script. -/
def Begins (b b' : Books) (id : RunId) (cmd : Command) : Prop :=
  b.runs.get? id = none ∧ ∃ r, b'.runs.get? id = some r ∧ cmd ∈ r.script.children

/-- The commands of a task that was started are those of the script of a new run. -/
theorem begins_of_grows (hstarted : b.started = []) (hnumbered : b.Numbered)
    (grown : b.Grows b') {t : Task} (ht : t ∈ b'.started) (hcmd : cmd ∈ commandsOf id part t.jobs) :
    part = .regular ∧ b.Begins b' id cmd := by
  cases grown with
  | same => simp [hstarted] at ht
  | startRun script loco root =>
    have htasks : (b.startRun script loco root).started = [.ofJobs (script.jobs b.runs.size)] := by
      simp [startRun, begin, hstarted]
    rw [htasks] at ht
    rw [List.mem_singleton.mp ht] at hcmd
    change cmd ∈ commandsOf id part (script.jobs b.runs.size) at hcmd
    by_cases hid : b.runs.size = id
    · subst hid
      rw [commandsOf_script] at hcmd
      split at hcmd
      · rename_i hpart
        refine ⟨hpart, hnumbered _ (Nat.le_refl _), .ofScript (b.nextPid root) script loco, ?_, hcmd⟩
        rw [runs_startRun, if_pos rfl]
      · simp at hcmd
    · have hnone : commandsOf id part (script.jobs b.runs.size) = [] := by
        rw [Script.jobs, commandsOf_append,
          commandsOf_serves_of_ne (serves_jobs _ _ _) fun h => hid (Prod.mk.inj h).1]
        rfl
      simp [hnone] at hcmd
  | @begin jobs plain =>
    have htasks : (b.begin jobs).started = [.ofJobs jobs] := by simp [begin, hstarted]
    rw [htasks] at ht
    rw [List.mem_singleton.mp ht] at hcmd
    change cmd ∈ commandsOf id part jobs at hcmd
    simp [commandsOf_plain plain] at hcmd

theorem begins_of_plainly (hstarted : b.started = []) (hnumbered : b.Numbered)
    (deed : b.Plainly now j b') {t : Task} (ht : t ∈ b'.started)
    (hcmd : cmd ∈ commandsOf id part t.jobs) : part = .regular ∧ b.Begins b' id cmd := by
  cases deed with
  | grow grown => exact begins_of_grows hstarted hnumbered grown ht hcmd
  | pause _ _ _ => simp [modifyRun, hstarted] at ht
  | @resume pid id' _ =>
    have htasks : (b.begin [.resumeRun id', .announceRuns]).started =
        [.ofJobs [.resumeRun id', .announceRuns]] := by simp [begin, hstarted]
    rw [htasks] at ht
    rw [List.mem_singleton.mp ht] at hcmd
    simp [Task.ofJobs, commandsOf, Job.command?] at hcmd
  | stop _ => simp [modifyRun, retire, hstarted] at ht

theorem begins_of_serving {id' : RunId} {part' : Part} (hstarted : b.started = [])
    (hnumbered : b.Numbered) (deed : b.Serving now id' part' j b') {t : Task}
    (ht : t ∈ b'.started) (hcmd : cmd ∈ commandsOf id part t.jobs) :
    part = .regular ∧ b.Begins b' id cmd := by
  cases deed with
  | pass _ => simp [hstarted] at ht
  | skip _ => simp [hstarted] at ht
  | @start c r _ _ _ grown =>
    obtain ⟨hpart, hnone, hrun⟩ := begins_of_grows (b := b.modifyRun id' _) hstarted
      (hnumbered.modifyRun _ _) grown ht hcmd
    exact ⟨hpart, runs_modifyRun_eq_none.mp hnone, hrun⟩

end Books

namespace Controller

variable {c c' : Controller} {now : Nat} {id : RunId} {part : Part} {j : Job} {next rest : List Job}
  {reply : Option Reply} {cmd : Command}

/-- What a resumption replays is in the text to replay. -/
theorem offers_resumeRun {id' : RunId} (hrun : c.resumeRun id' = .done c' next reply)
    (hcmd : cmd ∈ commandsOf id part next) : c.Offers c' (.resumeRun id') id part cmd := by
  have hnone (h : commandsOf id part next = []) : c.Offers c' (.resumeRun id') id part cmd := by
    simp [h] at hcmd
  unfold resumeRun at hrun
  split at hrun
  · obtain ⟨-, rfl, -⟩ := Outcome.done.inj hrun
    exact hnone rfl
  · rename_i r' hr'
    obtain ⟨r, hr, hresume⟩ := Option.bind_eq_some_iff.mp hr'
    obtain ⟨hpaused, rfl⟩ := Run.resume?_eq_some hresume
    simp only at hrun
    split at hrun
    · obtain ⟨-, rfl, -⟩ := Outcome.done.inj hrun
      exact hnone rfl
    · rename_i text htext
      split at hrun <;> obtain ⟨-, rfl, -⟩ := Outcome.done.inj hrun
      · exact hnone rfl
      · rename_i scripts hcompile
        by_cases hid : id' = id
        · subst hid
          have hcommands := @commandsOf_resumption id' part
            ((scripts.head?.map (·.children)).getD []) text [] (List.forall_mem_nil _)
          rw [List.append_nil] at hcommands
          rw [hcommands] at hcmd
          split at hcmd
          · rename_i hpart
            subst hpart
            cases scripts with
            | nil => simp at hcmd
            | cons script scripts => exact .replay rfl hr hpaused htext hcompile hcmd
          · simp at hcmd
        · have hend : commandsOf id part [.endReplay id' text] = [] := rfl
          refine hnone ?_
          rw [commandsOf_append, hend, List.append_nil]
          exact commandsOf_serves_of_ne (serves_jobs _ _ _) fun h => hid (Prod.mk.inj h).1

/-- No command follows an action. -/
theorem commandsOf_action {id' : RunId} {part' : Part} {r : Run} {a : Action}
    (hrun : c.effect now id' r part' (.act a) = .done c' next reply) (id : RunId) (part : Part) :
    commandsOf id part next = [] := by
  unfold effect at hrun
  split at hrun
  · split at hrun <;> obtain ⟨-, rfl, -⟩ := Outcome.done.inj hrun
    · rfl
    · rename_i hset
      obtain ⟨-, rfl⟩ := grows_setTurnout _ hset
      rfl
  · obtain ⟨-, rfl, -⟩ := Outcome.done.inj hrun
    rfl
  · split at hrun
    · obtain ⟨-, rfl, -⟩ := Outcome.done.inj hrun
      rfl
    · unfold driveFor at hrun
      split at hrun
      · obtain ⟨-, rfl, -⟩ := Outcome.done.inj hrun
        rfl
      · split at hrun <;> obtain ⟨-, rfl, -⟩ := Outcome.done.inj hrun
        · rfl
        · exact commandsOf_plain (plain_sends _ _)
  · rename_i hcmd
    simp at hcmd

/-- What follows a command is the body of a test that holds. -/
theorem offers_command {id' : RunId} {part' : Part} {cmd' : Command}
    (hrun : c.command now id' part' cmd' = .done c' next reply)
    (hcmd : cmd ∈ commandsOf id part next) :
    c.Offers c' (.command id' part' cmd') id part cmd := by
  have hnone (h : commandsOf id part next = []) :
      c.Offers c' (.command id' part' cmd') id part cmd := by simp [h] at hcmd
  unfold command at hrun
  split at hrun
  · obtain ⟨-, rfl, -⟩ := Outcome.done.inj hrun
    exact hnone rfl
  · rename_i r hr
    split at hrun
    · obtain ⟨-, rfl, -⟩ := Outcome.done.inj hrun
      exact hnone rfl
    · simp at hrun
    · rename_i hready
      cases cmd' with
      | act a => exact hnone (commandsOf_action hrun id part)
      | test wanted turnout body =>
        simp only [effect] at hrun
        split at hrun
        · rename_i hholds
          obtain ⟨-, rfl, -⟩ := Outcome.done.inj hrun
          by_cases hsame : (id', part') = (id, part)
          · obtain ⟨rfl, rfl⟩ := Prod.mk.inj hsame
            rw [commandsOf_jobs] at hcmd
            exact .body rfl hr hready hholds hcmd
          · exact hnone (commandsOf_serves_of_ne (serves_jobs _ _ _) hsame)
        · obtain ⟨-, rfl, -⟩ := Outcome.done.inj hrun
          exact hnone rfl

/-- Whatever its job, a task gives others and itself no commands but in these ways. -/
theorem offersOnly_run (hduty : Scene.IsDuty (j :: rest)) (hstarted : c.started = [])
    (hnumbered : c.books.Numbered) (hrun : c.run now j = .done c' next reply) :
    c.OffersOnly c' j next := by
  have hnone (id : RunId) (part : Part) {jobs : List Job} (hplain : ∀ j ∈ jobs, j.IsPlain) :
      ∀ cmd ∈ commandsOf id part jobs, c.Offers c' j id part cmd := by
    simp [commandsOf_plain hplain]
  have hquiet (h : c'.started = []) : ∀ t ∈ c'.started, ∀ id part,
      ∀ cmd ∈ commandsOf id part t.jobs, c.Offers c' j id part cmd := by
    simp [h]
  have hresumed {id' : RunId} (hj : j = .resumeRun id') : c.OffersOnly c' j next := by
    subst hj
    obtain ⟨c₁, next₁, reply₁, hrun₁, deed⟩ := c.resumeRun_eq id'
    obtain ⟨rfl, -, -⟩ := Outcome.done.inj (hrun₁.symm.trans hrun)
    exact ⟨fun id part cmd => offers_resumeRun hrun, hquiet (deed.started_eq.trans hstarted)⟩
  cases hduty with
  | call id' call =>
    cases call with
    | resume => exact hresumed rfl
    | stop =>
      obtain ⟨rfl, rfl, -⟩ := Outcome.done.inj hrun
      exact ⟨fun id part => hnone id part (by simp), hquiet hstarted⟩
    | pause =>
      obtain ⟨rfl, rfl, -⟩ := Outcome.done.inj hrun
      refine ⟨fun id part => hnone id part (c.plain_pauseRun id'), hquiet ?_⟩
      rcases (c.books_pauseRun id' : (c.pauseRun now id').1.books = _ ∨ _) with
        hbooks | ⟨r, r', -, -, hbooks⟩
      · exact (congrArg Books.started hbooks).trans hstarted
      · exact (congrArg Books.started hbooks).trans hstarted
  | task htask =>
    rcases htask.kinds with plain | ⟨id', rfl, plain⟩ | ⟨id', rfl, rfl⟩ |
      ⟨id', text, rfl, plain⟩ | ⟨id', part', active, closing, -, serves, -⟩
    · have hout : (c.run now j).IsPlain c.books now j := c.isPlain_run (plain j List.mem_cons_self)
      rw [hrun] at hout
      refine ⟨fun id part => hnone id part hout.2, fun t ht id part cmd hcmd => ?_⟩
      obtain ⟨rfl, hnew, r, hr, hmem⟩ :=
        Books.begins_of_plainly hstarted hnumbered hout.1 ht hcmd
      exact .begins hnew hr hmem
    · exact hresumed rfl
    · obtain ⟨c₁, hrun₁, hbooks⟩ := c.finishRun_eq id'
      obtain ⟨rfl, rfl, -⟩ := Outcome.done.inj (hrun₁.symm.trans hrun)
      refine ⟨fun id part => hnone id part (by simp), hquiet ?_⟩
      exact (congrArg Books.started hbooks).trans ((c.books.started_finishRun id').trans hstarted)
    · obtain ⟨rfl, rfl, -⟩ := Outcome.done.inj hrun
      exact ⟨fun id part => hnone id part (by simp), hquiet hstarted⟩
    · have hserves := serves j List.mem_cons_self
      have hout : (c.run now j).IsServing c.books now id' part' j := c.isServing_run hserves
      rw [hrun] at hout
      refine ⟨fun id part cmd hcmd => ?_, fun t ht id part cmd hcmd => ?_⟩
      · by_cases hcommand : ∃ cmd', j = .command id' part' cmd'
        · obtain ⟨cmd', rfl⟩ := hcommand
          exact offers_command hrun hcmd
        · rw [next_serves hserves (fun cmd' h => hcommand ⟨cmd', h⟩) hrun] at hcmd
          simp [commandsOf] at hcmd
      · obtain ⟨rfl, hnew, r, hr, hmem⟩ :=
          Books.begins_of_serving hstarted hnumbered hout.1 ht hcmd
        exact .begins hnew hr hmem

/-- Only plain jobs fail. -/
theorem plain_of_fails (hduty : Scene.IsDuty (j :: rest)) {f : Failure}
    (hrun : c.run now j = .fails c' f) : ∀ k ∈ j :: rest, k.IsPlain := by
  have hresumed {id' : RunId} (hj : j = .resumeRun id') : ∀ k ∈ j :: rest, k.IsPlain := by
    subst hj
    obtain ⟨c₁, next₁, reply₁, hrun₁, -⟩ := c.resumeRun_eq id'
    simp [run, hrun₁] at hrun
  cases hduty with
  | call id' call =>
    cases call with
    | resume => exact hresumed rfl
    | stop => simp [RunCall.job, run, Outcome.finished] at hrun
    | pause => simp [RunCall.job, run, Outcome.follows] at hrun
  | task htask =>
    rcases htask.kinds with plain | ⟨id', rfl, plain⟩ | ⟨id', rfl, rfl⟩ |
      ⟨id', text, rfl, plain⟩ | ⟨id', part', active, closing, -, serves, -⟩
    · exact plain
    · exact hresumed rfl
    · obtain ⟨c₁, hrun₁, -⟩ := c.finishRun_eq id'
      simp [run, hrun₁, Outcome.finished] at hrun
    · simp [run, Outcome.answers] at hrun
    · have hout : (c.run now j).IsServing c.books now id' part' j :=
        c.isServing_run (serves j List.mem_cons_self)
      rw [hrun] at hout
      exact hout.elim

/-- A job that fails starts nothing. -/
theorem started_of_fails (hduty : Scene.IsDuty (j :: rest)) (hstarted : c.started = [])
    {f : Failure} (hrun : c.run now j = .fails c' f) : c'.started = [] := by
  have hout : (c.run now j).IsPlain c.books now j :=
    c.isPlain_run (plain_of_fails hduty hrun j List.mem_cons_self)
  rw [hrun] at hout
  exact (congrArg Books.started hout).trans hstarted

end Controller

/-! ## Runs that begin -/

/-- A run is as a script makes it. -/
def Run.IsNew (r : Run) : Prop := ∃ pid script loco, r = .ofScript pid script loco

/-- A run that was not there before has just been made. -/
theorem Books.isNew_of_grows {b b' : Books} {id : RunId} {r : Run} (grown : b.Grows b')
    (hnone : b.runs.get? id = none) (hr : b'.runs.get? id = some r) : r.IsNew := by
  cases grown with
  | same => simp [hnone] at hr
  | startRun script loco root =>
    rw [Books.runs_startRun] at hr
    split at hr
    · exact ⟨_, _, _, (Option.some.inj hr).symm⟩
    · simp [hnone] at hr
  | begin _ =>
    have hr : b.runs.get? id = some r := hr
    simp [hnone] at hr

theorem Scene.Handled.isNew {now : Nat} {s s' : Scene} {job : Option Job} {id : RunId} {r : Run}
    (h : s.Handled now job s') (hnone : s.books.runs.get? id = none)
    (hr : s'.books.runs.get? id = some r) : r.IsNew := by
  have hsame (h : s.books.runs.get? id = some r) : r.IsNew := by simp [hnone] at h
  have hchanged {b : Books} {id' : RunId} {change : Run → Run} (hb : b.runs.get? id = none)
      (h : (b.modifyRun id' change).runs.get? id = some r) : r.IsNew := by
    simp [Books.runs_modifyRun_eq_none.mpr hb] at h
  cases h with
  | call _ _ => exact hsame hr
  | pause _ _ _ _ => exact hchanged hnone hr
  | pass _ _ => exact hsame hr
  | stop _ => exact hchanged hnone hr
  | step step =>
    cases step with
    | stay => exact hsame hr
    | ask => exact hsame hr
    | ended _ => exact hsame hr
    | fail _ _ => exact hsame hr
    | finish _ =>
      rw [Books.runs_finishRun] at hr
      exact hsame hr
    | settle _ _ => exact hchanged hnone hr
    | plain _ _ deed _ =>
      cases deed with
      | grow grown => exact Books.isNew_of_grows grown hnone hr
      | pause _ _ _ => exact hchanged hnone hr
      | resume _ => exact hsame hr
      | stop _ => exact hchanged (b := s.books.retire _) hnone hr
    | serve _ _ _ deed _ =>
      cases deed with
      | pass _ => exact hsame hr
      | skip _ => exact hsame hr
      | start _ _ grown =>
        exact Books.isNew_of_grows grown (Books.runs_modifyRun_eq_none.mpr hnone) hr
    | resume _ _ deed =>
      cases deed with
      | none _ => exact hsame hr
      | settle _ _ => exact hchanged hnone hr
      | replay _ _ _ => exact hchanged hnone hr

/-! ## Worlds -/

namespace World

variable {w : World} {a : Act} {id : RunId} {r : Run} {part : Part} {cmd : Command}

/-- The command of a run that starts in an act, if any, and the part that it is of. -/
def starting? (w : World) (id : RunId) (a : Act) : Option (Part × Command) :=
  match w.doing? a with
  | some (.command id' part cmd) =>
    if id' = id ∧ (w.controller.runs.get? id).any (fun r => r.readiness part = .ready) then
      some (part, cmd)
    else none
  | _ => none

theorem starting?_eq_some : w.starting? id a = some (part, cmd) ↔
    w.doing? a = some (.command id part cmd) ∧
      ∃ r, w.controller.runs.get? id = some r ∧ r.readiness part = .ready := by
  unfold starting?
  split
  · rename_i id' part' cmd' hdoing
    rw [hdoing, Option.some.injEq, Job.command.injEq]
    constructor
    · intro h
      split at h
      · rename_i hready
        obtain ⟨rfl, rfl⟩ := Prod.mk.inj (Option.some.inj h)
        obtain ⟨rfl, hready⟩ := hready
        obtain ⟨r, hr, hready⟩ := (Option.any_eq_true _ _).mp hready
        exact ⟨⟨rfl, rfl, rfl⟩, r, hr, of_decide_eq_true hready⟩
      · simp at h
    · rintro ⟨⟨rfl, rfl, rfl⟩, r, hr, hready⟩
      exact if_pos ⟨rfl, (Option.any_eq_true _ _).mpr ⟨r, hr, decide_eq_true hready⟩⟩
  · rename_i hnot
    simp only [reduceCtorEq, false_iff]
    rintro ⟨hdoing, -⟩
    exact hnot _ _ _ hdoing

/-- Of a run that is not there yet nothing starts. -/
theorem starting?_unknown (hnone : w.controller.runs.get? id = none) :
    w.starting? id a = none := by
  by_contra hsome
  obtain ⟨⟨part, cmd⟩, hstart⟩ := Option.ne_none_iff_exists'.mp hsome
  obtain ⟨-, r, hr, -⟩ := starting?_eq_some.mp hstart
  simp [hnone] at hr

/-- A command that starts was the first one that a task had left. -/
theorem mem_of_doing? (h : w.doing? a = some (.command id part cmd)) :
    ∃ t ∈ w.tasks, cmd ∈ commandsOf id part t.jobs := by
  obtain ⟨place, t, rest, -, ht, hjobs⟩ := doing?_eq_some h
  have hcommands : commandsOf id part t.jobs = cmd :: commandsOf id part rest := by
    rw [hjobs]
    exact List.filterMap_cons_some (if_pos ⟨rfl, rfl⟩)
  exact ⟨t, List.mem_of_getElem? ht, by simp [hcommands]⟩

/-- A command that a task has after a turn it had before, or it was given one by the job. -/
theorem Attended.mem_commandsOf_turn (hw : w.Attended) {place : Nat} {t₀ : Task} {job : Job}
    {rest : List Job} (ht₀ : w.tasks[place]? = some t₀) (hjobs : t₀.jobs = job :: rest) {t : Task}
    (ht : t ∈ (w.turn place).tasks) (hcmd : cmd ∈ commandsOf id part t.jobs) :
    (∃ t' ∈ w.tasks, cmd ∈ commandsOf id part t'.jobs) ∨
      w.controller.Offers (w.turn place).controller job id part cmd := by
  have hduty : Scene.IsDuty (job :: rest) := hjobs ▸ hw.phased.duty _ (jobs_mem_scene ht₀)
  have hstarted : w.controller.started = [] := hw.phased.taken
  cases hrun : w.controller.run w.now job with
  | waits wait => exact .inl ⟨t, turn_waits ht₀ hjobs hrun ▸ ht, hcmd⟩
  | fails c f =>
    rw [turn_fails ht₀ hjobs hrun] at ht
    rcases List.mem_append.mp ht with ht | ht
    · exact .inl ⟨t, List.mem_of_mem_eraseIdx ht, hcmd⟩
    · simp [Controller.started_of_fails hduty hstarted hrun] at ht
  | done c next reply =>
    have hoffers := Controller.offersOnly_run hduty hstarted hw.phased.numbered hrun
    have hruns : (w.turn place).controller.runs = c.runs :=
      congrArg (·.controller.runs) (turn_done ht₀ hjobs hrun)
    rw [turn_done ht₀ hjobs hrun] at ht
    rcases List.mem_append.mp ht with ht | ht
    · rcases List.mem_or_eq_of_mem_set ht with ht | rfl
      · exact .inl ⟨t, ht, hcmd⟩
      · rw [commandsOf_append] at hcmd
        rcases List.mem_append.mp hcmd with hcmd | hcmd
        · exact .inr ((hoffers.next id part cmd hcmd).of_runs hruns)
        · refine .inl ⟨t₀, List.mem_of_getElem? ht₀, ?_⟩
          rw [hjobs, ← List.singleton_append, commandsOf_append]
          exact List.mem_append_right _ hcmd
    · exact .inr ((hoffers.started t ht id part cmd hcmd).of_runs hruns)

/-- A command that a task has after an act it had before, or it was given one by the job of the
act. -/
theorem Attended.mem_commandsOf (hw : w.Attended) (a : Act) {t : Task}
    (ht : t ∈ (w.does a).tasks) (hcmd : cmd ∈ commandsOf id part t.jobs) :
    (∃ t' ∈ w.tasks, cmd ∈ commandsOf id part t'.jobs) ∨
      ∃ job, w.doing? a = some job ∧
        w.controller.Offers (w.does a).controller job id part cmd := by
  have hadded {t' : Task} (ht : t ∈ w.tasks ++ [t']) (hidle : commandsOf id part t'.jobs = []) :
      ∃ t' ∈ w.tasks, cmd ∈ commandsOf id part t'.jobs := by
    rcases List.mem_append.mp ht with ht | ht
    · exact ⟨t, ht, hcmd⟩
    · rw [List.mem_singleton.mp ht, hidle] at hcmd
      simp at hcmd
  cases a with
  | call id' call => exact .inl (hadded ht (by cases call <;> rfl))
  | move m =>
    cases m with
    | ask op => exact .inl (hadded ht rfl)
    | wait milliseconds => exact .inl ⟨t, ht, hcmd⟩
    | outside store faults => exact .inl ⟨t, ht, hcmd⟩
    | turn place =>
      change t ∈ (w.turn place).tasks at ht
      cases hplace : w.tasks[place]? with
      | none => exact .inl ⟨t, turn_none hplace ▸ ht, hcmd⟩
      | some t₀ =>
        cases hjobs : t₀.jobs with
        | nil =>
          rw [turn_over hplace hjobs] at ht
          exact .inl ⟨t, List.mem_of_mem_eraseIdx ht, hcmd⟩
        | cons job rest =>
          exact (hw.mem_commandsOf_turn hplace hjobs ht hcmd).imp_right fun hoffers =>
            ⟨job, doing?_turn hplace hjobs, hoffers⟩

/-- What an act makes of what a run has noted: it notes the command that starts, if one does. -/
theorem Attended.run_does (hw : w.Attended) (hr : w.controller.runs.get? id = some r) (a : Act) :
    ∃ r', (w.does a).controller.runs.get? id = some r' ∧ r'.script = r.script ∧
      (∀ part cmd, w.starting? id a = some (part, cmd) →
        r' = r.record w.now cmd.isDelay cmd.text) ∧
      (w.starting? id a = none → r'.log = r.log) := by
  obtain ⟨r', hr', hbecomes⟩ := hw.becomes hr a
  refine ⟨r', hr', hbecomes.script_eq, fun part cmd hstart => ?_, fun hnone => ?_⟩
  · obtain ⟨hdoing, r₀, hr₀, hready⟩ := starting?_eq_some.mp hstart
    obtain rfl := Option.some.inj (hr.symm.trans hr₀)
    obtain ⟨place, t, rest, rfl, ht, hjobs⟩ := doing?_eq_some hdoing
    obtain ⟨c, next, reply, hrun, hnoted⟩ :=
      (Controller.run_command_of_ready hr hw.phased.numbered hready :
        ∃ c next reply, w.controller.run w.now (.command id part cmd) = .done c next reply ∧ _)
    change (w.turn place).controller.runs.get? id = some r' at hr'
    rw [turn_done ht hjobs hrun] at hr'
    exact Option.some.inj (hr'.symm.trans hnoted)
  · rcases hbecomes.log_eq with hlog | ⟨part, cmd, hdoing, hready, -⟩
    · exact hlog
    · rw [starting?_eq_some.mpr ⟨hdoing, r, hr, hready⟩] at hnone
      simp at hnone

/-! ## What has started -/

/-- The commands of a run that have started in all that has happened, the first one first. -/
inductive HasStarted (id : RunId) : World → List (Part × Command) → Prop
  | start {c : Controller} (fresh : c.IsFresh) : HasStarted id (.ofController c) []
  | act {w : World} {history : List (Part × Command)} (a : Act) (h : HasStarted id w history) :
      HasStarted id (w.does a) (history ++ (w.starting? id a).toList)

end World

/-- What there is to repeat after some commands have started. -/
def Slot.ofHistory (history : List (Part × Command)) : Slot :=
  history.foldl (fun s started => s.after started.2) .empty

theorem Slot.ofHistory_append (history : List (Part × Command)) (part : Part) (cmd : Command) :
    ofHistory (history ++ [(part, cmd)]) = (ofHistory history).after cmd := by
  simp [ofHistory, List.foldl_append]

namespace World

variable {w : World} {id : RunId} {r : Run} {history : List (Part × Command)}

theorem HasStarted.attended (h : HasStarted id w history) : w.Attended := by
  induction h with
  | start fresh => exact .start fresh
  | act a _ ih => exact ih.act a

/-- A run that is not there yet has started nothing, and no task has a command of it. -/
structure IsUnknown (w : World) (id : RunId) (history : List (Part × Command)) : Prop where
  started : history = []
  idle : ∀ t ∈ w.tasks, ∀ part, commandsOf id part t.jobs = []

theorem HasStarted.isUnknown (h : HasStarted id w history)
    (hnone : w.controller.runs.get? id = none) : w.IsUnknown id history := by
  induction h with
  | @start c fresh =>
    refine ⟨rfl, fun t ht part => commandsOf_plain fun j hj => ?_⟩
    exact fresh.started t ht j hj
  | @act w history a hbefore ih =>
    have hbefore' : w.controller.runs.get? id = none := by
      by_contra hsome
      obtain ⟨r, hr⟩ := Option.ne_none_iff_exists'.mp hsome
      obtain ⟨r', hr', -⟩ := hbefore.attended.run_does hr a
      simp [hnone] at hr'
    have hunknown := ih hbefore'
    refine ⟨by rw [hunknown.started, starting?_unknown hbefore']; rfl, fun t ht part => ?_⟩
    refine List.eq_nil_iff_forall_not_mem.mpr fun cmd hcmd => ?_
    rcases hbefore.attended.mem_commandsOf a ht hcmd with ⟨t', ht', hcmd'⟩ | ⟨job, -, hoffers⟩
    · simp [hunknown.idle t' ht' part] at hcmd'
    · cases hoffers with
      | body _ run _ _ _ => simp [hbefore'] at run
      | replay _ run _ _ _ _ => simp [hbefore'] at run
      | begins _ run _ => simp [hnone] at run

/-- The arguments of all commands of a run are 64-bit integers, and its log has the texts of what
there is to repeat. -/
structure Notes (w : World) (id : RunId) (r : Run) (history : List (Part × Command)) : Prop where
  fits : ∀ t ∈ w.tasks, ∀ part, ∀ cmd ∈ commandsOf id part t.jobs, cmd.fits = true
  slot : (Slot.ofHistory history).Fits
  log : r.log.current = (Slot.ofHistory history).texts

/-- In an act, the commands of tasks keep to such arguments. -/
theorem Attended.fits_does (hw : w.Attended) (a : Act)
    (hr : (w.does a).controller.runs.get? id = some r)
    (fits : Command.bodyFits r.script.children = true)
    (hold : ∀ t ∈ w.tasks, ∀ part, ∀ cmd ∈ commandsOf id part t.jobs, cmd.fits = true) :
    ∀ t ∈ (w.does a).tasks, ∀ part, ∀ cmd ∈ commandsOf id part t.jobs, cmd.fits = true := by
  intro t ht part cmd hcmd
  rcases hw.mem_commandsOf a ht hcmd with ⟨t', ht', hcmd'⟩ | ⟨job, hdoing, hoffers⟩
  · exact hold t' ht' part cmd hcmd'
  · cases hoffers with
    | body doing run ready holds mem =>
      obtain ⟨t', ht', htest⟩ := mem_of_doing? (doing ▸ hdoing)
      have htest := hold t' ht' part _ htest
      rw [Command.fits, Bool.and_eq_true] at htest
      exact Command.bodyFits_iff.mp htest.2 cmd mem
    | replay _ _ _ _ compiled mem =>
      have hregular := Script.regular_of_compile compiled _ List.mem_cons_self
      exact Command.bodyFits_iff.mp hregular.bodyFits cmd mem
    | begins _ run mem =>
      obtain rfl := Option.some.inj (hr.symm.trans run)
      exact Command.bodyFits_iff.mp fits cmd mem

/-- A run whose script has such arguments keeps to them, and notes what it starts. -/
theorem HasStarted.notes (h : HasStarted id w history) (hr : w.controller.runs.get? id = some r)
    (fits : Command.bodyFits r.script.children = true) : w.Notes id r history := by
  induction h generalizing r with
  | @start c fresh =>
    have hempty : (ofController c).controller.runs = Table.empty := fresh.runs
    simp [hempty, Table.get?_empty] at hr
  | @act w history a hbefore ih =>
    have hw := hbefore.attended
    have hfits := hw.fits_does a hr fits
    cases hr₀ : w.controller.runs.get? id with
    | none =>
      -- The run begins in this act: nothing of it has started, and its log is empty.
      have hunknown := hbefore.isUnknown hr₀
      obtain ⟨pid, script, loco, rfl⟩ := (handled_does hw.phased a).isNew hr₀ hr
      rw [hunknown.started, starting?_unknown hr₀]
      exact ⟨hfits fun t ht part => by simp [hunknown.idle t ht part], Slot.fits_empty, rfl⟩
    | some r₀ =>
      obtain ⟨r', hr', hscript, hstarts, hquiet⟩ := hw.run_does hr₀ a
      obtain rfl := Option.some.inj (hr'.symm.trans hr)
      have hnotes := ih hr₀ (hscript ▸ fits)
      cases hstart : w.starting? id a with
      | none =>
        rw [Option.toList_none, List.append_nil]
        exact ⟨hfits hnotes.fits, hnotes.slot, by rw [hquiet hstart, hnotes.log]⟩
      | some started =>
        obtain ⟨part, cmd⟩ := started
        obtain ⟨t, ht, hcmd⟩ := mem_of_doing? (starting?_eq_some.mp hstart).1
        rw [Option.toList_some, hstarts part cmd hstart]
        refine ⟨hfits hnotes.fits, ?_, ?_⟩ <;> rw [Slot.ofHistory_append]
        · exact hnotes.slot.after (hnotes.fits t ht part cmd hcmd)
        · exact Slot.texts_after hnotes.log cmd w.now

end World

end Signalbox
