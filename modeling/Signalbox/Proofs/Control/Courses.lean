import Signalbox.Proofs.Control.Logs

/-
  Signalbox/Proofs/Control/Courses.lean --- the tasks that carry a run on.

  What a task has yet to do for a part of a run is always of one shape: what is left of the
  command that started last, which is some requests or a delay with its alarm, then the
  commands that have yet to start, then the job that closes the part.  A turn of the task
  takes the first of these off and puts in what a command begins with.  A part of a run has
  one such task at most, and no other task gets into its way.
-/

set_option autoImplicit false

namespace Signalbox

/-! ## The shape of a task -/

/-- What a task has yet to do for a part of a run, with the alarm that it sleeps until, if it does,
and the commands that have yet to start. -/
inductive Course (id : RunId) (part : Part) : Option Alarm → List Command → List Job → Prop
  | asleep {alarm : Alarm} {commands : List Command} {closing : List Job}
      (closes : Closing id part closing) : Course id part (some alarm) commands
        (.asleep id part alarm :: (Command.jobs id part commands ++ closing))
  | awake {requests : List Request} {commands : List Command} {closing : List Job}
      (closes : Closing id part closing) : Course id part none commands
        (Controller.sends .ignore requests ++ (Command.jobs id part commands ++ closing))

/-- The alarm that a task sleeps until, if it does. -/
def alarmOf : List Job → Option Alarm
  | .asleep _ _ alarm :: _ => some alarm
  | _ => none

/-- What a command begins with at a moment: a delay with an alarm, and a test that holds with the
commands of its body. -/
inductive Command.Opens (now : Nat) : Command → Option Alarm → List Command → Prop
  | delay (n : Int) (stamp : Nat) : Opens now (.act (.delay n)) (some ⟨now + n.toNat, stamp⟩) []
  | act {a : Action} (busy : ∀ n, a ≠ .delay n) : Opens now (.act a) none []
  | holds (wanted : TurnoutState) (turnout : Int) (body : List Command) :
      Opens now (.test wanted turnout body) none body
  | passes (wanted : TurnoutState) (turnout : Int) (body : List Command) :
      Opens now (.test wanted turnout body) none []

/-- What a turn makes of a task of a part of a run that is not over. -/
inductive Course.Goes (c c' : Controller) (now : Nat) (id : RunId) (part : Part) (job : Job) :
    Option Alarm → List Command → Option Alarm → List Command → Prop
  | sent {commands : List Command} (books : c'.books = c.books) :
      Goes c c' now id part job none commands none commands
  | woken {alarm : Alarm} {commands : List Command}
      (due : alarm.moment ≤ now ∨ ∃ r, c.runs.get? id = some r ∧ r.cutsDelay part = true)
      (books : c'.books = c.books) : Goes c c' now id part job (some alarm) commands none commands
  | skipped {cmd : Command} {commands : List Command}
      (never : ∀ r, c.runs.get? id = some r → r.stopped = true) (books : c'.books = c.books) :
      Goes c c' now id part job none (cmd :: commands) none commands
  | started {cmd : Command} {commands more : List Command} {alarm : Option Alarm} {r : Run}
      (doing : job = .command id part cmd) (run : c.runs.get? id = some r)
      (ready : r.readiness part = .ready) (opens : cmd.Opens now alarm more) :
      Goes c c' now id part job none (cmd :: commands) alarm (more ++ commands)

namespace Course

variable {id : RunId} {part : Part} {alarm : Option Alarm} {commands : List Command}
  {jobs rest next closing : List Job} {job : Job} {c c' : Controller} {now : Nat}
  {reply : Option Reply}

theorem closings (h : Course id part alarm commands jobs) :
    Signalbox.closings jobs = [(id, part)] := by
  cases h with
  | asleep closes =>
    rw [← List.cons_append, closings_append, closes.closings, ← List.singleton_append,
      closings_append, closings_serves (serves_jobs _ _ _)]
    rfl
  | awake closes =>
    rw [closings_append, closings_append, closings_plain (plain_sends _ _),
      closings_serves (serves_jobs _ _ _), closes.closings]
    rfl

theorem commandsOf (h : Course id part alarm commands jobs) :
    Signalbox.commandsOf id part jobs = commands := by
  cases h with
  | @asleep alarm _ _ closes =>
    have hasleep : Signalbox.commandsOf id part [.asleep id part alarm] = [] := rfl
    rw [← List.singleton_append, commandsOf_append, hasleep, commandsOf_append, commandsOf_jobs,
      closes.commandsOf, List.nil_append, List.append_nil]
  | awake closes =>
    rw [commandsOf_append, commandsOf_append, commandsOf_plain (plain_sends _ _), commandsOf_jobs,
      closes.commandsOf, List.nil_append, List.append_nil]

/-- The alarm is that of the first job. -/
theorem alarmOf (h : Course id part alarm commands jobs) : Signalbox.alarmOf jobs = alarm := by
  cases h with
  | asleep _ => rfl
  | @awake requests commands _ closes =>
    cases requests with
    | cons _ _ => rfl
    | nil =>
      cases commands with
      | cons _ _ => rfl
      | nil => cases closes <;> rfl

/-- Jobs are those of one course at most. -/
theorem unique {alarm' : Option Alarm} {commands' : List Command}
    (h : Course id part alarm commands jobs) (h' : Course id part alarm' commands' jobs) :
    alarm = alarm' ∧ commands = commands' :=
  ⟨h.alarmOf.symm.trans h'.alarmOf, h.commandsOf.symm.trans h'.commandsOf⟩

/-- Commands before the job that closes their part. -/
theorem ofCommands (commands : List Command) (closes : Closing id part closing) :
    Course id part none commands (Command.jobs id part commands ++ closing) :=
  @Course.awake id part [] commands closing closes

/-- A run begins with the commands of its script. -/
theorem ofScript (id : RunId) (s : Script) : Course id .regular none s.children (s.jobs id) :=
  .ofCommands s.children .regular

end Course

/-- Only of a stopped run a command may never start. -/
theorem Run.stopped_of_never {r : Run} {part : Part} (h : r.readiness part = .never) :
    r.stopped = true := by
  by_contra hgoes
  unfold readiness at h
  rw [if_neg hgoes] at h
  cases part with
  | replay => simp at h
  | regular =>
    simp only at h
    split at h <;> simp at h

/-- A command begins with no more than requests and a delay, or with the body of a test. -/
theorem Controller.opens_effect {c c' : Controller} {now : Nat} {id : RunId} {part : Part} {r : Run}
    {cmd : Command} {next closing : List Job} {reply : Option Reply}
    (hrun : c.effect now id r part cmd = .done c' next reply) (commands : List Command)
    (closes : Closing id part closing) :
    ∃ alarm more, cmd.Opens now alarm more ∧ Course id part alarm (more ++ commands)
      (next ++ (Command.jobs id part commands ++ closing)) := by
  unfold effect at hrun
  split at hrun
  · split at hrun <;> obtain ⟨-, rfl, -⟩ := Outcome.done.inj hrun
    · exact ⟨none, [], .act (by simp), .ofCommands commands closes⟩
    · rename_i hset
      obtain ⟨-, rfl⟩ := grows_setTurnout _ hset
      exact ⟨none, [], .act (by simp), @Course.awake _ _ [_] _ _ closes⟩
  · obtain ⟨-, rfl, -⟩ := Outcome.done.inj hrun
    exact ⟨_, [], .delay _ _, .asleep closes⟩
  · rename_i a _ hdelay
    have hbusy (n : Int) : a ≠ .delay n := fun h => hdelay n h
    split at hrun
    · obtain ⟨-, rfl, -⟩ := Outcome.done.inj hrun
      exact ⟨none, [], .act hbusy, .ofCommands commands closes⟩
    · unfold driveFor at hrun
      split at hrun
      · obtain ⟨-, rfl, -⟩ := Outcome.done.inj hrun
        exact ⟨none, [], .act hbusy, .ofCommands commands closes⟩
      · split at hrun <;> obtain ⟨-, rfl, -⟩ := Outcome.done.inj hrun
        · exact ⟨none, [], .act hbusy, .ofCommands commands closes⟩
        · exact ⟨none, [], .act hbusy, .awake closes⟩
  · split at hrun <;> obtain ⟨-, rfl, -⟩ := Outcome.done.inj hrun
    · rename_i body _
      refine ⟨none, body, .holds _ _ _, ?_⟩
      have hbody := Course.ofCommands (body ++ commands) closes
      rwa [Command.jobs, List.map_append, List.append_assoc] at hbody
    · exact ⟨none, [], .passes _ _ _, .ofCommands commands closes⟩

namespace Course

variable {id : RunId} {part : Part} {alarm : Option Alarm} {commands : List Command}
  {jobs rest next closing : List Job} {job : Job} {c c' : Controller} {now : Nat}
  {reply : Option Reply}

/-- What a turn makes of a task of a part of a run. -/
theorem goes (h : Course id part alarm commands (job :: rest))
    (hrun : c.run now job = .done c' next reply) :
    alarm = none ∧ commands = [] ∧ Closing id part (job :: rest) ∨
      ∃ alarm' commands', Course id part alarm' commands' (next ++ rest) ∧
        Goes c c' now id part job alarm commands alarm' commands' := by
  generalize hjobs : job :: rest = jobs at h
  cases h with
  | @asleep alarm _ closing closes =>
    obtain ⟨rfl, rfl⟩ := List.cons.inj hjobs
    refine .inr ⟨none, commands, ?_⟩
    simp only [Controller.run, Controller.asleep] at hrun
    split at hrun
    · rename_i hdue
      obtain ⟨rfl, rfl, -⟩ := Outcome.done.inj hrun
      exact ⟨.ofCommands commands closes, .woken (.inl hdue) rfl⟩
    · split at hrun
      · rename_i hcut
        obtain ⟨rfl, rfl, -⟩ := Outcome.done.inj hrun
        obtain ⟨r, hr, hcuts⟩ := (Option.any_eq_true _ _).mp hcut
        exact ⟨.ofCommands commands closes, .woken (.inr ⟨r, hr, hcuts⟩) rfl⟩
      · simp at hrun
  | @awake requests _ closing closes =>
    cases requests with
    | cons request requests =>
      obtain ⟨rfl, rfl⟩ := List.cons.inj hjobs
      refine .inr ⟨none, commands, ?_⟩
      simp only [Controller.run, Controller.sending] at hrun
      split at hrun
      · simp at hrun
      all_goals
        rename_i hsend
        obtain ⟨rfl, rfl, -⟩ := Outcome.done.inj hrun
        exact ⟨.awake closes, .sent (c.books_send? hsend)⟩
    | nil =>
      cases commands with
      | nil =>
        have hclosing : job :: rest = closing := hjobs
        exact .inl ⟨rfl, rfl, hclosing ▸ closes⟩
      | cons cmd commands =>
        obtain ⟨rfl, rfl⟩ := List.cons.inj hjobs
        refine .inr ?_
        simp only [Controller.run, Controller.command] at hrun
        split at hrun
        · rename_i hnone
          obtain ⟨rfl, rfl, -⟩ := Outcome.done.inj hrun
          exact ⟨none, commands, .ofCommands commands closes,
            .skipped (fun r hr => by simp [hnone] at hr) rfl⟩
        · rename_i r hr
          split at hrun
          · rename_i hnever
            obtain ⟨rfl, rfl, -⟩ := Outcome.done.inj hrun
            refine ⟨none, commands, .ofCommands commands closes, .skipped (fun r' hr' => ?_) rfl⟩
            obtain rfl := Option.some.inj (hr.symm.trans hr')
            exact Run.stopped_of_never hnever
          · simp at hrun
          · rename_i hready
            obtain ⟨alarm, more, hopens, hcourse⟩ := Controller.opens_effect hrun commands closes
            exact ⟨alarm, more ++ commands, hcourse, .started rfl hr hready hopens⟩

end Course

/-! ## Tasks that begin -/

/-- What a task that has just begun has to do. -/
inductive Books.Begun (b b' : Books) : List Job → Prop
  | plain {jobs : List Job} (plain : ∀ j ∈ jobs, j.IsPlain) : Begun b b' jobs
  | resumption (id : RunId) : Begun b b' [.resumeRun id, .announceRuns]
  | script (s : Script) (known : (b'.runs.get? b.runs.size).isSome = true) :
      Begun b b' (s.jobs b.runs.size)

namespace Books

variable {b b' : Books} {now : Nat} {j : Job} {id : RunId} {part : Part}

/-- A job starts one task at most. -/
def StartsOne (b b' : Books) : Prop :=
  b'.started = [] ∨ ∃ jobs, b'.started = [.ofJobs jobs] ∧ b.Begun b' jobs

theorem startsOne_grows (hstarted : b.started = []) (grown : b.Grows b') : b.StartsOne b' := by
  cases grown with
  | same => exact .inl hstarted
  | startRun script loco root =>
    refine .inr ⟨_, ?_, .script script ?_⟩
    · simp [startRun, begin, hstarted]
    · rw [runs_startRun, if_pos rfl]
      rfl
  | begin plain => exact .inr ⟨_, by simp [begin, hstarted], .plain plain⟩

theorem startsOne_plainly (hstarted : b.started = []) (deed : b.Plainly now j b') :
    b.StartsOne b' := by
  cases deed with
  | grow grown => exact startsOne_grows hstarted grown
  | pause _ _ _ => exact .inl hstarted
  | @resume pid id' _ => exact .inr ⟨_, by simp [begin, hstarted], .resumption id'⟩
  | stop _ => exact .inl hstarted

theorem startsOne_serving (hstarted : b.started = []) (deed : b.Serving now id part j b') :
    b.StartsOne b' := by
  cases deed with
  | pass _ => exact .inl hstarted
  | skip _ => exact .inl hstarted
  | @start c r _ _ _ grown =>
    have hsize : (b.modifyRun id (·.record now c.isDelay c.text)).runs.size = b.runs.size :=
      Table.size_modify _ _ _
    rcases startsOne_grows (b := b.modifyRun id _) hstarted grown with hnone | ⟨jobs, hjobs, hbegun⟩
    · exact .inl hnone
    · refine .inr ⟨jobs, hjobs, ?_⟩
      cases hbegun with
      | plain plain => exact .plain plain
      | resumption id' => exact .resumption id'
      | script s known =>
        rw [hsize] at known ⊢
        exact .script s known

/-- A task that begins closes no part of a run that is there already. -/
theorem Begun.closings {jobs : List Job} (h : b.Begun b' jobs)
    (hid : (id, part) ∈ Signalbox.closings jobs) :
    part = .regular ∧ id = b.runs.size ∧ (b'.runs.get? id).isSome = true ∧
      ∃ s : Script, jobs = s.jobs b.runs.size := by
  cases h with
  | plain plain => simp [closings_plain plain] at hid
  | resumption id => simp [Signalbox.closings, Job.closes] at hid
  | script s known =>
    rw [closings_scriptJobs, List.mem_singleton] at hid
    obtain ⟨rfl, rfl⟩ := Prod.mk.inj hid
    exact ⟨rfl, rfl, known, s, rfl⟩

end Books

/-- Whatever its job, a task starts one other at most. -/
theorem Controller.startsOne_run {c c' : Controller} {now : Nat} {j : Job} {rest next : List Job}
    {reply : Option Reply} (hduty : Scene.IsDuty (j :: rest)) (hstarted : c.started = [])
    (hrun : c.run now j = .done c' next reply) : c.books.StartsOne c'.books := by
  have hresumed {id' : RunId} (hj : j = .resumeRun id') : c.books.StartsOne c'.books := by
    subst hj
    obtain ⟨c₁, next₁, reply₁, hrun₁, deed⟩ := c.resumeRun_eq id'
    obtain ⟨rfl, -, -⟩ := Outcome.done.inj (hrun₁.symm.trans hrun)
    exact .inl (deed.started_eq.trans hstarted)
  cases hduty with
  | call id' call =>
    cases call with
    | resume => exact hresumed rfl
    | stop =>
      obtain ⟨rfl, rfl, -⟩ := Outcome.done.inj hrun
      exact .inl hstarted
    | pause =>
      obtain ⟨rfl, rfl, -⟩ := Outcome.done.inj hrun
      rcases (c.books_pauseRun id' : (c.pauseRun now id').1.books = _ ∨ _) with
        hbooks | ⟨r, r', -, -, hbooks⟩
      · exact .inl ((congrArg Books.started hbooks).trans hstarted)
      · exact .inl ((congrArg Books.started hbooks).trans hstarted)
  | task htask =>
    rcases htask.kinds with plain | ⟨id', rfl, plain⟩ | ⟨id', rfl, rfl⟩ |
      ⟨id', text, rfl, plain⟩ | ⟨id', part', active, closing, -, serves, -⟩
    · have hout : (c.run now j).IsPlain c.books now j := c.isPlain_run (plain j List.mem_cons_self)
      rw [hrun] at hout
      exact Books.startsOne_plainly hstarted hout.1
    · exact hresumed rfl
    · obtain ⟨c₁, hrun₁, hbooks⟩ := c.finishRun_eq id'
      obtain ⟨rfl, rfl, -⟩ := Outcome.done.inj (hrun₁.symm.trans hrun)
      refine .inl ?_
      exact (congrArg Books.started hbooks).trans ((c.books.started_finishRun id').trans hstarted)
    · obtain ⟨rfl, rfl, -⟩ := Outcome.done.inj hrun
      exact .inl hstarted
    · have hout : (c.run now j).IsServing c.books now id' part' j :=
        c.isServing_run (serves j List.mem_cons_self)
      rw [hrun] at hout
      exact Books.startsOne_serving hstarted hout.1

/-- What follows the job that resumes a run are commands and the end of their replay. -/
theorem Controller.next_resumeRun {c c' : Controller} {id : RunId} {next : List Job}
    {reply : Option Reply} (hrun : c.resumeRun id = .done c' next reply) :
    next = [] ∨ ∃ commands text, next = Command.jobs id .replay commands ++ [.endReplay id text] := by
  unfold resumeRun at hrun
  split at hrun
  · exact .inl (Outcome.done.inj hrun).2.1.symm
  · simp only at hrun
    split at hrun
    · exact .inl (Outcome.done.inj hrun).2.1.symm
    · split at hrun
      · exact .inl (Outcome.done.inj hrun).2.1.symm
      · exact .inr ⟨_, _, (Outcome.done.inj hrun).2.1.symm⟩

/-! ## The tasks of a part of a run -/

/-- Those of some tasks that are to close a part of a run. -/
def servers (tasks : Multiset (List Job)) (id : RunId) (part : Part) : Multiset (List Job) :=
  tasks.filter ((id, part) ∈ closings ·)

section Servers

variable {jobs : List Job} {tasks more : Multiset (List Job)} {id : RunId} {part : Part}

theorem servers_cons : servers (jobs ::ₘ tasks) id part =
    (if (id, part) ∈ closings jobs then {jobs} else 0) + servers tasks id part := by
  rw [servers, Multiset.filter_cons]
  rfl

theorem servers_cons_of_mem (h : (id, part) ∈ closings jobs) :
    servers (jobs ::ₘ tasks) id part = jobs ::ₘ servers tasks id part := by
  rw [servers_cons, if_pos h, Multiset.singleton_add]

theorem servers_cons_of_not_mem (h : (id, part) ∉ closings jobs) :
    servers (jobs ::ₘ tasks) id part = servers tasks id part := by
  rw [servers_cons, if_neg h, Multiset.zero_add]

theorem servers_add : servers (tasks + more) id part =
    servers tasks id part + servers more id part := Multiset.filter_add ..

end Servers

namespace World

/-- What the tasks have yet to do that are to close a part of a run. -/
def tasksOf (w : World) (id : RunId) (part : Part) : Multiset (List Job) :=
  servers w.scene.tasks id part

/-- What an act makes of the tasks of a run: those of one part at most are not as before. -/
inductive Staffs (w : World) (a : Act) (id : RunId) : Prop
  | stays (same : w.does a = w)
  | idle (tasks : ∀ part, (w.does a).tasksOf id part = w.tasksOf id part)
      (quiet : ∀ part cmd, w.doing? a ≠ some (.command id part cmd))
  | goes {part : Part} {c : Controller} {job : Job} {rest next : List Job}
      {others : Multiset (List Job)} {alarm alarm' : Option Alarm}
      {commands commands' : List Command}
      (doing : w.doing? a = some job) (left : (w.does a).controller = c.takeStarted.2)
      (before : w.tasksOf id part = (job :: rest) ::ₘ others)
      (after : (w.does a).tasksOf id part = (next ++ rest) ::ₘ others)
      (apart : ∀ part', part' ≠ part → (w.does a).tasksOf id part' = w.tasksOf id part')
      (course : Course id part alarm commands (job :: rest))
      (course' : Course id part alarm' commands' (next ++ rest))
      (went : Course.Goes w.controller c w.now id part job alarm commands alarm' commands')
  | ends {part : Part} {job : Job} {rest : List Job} {others : Multiset (List Job)}
      (doing : w.doing? a = some job) (closes : Closing id part (job :: rest))
      (before : w.tasksOf id part = (job :: rest) ::ₘ others)
      (after : (w.does a).tasksOf id part = others)
      (apart : ∀ part', part' ≠ part → (w.does a).tasksOf id part' = w.tasksOf id part')
  | begins (s : Script) (new : w.controller.runs.get? id = none)
      (known : ((w.does a).controller.runs.get? id).isSome = true)
      (after : (w.does a).tasksOf id .regular = s.jobs id ::ₘ w.tasksOf id .regular)
      (apart : (w.does a).tasksOf id .replay = w.tasksOf id .replay)
  | resumes {c : Controller} {commands : List Command} {text : String} {rest : List Job}
      {reply : Option Reply} (doing : w.doing? a = some (.resumeRun id))
      (run : w.controller.resumeRun id =
        .done c (Command.jobs id .replay commands ++ [.endReplay id text]) reply)
      (plain : ∀ j ∈ rest, j.IsPlain)
      (after : (w.does a).tasksOf id .replay =
        (Command.jobs id .replay commands ++ .endReplay id text :: rest) ::ₘ w.tasksOf id .replay)
      (apart : (w.does a).tasksOf id .regular = w.tasksOf id .regular)

variable {w : World} {a : Act} {id : RunId} {part : Part} {place : Nat} {t : Task} {job : Job}
  {rest next : List Job} {c : Controller} {reply : Option Reply}

theorem mem_tasksOf {jobs : List Job} : jobs ∈ w.tasksOf id part ↔
    jobs ∈ w.scene.tasks ∧ (id, part) ∈ closings jobs := by
  rw [tasksOf, servers, Multiset.mem_filter]

/-- Without a job, no task that is to close something comes or goes. -/
theorem tasksOf_of_no_job (h : w.doing? a = none) :
    (w.does a).tasksOf id part = w.tasksOf id part := by
  have hadded (op : List Job) (hclosings : closings op = []) (w' : World)
      (hw' : w'.tasks = w.tasks ++ [.ofJobs op]) : w'.tasksOf id part = w.tasksOf id part := by
    have hscene : w'.scene.tasks = w.scene.tasks + (op ::ₘ 0) := by
      simp only [scene, hw', List.map_append]
      rfl
    rw [tasksOf, hscene, servers_add, servers_cons_of_not_mem (by simp [hclosings])]
    exact Multiset.add_zero _
  cases a with
  | call id' call => exact hadded [call.job id'] (Scene.closings_call id' call) _ rfl
  | move m =>
    cases m with
    | ask op => exact hadded [.operate op] rfl _ rfl
    | wait _ => rfl
    | outside _ _ => rfl
    | turn place =>
      change (w.turn place).tasksOf id part = _
      cases hplace : w.tasks[place]? with
      | none => rw [turn_none hplace]
      | some t =>
        have hjobs : t.jobs = [] := by simpa [doing?, job?, hplace] using h
        have hscene := tasks_scene hplace
        rw [turn_over hplace hjobs, tasksOf, tasksOf, hscene,
          servers_cons_of_not_mem (by simp [hjobs, closings])]
        rfl

/-- In a turn, other tasks stay and those that were started are added. -/
theorem tasksOf_turn_done (ht : w.tasks[place]? = some t) (hjobs : t.jobs = job :: rest)
    (hrun : w.controller.run w.now job = .done c next reply) :
    (w.turn place).tasksOf id part = servers ((next ++ rest) ::ₘ w.others place) id part +
      servers (Scene.begun c.books) id part := by
  rw [tasksOf, scene_turn_done ht hjobs hrun, ← servers_add, Multiset.cons_add,
    Multiset.add_comm (w.others place)]

theorem Attended.tasksOf_turn_fails (hw : w.Attended) (ht : w.tasks[place]? = some t)
    (hjobs : t.jobs = job :: rest) {f : Failure}
    (hrun : w.controller.run w.now job = .fails c f) :
    (w.turn place).tasksOf id part = w.tasksOf id part := by
  have hduty : Scene.IsDuty (job :: rest) := hjobs ▸ hw.phased.duty _ (jobs_mem_scene ht)
  have hplain := Controller.plain_of_fails hduty hrun
  have hstarted : c.books.started = [] :=
    Controller.started_of_fails hduty hw.phased.taken hrun
  rw [tasksOf, tasksOf, scene_turn_fails ht hjobs hrun, tasks_scene ht, hjobs,
    servers_cons_of_not_mem (by simp [closings_plain hplain]), Scene.begun_eq_zero hstarted,
    Multiset.zero_add]

/-- A task that begins with a turn closes no part of a run but that of a new one. -/
theorem Attended.servers_begun (hw : w.Attended) (ht : w.tasks[place]? = some t)
    (hjobs : t.jobs = job :: rest) (hrun : w.controller.run w.now job = .done c next reply) :
    servers (Scene.begun c.books) id part = 0 ∨ w.controller.runs.get? id = none ∧
      (c.runs.get? id).isSome = true ∧ part = .regular ∧
        ∃ s : Script, servers (Scene.begun c.books) id part = {s.jobs id} := by
  have hduty : Scene.IsDuty (job :: rest) := hjobs ▸ hw.phased.duty _ (jobs_mem_scene ht)
  rcases Controller.startsOne_run hduty hw.phased.taken hrun with hnone | ⟨jobs, hone, hbegun⟩
  · rw [Scene.begun_eq_zero hnone]
    exact .inl rfl
  · have hscene : Scene.begun c.books = jobs ::ₘ 0 := by
      rw [Scene.begun, hone]
      rfl
    rw [hscene]
    by_cases hmem : (id, part) ∈ closings jobs
    · obtain ⟨rfl, rfl, known, s, rfl⟩ := hbegun.closings hmem
      have hnew : w.controller.books.runs.get? w.controller.books.runs.size = none :=
        hw.phased.numbered _ (Nat.le_refl _)
      exact .inr ⟨hnew, known, rfl, s, servers_cons_of_mem hmem⟩
    · exact .inl (servers_cons_of_not_mem hmem)

/-- A turn of a task that closes no part of a run, before and after it, and begins none. -/
theorem tasksOf_turn_eq (ht : w.tasks[place]? = some t) (hjobs : t.jobs = job :: rest)
    (hrun : w.controller.run w.now job = .done c next reply)
    (hmem : (id, part) ∉ closings (job :: rest)) (hnext : (id, part) ∉ closings (next ++ rest))
    (hnone : servers (Scene.begun c.books) id part = 0) :
    (w.turn place).tasksOf id part = w.tasksOf id part := by
  rw [tasksOf_turn_done ht hjobs hrun, servers_cons_of_not_mem hnext, hnone, Multiset.add_zero,
    tasksOf, tasks_scene ht, hjobs, servers_cons_of_not_mem hmem]

/-- With no task of the run before a turn and after it, only a new run can have one. -/
theorem Attended.staffs_idle (hw : w.Attended) (ht : w.tasks[place]? = some t)
    (hjobs : t.jobs = job :: rest) (hrun : w.controller.run w.now job = .done c next reply)
    (hmem : ∀ part, (id, part) ∉ closings (job :: rest))
    (hnext : ∀ part, (id, part) ∉ closings (next ++ rest)) :
    w.Staffs (.move (.turn place)) id := by
  have hsame (part : Part) (hnone : servers (Scene.begun c.books) id part = 0) :
      (w.turn place).tasksOf id part = w.tasksOf id part :=
    tasksOf_turn_eq ht hjobs hrun (hmem part) (hnext part) hnone
  have hreplay : servers (Scene.begun c.books) id .replay = 0 := by
    rcases hw.servers_begun ht hjobs hrun with hnone | ⟨-, -, hregular, -⟩
    · exact hnone
    · simp at hregular
  rcases (hw.servers_begun ht hjobs hrun :
    servers (Scene.begun c.books) id .regular = 0 ∨ _) with hnone | ⟨hnew, known, -, s, hone⟩
  · refine .idle (fun part => hsame part ?_) fun part cmd hcmd => ?_
    · cases part with
      | regular => exact hnone
      | replay => exact hreplay
    · obtain rfl := Option.some.inj ((doing?_turn ht hjobs).symm.trans hcmd)
      have hduty := hw.phased.duty _ (jobs_mem_scene ht)
      exact hmem part (hjobs ▸ hduty.mem_closings (hjobs ▸ List.mem_cons_self))
  · refine .begins s hnew ?_ ?_ (hsame .replay hreplay)
    · change ((w.turn place).controller.runs.get? id).isSome = true
      rw [turn_done ht hjobs hrun]
      exact known
    · change (w.turn place).tasksOf id .regular = _
      rw [tasksOf_turn_done ht hjobs hrun, servers_cons_of_not_mem (hnext .regular), hone,
        Multiset.add_comm, Multiset.singleton_add, tasksOf, tasks_scene ht, hjobs,
        servers_cons_of_not_mem (hmem .regular)]

/-- A task that is to close a part of a run goes on with it, or ends it. -/
theorem Attended.staffs_serving (hw : w.Attended) (ht : w.tasks[place]? = some t)
    (hjobs : t.jobs = job :: rest) (hrun : w.controller.run w.now job = .done c next reply)
    {alarm : Option Alarm} {commands : List Command}
    (course : Course id part alarm commands (job :: rest)) :
    w.Staffs (.move (.turn place)) id := by
  have hdoing := doing?_turn ht hjobs
  have hmem : (id, part) ∈ closings (job :: rest) := course.closings ▸ List.mem_singleton.mpr rfl
  have hbefore : w.tasksOf id part = (job :: rest) ::ₘ servers (w.others place) id part := by
    rw [tasksOf, tasks_scene ht, hjobs, servers_cons_of_mem hmem]
  have hafter : (w.turn place).tasksOf id part = _ := tasksOf_turn_done ht hjobs hrun
  have hquiet (h : c.started = []) (part : Part) : servers (Scene.begun c.books) id part = 0 := by
    rw [Scene.begun_eq_zero h]
    rfl
  have hsame (h : c.books = w.controller.books) (part : Part) :
      servers (Scene.begun c.books) id part = 0 :=
    hquiet ((congrArg Books.started h).trans hw.phased.taken) part
  have hother (part' : Part) (hne : part' ≠ part) : (id, part') ∉ closings (job :: rest) := by
    simp [course.closings, hne]
  rcases course.goes hrun with ⟨-, -, closes⟩ | ⟨alarm', commands', course', went⟩
  · obtain ⟨hnone, hclosings⟩ : c.started = [] ∧ closings (next ++ rest) = [] := by
      generalize hall : job :: rest = all at closes
      cases closes with
      | regular =>
        obtain ⟨rfl, rfl⟩ := List.cons.inj hall
        obtain ⟨c₁, hrun₁, hbooks⟩ := w.controller.finishRun_eq id
        obtain ⟨rfl, rfl, -⟩ := Outcome.done.inj (hrun₁.symm.trans hrun)
        refine ⟨?_, rfl⟩
        exact (congrArg Books.started hbooks).trans
          ((w.controller.books.started_finishRun id).trans hw.phased.taken)
      | replay plain =>
        obtain ⟨rfl, rfl⟩ := List.cons.inj hall
        obtain ⟨rfl, rfl, -⟩ := Outcome.done.inj hrun
        exact ⟨hw.phased.taken, closings_plain plain⟩
    rw [servers_cons_of_not_mem (by simp [hclosings]), hquiet hnone part, Multiset.add_zero] at hafter
    exact .ends hdoing closes hbefore hafter fun part' hne =>
      tasksOf_turn_eq ht hjobs hrun (hother part' hne) (by simp [hclosings]) (hquiet hnone part')
  · have hmem' : (id, part) ∈ closings (next ++ rest) :=
      course'.closings ▸ List.mem_singleton.mpr rfl
    have hnone (part : Part) : servers (Scene.begun c.books) id part = 0 := by
      cases went with
      | sent books => exact hsame books part
      | woken _ books => exact hsame books part
      | skipped _ books => exact hsame books part
      | started _ run _ _ =>
        rcases hw.servers_begun ht hjobs hrun with hnone | ⟨hnew, -⟩
        · exact hnone
        · simp [run] at hnew
    rw [servers_cons_of_mem hmem', hnone, Multiset.add_zero] at hafter
    refine .goes hdoing (congrArg controller (turn_done ht hjobs hrun)) hbefore hafter
      (fun part' hne => ?_) course course' went
    exact tasksOf_turn_eq ht hjobs hrun (hother part' hne) (by simp [course'.closings, hne])
      (hnone part')

/-- A task that resumes a run is to close the replay if there is one. -/
theorem Attended.staffs_resumeRun (hw : w.Attended) {id' : RunId} (ht : w.tasks[place]? = some t)
    (hjobs : t.jobs = .resumeRun id' :: rest) (plain : ∀ j ∈ rest, j.IsPlain)
    (hrun : w.controller.run w.now (.resumeRun id') = .done c next reply)
    (hnext : (id, part) ∈ closings (next ++ rest)) : w.Staffs (.move (.turn place)) id := by
  have hmem (part : Part) : (id, part) ∉ closings (.resumeRun id' :: rest) := by
    simp [closings_resumeRun, closings_plain plain]
  rcases Controller.next_resumeRun hrun with rfl | ⟨commands, text, rfl⟩
  · exact absurd hnext (hmem part)
  · have hclosings : closings (Command.jobs id' .replay commands ++ [.endReplay id' text] ++ rest)
        = [(id', .replay)] := by
      rw [List.append_assoc]
      exact (Course.ofCommands commands (.replay plain)).closings
    obtain rfl : id = id' := by
      rw [hclosings, List.mem_singleton] at hnext
      exact (Prod.mk.inj hnext).1
    obtain ⟨c₁, next₁, reply₁, hrun₁, deed⟩ := w.controller.resumeRun_eq id
    obtain ⟨rfl, -, -⟩ := Outcome.done.inj (hrun₁.symm.trans hrun)
    have hnone (part : Part) : servers (Scene.begun c₁.books) id part = 0 := by
      rw [Scene.begun_eq_zero (deed.started_eq.trans hw.phased.taken)]
      rfl
    have hafter : (w.turn place).tasksOf id .replay = _ := tasksOf_turn_done ht hjobs hrun
    have hmem' : (id, .replay) ∈ closings (Command.jobs id .replay commands ++
        [.endReplay id text] ++ rest) := hclosings ▸ List.mem_singleton.mpr rfl
    rw [servers_cons_of_mem hmem', hnone, Multiset.add_zero, List.append_assoc] at hafter
    refine .resumes (doing?_turn ht hjobs) hrun plain ?_
      (tasksOf_turn_eq ht hjobs hrun (hmem .regular) (by rw [hclosings]; simp) (hnone .regular))
    rw [tasksOf, tasksOf, tasks_scene ht, hjobs, servers_cons_of_not_mem (hmem .replay)]
    exact hafter

/-- A task that has a part of a run to close after a turn but not before has resumed the run. -/
theorem Attended.staffs_resuming (hw : w.Attended) (ht : w.tasks[place]? = some t)
    (hjobs : t.jobs = job :: rest) (hrun : w.controller.run w.now job = .done c next reply)
    (hmem : ∀ part, (id, part) ∉ closings (job :: rest))
    (hnext : (id, part) ∈ closings (next ++ rest)) : w.Staffs (.move (.turn place)) id := by
  have hduty : Scene.IsDuty (job :: rest) := hjobs ▸ hw.phased.duty _ (jobs_mem_scene ht)
  have hplain (h : ∀ j ∈ next ++ rest, j.IsPlain) : (id, part) ∉ closings (next ++ rest) := by
    simp [closings_plain h]
  cases hduty with
  | call id' call =>
    cases call with
    | resume => exact hw.staffs_resumeRun ht hjobs (by simp) hrun hnext
    | stop =>
      obtain ⟨-, rfl, -⟩ := Outcome.done.inj hrun
      exact absurd hnext (hplain (by simp))
    | pause =>
      obtain ⟨-, rfl, -⟩ := Outcome.done.inj hrun
      refine absurd hnext (hplain ?_)
      rw [List.append_nil]
      exact w.controller.plain_pauseRun id'
  | task htask =>
    rcases htask.kinds with plain | ⟨id', rfl, plain⟩ | ⟨id', rfl, rfl⟩ |
      ⟨id', text, rfl, plain⟩ | ⟨id', part', active, closing, rfl, serves, closes⟩
    · have hout : (w.controller.run w.now job).IsPlain w.controller.books w.now job :=
        w.controller.isPlain_run (plain job List.mem_cons_self)
      rw [hrun] at hout
      refine absurd hnext (hplain fun j hj => ?_)
      rcases List.mem_append.mp hj with hj | hj
      · exact hout.2 j hj
      · exact plain j (List.mem_cons_of_mem _ hj)
    · exact hw.staffs_resumeRun ht hjobs plain hrun hnext
    · obtain ⟨c₁, hrun₁, -⟩ := w.controller.finishRun_eq id'
      obtain ⟨-, rfl, -⟩ := Outcome.done.inj (hrun₁.symm.trans hrun)
      exact absurd hnext (hplain (by simp))
    · obtain ⟨-, rfl, -⟩ := Outcome.done.inj hrun
      exact absurd hnext (hplain plain)
    · have hout : (w.controller.run w.now job).IsServing w.controller.books w.now id' part' job :=
        w.controller.isServing_run (serves job List.mem_cons_self)
      rw [hrun] at hout
      have hserves : ∀ j ∈ active, j.Serves id' part' := fun j hj =>
        serves j (List.mem_cons_of_mem _ hj)
      have hold := hmem part
      rw [← List.cons_append, closings_append, closings_serves serves] at hold
      rw [closings_append, closings_append, closings_serves hout.2, closings_serves hserves] at hnext
      exact absurd hnext hold

theorem Attended.staffs_of_courses (hw : w.Attended)
    (courses : ∀ part, ∀ jobs ∈ w.tasksOf id part, ∃ alarm commands,
      Course id part alarm commands jobs) (a : Act) : w.Staffs a id := by
  cases hdoing : w.doing? a with
  | none => exact .idle (fun _ => tasksOf_of_no_job hdoing) fun _ _ => by simp [hdoing]
  | some job =>
    obtain ⟨place, t, rest, rfl, ht, hjobs⟩ := doing?_eq_some hdoing
    cases hrun : w.controller.run w.now job with
    | waits wait => exact .stays (turn_waits ht hjobs hrun)
    | fails c f =>
      have hduty : Scene.IsDuty (job :: rest) := hjobs ▸ hw.phased.duty _ (jobs_mem_scene ht)
      have hplain := Controller.plain_of_fails hduty hrun job List.mem_cons_self
      refine .idle (fun _ => hw.tasksOf_turn_fails ht hjobs hrun) fun part cmd hcmd => ?_
      obtain rfl := Option.some.inj (hdoing.symm.trans hcmd)
      exact hplain
    | done c next reply =>
      by_cases hmem : ∃ part, (id, part) ∈ closings (job :: rest)
      · obtain ⟨part, hmem⟩ := hmem
        obtain ⟨alarm, commands, course⟩ :=
          courses part (job :: rest) (mem_tasksOf.mpr ⟨hjobs ▸ jobs_mem_scene ht, hmem⟩)
        exact hw.staffs_serving ht hjobs hrun course
      · by_cases hnext : ∃ part, (id, part) ∈ closings (next ++ rest)
        · obtain ⟨part, hnext⟩ := hnext
          exact hw.staffs_resuming ht hjobs hrun (not_exists.mp hmem) hnext
        · exact hw.staffs_idle ht hjobs hrun (not_exists.mp hmem) (not_exists.mp hnext)

/-- Every task that is to close a part of a run is of the one shape. -/
theorem Attended.courses (hw : w.Attended) (part : Part) :
    ∀ jobs ∈ w.tasksOf id part, ∃ alarm commands, Course id part alarm commands jobs := by
  induction hw generalizing part with
  | @start c fresh =>
    intro jobs hjobs
    obtain ⟨hmem, hid⟩ := mem_tasksOf.mp hjobs
    obtain ⟨t, ht, rfl⟩ := List.mem_map.mp (Multiset.mem_coe.mp hmem)
    rw [closings_plain (fresh.started t ht)] at hid
    simp at hid
  | @act w a hbefore ih =>
    intro jobs hjobs
    cases hbefore.staffs_of_courses ih a with
    | stays same => exact ih part jobs (same ▸ hjobs)
    | idle tasks _ => exact ih part jobs (tasks part ▸ hjobs)
    | @goes part' _ _ _ _ _ _ _ _ _ _ _ before after apart _ course' _ =>
      by_cases hpart : part = part'
      · subst hpart
        rcases Multiset.mem_cons.mp (after ▸ hjobs) with rfl | hjobs
        · exact ⟨_, _, course'⟩
        · exact ih part jobs (before ▸ Multiset.mem_cons_of_mem hjobs)
      · exact ih part jobs (apart part hpart ▸ hjobs)
    | @ends part' _ _ _ _ _ before after apart =>
      by_cases hpart : part = part'
      · subst hpart
        exact ih part jobs (before ▸ Multiset.mem_cons_of_mem (after ▸ hjobs))
      · exact ih part jobs (apart part hpart ▸ hjobs)
    | begins s _ _ after apart =>
      cases part with
      | regular =>
        rcases Multiset.mem_cons.mp (after ▸ hjobs) with rfl | hjobs
        · exact ⟨none, s.children, .ofScript id s⟩
        · exact ih .regular jobs hjobs
      | replay => exact ih .replay jobs (apart ▸ hjobs)
    | resumes _ _ plain after apart =>
      cases part with
      | regular => exact ih .regular jobs (apart ▸ hjobs)
      | replay =>
        rcases Multiset.mem_cons.mp (after ▸ hjobs) with rfl | hjobs
        · exact ⟨none, _, .ofCommands _ (.replay plain)⟩
        · exact ih .replay jobs hjobs

theorem Attended.staffs (hw : w.Attended) (a : Act) (id : RunId) : w.Staffs a id :=
  hw.staffs_of_courses (hw.courses ·) a

/-- No task is to close a part of a run that is not there. -/
theorem Attended.tasksOf_unknown (hw : w.Attended) (hnone : w.controller.runs.get? id = none)
    (part : Part) : w.tasksOf id part = 0 := by
  induction hw generalizing part with
  | @start c fresh =>
    refine Multiset.eq_zero_of_forall_notMem fun jobs hjobs => ?_
    obtain ⟨hmem, hid⟩ := mem_tasksOf.mp hjobs
    obtain ⟨t, ht, rfl⟩ := List.mem_map.mp (Multiset.mem_coe.mp hmem)
    rw [closings_plain (fresh.started t ht)] at hid
    simp at hid
  | @act w a hbefore ih =>
    have hunknown : w.controller.runs.get? id = none := by
      by_contra hsome
      obtain ⟨r, hr⟩ := Option.ne_none_iff_exists'.mp hsome
      obtain ⟨r', hr', -⟩ := hbefore.becomes hr a
      simp [hnone] at hr'
    have hzero := ih hunknown
    cases hbefore.staffs a id with
    | stays same => rw [same]; exact hzero part
    | idle tasks _ => exact (tasks part).trans (hzero part)
    | @goes part' _ _ _ _ _ _ _ _ _ _ _ before _ _ _ _ _ => simp [hzero part'] at before
    | @ends part' _ _ _ _ _ before _ _ => simp [hzero part'] at before
    | begins _ _ known _ _ => simp [hnone] at known
    | resumes _ run _ _ _ => simp [Controller.resumeRun, hunknown, Outcome.answers] at run

/-- A run has one task of its own at most. -/
theorem Attended.card_tasksOf_regular_le (hw : w.Attended) (id : RunId) :
    (w.tasksOf id .regular).card ≤ 1 := by
  induction hw with
  | @start c fresh =>
    have hnone : (ofController c).controller.runs.get? id = none := by
      have hempty : (ofController c).controller.runs = Table.empty := fresh.runs
      simp [hempty, Table.get?_empty]
    simp [(Attended.start fresh).tasksOf_unknown hnone .regular]
  | @act w a hbefore ih =>
    cases hbefore.staffs a id with
    | stays same => rwa [same]
    | idle tasks _ => rwa [tasks .regular]
    | @goes part' _ _ _ _ _ _ _ _ _ _ _ before after apart _ _ _ =>
      cases part' with
      | regular => simpa [before, after] using ih
      | replay => rwa [apart .regular (by simp)]
    | @ends part' _ _ _ _ _ before after apart =>
      cases part' with
      | regular =>
        rw [before, Multiset.card_cons] at ih
        rw [after]
        omega
      | replay => rwa [apart .regular (by simp)]
    | begins _ new _ after _ => simp [after, hbefore.tasksOf_unknown new .regular]
    | resumes _ _ _ _ apart => rwa [apart]

theorem card_servers_le_underway (tasks : Multiset (List Job)) :
    (servers tasks id part).card ≤ Scene.underway tasks (id, part) := by
  induction tasks using Multiset.induction_on with
  | empty => simp [servers]
  | cons jobs tasks ih =>
    rw [Scene.underway_cons]
    by_cases hmem : (id, part) ∈ closings jobs
    · have hcount := List.count_pos_iff.mpr hmem
      rw [servers_cons_of_mem hmem, Multiset.card_cons]
      omega
    · rw [servers_cons_of_not_mem hmem]
      omega

/-- A run that is being resumed has one task for the replay. -/
theorem Attended.tasksOf_replay (hw : w.Attended) {r : Run}
    (hr : w.controller.runs.get? id = some r) (hstate : r.state = .resuming) :
    ∃ jobs, w.tasksOf id .replay = {jobs} := by
  have hone : Scene.underway w.scene.tasks (id, .replay) = 1 := by
    rw [hw.phased.replay id, Books.isResuming_eq hr, hstate]
    rfl
  obtain ⟨jobs, hjobs, hid⟩ := Scene.exists_of_underway_pos (hone ▸ Nat.one_pos)
  have hpos : 0 < (w.tasksOf id .replay).card :=
    Multiset.card_pos_iff_exists_mem.mpr ⟨jobs, mem_tasksOf.mpr ⟨hjobs, hid⟩⟩
  have hle : (w.tasksOf id .replay).card ≤ Scene.underway w.scene.tasks (id, .replay) :=
    card_servers_le_underway _
  exact Multiset.card_eq_one.mp (by omega)

theorem Attended.tasksOf_replay_eq_zero (hw : w.Attended) {r : Run}
    (hr : w.controller.runs.get? id = some r) (hstate : r.state ≠ .resuming) :
    w.tasksOf id .replay = 0 := by
  have hnone : Scene.underway w.scene.tasks (id, .replay) = 0 := by
    rw [hw.phased.replay id, Books.isResuming_eq hr, decide_eq_false hstate]
    rfl
  have hle : (w.tasksOf id .replay).card ≤ Scene.underway w.scene.tasks (id, .replay) :=
    card_servers_le_underway _
  exact Multiset.card_eq_zero.mp (by omega)

/-! ## Commands that start -/

variable {r : Run} {cmd : Command}

theorem starting?_eq_none (quiet : ∀ part cmd, w.doing? a ≠ some (.command id part cmd)) :
    w.starting? id a = none := by
  by_contra hsome
  obtain ⟨⟨part, cmd⟩, hstart⟩ := Option.ne_none_iff_exists'.mp hsome
  exact quiet part cmd (starting?_eq_some.mp hstart).1

/-- In an act that leaves a run as it is, nothing of it starts. -/
theorem Attended.starting?_of_same (hw : w.Attended) (hr : w.controller.runs.get? id = some r)
    (hr' : (w.does a).controller.runs.get? id = some r) : w.starting? id a = none := by
  by_contra hsome
  obtain ⟨⟨part, cmd⟩, hstart⟩ := Option.ne_none_iff_exists'.mp hsome
  obtain ⟨r', hr'', -, hstarts, -⟩ := hw.run_does hr a
  obtain rfl := Option.some.inj (hr'.symm.trans hr'')
  exact r.log_record_ne w.now cmd.isDelay cmd.text (congrArg Run.log (hstarts part cmd hstart)).symm

/-- A turn that leaves the books as they are leaves every run as it is. -/
theorem run_of_books {c : Controller} (controller : (w.does a).controller = c.takeStarted.2)
    (books : c.books = w.controller.books) :
    (w.does a).controller.runs.get? id = w.controller.runs.get? id := by
  have hruns : (w.does a).controller.runs = c.books.runs := by
    rw [controller]
    rfl
  rw [hruns, books]
  rfl

/-- A command that starts is the first of those that a task has yet to start, and is followed by
what it begins with. -/
theorem Attended.starts (hw : w.Attended) (hstart : w.starting? id a = some (part, cmd)) :
    ∃ rest jobs others alarm more commands,
      w.tasksOf id part = (.command id part cmd :: rest) ::ₘ others ∧
      (w.does a).tasksOf id part = jobs ::ₘ others ∧
      (∀ part', part' ≠ part → (w.does a).tasksOf id part' = w.tasksOf id part') ∧
      Course id part none (cmd :: commands) (.command id part cmd :: rest) ∧
      Course id part alarm (more ++ commands) jobs ∧ cmd.Opens w.now alarm more := by
  obtain ⟨hdoing, r, hr, hready⟩ := starting?_eq_some.mp hstart
  have hsame (hr' : (w.does a).controller.runs.get? id = some r) : False := by
    simp [hw.starting?_of_same hr hr'] at hstart
  cases hw.staffs a id with
  | stays same => exact (hsame (by rw [same]; exact hr)).elim
  | idle _ quiet => exact absurd hdoing (quiet _ _)
  | goes doing controller before after apart course course' went =>
    obtain rfl := Option.some.inj (hdoing.symm.trans doing)
    cases went with
    | sent books => exact (hsame ((run_of_books controller books).trans hr)).elim
    | woken _ books => exact (hsame ((run_of_books controller books).trans hr)).elim
    | skipped never _ => simp [Run.readiness_of_stopped (never r hr)] at hready
    | started begins _ _ opens =>
      obtain ⟨-, rfl, rfl⟩ := Job.command.inj begins
      exact ⟨_, _, _, _, _, _, before, after, apart, course, course', opens⟩
  | ends doing closes _ _ _ =>
    obtain rfl := Option.some.inj (hdoing.symm.trans doing)
    cases closes
  | begins _ new _ _ _ => simp [hr] at new
  | resumes doing _ _ _ _ => simp [hdoing] at doing

/-- Some task has a command of a part of a run yet. -/
def hasCommands (w : World) (id : RunId) (part : Part) : Bool :=
  w.tasks.any fun t => !(commandsOf id part t.jobs).isEmpty

theorem hasCommands_of_mem {t : Task} (ht : t ∈ w.tasks) (hcmd : cmd ∈ commandsOf id part t.jobs) :
    w.hasCommands id part = true :=
  List.any_eq_true.mpr ⟨t, ht, by simpa using List.ne_nil_of_mem hcmd⟩

/-- The commands of a part of a run are with the task that is to close it, if there is but one. -/
theorem Attended.hasCommands_eq (hw : w.Attended) {part : Part} {jobs : List Job}
    (task : w.tasksOf id part = {jobs}) :
    w.hasCommands id part = !(commandsOf id part jobs).isEmpty := by
  obtain ⟨hmem, -⟩ := mem_tasksOf.mp (task ▸ Multiset.mem_singleton_self jobs)
  obtain ⟨t, ht, rfl⟩ := List.mem_map.mp (Multiset.mem_coe.mp hmem)
  refine Bool.eq_iff_iff.mpr ⟨fun hany => ?_, fun hsome => List.any_eq_true.mpr ⟨t, ht, hsome⟩⟩
  obtain ⟨t', ht', hsome⟩ := List.any_eq_true.mp hany
  have hjobs' : t'.jobs ∈ w.scene.tasks := Multiset.mem_coe.mpr (List.mem_map_of_mem ht')
  have hserves : (id, part) ∈ closings t'.jobs := by
    by_contra hnot
    simp [(hw.phased.duty _ hjobs').commandsOf_eq_nil hnot] at hsome
  have hsame : t'.jobs ∈ w.tasksOf id part := mem_tasksOf.mpr ⟨hjobs', hserves⟩
  rw [task, Multiset.mem_singleton] at hsame
  rwa [hsame] at hsome

end World

end Signalbox
