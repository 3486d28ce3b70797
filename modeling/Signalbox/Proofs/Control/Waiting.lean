import Signalbox.Proofs.Control.Courses

/-
  Signalbox/Proofs/Control/Waiting.lean --- a run in a delay.

  Between the start of a delay and the next command of its own, a run sleeps, is paused,
  repeats what came before the delay, or sleeps in the rest of the delay.  In each of these
  there is so much of the delay left, which the log tells from the moment of the last start,
  or the alarm of a task does.

  What is left gets less as time passes, but not while the run is paused, and it gets more
  when a replay starts another delay before the rest of this one.  Nothing else changes it:
  not a pause in the replay, nor one that the sleeping task does not take notice of.
-/

set_option autoImplicit false

namespace Signalbox

/-! ## Time -/

/-- A job has to wait, and not for the hardware. -/
def Outcome.rests : Outcome → Bool
  | waits wait => wait.watched ≠ some .hardware
  | _ => false

/-- The milliseconds until an alarm, if there is one. -/
def timeLeft (now : Nat) : Option Alarm → Nat
  | none => 0
  | some alarm => alarm.moment - now

namespace World

/-- A check that no time passes in an act while a task of a run could go on. -/
def isTimely (w : World) (id : RunId) (a : Act) : Bool :=
  (List.range a.milliseconds).all fun k => w.tasks.all fun t =>
    !((closings t.jobs).any fun key => key.1 = id) ||
      t.jobs.head?.any fun job => (w.controller.run (w.now + k) job).rests

/-- The milliseconds that pass in an act while a run is paused. -/
def pausedBy (id : RunId) (w : World) (a : Act) : Nat :=
  if (w.controller.runs.get? id).any (fun r => r.state = .paused) then a.milliseconds else 0

/-- The milliseconds of a delay that a replay of a run starts in an act with more commands to
come, so that it is not what is left of the delay before the pause. -/
def repeatedBy (id : RunId) (w : World) (a : Act) : Nat :=
  match w.starting? id a with
  | some (.replay, .act (.delay n)) =>
    if (w.does a).hasCommands id .replay then n.toNat else 0
  | _ => 0

end World

theorem timeLeft_add (now milliseconds : Nat) (alarm : Option Alarm) :
    timeLeft (now + milliseconds) alarm = timeLeft now alarm - milliseconds := by
  cases alarm <;> simp only [timeLeft] <;> omega

/-! ## What is left of a delay -/

/-- The last command that a run has started is the delay in the slot, of which some milliseconds
are left at a moment. -/
def Run.Owes (r : Run) (slot : Slot) (moment left : Nat) : Prop :=
  ∃ (n : Int) (start : Nat), slot.delay = some n ∧ r.log.lastStart = some start ∧
    start ≤ moment ∧ left = n.toNat - (moment - start)

/-- Where a run is in a delay, with what is left of it: the run sleeps, it is paused, it repeats
commands of which the rest of the delay is the last, or it sleeps in that. -/
inductive Run.Delaying (r : Run) (now : Nat) (id : RunId) (replays : Multiset (List Job))
    (slot : Slot) (own : Option Alarm) (left : Nat) : Prop
  | running (state : r.state = .running) (sleeps : timeLeft now own = left)
      (owes : r.Owes slot now left)
  | paused {moment : Nat} (state : r.state = .paused) (pausedAt : r.pausedAt = some moment)
      (owes : r.Owes slot moment left)
  | repeating {alarm : Option Alarm} {commands : List Command} {jobs : List Job} {n : Int}
      (state : r.state = .resuming) (task : replays = {jobs})
      (course : Course id .replay alarm commands jobs)
      (last : commands.getLast? = some (.act (.delay n)))
      (sleeps : timeLeft now alarm + n.toNat = left)
  | ending {alarm : Option Alarm} {jobs : List Job} (state : r.state = .resuming)
      (task : replays = {jobs}) (course : Course id .replay alarm [] jobs)
      (sleeps : timeLeft now alarm = left) (owes : r.Owes slot now left)

/-- A part of a delay is over. -/
theorem Run.Owes.later {r : Run} {slot : Slot} {moment left : Nat} (h : r.Owes slot moment left)
    (milliseconds : Nat) : r.Owes slot (moment + milliseconds) (left - milliseconds) := by
  obtain ⟨n, start, hdelay, hstart, hle, rfl⟩ := h
  exact ⟨n, start, hdelay, hstart, by omega, by omega⟩

theorem Run.Owes.of_log {r r' : Run} {slot : Slot} {moment left : Nat} (h : r.Owes slot moment left)
    (hlog : r'.log = r.log) : r'.Owes slot moment left := by
  obtain ⟨n, start, hdelay, hstart, hle, hleft⟩ := h
  exact ⟨n, start, hdelay, hlog ▸ hstart, hle, hleft⟩

/-- All of a delay is left when it starts. -/
theorem Run.owes_record (r : Run) (slot : Slot) (now : Nat) (n : Int) :
    (r.record now (Command.act (.delay n)).isDelay (Command.act (.delay n)).text).Owes
      (slot.after (.act (.delay n))) now n.toNat := by
  refine ⟨n, now, rfl, ?_, Nat.le_refl _, by omega⟩
  simp [record, RunLog.record, RunLog.lastStart]

namespace Run.Delaying

variable {r : Run} {now left : Nat} {id : RunId} {replays : Multiset (List Job)} {slot : Slot}
  {own : Option Alarm}

theorem of_running (h : r.Delaying now id replays slot own left) (hstate : r.state = .running) :
    timeLeft now own = left ∧ r.Owes slot now left := by
  cases h with
  | running _ sleeps owes => exact ⟨sleeps, owes⟩
  | paused state _ _ => simp [hstate] at state
  | repeating state _ _ _ _ => simp [hstate] at state
  | ending state _ _ _ _ => simp [hstate] at state

theorem of_paused (h : r.Delaying now id replays slot own left) (hstate : r.state = .paused) :
    ∃ moment, r.pausedAt = some moment ∧ r.Owes slot moment left := by
  cases h with
  | running state _ _ => simp [hstate] at state
  | paused _ pausedAt owes => exact ⟨_, pausedAt, owes⟩
  | repeating state _ _ _ _ => simp [hstate] at state
  | ending state _ _ _ _ => simp [hstate] at state

/-- In a replay the rest of the delay is the last command that has yet to start, or it goes on. -/
theorem of_resuming {jobs : List Job} {alarm : Option Alarm} {commands : List Command}
    (h : r.Delaying now id {jobs} slot own left) (hstate : r.state = .resuming)
    (course : Course id .replay alarm commands jobs) :
    (∃ n, commands.getLast? = some (.act (.delay n)) ∧ timeLeft now alarm + n.toNat = left) ∨
      commands = [] ∧ timeLeft now alarm = left ∧ r.Owes slot now left := by
  cases h with
  | running state _ _ => simp [hstate] at state
  | paused state _ _ => simp [hstate] at state
  | repeating _ task course' last sleeps =>
    obtain rfl := Multiset.singleton_inj.mp task
    obtain ⟨rfl, rfl⟩ := course.unique course'
    exact .inl ⟨_, last, sleeps⟩
  | ending _ task course' sleeps owes =>
    obtain rfl := Multiset.singleton_inj.mp task
    obtain ⟨rfl, rfl⟩ := course.unique course'
    exact .inr ⟨rfl, sleeps, owes⟩

end Run.Delaying

/-! ## Sleep -/

/-- A task of a part of a run that may go on waits for nothing but its alarm. -/
theorem Course.sleeps {c : Controller} {id : RunId} {part : Part} {r : Run} {now : Nat}
    {alarm : Option Alarm} {commands : List Command} {job : Job} {rest : List Job}
    (h : Course id part alarm commands (job :: rest)) (hr : c.runs.get? id = some r)
    (hnumbered : c.books.Numbered) (ready : r.readiness part = .ready)
    (rests : (c.run now job).rests = true) : ∃ a, alarm = some a ∧ now < a.moment := by
  generalize hjobs : job :: rest = jobs at h
  cases h with
  | @asleep alarm _ closing closes =>
    obtain ⟨rfl, rfl⟩ := List.cons.inj hjobs
    refine ⟨alarm, rfl, ?_⟩
    by_contra hdue
    simp [Controller.run, Controller.asleep, Nat.le_of_not_lt hdue, Outcome.finished,
      Outcome.rests] at rests
  | @awake requests commands closing closes =>
    cases requests with
    | cons request requests =>
      obtain ⟨rfl, rfl⟩ := List.cons.inj hjobs
      simp only [Controller.run, Controller.sending] at rests
      split at rests <;> simp [Outcome.rests, Outcome.finished, Controller.refusal] at rests
    | nil =>
      cases commands with
      | cons cmd commands =>
        obtain ⟨rfl, rfl⟩ := List.cons.inj hjobs
        obtain ⟨c', next, reply, hrun, -⟩ :=
          (Controller.run_command_of_ready hr hnumbered ready :
            ∃ c' next reply, c.run now (.command id part cmd) = .done c' next reply ∧ _)
        simp [hrun, Outcome.rests] at rests
      | nil =>
        cases closes with
        | regular =>
          obtain ⟨rfl, rfl⟩ := List.cons.inj hjobs
          obtain ⟨c', hrun, -⟩ := c.finishRun_eq id
          simp [Controller.run, hrun, Outcome.finished, Outcome.rests] at rests
        | replay plain =>
          obtain ⟨rfl, rfl⟩ := List.cons.inj hjobs
          simp [Controller.run, Outcome.answers, Outcome.rests] at rests

/-! ## Pauses -/

/-- A paused run stays paused until it is resumed. -/
theorem Scene.Handled.stays_paused {now : Nat} {s s' : Scene} {job : Option Job} {id : RunId}
    {r : Run} (h : s.Handled now job s') (hs : s.Phased) (hr : s.books.runs.get? id = some r)
    (hstate : r.state = .paused) :
    job = some (.resumeRun id) ∨ ∃ r', s'.books.runs.get? id = some r' ∧ r'.state = .paused := by
  have hnew : s.books.runs.get? s.books.runs.size = none := hs.numbered _ (Nat.le_refl _)
  have hput {id' : RunId} {change : Run → Run} (hchange : id' = id → (change r).state = .paused) :
      ∃ r', (s.books.modifyRun id' change).runs.get? id = some r' ∧ r'.state = .paused := by
    rw [Books.runs_modifyRun, hr]
    split
    · rename_i hid
      exact ⟨change r, rfl, hchange hid⟩
    · exact ⟨r, rfl, hstate⟩
  have hpaused {id' : RunId} {r₀ r' : Run} (run : s.books.runs.get? id' = some r₀)
      (paused : r₀.pause? now = some r') (hid : id' = id) : r'.state = .paused := by
    subst hid
    obtain ⟨-, -, rfl⟩ := Run.pause?_eq_some paused
    rfl
  have hresumed {id' : RunId} {change : Run → Run} :
      some (Job.resumeRun id') = some (.resumeRun id) ∨
        ∃ r', (s.books.modifyRun id' change).runs.get? id = some r' ∧ r'.state = .paused := by
    by_cases hid : id' = id
    · exact .inl (congrArg (some <| Job.resumeRun ·) hid)
    · exact .inr (hput fun h => absurd h hid)
  cases h with
  | call _ _ => exact .inr ⟨r, hr, hstate⟩
  | pause _ run paused _ => exact .inr (hput fun hid => hpaused run paused hid)
  | pass _ _ => exact .inr ⟨r, hr, hstate⟩
  | stop _ => exact .inr (hput fun _ => hstate)
  | step step =>
    cases step with
    | stay => exact .inr ⟨r, hr, hstate⟩
    | ask => exact .inr ⟨r, hr, hstate⟩
    | ended _ => exact .inr ⟨r, hr, hstate⟩
    | fail _ _ => exact .inr ⟨r, hr, hstate⟩
    | finish _ => exact .inr ⟨r, by rw [Books.runs_finishRun, hr], hstate⟩
    | settle _ _ => exact .inr (hput fun _ => by simp [Run.settled_eq, hstate])
    | plain _ _ deed _ =>
      refine .inr ?_
      cases deed with
      | grow grown =>
        have hgrown := Scene.runs_grows hnew grown hr
        exact ⟨r, hgrown, hstate⟩
      | pause _ run paused => exact hput fun hid => hpaused run paused hid
      | resume _ => exact ⟨r, hr, hstate⟩
      | stop _ => exact hput fun _ => hstate
    | @serve id' part _ _ _ _ _ _ _ _ _ deed _ =>
      refine .inr ?_
      cases deed with
      | pass _ => exact ⟨r, hr, hstate⟩
      | skip _ => exact ⟨r, hr, hstate⟩
      | @start c r₀ _ _ _ grown =>
        obtain ⟨r', hr', hstate'⟩ : ∃ r',
            (s.books.modifyRun id' (·.record now c.isDelay c.text)).runs.get? id = some r' ∧
              r'.state = .paused := hput fun _ => hstate
        have hgrown := Scene.runs_grows ((hs.numbered.modifyRun _ _) _ (Nat.le_refl _)) grown hr'
        exact ⟨r', hgrown, hstate'⟩
    | resume _ _ deed =>
      cases deed with
      | none _ => exact .inr ⟨r, hr, hstate⟩
      | settle _ _ => exact hresumed
      | replay _ _ _ => exact hresumed

namespace World

variable {w : World} {a : Act} {id : RunId} {r r' : Run} {history : List (Part × Command)}
  {left : Nat}

theorem Attended.stays_paused (hw : w.Attended) (hr : w.controller.runs.get? id = some r)
    (hstate : r.state = .paused) (a : Act) : w.doing? a = some (.resumeRun id) ∨
      ∃ r', (w.does a).controller.runs.get? id = some r' ∧ r'.state = .paused :=
  (handled_does hw.phased a).stays_paused hw.phased hr hstate

/-! ## A run in a delay -/

/-- A run is in a delay, and its own next command comes when what is left of it is over. -/
structure Waiting (w : World) (id : RunId) (history : List (Part × Command)) (r : Run)
    (left : Nat) : Prop where
  started : HasStarted id w history
  run : w.controller.runs.get? id = some r
  fits : Command.bodyFits r.script.children = true
  goes : r.stopped = false
  task : ∃ jobs own commands, w.tasksOf id .regular = {jobs} ∧
    Course id .regular own commands jobs ∧ commands ≠ [] ∧ timeLeft w.now own ≤ left ∧
      r.Delaying w.now id (w.tasksOf id .replay) (Slot.ofHistory history) own left

/-- After an act a run is still in its delay, and what passes and is left is more by the time that
the act adds to it. -/
def StillWaits (w : World) (id : RunId) (history : List (Part × Command)) (left : Nat) (a : Act) :
    Prop :=
  ∃ r left', (w.does a).Waiting id (history ++ (w.starting? id a).toList) r left' ∧
    (w.does a).now + left' = w.now + left + pausedBy id w a + repeatedBy id w a

/-- An act that takes no time. -/
theorem now_of_milliseconds (w : World) (id : RunId) (h : a.milliseconds = 0) :
    (w.does a).now = w.now ∧ pausedBy id w a = 0 := by
  refine ⟨by rw [now_does, h, Nat.add_zero], ?_⟩
  rw [pausedBy, h, ite_self]

/-- A command that is no delay repeats none. -/
theorem repeatedBy_of_busy {cmd : Command} (hstart : w.starting? id a = some (.replay, cmd))
    (busy : ∀ n, cmd ≠ .act (.delay n)) : repeatedBy id w a = 0 := by
  unfold repeatedBy
  rw [hstart]
  split
  · rename_i n hsame
    exact absurd (Prod.mk.inj (Option.some.inj hsame)).2 (busy n)
  · rfl

theorem milliseconds_of_doing {job : Job} (h : w.doing? a = some job) : a.milliseconds = 0 := by
  obtain ⟨place, t, rest, rfl, -, -⟩ := doing?_eq_some h
  rfl

namespace Waiting

variable {jobs : List Job} {own : Option Alarm} {commands : List Command}

/-- An act in which nothing of the run starts and no time passes. -/
theorem quietly (h : w.Waiting id history r left)
    (hwait : a.milliseconds = 0) (hquiet : w.starting? id a = none)
    (hr' : (w.does a).controller.runs.get? id = some r') (goes : r'.stopped = false)
    (own_task : (w.does a).tasksOf id .regular = {jobs})
    (course : Course id .regular own commands jobs) (hne : commands ≠ [])
    (bound : timeLeft w.now own ≤ left)
    (delaying : r'.Delaying w.now id ((w.does a).tasksOf id .replay) (Slot.ofHistory history)
      own left) : w.StillWaits id history left a := by
  obtain ⟨hnow, hpaused⟩ := now_of_milliseconds w id hwait
  obtain ⟨r₁, hr₁, hscript, -, -⟩ := h.started.attended.run_does h.run a
  obtain rfl := Option.some.inj (hr'.symm.trans hr₁)
  have hrepeated : repeatedBy id w a = 0 := by rw [repeatedBy, hquiet]
  refine ⟨r', left, ⟨h.started.act a, hr', hscript ▸ h.fits, goes, jobs, own, commands, own_task,
    course, hne, ?_, ?_⟩, by omega⟩
  · rwa [hnow]
  · rwa [hnow, hquiet, Option.toList_none, List.append_nil]

/-- Time passes only while the tasks of the run that may go on sleep. -/
theorem sleeps (h : w.Waiting id history r left) {part : Part} {milliseconds : Nat}
    (timely : w.isTimely id (.move (.wait milliseconds)) = true)
    (task : w.tasksOf id part = {jobs}) {alarm : Option Alarm}
    (course : Course id part alarm commands jobs) (ready : r.readiness part = .ready) :
    milliseconds ≤ timeLeft w.now alarm := by
  cases milliseconds with
  | zero => exact Nat.zero_le _
  | succ before =>
    obtain ⟨hmem, hclosings⟩ := mem_tasksOf.mp (task ▸ Multiset.mem_singleton_self jobs)
    obtain ⟨t, ht, rfl⟩ := List.mem_map.mp (Multiset.mem_coe.mp hmem)
    have hserves : ((closings t.jobs).any fun key => key.1 = id) = true :=
      List.any_eq_true.mpr ⟨_, hclosings, decide_eq_true rfl⟩
    have htimely := List.all_eq_true.mp timely before (List.mem_range.mpr (Nat.lt_succ_self _))
    have htask := List.all_eq_true.mp htimely t ht
    rw [hserves, Bool.not_true, Bool.false_or] at htask
    obtain ⟨job, hjob, hrests⟩ := (Option.any_eq_true _ _).mp htask
    obtain ⟨rest, hjobs⟩ := List.head?_eq_some_iff.mp hjob
    obtain ⟨a, rfl, hmoment⟩ :=
      (hjobs ▸ course).sleeps h.run h.started.attended.phased.numbered ready hrests
    simp only [timeLeft]
    omega

/-- Time passes. -/
theorem wait (h : w.Waiting id history r left) {milliseconds : Nat}
    (timely : w.isTimely id (.move (.wait milliseconds)) = true) :
    w.StillWaits id history left (.move (.wait milliseconds)) := by
  obtain ⟨jobs, own, commands, own_task, course, hne, bound, delaying⟩ := h.task
  have hnow : (w.does (.move (.wait milliseconds))).now = w.now + milliseconds := rfl
  have hrepeated : repeatedBy id w (.move (.wait milliseconds)) = 0 := rfl
  have hpausedBy : pausedBy id w (.move (.wait milliseconds)) =
      if r.state = .paused then milliseconds else 0 := by
    simp [pausedBy, h.run, Act.milliseconds]
  have hquiet : w.starting? id (.move (.wait milliseconds)) = none := rfl
  -- Of the run nothing has changed but what is left of the delay.
  have hstill (left' : Nat) (hleft : left' + milliseconds = left + if r.state = .paused then
      milliseconds else 0) (bound : timeLeft (w.now + milliseconds) own ≤ left')
      (delaying : r.Delaying (w.now + milliseconds) id (w.tasksOf id .replay)
        (Slot.ofHistory history) own left') :
      w.StillWaits id history left (.move (.wait milliseconds)) := by
    refine ⟨r, left', ⟨h.started.act _, h.run, h.fits, h.goes, jobs, own, commands, own_task,
      course, hne, bound, ?_⟩, by omega⟩
    rw [hquiet, Option.toList_none, List.append_nil]
    exact delaying
  have hown := timeLeft_add w.now milliseconds own
  cases delaying with
  | running state sleeps owes =>
    have hready : r.readiness .regular = .ready := Run.readiness_of_phase h.goes state
    have hsleeps := h.sleeps timely own_task course hready
    rw [if_neg (by simp [state])] at hstill
    exact hstill (left - milliseconds) (by omega) (by omega)
      (.running state (by omega) (owes.later milliseconds))
  | paused state pausedAt owes =>
    rw [if_pos state] at hstill
    exact hstill left rfl (by omega) (.paused state pausedAt owes)
  | @repeating alarm _ _ n state task course' last sleeps =>
    have hready : r.readiness .replay = .ready := Run.readiness_of_phase h.goes state
    have hsleeps := h.sleeps timely task course' hready
    have halarm := timeLeft_add w.now milliseconds alarm
    rw [if_neg (by simp [state])] at hstill
    exact hstill (left - milliseconds) (by omega) (by omega)
      (.repeating state task course' last (by omega))
  | @ending alarm _ state task course' sleeps owes =>
    have hready : r.readiness .replay = .ready := Run.readiness_of_phase h.goes state
    have hsleeps := h.sleeps timely task course' hready
    have halarm := timeLeft_add w.now milliseconds alarm
    rw [if_neg (by simp [state])] at hstill
    exact hstill (left - milliseconds) (by omega) (by omega)
      (.ending state task course' (by omega) (owes.later milliseconds))

/-- The resumption of a paused run replays the command in the slot and the rest of the delay. -/
theorem repeats (h : w.Waiting id history r left) (hpaused : r.state = .paused) :
    ∃ c text n, w.controller.resumeRun id = .follows c (Command.jobs id .replay
        ((Slot.ofHistory history).command.toList ++ [.act (.delay n)]) ++ [.endReplay id text]) ∧
      n.toNat = left ∧ c.runs.get? id = some (r.withState .resuming) := by
  obtain ⟨jobs, own, commands, own_task, course, hne, bound, delaying⟩ := h.task
  obtain ⟨moment, pausedAt, n, start, hdelay, hstart, hle, rfl⟩ := delaying.of_paused hpaused
  have hresumes := h.started.resumes h.run (h.started.notes h.run h.fits)
  generalize hrun : w.controller.run w.now (.resumeRun id) = outcome at hresumes
  cases hresumes with
  | idle unpaused => exact absurd hpaused unpaused
  | nothing _ unstarted _ => simp [unstarted, Slot.ofHistory, Slot.empty] at hdelay
  | @repeats c moment' start' text script _ _ pausedAt' lastStart _ _ _ children resuming =>
    obtain rfl := Option.some.inj (pausedAt.symm.trans pausedAt')
    obtain rfl := Option.some.inj (hstart.symm.trans lastStart)
    have hitems : script.children = (Slot.ofHistory history).command.toList ++
        [.act (.delay (max (n - (moment - start : Nat)) 0))] := by
      rw [children, Slot.items, hdelay]
      rfl
    exact ⟨c, text, _, hitems ▸ hrun, by omega, resuming⟩

theorem resumed (h : w.Waiting id history r left) (hpaused : r.state = .paused)
    (hdoing : w.doing? a = some (.resumeRun id)) :
    (w.does a).controller.runs.get? id = some (r.withState .resuming) := by
  obtain ⟨place, t, rest, rfl, ht, hjobs⟩ := doing?_eq_some hdoing
  obtain ⟨c, text, n, hrun, -, hresuming⟩ := h.repeats hpaused
  change (w.turn place).controller.runs.get? id = _
  rw [turn_done ht hjobs hrun]
  exact hresuming

/-- If a resumption replays commands then the run was paused, and the commands are those. -/
theorem replays (h : w.Waiting id history r left) {c : Controller} {commands : List Command}
    {text : String} {reply : Option Reply} (run : w.controller.resumeRun id =
      .done c (Command.jobs id .replay commands ++ [.endReplay id text]) reply) :
    r.state = .paused ∧ ∃ n, n.toNat = left ∧
      commands = (Slot.ofHistory history).command.toList ++ [.act (.delay n)] := by
  have hpaused : r.state = .paused := by
    by_contra hnot
    rw [Controller.resumeRun_idle h.run hnot] at run
    obtain ⟨-, hnext, -⟩ := Outcome.done.inj run
    simp at hnext
  obtain ⟨c', text', n, hrun, hleft, -⟩ := h.repeats hpaused
  obtain ⟨-, hnext, -⟩ := Outcome.done.inj (run.symm.trans hrun)
  have hcommands := congrArg (commandsOf id .replay) hnext
  have hcourse (commands : List Command) (text : String) := (Course.ofCommands commands
    (.replay (by simp) : Closing id .replay [.endReplay id text])).commandsOf
  rw [hcourse, hcourse] at hcommands
  exact ⟨hpaused, n, hleft, hcommands⟩

/-- The tasks of the run stay as they are, and nothing of it starts. -/
theorem idle (h : w.Waiting id history r left)
    (hwait : a.milliseconds = 0)
    (hr' : (w.does a).controller.runs.get? id = some r') (goes : r'.stopped = false)
    (tasks : ∀ part, (w.does a).tasksOf id part = w.tasksOf id part)
    (quiet : ∀ part cmd, w.doing? a ≠ some (.command id part cmd)) :
    w.StillWaits id history left a := by
  obtain ⟨jobs, own, commands, own_task, course, hne, bound, delaying⟩ := h.task
  have hw := h.started.attended
  have hquiet := starting?_eq_none quiet
  -- A replay neither begins nor ends, as its task would.
  have hresuming : r'.state = .resuming ↔ r.state = .resuming := by
    constructor
    · intro hstate
      by_contra hnot
      obtain ⟨replay, hreplay⟩ := (hw.act a).tasksOf_replay hr' hstate
      simp [tasks, hw.tasksOf_replay_eq_zero h.run hnot] at hreplay
    · intro hstate
      by_contra hnot
      obtain ⟨replay, hreplay⟩ := hw.tasksOf_replay h.run hstate
      simp [← tasks, (hw.act a).tasksOf_replay_eq_zero hr' hnot] at hreplay
  obtain ⟨r₁, hr₁, hbecomes⟩ := hw.becomes h.run a
  obtain rfl := Option.some.inj (hr'.symm.trans hr₁)
  have hstill (delaying : r'.Delaying w.now id (w.tasksOf id .replay) (Slot.ofHistory history)
      own left) : w.StillWaits id history left a :=
    h.quietly hwait hquiet hr' goes ((tasks .regular).trans own_task) course hne bound
      ((tasks .replay).symm ▸ delaying)
  cases hbecomes with
  | same => exact hstill delaying
  | pause paused =>
    obtain ⟨-, hstate, rfl⟩ := Run.pause?_eq_some paused
    exact hstill (.paused rfl rfl ((delaying.of_running hstate).2.of_log rfl))
  | resume resumed =>
    obtain ⟨hstate, rfl⟩ := Run.resume?_eq_some resumed
    simp [Run.withState, hstate] at hresuming
  | @settle r₁ resumed =>
    -- There is something to repeat, so that a paused run does not go on at once.
    obtain ⟨hstate, -⟩ := Run.resume?_eq_some resumed
    have hsettled : r₁.settled.state = .running := by
      obtain ⟨-, rfl⟩ := Run.resume?_eq_some resumed
      simp [Run.settled_eq, Run.withState]
    rcases hw.stays_paused h.run hstate a with hdoing | ⟨r₂, hr₂, hstate₂⟩
    · have hsame := Option.some.inj (hr'.symm.trans (h.resumed hstate hdoing))
      simp [hsame, Run.withState] at hsettled
    · have hsame := Option.some.inj (hr'.symm.trans hr₂)
      simp [hsame, hstate₂] at hsettled
  | replayed hstate => exact absurd (hresuming.mpr hstate) (Run.state_settled_ne r)
  | stop => simp [Run.stop] at goes
  | start part cmd doing _ _ => exact absurd doing (quiet part cmd)

/-- The task of the run has its turn, which starts nothing. -/
theorem own_turn (h : w.Waiting id history r left) {c : Controller} {job : Job}
    {rest next : List Job} {others : Multiset (List Job)} {alarm alarm' : Option Alarm}
    {commands commands' : List Command}
    (doing : w.doing? a = some job) (controller : (w.does a).controller = c.takeStarted.2)
    (before : w.tasksOf id .regular = (job :: rest) ::ₘ others)
    (after : (w.does a).tasksOf id .regular = (next ++ rest) ::ₘ others)
    (apart : (w.does a).tasksOf id .replay = w.tasksOf id .replay)
    (course : Course id .regular alarm commands (job :: rest))
    (course' : Course id .regular alarm' commands' (next ++ rest))
    (went : Course.Goes w.controller c w.now id .regular job alarm commands alarm' commands')
    (quiet : ∀ cmd, w.starting? id a ≠ some (.regular, cmd)) :
    w.StillWaits id history left a := by
  obtain ⟨jobs, own, left_commands, own_task, own_course, hne, bound, delaying⟩ := h.task
  obtain ⟨rfl, rfl⟩ := (Multiset.singleton_eq_cons_iff _).mp (own_task.symm.trans before)
  obtain ⟨rfl, rfl⟩ := own_course.unique course
  have hsame (books : c.books = w.controller.books) :
      (w.does a).controller.runs.get? id = some r := (run_of_books controller books).trans h.run
  have hstill (books : c.books = w.controller.books) (hne : commands' ≠ [])
      (bound : timeLeft w.now alarm' ≤ left)
      (delaying : r.Delaying w.now id (w.tasksOf id .replay) (Slot.ofHistory history) alarm' left) :
      w.StillWaits id history left a :=
    h.quietly (milliseconds_of_doing doing) (h.started.attended.starting?_of_same h.run (hsame books))
      (hsame books) h.goes after course' hne bound (apart.symm ▸ delaying)
  cases went with
  | sent books => exact hstill books hne bound delaying
  | @woken alarm _ due books =>
    refine hstill books hne (Nat.zero_le _) ?_
    cases delaying with
    | running state sleeps owes =>
      -- No pause has cut the delay short, so its time is over.
      have hover : timeLeft w.now (some alarm) = 0 := by
        rcases due with hdue | ⟨r', hr', hcut⟩
        · exact Nat.sub_eq_zero_of_le hdue
        · obtain rfl := Option.some.inj (h.run.symm.trans hr')
          simp [Run.cutsDelay, state] at hcut
      exact .running state (hover.symm.trans sleeps) owes
    | paused state pausedAt owes => exact .paused state pausedAt owes
    | repeating state task course last sleeps => exact .repeating state task course last sleeps
    | ending state task course sleeps owes => exact .ending state task course sleeps owes
  | skipped never _ => exact absurd (never r h.run) (by simp [h.goes])
  | started begins run ready _ =>
    exact absurd (starting?_eq_some.mpr ⟨begins ▸ doing, _, run, ready⟩) (quiet _)

/-- A replay starts a command. -/
theorem replay_starts (h : w.Waiting id history r left) {cmd : Command} {alarm : Option Alarm}
    {more : List Command} {n : Int} (resuming : r.state = .resuming)
    (doing : w.doing? a = some (.command id .replay cmd))
    (after : (w.does a).tasksOf id .replay = {jobs})
    (apart : (w.does a).tasksOf id .regular = w.tasksOf id .regular)
    (course : Course id .replay alarm (more ++ commands) jobs) (opens : cmd.Opens w.now alarm more)
    (last : (cmd :: commands).getLast? = some (.act (.delay n))) (rest : n.toNat = left) :
    w.StillWaits id history left a := by
  obtain ⟨own_jobs, own, own_commands, own_task, own_course, hne, bound, -⟩ := h.task
  have hw := h.started.attended
  obtain ⟨hnow, hpaused⟩ := now_of_milliseconds w id (milliseconds_of_doing doing)
  have hready : r.readiness .replay = .ready := Run.readiness_of_phase h.goes resuming
  have hstart : w.starting? id a = some (.replay, cmd) :=
    starting?_eq_some.mpr ⟨doing, r, h.run, hready⟩
  obtain ⟨r', hr', hscript, hstarts, -⟩ := hw.run_does h.run a
  obtain rfl := hstarts _ _ hstart
  have hstill (left' : Nat) (hleft : left' = left + repeatedBy id w a)
      (delaying : (r.record w.now cmd.isDelay cmd.text).Delaying w.now id {jobs}
        ((Slot.ofHistory history).after cmd) own left') : w.StillWaits id history left a := by
    refine ⟨_, left', ⟨h.started.act a, hr', hscript ▸ h.fits, h.goes, _, own, own_commands,
      apart.trans own_task, own_course, hne, ?_, ?_⟩, by omega⟩
    · rw [hnow]
      omega
    · rw [hnow, after, hstart, Option.toList_some, Slot.ofHistory_append]
      exact delaying
  have hany := (hw.act a).hasCommands_eq after
  rw [course.commandsOf] at hany
  -- A command that is no delay has others after it, and takes no time.
  have hpasses (busy : ∀ m, cmd ≠ .act (.delay m)) (halarm : alarm = none) :
      w.StillWaits id history left a := by
    have hnone : repeatedBy id w a = 0 := repeatedBy_of_busy hstart busy
    have hlast : (more ++ commands).getLast? = some (.act (.delay n)) := by
      cases commands with
      | nil => exact absurd (Option.some.inj last) (busy n)
      | cons c commands =>
        rw [List.getLast?_cons_cons] at last
        rw [List.getLast?_append_cons]
        exact last
    exact hstill left (by omega)
      (.repeating resuming rfl course hlast (by rw [halarm]; simp [timeLeft, rest]))
  cases opens with
  | delay m stamp =>
    have hrepeated : repeatedBy id w a = if commands.isEmpty then 0 else m.toNat := by
      simp only [repeatedBy, hstart, hany]
      cases commands <;> rfl
    have hsleeps : timeLeft w.now (some ⟨w.now + m.toNat, stamp⟩) = m.toNat := by
      simp [timeLeft]
    cases commands with
    | nil =>
      obtain rfl : m = n := by simpa using last
      exact hstill left (by simp [hrepeated])
        (.ending resuming rfl course (hsleeps.trans rest) (rest ▸ r.owes_record _ w.now m))
    | cons c commands =>
      rw [List.getLast?_cons_cons] at last
      refine hstill (left + m.toNat) (by simp [hrepeated]) (.repeating resuming rfl course last ?_)
      rw [hsleeps]
      omega
  | act busy => exact hpasses (fun m hsame => busy m (Command.act.inj hsame)) rfl
  | holds _ _ _ => exact hpasses (by simp) rfl
  | passes _ _ _ => exact hpasses (by simp) rfl

/-- A task that is to close a replay is the only one, and the run is being resumed. -/
theorem resuming (h : w.Waiting id history r left) {others : Multiset (List Job)}
    (task : w.tasksOf id .replay = jobs ::ₘ others) : r.state = .resuming ∧ others = 0 := by
  have hw := h.started.attended
  have hstate : r.state = .resuming := by
    by_contra hnot
    simp [hw.tasksOf_replay_eq_zero h.run hnot] at task
  obtain ⟨replay, hreplay⟩ := hw.tasksOf_replay h.run hstate
  exact ⟨hstate, ((Multiset.singleton_eq_cons_iff _).mp (hreplay.symm.trans task)).2⟩

/-- The task of a replay has its turn. -/
theorem replay_turn (h : w.Waiting id history r left) {c : Controller} {job : Job}
    {rest next : List Job} {others : Multiset (List Job)} {alarm alarm' : Option Alarm}
    {commands commands' : List Command}
    (doing : w.doing? a = some job) (controller : (w.does a).controller = c.takeStarted.2)
    (before : w.tasksOf id .replay = (job :: rest) ::ₘ others)
    (after : (w.does a).tasksOf id .replay = (next ++ rest) ::ₘ others)
    (apart : (w.does a).tasksOf id .regular = w.tasksOf id .regular)
    (course : Course id .replay alarm commands (job :: rest))
    (course' : Course id .replay alarm' commands' (next ++ rest))
    (went : Course.Goes w.controller c w.now id .replay job alarm commands alarm' commands') :
    w.StillWaits id history left a := by
  obtain ⟨jobs, own, own_commands, own_task, own_course, hne, bound, delaying⟩ := h.task
  have hw := h.started.attended
  have hwait := milliseconds_of_doing doing
  obtain ⟨hnow, hpaused⟩ := now_of_milliseconds w id hwait
  obtain ⟨hresuming, rfl⟩ := h.resuming before
  have hsame (books : c.books = w.controller.books) :
      (w.does a).controller.runs.get? id = some r := (run_of_books controller books).trans h.run
  have hstill (books : c.books = w.controller.books)
      (delaying : r.Delaying w.now id {next ++ rest} (Slot.ofHistory history) own left) :
      w.StillWaits id history left a :=
    h.quietly hwait (hw.starting?_of_same h.run (hsame books)) (hsame books) h.goes
      (apart.trans own_task) own_course hne bound (after.symm ▸ delaying)
  have hover {alarm : Alarm} (due : alarm.moment ≤ w.now ∨
      ∃ r, w.controller.runs.get? id = some r ∧ r.cutsDelay .replay = true) :
      timeLeft w.now (some alarm) = 0 := by
    rcases due with hdue | ⟨r', -, hcut⟩
    · exact Nat.sub_eq_zero_of_le hdue
    · simp [Run.cutsDelay] at hcut
  rcases (before ▸ delaying).of_resuming hresuming course with
    ⟨n, last, sleeps⟩ | ⟨rfl, sleeps, owes⟩
  · cases went with
    | sent books => exact hstill books (.repeating hresuming rfl course' last sleeps)
    | woken due books =>
      rw [hover due] at sleeps
      exact hstill books (.repeating hresuming rfl course' last sleeps)
    | skipped never _ => exact absurd (never r h.run) (by simp [h.goes])
    | started begins _ _ opens =>
      exact h.replay_starts hresuming (begins ▸ doing) after apart course' opens last
        ((Nat.zero_add _).symm.trans sleeps)
  · cases went with
    | sent books => exact hstill books (.ending hresuming rfl course' sleeps owes)
    | woken due books =>
      rw [hover due] at sleeps
      exact hstill books (.ending hresuming rfl course' sleeps owes)

/-- The replay of the run ends. -/
theorem ends (h : w.Waiting id history r left) {job : Job} {rest : List Job}
    {others : Multiset (List Job)} (doing : w.doing? a = some job)
    (closes : Closing id .replay (job :: rest))
    (before : w.tasksOf id .replay = (job :: rest) ::ₘ others)
    (after : (w.does a).tasksOf id .replay = others)
    (apart : (w.does a).tasksOf id .regular = w.tasksOf id .regular)
    (hr' : (w.does a).controller.runs.get? id = some r') (goes : r'.stopped = false) :
    w.StillWaits id history left a := by
  obtain ⟨own_jobs, own, own_commands, own_task, own_course, hne, bound, delaying⟩ := h.task
  have hw := h.started.attended
  obtain ⟨hresuming, rfl⟩ := h.resuming before
  have hover : r'.state ≠ .resuming := by
    intro hstate
    obtain ⟨jobs, hjobs⟩ := (hw.act a).tasksOf_replay hr' hstate
    simp [after] at hjobs
  have hdone : Course id .replay none [] (job :: rest) := .ofCommands [] closes
  have hquiet : w.starting? id a = none := by
    refine starting?_eq_none fun part cmd hcommand => ?_
    obtain rfl := Option.some.inj (doing.symm.trans hcommand)
    cases closes
  obtain ⟨r₁, hr₁, hbecomes⟩ := hw.becomes h.run a
  obtain rfl := Option.some.inj (hr'.symm.trans hr₁)
  have hsettled : r' = r.withState .running := by
    cases hbecomes with
    | same => exact absurd hresuming hover
    | pause paused => simp [(Run.pause?_eq_some paused).2.1] at hresuming
    | resume resumed => simp [(Run.resume?_eq_some resumed).1] at hresuming
    | settle resumed => simp [(Run.resume?_eq_some resumed).1] at hresuming
    | replayed _ => rw [Run.settled_eq, if_pos hresuming]
    | stop => simp [Run.stop] at goes
    | start _ _ _ _ _ => exact absurd hresuming hover
  rcases (before ▸ delaying).of_resuming hresuming hdone with ⟨n, last, -⟩ | ⟨-, sleeps, owes⟩
  · simp at last
  · -- Nothing is left of the delay, so that the run itself does not sleep any longer either.
    have hnone : left = 0 := sleeps.symm
    subst hsettled
    exact h.quietly (milliseconds_of_doing doing) hquiet hr' goes (apart.trans own_task) own_course hne
      bound (.running rfl (by omega) (owes.of_log rfl))

/-- The run is resumed, and its replay begins. -/
theorem resumes (h : w.Waiting id history r left) {c : Controller} {commands : List Command}
    {text : String} {rest : List Job} {reply : Option Reply}
    (doing : w.doing? a = some (.resumeRun id))
    (run : w.controller.resumeRun id =
      .done c (Command.jobs id .replay commands ++ [.endReplay id text]) reply)
    (plain : ∀ j ∈ rest, j.IsPlain)
    (after : (w.does a).tasksOf id .replay =
      (Command.jobs id .replay commands ++ .endReplay id text :: rest) ::ₘ w.tasksOf id .replay)
    (apart : (w.does a).tasksOf id .regular = w.tasksOf id .regular) :
    w.StillWaits id history left a := by
  obtain ⟨own_jobs, own, own_commands, own_task, own_course, hne, bound, -⟩ := h.task
  have hw := h.started.attended
  obtain ⟨hpaused, n, hleft, rfl⟩ := h.replays run
  have hquiet : w.starting? id a = none := starting?_eq_none (by simp [doing])
  rw [hw.tasksOf_replay_eq_zero h.run (by simp [hpaused])] at after
  exact h.quietly (milliseconds_of_doing doing) hquiet (h.resumed hpaused doing) h.goes
    (apart.trans own_task) own_course hne bound
    (.repeating rfl after (.ofCommands _ (.replay plain)) List.getLast?_concat
      ((Nat.zero_add _).trans hleft))

/-- In an act in which the run starts no command of its own and is not stopped, it stays in its
delay. -/
theorem does (h : w.Waiting id history r left) (timely : w.isTimely id a = true)
    (quiet : ∀ cmd, w.starting? id a ≠ some (.regular, cmd))
    (hr' : (w.does a).controller.runs.get? id = some r') (goes : r'.stopped = false) :
    w.StillWaits id history left a := by
  have hw := h.started.attended
  rcases a.eq_wait with hwait | ⟨milliseconds, rfl⟩
  · obtain ⟨jobs, own, commands, own_task, own_course, hne, bound, delaying⟩ := h.task
    cases hw.staffs a id with
    | stays same =>
      have hsame : (w.does a).controller.runs.get? id = some r := by rw [same]; exact h.run
      have htasks (part : Part) : (w.does a).tasksOf id part = w.tasksOf id part := by rw [same]
      exact h.quietly hwait (hw.starting?_of_same h.run hsame) hsame h.goes
        ((htasks .regular).trans own_task) own_course hne bound ((htasks .replay).symm ▸ delaying)
    | idle tasks quiet => exact h.idle hwait hr' goes tasks quiet
    | @goes part _ _ _ _ _ _ _ _ _ doing controller before after apart course course' went =>
      cases part with
      | regular =>
        exact h.own_turn doing controller before after (apart .replay (by simp)) course course' went
          quiet
      | replay =>
        exact h.replay_turn doing controller before after (apart .regular (by simp)) course course'
          went
    | @ends part _ _ _ doing closes before after apart =>
      cases part with
      | regular =>
        -- The run has commands of its own yet.
        obtain ⟨rfl, -⟩ := (Multiset.singleton_eq_cons_iff _).mp (own_task.symm.trans before)
        exact absurd (own_course.unique (.ofCommands [] closes)).2 hne
      | replay => exact h.ends doing closes before after (apart .regular (by simp)) hr' goes
    | begins _ new _ _ _ => simp [h.run] at new
    | resumes doing run plain after apart => exact h.resumes doing run plain after apart
  · exact h.wait timely

end Waiting

end World

end Signalbox
