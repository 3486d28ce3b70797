import Signalbox.Proofs.Control.Waiting

/-
  Signalbox/Proofs/Control/Delays.lean --- how long a run waits in a delay.

  A run goes on to its next command when its delay is over, if no time passes while one of
  its tasks could go on.  A pause cuts the delay short and the resumption waits out what was
  left of it, so that the time in which the run is paused comes on top of the delay and, it
  is meant, no other time.

  What is replayed before the rest of the delay is the command that came before the delay.
  If that is a test then its body is replayed as well, and a delay in the body is waited out
  all over again, although it was over long before the pause or is the very one that was cut
  short.  The run is late by just these delays.
-/

set_option autoImplicit false

namespace Signalbox

namespace World

/-- A check that no time passes in some acts while a task of a run could go on. -/
def isTimelyIn (w : World) (id : RunId) : List Act → Bool
  | [] => true
  | a :: acts => w.isTimely id a && (w.does a).isTimelyIn id acts

/-- What some acts come to, one after the other. -/
def total (amount : World → Act → Nat) (w : World) : List Act → Nat
  | [] => 0
  | a :: acts => amount w a + total amount (w.does a) acts

/-- A run starts a delay of its own in an act and its next command in another, and no time passes
in between while one of its tasks could go on. -/
structure Delays (w : World) (id : RunId) (d : Int) (a : Act) (acts : List Act) (b : Act) :
    Prop where
  starts : w.starting? id a = some (.regular, .act (.delay d))
  quiet : ∀ cmd, (Part.regular, cmd) ∉ (w.does a).startedIn id acts
  next : ∃ cmd, ((w.does a).doesAll acts).starting? id b = some (.regular, cmd)
  timely : (w.does a).isTimelyIn id acts = true

/-- The time from one world to another one some acts later, without that in which a run was paused,
is that of a delay. -/
def KeepsTime (w : World) (id : RunId) (d : Int) (acts : List Act) : Prop :=
  ((w.doesAll acts).now : Int) - w.now - w.total (pausedBy id) acts = max d 0

end World

/-! ## Delays that are repeated -/

/-- A command has a delay in it, however deep in its tests. -/
inductive Command.HasDelay : Command → Prop
  | act (n : Int) : HasDelay (.act (.delay n))
  | body {wanted : TurnoutState} {turnout : Int} {body : List Command} {cmd : Command}
      (mem : cmd ∈ body) (has : HasDelay cmd) : HasDelay (.test wanted turnout body)

/-- What a command without a delay begins with has none either. -/
theorem Command.Opens.not_hasDelay {now : Nat} {cmd : Command} {alarm : Option Alarm}
    {more : List Command} (h : cmd.Opens now alarm more) (hnone : ¬ cmd.HasDelay) :
    ∀ c ∈ more, ¬ c.HasDelay := by
  cases h with
  | delay n _ => exact absurd (.act n) hnone
  | act _ => simp
  | holds _ _ body => exact fun c hc has => hnone (.body hc has)
  | passes _ _ _ => simp

namespace World

variable {w : World} {a : Act} {id : RunId} {r : Run} {history : List (Part × Command)}
  {left : Nat}

/-- But for the rest of the delay, nothing that is replayed or that is in the slot has a delay in
it. -/
structure Calm (w : World) (id : RunId) (slot : Slot) : Prop where
  slot : ∀ c ∈ slot.command, ¬ c.HasDelay
  replay : ∀ jobs ∈ w.tasksOf id .replay, ∀ c ∈ (commandsOf id .replay jobs).dropLast,
    ¬ c.HasDelay

/-- A replay starts a command. -/
theorem Waiting.starts_calmly (h : w.Waiting id history r left)
    (calm : w.Calm id (Slot.ofHistory history)) {cmd : Command}
    (hstart : w.starting? id a = some (.replay, cmd)) :
    (w.does a).Calm id ((Slot.ofHistory history).after cmd) ∧ repeatedBy id w a = 0 := by
  have hw := h.started.attended
  obtain ⟨rest, jobs, others, alarm, more, commands, before, after, -, course, course', opens⟩ :=
    hw.starts hstart
  obtain ⟨hresuming, rfl⟩ := h.resuming before
  obtain ⟨n, hlast⟩ : ∃ n, (cmd :: commands).getLast? = some (.act (.delay n)) := by
    obtain ⟨own_jobs, own, own_commands, -, -, -, -, delaying⟩ := h.task
    rcases (before ▸ delaying).of_resuming hresuming course with ⟨n, last, -⟩ | ⟨hnone, -⟩
    · exact ⟨n, last⟩
    · simp at hnone
  have hany := (hw.act a).hasCommands_eq after
  rw [course'.commandsOf] at hany
  have hmem {c : Command} (hc : c ∈ (cmd :: commands).dropLast) : ¬ c.HasDelay :=
    calm.replay _ (before ▸ Multiset.mem_cons_self _ _) c (course.commandsOf ▸ hc)
  cases commands with
  | nil =>
    -- The rest of the delay starts, and the slot keeps what was before it.
    obtain rfl : cmd = .act (.delay n) := by simpa using hlast
    obtain rfl : more = [] := by
      cases opens <;> rfl
    refine ⟨⟨calm.slot, fun jobs' hjobs' => ?_⟩, ?_⟩
    · rw [after, Multiset.mem_cons, or_iff_left (Multiset.notMem_zero _)] at hjobs'
      simp [hjobs', course'.commandsOf]
    · simp [repeatedBy, hstart, hany]
  | cons c commands =>
    have hcmd : ¬ cmd.HasDelay := hmem List.mem_cons_self
    refine ⟨⟨?_, fun jobs' hjobs' c' hc' => ?_⟩, ?_⟩
    · intro c' hc'
      unfold Slot.after at hc'
      split at hc'
      · exact calm.slot c' hc'
      · obtain rfl := Option.some.inj hc'
        exact hcmd
    · rw [after, Multiset.mem_cons, or_iff_left (Multiset.notMem_zero _)] at hjobs'
      rw [hjobs', course'.commandsOf, List.dropLast_append_of_ne_nil (by simp)] at hc'
      rcases List.mem_append.mp hc' with hc' | hc'
      · exact opens.not_hasDelay hcmd c' hc'
      · exact hmem (List.mem_cons_of_mem _ hc')
    · exact repeatedBy_of_busy hstart fun m hsame => hcmd (hsame ▸ .act m)

/-- Calm lasts, and nothing is repeated. -/
theorem Waiting.does_calmly (h : w.Waiting id history r left)
    (calm : w.Calm id (Slot.ofHistory history))
    (quiet : ∀ cmd, w.starting? id a ≠ some (.regular, cmd)) :
    (w.does a).Calm id (Slot.ofHistory (history ++ (w.starting? id a).toList)) ∧
      repeatedBy id w a = 0 := by
  have hw := h.started.attended
  cases hstart : w.starting? id a with
  | some started =>
    obtain ⟨part, cmd⟩ := started
    cases part with
    | regular => exact absurd hstart (quiet cmd)
    | replay =>
      rw [Option.toList_some, Slot.ofHistory_append]
      exact h.starts_calmly calm hstart
  | none =>
    rw [Option.toList_none, List.append_nil]
    have hsame (tasks : (w.does a).tasksOf id .replay = w.tasksOf id .replay) :
        (w.does a).Calm id (Slot.ofHistory history) := ⟨calm.slot, tasks.symm ▸ calm.replay⟩
    refine ⟨?_, by rw [repeatedBy, hstart]⟩
    cases hw.staffs a id with
    | stays same => exact hsame (by rw [same])
    | idle tasks _ => exact hsame (tasks .replay)
    | @goes part _ _ _ _ _ _ _ commands commands' doing _ before after apart course course' went =>
      cases part with
      | regular => exact hsame (apart .replay (by simp))
      | replay =>
        have hkept (same : commands' = commands) :
            (w.does a).Calm id (Slot.ofHistory history) := by
          refine ⟨calm.slot, fun jobs hjobs => ?_⟩
          rcases Multiset.mem_cons.mp (after ▸ hjobs) with rfl | hjobs
          · rw [course'.commandsOf, same, ← course.commandsOf]
            exact calm.replay _ (before ▸ Multiset.mem_cons_self _ _)
          · exact calm.replay jobs (before ▸ Multiset.mem_cons_of_mem hjobs)
        cases went with
        | sent _ => exact hkept rfl
        | woken _ _ => exact hkept rfl
        | skipped never _ => exact absurd (never r h.run) (by simp [h.goes])
        | started begins run ready _ =>
          simp [starting?_eq_some.mpr ⟨begins ▸ doing, _, run, ready⟩] at hstart
    | @ends part _ _ _ _ _ before after apart =>
      cases part with
      | regular => exact hsame (apart .replay (by simp))
      | replay =>
        exact ⟨calm.slot, fun jobs hjobs =>
          calm.replay jobs (before ▸ Multiset.mem_cons_of_mem (after ▸ hjobs))⟩
    | begins _ _ _ _ apart => exact hsame apart
    | resumes _ run plain after _ =>
      obtain ⟨hpaused, n, -, rfl⟩ := h.replays run
      rw [hw.tasksOf_replay_eq_zero h.run (by simp [hpaused])] at after
      refine ⟨calm.slot, fun jobs hjobs c hc => ?_⟩
      rw [after, Multiset.mem_cons, or_iff_left (Multiset.notMem_zero _)] at hjobs
      rw [hjobs, (Course.ofCommands _ (.replay plain)).commandsOf, List.dropLast_concat] at hc
      exact calm.slot c (Option.mem_toList.mp hc)

/-! ## The beginning and the end of a delay -/

variable {d : Int} {b : Act} {acts : List Act} {cmd : Command}

/-- With commands of its own to come, a run that starts a delay is in it. -/
theorem HasStarted.waiting (h : HasStarted id w history)
    (hr : w.controller.runs.get? id = some r) (fits : Command.bodyFits r.script.children = true)
    (hstart : w.starting? id a = some (.regular, .act (.delay d)))
    (hmore : (w.does a).hasCommands id .regular = true) :
    ∃ r', (w.does a).Waiting id (history ++ (w.starting? id a).toList) r' d.toNat := by
  have hw := h.attended
  obtain ⟨hdoing, r₀, hr₀, hready⟩ := starting?_eq_some.mp hstart
  obtain rfl := Option.some.inj (hr.symm.trans hr₀)
  obtain ⟨goes, state⟩ := Run.readiness_regular_iff.mp hready
  obtain ⟨hnow, -⟩ := now_of_milliseconds w id (milliseconds_of_doing hdoing)
  obtain ⟨r', hr', hscript, hstarts, -⟩ := hw.run_does hr a
  obtain rfl := hstarts _ _ hstart
  obtain ⟨-, jobs, others, alarm, more, commands, -, after, -, -, course, opens⟩ :=
    hw.starts hstart
  have hothers : others = 0 := by
    have hcard := (hw.act a).card_tasksOf_regular_le id
    rw [after, Multiset.card_cons] at hcard
    exact Multiset.card_eq_zero.mp (by omega)
  subst hothers
  rw [(hw.act a).hasCommands_eq after, course.commandsOf] at hmore
  cases opens with
  | delay n stamp =>
    have hsleeps : timeLeft w.now (some ⟨w.now + d.toNat, stamp⟩) = d.toNat := by
      simp [timeLeft]
    refine ⟨_, h.act a, hr', hscript ▸ fits, goes, _, _, _, after, course, by
      simpa using hmore, ?_, ?_⟩
    · rw [hnow, hsleeps]
    · rw [hnow, hstart, Option.toList_some, Slot.ofHistory_append]
      exact .running state hsleeps (r.owes_record _ w.now d)
  | act busy => exact absurd rfl (busy d)

/-- When the run starts its next command, nothing is left of the delay. -/
theorem Waiting.left_eq_zero (h : w.Waiting id history r left)
    (hnext : w.starting? id b = some (.regular, cmd)) : left = 0 := by
  obtain ⟨jobs, own, commands, own_task, course, -, -, delaying⟩ := h.task
  obtain ⟨hdoing, r₀, hr₀, hready⟩ := starting?_eq_some.mp hnext
  obtain rfl := Option.some.inj (h.run.symm.trans hr₀)
  obtain ⟨-, hstate⟩ := Run.readiness_regular_iff.mp hready
  obtain ⟨place, t, rest, rfl, ht, hjobs⟩ := doing?_eq_some hdoing
  have hduty := h.started.attended.phased.duty _ (jobs_mem_scene ht)
  have hserves : (id, .regular) ∈ closings t.jobs :=
    hduty.mem_closings (hjobs ▸ List.mem_cons_self)
  have hmem : t.jobs ∈ w.tasksOf id .regular := mem_tasksOf.mpr ⟨jobs_mem_scene ht, hserves⟩
  rw [own_task, Multiset.mem_singleton] at hmem
  -- The task is about to start a command, so that it does not sleep.
  obtain rfl : none = own := by
    rw [← course.alarmOf, ← hmem, hjobs]
    rfl
  exact (delaying.of_running hstate).1.symm

/-- Commands of its own that a run has after an act in which it starts none it had before. -/
theorem Attended.hasCommands_before (hw : w.Attended) (hr : w.controller.runs.get? id = some r)
    (quiet : ∀ cmd, w.starting? id a ≠ some (.regular, cmd))
    (hmore : (w.does a).hasCommands id .regular = true) :
    w.hasCommands id .regular = true := by
  obtain ⟨t, ht, hsome⟩ := List.any_eq_true.mp hmore
  obtain ⟨cmd, hcmd⟩ := List.exists_mem_of_ne_nil (commandsOf id .regular t.jobs)
    (by simpa using hsome)
  rcases hw.mem_commandsOf a ht hcmd with ⟨t', ht', hcmd'⟩ | ⟨job, hdoing, hoffers⟩
  · exact hasCommands_of_mem ht' hcmd'
  · cases hoffers with
    | body doing run ready _ _ =>
      exact absurd (starting?_eq_some.mpr ⟨doing ▸ hdoing, _, run, ready⟩) (quiet _)
    | begins new _ _ => simp [hr] at new

theorem Attended.hasCommands_before_all (hw : w.Attended) (hr : w.controller.runs.get? id = some r)
    (quiet : ∀ cmd, (Part.regular, cmd) ∉ w.startedIn id acts)
    (hmore : (w.doesAll acts).hasCommands id .regular = true) :
    w.hasCommands id .regular = true := by
  induction acts generalizing w r with
  | nil => exact hmore
  | cons a acts ih =>
    obtain ⟨r', hr', -⟩ := hw.run_does hr a
    refine hw.hasCommands_before hr (a := a) (fun cmd hstart => quiet cmd ?_)
      (ih (hw.act a) hr' (fun cmd hcmd => quiet cmd ?_) hmore)
    · simp [startedIn, hstart]
    · exact List.mem_append_right _ hcmd

theorem later_doesAll (acts : List Act) : Later w (w.doesAll acts) := by
  induction acts generalizing w with
  | nil => exact .refl
  | cons a acts ih => exact .head ⟨a, rfl⟩ ih

/-- Until the run starts its next command, what has passed of the delay and what is left of it are
up by the time in which the run was paused and the delays that it has repeated. -/
theorem Waiting.doesAll (h : w.Waiting id history r left)
    (timely : w.isTimelyIn id acts = true)
    (quiet : ∀ cmd, (Part.regular, cmd) ∉ w.startedIn id acts)
    (goes : ∃ r', (w.doesAll acts).controller.runs.get? id = some r' ∧ r'.stopped = false) :
    ∃ r' left', (w.doesAll acts).Waiting id (history ++ w.startedIn id acts) r' left' ∧
      (w.doesAll acts).now + left' =
        w.now + left + w.total (pausedBy id) acts + w.total (repeatedBy id) acts ∧
      (w.Calm id (Slot.ofHistory history) → w.total (repeatedBy id) acts = 0) := by
  induction acts generalizing w history r left with
  | nil => exact ⟨r, left, by rw [startedIn, List.append_nil]; exact h, rfl, fun _ => rfl⟩
  | cons a acts ih =>
    have hw := h.started.attended
    obtain ⟨hact, hacts⟩ := Bool.and_eq_true_iff.mp timely
    obtain ⟨r₁, hr₁, -⟩ := hw.run_does h.run a
    -- A run that was stopped here would be stopped at the end.
    have hgoes : r₁.stopped = false := by
      by_contra hstopped
      obtain ⟨r₂, hr₂, hgoes₂⟩ := goes
      obtain ⟨r₃, hr₃, hstopped₃, -⟩ := ((hw.act a).isOver_later hr₁
        (Bool.not_eq_false _ ▸ hstopped) (later_doesAll acts)).stopped
      obtain rfl := Option.some.inj (hr₂.symm.trans hr₃)
      simp [hgoes₂] at hstopped₃
    have hquiet (cmd : Command) (hstart : w.starting? id a = some (.regular, cmd)) : False :=
      quiet cmd (by simp [startedIn, hstart])
    obtain ⟨r', left', hwaiting, htime⟩ := h.does hact hquiet hr₁ hgoes
    obtain ⟨r'', left'', hwaiting', htime', hcalm'⟩ := ih hwaiting hacts
      (fun cmd hcmd => quiet cmd (List.mem_append_right _ hcmd)) goes
    have hpaused : w.total (pausedBy id) (a :: acts) =
        pausedBy id w a + (w.does a).total (pausedBy id) acts := rfl
    have hrepeated : w.total (repeatedBy id) (a :: acts) =
        repeatedBy id w a + (w.does a).total (repeatedBy id) acts := rfl
    have hsame : w.doesAll (a :: acts) = (w.does a).doesAll acts := rfl
    rw [hsame]
    refine ⟨r'', left'', ?_, by omega, fun calm => ?_⟩
    · rw [startedIn, ← List.append_assoc]
      exact hwaiting'
    · obtain ⟨hcalm, hnone⟩ := h.does_calmly calm hquiet
      have hlater := hcalm' hcalm
      omega

/-- From the start of a delay to that of the next command passes the time of the delay, besides that
in which the run is paused and that of the delays that it repeats in between.  So it keeps its
time exactly when it repeats none, and does so whatever happens if the last command that was no
delay has none in it. -/
theorem keepsTime_iff (h : HasStarted id w history) (hr : w.controller.runs.get? id = some r)
    (fits : Command.bodyFits r.script.children = true) (hdelays : w.Delays id d a acts b) :
    (((w.does a).doesAll acts).now : Int) = w.now + max d 0 +
        (w.does a).total (pausedBy id) acts + (w.does a).total (repeatedBy id) acts ∧
      ((w.does a).KeepsTime id d acts ↔ (w.does a).total (repeatedBy id) acts = 0) ∧
      ((∀ c ∈ (Slot.ofHistory history).command, ¬ c.HasDelay) →
        (w.does a).KeepsTime id d acts) := by
  obtain ⟨cmd, hnext⟩ := hdelays.next
  have hw := h.attended
  obtain ⟨hdoing, r₀, hr₀, hready₀⟩ := starting?_eq_some.mp hdelays.starts
  obtain rfl := Option.some.inj (hr.symm.trans hr₀)
  obtain ⟨hnow, -⟩ := now_of_milliseconds w id (milliseconds_of_doing hdoing)
  obtain ⟨r₁, hr₁, -, hstarts, -⟩ := hw.run_does hr a
  obtain rfl := hstarts _ _ hdelays.starts
  have hmore : ((w.does a).doesAll acts).hasCommands id .regular = true := by
    obtain ⟨t, ht, hcmd⟩ := mem_of_doing? (starting?_eq_some.mp hnext).1
    exact hasCommands_of_mem ht hcmd
  obtain ⟨r', hwaiting⟩ := h.waiting hr fits hdelays.starts
    ((hw.act a).hasCommands_before_all hr₁ hdelays.quiet hmore)
  obtain ⟨-, r₂, hr₂, hready⟩ := starting?_eq_some.mp hnext
  obtain ⟨r₃, left, hover, htime, hcalm⟩ := hwaiting.doesAll hdelays.timely hdelays.quiet
    ⟨r₂, hr₂, Run.not_stopped_of_ready hready⟩
  have hleft := hover.left_eq_zero hnext
  have hkeeps : (w.does a).KeepsTime id d acts ↔ (w.does a).total (repeatedBy id) acts = 0 := by
    unfold KeepsTime
    constructor <;> intro _ <;> omega
  refine ⟨by omega, hkeeps, fun hslot => hkeeps.mpr (hcalm ⟨?_, ?_⟩)⟩
  · rw [hdelays.starts, Option.toList_some, Slot.ofHistory_append]
    exact hslot
  · -- The run goes on when the delay starts, so that nothing is being replayed.
    have hstate : r.state ≠ .resuming := by simp [(Run.readiness_regular_iff.mp hready₀).2]
    simp [(hw.act a).tasksOf_replay_eq_zero hr₁ hstate]

/-! ### Delays on time and delays that are late -/

/-- A script is run until it is about to start its delay. -/
def delayTrial (commands : List Command) : World :=
  (ofController (pointsController commands)).doesAll
    (.move (.ask (.runScript 1 none)) :: .move (.turn 0) :: turns 1 1)

theorem hasStarted_delayTrial (commands : List Command) :
    HasStarted 0 (delayTrial commands) ((ofController (pointsController commands)).startedIn 0
      (.move (.ask (.runScript 1 none)) :: .move (.turn 0) :: turns 1 1)) :=
  HasStarted.doesAll (.start ⟨rfl, rfl, rfl, by
    simp [pointsController, trialController, Controller.ofLayout]⟩) _

/-- A drive, and a delay after it. -/
def punctualCommands : List Command :=
  [.act (.drive .forward 40), .act (.delay 1000), .act .stop]

/-- The run is paused in the delay, and once more to no avail while the rest of it is replayed. -/
def punctualActs : List Act :=
  [.move (.wait 400), .call 0 .pause, .move (.turn 2), .move (.turn 1), .move (.wait 300),
    .call 0 .resume] ++ turns 3 3 ++ [.move (.wait 100), .call 0 .pause, .move (.turn 4),
    .move (.wait 500)] ++ turns 3 2

/-- The delay takes its time, and so does the pause. -/
theorem keepsTime_punctual :
    ((delayTrial punctualCommands).does (.move (.turn 1))).KeepsTime 0 1000 punctualActs ∧
      ((delayTrial punctualCommands).does (.move (.turn 1))).total (pausedBy 0) punctualActs =
        300 := by
  have hstarted := hasStarted_delayTrial punctualCommands
  have hhistory : (ofController (pointsController punctualCommands)).startedIn 0
      (.move (.ask (.runScript 1 none)) :: .move (.turn 0) :: turns 1 1) =
        [(.regular, .act (.drive .forward 40))] := by
    decide +kernel
  rw [hhistory] at hstarted
  have hrun : ((delayTrial punctualCommands).controller.runs.get? 0).map (·.script.children) =
      some punctualCommands := by
    decide +kernel
  obtain ⟨r, hr, hchildren⟩ := Option.map_eq_some_iff.mp hrun
  have hdelays : (delayTrial punctualCommands).Delays 0 1000 (.move (.turn 1)) punctualActs
      (.move (.turn 1)) := by
    refine ⟨by decide +kernel, fun cmd hcmd => ?_, ⟨.act .stop, by decide +kernel⟩,
      by decide +kernel⟩
    have hacts : ((delayTrial punctualCommands).does (.move (.turn 1))).startedIn 0 punctualActs =
        [(.replay, .act (.drive .forward 40)), (.replay, .act (.delay 600))] := by
      decide +kernel
    simp [hacts] at hcmd
  obtain ⟨-, -, hkeeps⟩ := keepsTime_iff hstarted hr (hchildren ▸ by decide) hdelays
  refine ⟨hkeeps fun c hc hdelay => ?_, by decide +kernel⟩
  obtain rfl := Option.some.inj hc
  cases hdelay

/-- A check that some acts leave the layout as it is. -/
def keepsLayoutIn (w : World) : List Act → Bool
  | [] => true
  | a :: acts =>
    (w.does a).controller.interlocking.layout = w.controller.interlocking.layout &&
      (w.does a).keepsLayoutIn acts

/-- A test that holds with a delay in it, and a drive after it. -/
def lateCommands : List Command :=
  [.test .closed 5 [.act (.delay 1000)], .act (.drive .forward 40)]

/-- The run is paused in the delay and resumed at once. -/
def lateActs : List Act :=
  [.move (.wait 400), .call 0 .pause, .move (.turn 2), .move (.turn 1), .call 0 .resume] ++
    turns 3 3 ++ [.move (.wait 1000)] ++ turns 3 2 ++ [.move (.wait 600)] ++ turns 3 2

/-- The whole test is replayed before the rest of the delay in it, and the drive comes a second
late. -/
theorem not_keepsTime_late :
    ¬ ∀ (w : World) (id : RunId) (r : Run) (history : List (Part × Command)) (d : Int) (a b : Act)
      (acts : List Act), HasStarted id w history → w.controller.runs.get? id = some r →
      Command.bodyFits r.script.children = true → w.Delays id d a acts b →
      (w.does a).keepsLayoutIn acts = true → (w.does a).KeepsTime id d acts := by
  intro h
  have hrun : ((delayTrial lateCommands).controller.runs.get? 0).map (·.script.children) =
      some lateCommands := by
    decide +kernel
  obtain ⟨r, hr, hchildren⟩ := Option.map_eq_some_iff.mp hrun
  have hdelays : (delayTrial lateCommands).Delays 0 1000 (.move (.turn 1)) lateActs
      (.move (.turn 1)) := by
    refine ⟨by decide +kernel, fun cmd hcmd => ?_, ⟨.act (.drive .forward 40), by decide +kernel⟩,
      by decide +kernel⟩
    have hacts : ((delayTrial lateCommands).does (.move (.turn 1))).startedIn 0 lateActs =
        [(.replay, .test .closed 5 [.act (.delay 1000)]), (.replay, .act (.delay 1000)),
          (.replay, .act (.delay 600))] := by
      decide +kernel
    simp [hacts] at hcmd
  have hkeeps := h _ 0 r _ 1000 _ _ _ (hasStarted_delayTrial lateCommands) hr
    (hchildren ▸ by decide) hdelays (by decide +kernel)
  exact absurd hkeeps (by unfold KeepsTime; decide +kernel)

end World

end Signalbox
