import Signalbox.Proofs.Control.Pause

/-
  Signalbox/Proofs/Control/Calls.lean --- calls to runs that may be off the list.

  A client reaches a run by its name, and only while the run is on the list.  Who
  has got hold of a run can pause, resume and stop it at any time, also after it was
  stopped and its name has gone on to another run.  So a run may be stopped and on
  the list, and what sound scenes say of live runs is too much.  What is left is
  enough to follow one run through its states: whoever calls, a run has a replay
  exactly while it is being resumed.
-/

set_option autoImplicit false

namespace Signalbox

/-! ## Calls -/

/-- What may be asked of a run. -/
inductive RunCall where
  | pause
  | resume
  | stop
  deriving DecidableEq, Repr

/-- The job of a call. -/
def RunCall.job (id : RunId) : RunCall → Job
  | pause => .pauseRun id
  | resume => .resumeRun id
  | stop => .stopRun id

namespace World

/-- What may happen next when runs are also called by those who have got hold of them. -/
inductive Act where
  | move (m : Move)
  | call (id : RunId) (c : RunCall)

/-- The world after an act. -/
def does (w : World) : Act → World
  | .move m => w.after m
  | .call id c => { w with tasks := w.tasks ++ [.ofJobs [c.job id]] }

/-- The job that an act does, if any. -/
def doing? (w : World) : Act → Option Job
  | .move m => w.job? m
  | .call _ _ => none

/-- What some acts lead to from a controller that has run nothing. -/
inductive Attended : World → Prop
  | start {c : Controller} (fresh : c.IsFresh) : Attended (.ofController c)
  | act {w : World} (a : Act) (h : Attended w) : Attended (w.does a)

end World

/-! ## What becomes of a run -/

/-- What a job makes of a run at a moment. -/
inductive Run.Becomes (now : Nat) (id : RunId) (r : Run) (job : Option Job) : Run → Prop
  | same : Becomes now id r job r
  | pause {r' : Run} (paused : r.pause? now = some r') : Becomes now id r job r'
  | resume {r' : Run} (resumed : r.resume? = some r') : Becomes now id r job r'
  | settle {r' : Run} (resumed : r.resume? = some r') : Becomes now id r job r'.settled
  | replayed (resuming : r.state = .resuming) : Becomes now id r job r.settled
  | stop : Becomes now id r job r.stop
  | start (part : Part) (c : Command) (doing : job = some (.command id part c))
      (ready : r.readiness part = .ready) (phase : part = .replay → r.state = .resuming) :
      Becomes now id r job (r.record now c.isDelay c.text)

namespace Books

variable {b b' : Books} {now : Nat} {id id' : RunId} {r : Run} {job : Option Job}

/-- Whether a run is being resumed. -/
def isResuming (b : Books) (id : RunId) : Bool :=
  (b.runs.get? id).any fun r => r.state = .resuming

/-- No run has a number that is yet to come. -/
def Numbered (b : Books) : Prop := ∀ id, b.runs.size ≤ id → b.runs.get? id = none

theorem isResuming_eq (hr : b.runs.get? id = some r) :
    b.isResuming id = decide (r.state = .resuming) := by
  rw [isResuming, hr]
  rfl

/-! ### Changes of runs -/

theorem Numbered.modifyRun (h : b.Numbered) (id : RunId) (change : Run → Run) :
    (b.modifyRun id change).Numbered := by
  intro id' hid'
  have hsize : (b.modifyRun id change).runs.size = b.runs.size := Table.size_modify _ _ _
  exact b.runs_modifyRun_eq_none.mpr (h id' (hsize ▸ hid'))

theorem isResuming_modifyRun (change : Run → Run) :
    (b.modifyRun id change).isResuming id' =
      if id = id' then (b.runs.get? id').any fun r => (change r).state = .resuming
      else b.isResuming id' := by
  rw [isResuming, runs_modifyRun]
  split
  · exact Option.any_map
  · rfl

/-- A change of a run that leaves open whether it is being resumed. -/
theorem isResuming_modifyRun_eq (change : Run → Run)
    (hchange : ∀ r, b.runs.get? id = some r →
      ((change r).state = .resuming ↔ r.state = .resuming)) :
    (b.modifyRun id change).isResuming id' = b.isResuming id' := by
  rw [isResuming_modifyRun]
  split
  · rename_i hid
    subst hid
    cases hr : b.runs.get? id with
    | none => simp [isResuming, hr]
    | some r => simp [isResuming, hr, hchange r hr]
  · rfl

/-- A run is put in place of what it was before. -/
theorem isResuming_put {r' : Run} (hr : b.runs.get? id = some r) :
    (b.modifyRun id fun _ => r').isResuming id' =
      if id = id' then decide (r'.state = .resuming) else b.isResuming id' := by
  rw [isResuming_modifyRun]
  split
  · rename_i hid
    simp [← hid, hr]
  · rfl

theorem isResuming_put_eq {r' : Run} (hr : b.runs.get? id = some r)
    (hstate : r'.state = .resuming ↔ r.state = .resuming) :
    (b.modifyRun id fun _ => r').isResuming id' = b.isResuming id' := by
  apply isResuming_modifyRun_eq
  intro r'' hr''
  obtain rfl := Option.some.inj (hr.symm.trans hr'')
  exact hstate

/-- The change of one run makes of every run what it should when it does of that one. -/
theorem becomes_modifyRun {change : Run → Run} (hr : b.runs.get? id = some r)
    (hchange : id' = id → r.Becomes now id job (change r)) :
    ∃ r', (b.modifyRun id' change).runs.get? id = some r' ∧ r.Becomes now id job r' := by
  rw [runs_modifyRun]
  split
  · rename_i hid
    exact ⟨change r, by rw [hr]; rfl, hchange hid⟩
  · exact ⟨r, hr, .same⟩

theorem becomes_put {r₀ r' : Run} (hr : b.runs.get? id = some r)
    (hr₀ : b.runs.get? id' = some r₀) (hbecomes : r₀.Becomes now id' job r') :
    ∃ r'', (b.modifyRun id' fun _ => r').runs.get? id = some r'' ∧ r.Becomes now id job r'' := by
  apply becomes_modifyRun hr
  rintro rfl
  obtain rfl := Option.some.inj (hr.symm.trans hr₀)
  exact hbecomes

/-! ### Jobs that start runs -/

theorem Numbered.grow (h : b.Numbered) (hgrows : b.Grows b') : b'.Numbered := by
  cases hgrows with
  | same => exact h
  | startRun script loco root =>
    have hsize : (b.startRun script loco root).runs.size = b.runs.size + 1 :=
      Table.size_insert _ (h _ (Nat.le_refl _))
    intro id hid
    rw [hsize] at hid
    rw [runs_startRun, if_neg (by omega)]
    exact h id (by omega)
  | begin _ => exact h

theorem Numbered.isResuming_grow (h : b.Numbered) (hgrows : b.Grows b') (id : RunId) :
    b'.isResuming id = b.isResuming id := by
  cases hgrows with
  | same => rfl
  | startRun script loco root =>
    rw [isResuming, runs_startRun]
    split
    · rename_i hid
      simp [isResuming, ← hid, h _ (Nat.le_refl _), Run.ofScript]
    · rfl
  | begin _ => rfl

theorem Numbered.becomes_grow (h : b.Numbered) (hgrows : b.Grows b')
    (hr : b.runs.get? id = some r) :
    ∃ r', b'.runs.get? id = some r' ∧ r.Becomes now id job r' :=
  ⟨r, Scene.runs_grows (h _ (Nat.le_refl _)) hgrows hr, .same⟩

/-! ### Plain jobs -/

variable {j : Job}

theorem Numbered.plainly (h : b.Numbered) (deed : b.Plainly now j b') : b'.Numbered := by
  cases deed with
  | grow grown => exact h.grow grown
  | pause _ _ _ => exact h.modifyRun _ _
  | resume _ => exact h
  | @stop pid _ _ => exact Numbered.modifyRun (b := b.retire pid) h _ _

theorem Numbered.isResuming_plainly (h : b.Numbered) (deed : b.Plainly now j b') (id : RunId) :
    b'.isResuming id = b.isResuming id := by
  cases deed with
  | grow grown => exact h.isResuming_grow grown id
  | pause _ run paused =>
    obtain ⟨-, hstate, rfl⟩ := Run.pause?_eq_some paused
    exact isResuming_put_eq run (by simp [Run.withState, hstate])
  | resume _ => rfl
  | @stop pid _ _ => exact isResuming_modifyRun_eq (b := b.retire pid) Run.stop fun _ _ => Iff.rfl

theorem Numbered.becomes_plainly (h : b.Numbered) (deed : b.Plainly now j b')
    (hr : b.runs.get? id = some r) :
    ∃ r', b'.runs.get? id = some r' ∧ r.Becomes now id (some j) r' := by
  cases deed with
  | grow grown => exact h.becomes_grow grown hr
  | pause _ run paused => exact becomes_put hr run (.pause paused)
  | resume _ => exact ⟨r, hr, .same⟩
  | @stop pid _ _ => exact becomes_modifyRun (b := b.retire pid) hr fun _ => .stop

/-! ### Jobs of runs -/

variable {part : Part}

theorem Numbered.serving (h : b.Numbered) (deed : b.Serving now id part j b') : b'.Numbered := by
  cases deed with
  | pass _ => exact h
  | skip _ => exact h
  | start _ _ grown => exact (h.modifyRun _ _).grow grown

theorem Numbered.isResuming_serving (h : b.Numbered) (deed : b.Serving now id part j b')
    (id' : RunId) : b'.isResuming id' = b.isResuming id' := by
  cases deed with
  | pass _ => rfl
  | skip _ => rfl
  | start _ _ grown =>
    rw [(h.modifyRun _ _).isResuming_grow grown]
    exact isResuming_modifyRun_eq _ fun _ _ => Iff.rfl

theorem Numbered.becomes_serving (h : b.Numbered) (deed : b.Serving now id' part j b')
    (hr : b.runs.get? id = some r) (hphase : part = .replay → b.isResuming id' = true) :
    ∃ r', b'.runs.get? id = some r' ∧ r.Becomes now id (some j) r' := by
  cases deed with
  | pass _ => exact ⟨r, hr, .same⟩
  | skip _ => exact ⟨r, hr, .same⟩
  | @start c r₀ _ run ready grown =>
    obtain ⟨r', hr', hbecomes⟩ : ∃ r',
        (b.modifyRun id' (·.record now c.isDelay c.text)).runs.get? id = some r' ∧
          r.Becomes now id (some (.command id' part c)) r' := by
      apply becomes_modifyRun hr
      rintro rfl
      obtain rfl := Option.some.inj (hr.symm.trans run)
      refine .start part c rfl ready fun hpart => ?_
      simpa [isResuming_eq hr] using hphase hpart
    exact ⟨r', Scene.runs_grows ((h.modifyRun _ _) _ (Nat.le_refl _)) grown hr', hbecomes⟩

end Books

/-! ## Scenes -/

namespace Scene

/-- What may happen to a scene when runs are also called by those who have got hold of them. -/
inductive Handled (now : Nat) (s : Scene) : Option Job → Scene → Prop
  | step {job : Option Job} {s' : Scene} (h : Step now s job s') : Handled now s job s'
  | call (id : RunId) (c : RunCall) : Handled now s none ⟨s.books, [c.job id] ::ₘ s.tasks⟩
  | pause {id : RunId} {next : List Job} {tasks : Multiset (List Job)} {r r' : Run}
      (task : s.tasks = [.pauseRun id] ::ₘ tasks) (run : s.books.runs.get? id = some r)
      (paused : r.pause? now = some r') (follow : ∀ j ∈ next, j.IsPlain) :
      Handled now s (some (.pauseRun id)) ⟨s.books.modifyRun id fun _ => r', next ::ₘ tasks⟩
  | pass {id : RunId} {next : List Job} {tasks : Multiset (List Job)}
      (task : s.tasks = [.pauseRun id] ::ₘ tasks) (follow : ∀ j ∈ next, j.IsPlain) :
      Handled now s (some (.pauseRun id)) ⟨s.books, next ::ₘ tasks⟩
  | stop {id : RunId} {tasks : Multiset (List Job)} (task : s.tasks = [.stopRun id] ::ₘ tasks) :
      Handled now s (some (.stopRun id)) ⟨s.books.modifyRun id Run.stop, [] ::ₘ tasks⟩

/-- The jobs of a task, which may be a call. -/
inductive IsDuty : List Job → Prop
  | task {jobs : List Job} (h : IsTask jobs) : IsDuty jobs
  | call (id : RunId) (c : RunCall) : IsDuty [c.job id]

theorem isDuty_plain {jobs : List Job} (h : ∀ j ∈ jobs, j.IsPlain) : IsDuty jobs :=
  .task (.plain h)

/-- A run has a replay exactly while it is being resumed. -/
structure Phased (s : Scene) : Prop where
  numbered : s.books.Numbered
  taken : s.books.started = []
  duty : ∀ jobs ∈ s.tasks, IsDuty jobs
  replay : ∀ id, underway s.tasks (id, .replay) = (s.books.isResuming id).toNat

variable {b b' : Books} {tasks : Multiset (List Job)} {old new : List Job} {now : Nat}
  {s s' : Scene} {job : Option Job}

/-! ### One task -/

/-- The turn of a task, with the tasks that it starts. -/
theorem Phased.turned (h : Phased ⟨b, old ::ₘ tasks⟩) (hnumbered : b'.Numbered)
    (hnew : IsDuty new)
    (hbegun : ∀ jobs ∈ begun b', IsTask jobs ∧ ∀ id, (id, .replay) ∉ closings jobs)
    (hcount : ∀ id, (b'.isResuming id).toNat + (closings old).count (id, .replay) =
      (b.isResuming id).toNat + (closings new).count (id, .replay)) :
    Phased ⟨b'.taken, new ::ₘ (begun b' + tasks)⟩ := by
  have hstarted (id : RunId) : underway (begun b') (id, .replay) = 0 := by
    by_contra hpos
    obtain ⟨jobs, hjobs, hid⟩ := exists_of_underway_pos (Nat.pos_of_ne_zero hpos)
    exact (hbegun jobs hjobs).2 id hid
  have hadd (key : RunId × Part) :
      underway (begun b' + tasks) key = underway (begun b') key + underway tasks key := by
    simp [underway]
  refine ⟨hnumbered, rfl, fun jobs hjobs => ?_, fun id => ?_⟩
  · rcases Multiset.mem_cons.mp hjobs with rfl | hjobs
    · exact hnew
    · rcases Multiset.mem_add.mp hjobs with hjobs | hjobs
      · exact .task (hbegun jobs hjobs).1
      · exact h.duty jobs (Multiset.mem_cons_of_mem hjobs)
  · have hbefore : underway (old ::ₘ tasks) (id, .replay) = (b.isResuming id).toNat := h.replay id
    have hchange := hcount id
    change _ = (b'.isResuming id).toNat
    rw [underway_cons] at hbefore
    rw [underway_cons, hadd, hstarted]
    omega

/-- The turn of a task that starts no other. -/
theorem Phased.advanced (h : Phased ⟨b, old ::ₘ tasks⟩) (hnumbered : b'.Numbered)
    (hstarted : b'.started = []) (hnew : IsDuty new)
    (hcount : ∀ id, (b'.isResuming id).toNat + (closings old).count (id, .replay) =
      (b.isResuming id).toNat + (closings new).count (id, .replay)) :
    Phased ⟨b', new ::ₘ tasks⟩ := by
  have hturned := h.turned hnumbered hnew (by simp [begun_eq_zero hstarted]) hcount
  rwa [begun_eq_zero hstarted, Books.taken_eq hstarted, Multiset.zero_add] at hturned

/-- A task ends that serves no replay. -/
theorem Phased.ended (h : Phased ⟨b, old ::ₘ tasks⟩) (hclosings : closings old = []) :
    Phased ⟨b, tasks⟩ := by
  refine ⟨h.numbered, h.taken, fun jobs hjobs => h.duty jobs (Multiset.mem_cons_of_mem hjobs),
    fun id => ?_⟩
  have hbefore := h.replay id
  simpa [underway_cons, hclosings] using hbefore

/-- A task begins that serves no replay. -/
theorem Phased.added (h : Phased ⟨b, tasks⟩) (hnew : IsDuty new) (hclosings : closings new = []) :
    Phased ⟨b, new ::ₘ tasks⟩ := by
  refine ⟨h.numbered, h.taken, fun jobs hjobs => ?_, fun id => ?_⟩
  · rcases Multiset.mem_cons.mp hjobs with rfl | hjobs
    · exact hnew
    · exact h.duty jobs hjobs
  · have hbefore := h.replay id
    simpa [underway_cons, hclosings] using hbefore

theorem closings_call (id : RunId) (c : RunCall) : closings [c.job id] = [] := by
  cases c <;> rfl

theorem begun_of_none (hb : b'.started = []) :
    ∀ jobs ∈ begun b', IsTask jobs ∧ ∀ id, (id, .replay) ∉ closings jobs := by
  simp [begun_eq_zero hb]

theorem begun_of_grows (hb : b.started = []) (hgrows : b.Grows b') :
    ∀ jobs ∈ begun b', IsTask jobs ∧ ∀ id, (id, .replay) ∉ closings jobs := by
  intro jobs hjobs
  cases hgrows with
  | same => exact begun_of_none hb jobs hjobs
  | startRun script loco root =>
    rw [begun_startRun hb, Multiset.mem_singleton] at hjobs
    subst hjobs
    exact ⟨isTask_scriptJobs _ script, by simp [closings_scriptJobs]⟩
  | begin plain =>
    rw [begun_begin hb, Multiset.mem_singleton] at hjobs
    subst hjobs
    exact ⟨.plain plain, by simp [closings_plain plain]⟩

theorem begun_of_plainly {j : Job} (hb : b.started = []) (deed : b.Plainly now j b') :
    ∀ jobs ∈ begun b', IsTask jobs ∧ ∀ id, (id, .replay) ∉ closings jobs := by
  cases deed with
  | grow grown => exact begun_of_grows hb grown
  | pause _ _ _ => exact begun_of_none hb
  | @resume pid id _ =>
    intro jobs hjobs
    rw [begun_begin hb, Multiset.mem_singleton] at hjobs
    subst hjobs
    exact ⟨.resuming (by simp [Job.IsPlain]), by simp [closings, Job.closes]⟩
  | stop _ => exact begun_of_none hb

theorem begun_of_serving {id : RunId} {part : Part} {j : Job} (hb : b.started = [])
    (deed : b.Serving now id part j b') :
    ∀ jobs ∈ begun b', IsTask jobs ∧ ∀ id, (id, .replay) ∉ closings jobs := by
  cases deed with
  | pass _ => exact begun_of_none hb
  | skip _ => exact begun_of_none hb
  | @start c r _ _ _ grown =>
    have hstarted : (b.modifyRun id (·.record now c.isDelay c.text)).started = [] := hb
    exact begun_of_grows hstarted grown

/-- While a task serves a replay, its run is being resumed. -/
theorem Phased.isResuming (h : s.Phased) {jobs : List Job} {id : RunId} (hjobs : jobs ∈ s.tasks)
    (hid : (id, .replay) ∈ closings jobs) : s.books.isResuming id = true := by
  have hpos := underway_pos hjobs hid
  rw [h.replay id] at hpos
  exact Bool.toNat_eq_one.mp (by have := Bool.toNat_le (s.books.isResuming id); omega)

/-- A task that begins a replay is the one that its run is resumed by. -/
theorem Phased.resumed {id : RunId} {rest next : List Job}
    (h : Phased ⟨b, (.resumeRun id :: rest) ::ₘ tasks⟩) (plain : ∀ j ∈ rest, j.IsPlain)
    (deed : b.Resuming id b' next) : Phased ⟨b', (next ++ rest) ::ₘ tasks⟩ := by
  have hstarted : b.started = [] := h.taken
  cases deed with
  | none _ => exact h.advanced h.numbered hstarted (isDuty_plain plain) fun id' => rfl
  | settle run resumed =>
    obtain ⟨hstate, rfl⟩ := Run.resume?_eq_some resumed
    refine h.advanced (h.numbered.modifyRun _ _) hstarted (isDuty_plain plain) fun id' => ?_
    rw [Books.isResuming_put_eq run (by simp [Run.state_settled_ne, hstate])]
    rfl
  | @replay r r' active text run resumed serves =>
    obtain ⟨hstate, rfl⟩ := Run.resume?_eq_some resumed
    rw [List.append_assoc]
    refine h.advanced (h.numbered.modifyRun _ _) hstarted
      (.task (.serving serves (.replay plain))) fun id' => ?_
    have hold : closings (.resumeRun id :: rest) = [] :=
      (closings_resumeRun id rest).trans (closings_plain plain)
    have hnew : closings (active ++ .endReplay id text :: rest) = [(id, .replay)] := by
      rw [closings_append, closings_serves serves]
      exact (Closing.replay plain : Closing id .replay (.endReplay id text :: rest)).closings
    rw [Books.isResuming_put run, List.singleton_append, hold, hnew, List.count_singleton]
    by_cases hid : id = id'
    · simp [← hid, Books.isResuming_eq run, hstate, Run.withState]
    · simp [hid]

/-! ### Steps -/

/-- A run has a replay exactly while it is being resumed, whatever happens. -/
theorem Phased.step (h : s.Phased) (hstep : Step now s job s') : s'.Phased := by
  obtain ⟨b, all⟩ := s
  have hstarted : b.started = [] := h.taken
  cases hstep with
  | stay => exact h
  | ask =>
    exact h.added (isDuty_plain (by simp [Job.IsPlain])) (closings_plain (by simp [Job.IsPlain]))
  | ended task =>
    obtain rfl : all = _ := task
    exact h.ended rfl
  | @plain job rest next tasks b' task plain deed follow =>
    obtain rfl : all = _ := task
    have hrest : ∀ j ∈ next ++ rest, j.IsPlain := fun j hj => by
      rcases List.mem_append.mp hj with hj | hj
      · exact follow j hj
      · exact plain j (List.mem_cons_of_mem _ hj)
    refine h.turned (h.numbered.plainly deed) (isDuty_plain hrest)
      (begun_of_plainly hstarted deed) fun id => ?_
    rw [h.numbered.isResuming_plainly deed, closings_plain hrest, closings_plain plain]
  | fail task plain =>
    obtain rfl : all = _ := task
    exact h.ended (closings_plain plain)
  | @serve id part job active closing next tasks b' task serves closes deed follow =>
    obtain rfl : all = _ := task
    have hactive : ∀ j ∈ next ++ active, j.Serves id part := fun j hj => by
      rcases List.mem_append.mp hj with hj | hj
      · exact follow j hj
      · exact serves j (List.mem_cons_of_mem _ hj)
    refine h.turned (h.numbered.serving deed) ?_ (begun_of_serving hstarted deed) fun id' => ?_
    · rw [← List.append_assoc]
      exact .task (.serving hactive closes)
    · rw [h.numbered.isResuming_serving deed, ← List.append_assoc, ← List.cons_append,
        closings_append (next ++ active), closings_append (job :: active),
        closings_serves hactive, closings_serves serves]
  | @finish id tasks task =>
    obtain rfl : all = _ := task
    have hruns : (b.finishRun id).runs = b.runs := b.runs_finishRun id
    refine h.advanced ?_ ((b.started_finishRun id).trans hstarted) (isDuty_plain (by simp))
      fun id' => ?_
    · rw [Books.Numbered, hruns]
      exact h.numbered
    · rw [Books.isResuming, hruns]
      simp [closings, Job.closes, Books.isResuming]
  | @settle id text rest tasks task plain =>
    obtain rfl : all = _ := task
    have hclosings : closings (.endReplay id text :: rest) = [(id, .replay)] :=
      (Closing.replay plain).closings
    have hresuming : b.isResuming id = true :=
      h.isResuming (Multiset.mem_cons_self _ _) (hclosings ▸ List.mem_singleton.mpr rfl)
    refine h.advanced (h.numbered.modifyRun _ _) hstarted (isDuty_plain plain) fun id' => ?_
    rw [Books.isResuming_modifyRun, hclosings, closings_plain plain, List.count_singleton]
    by_cases hid : id = id'
    · simp [hid ▸ hresuming, hid, Run.state_settled_ne]
    · simp [hid]
  | resume task plain deed =>
    obtain rfl : all = _ := task
    exact h.resumed plain deed

theorem Phased.handled (h : s.Phased) (hstep : Handled now s job s') : s'.Phased := by
  obtain ⟨b, all⟩ := s
  have hstarted : b.started = [] := h.taken
  cases hstep with
  | step hstep => exact h.step hstep
  | call id c => exact h.added (.call id c) (closings_call id c)
  | pause task run paused follow =>
    obtain rfl : all = _ := task
    obtain ⟨-, hstate, rfl⟩ := Run.pause?_eq_some paused
    refine h.advanced (h.numbered.modifyRun _ _) hstarted (isDuty_plain follow) fun id' => ?_
    rw [Books.isResuming_put_eq run (by simp [Run.withState, hstate]), closings_plain follow]
    rfl
  | pass task follow =>
    obtain rfl : all = _ := task
    refine h.advanced h.numbered hstarted (isDuty_plain follow) fun id' => ?_
    rw [closings_plain follow]
    rfl
  | stop task =>
    obtain rfl : all = _ := task
    refine h.advanced (h.numbered.modifyRun _ _) hstarted (isDuty_plain (by simp)) fun id' => ?_
    rw [Books.isResuming_modifyRun_eq Run.stop fun _ _ => Iff.rfl]
    rfl

variable {id : RunId} {r : Run}

/-- What a step makes of a run. -/
theorem Phased.becomes_step (h : s.Phased) (hstep : Step now s job s')
    (hr : s.books.runs.get? id = some r) :
    ∃ r', s'.books.runs.get? id = some r' ∧ r.Becomes now id job r' := by
  cases hstep with
  | stay => exact ⟨r, hr, .same⟩
  | ask => exact ⟨r, hr, .same⟩
  | ended _ => exact ⟨r, hr, .same⟩
  | plain _ _ deed _ =>
    have hdeed := h.numbered.becomes_plainly deed hr
    exact hdeed
  | fail _ _ => exact ⟨r, hr, .same⟩
  | @serve id' part job active closing next tasks b' task serves closes deed follow =>
    have hdeed := h.numbered.becomes_serving deed hr fun hpart => by
      subst hpart
      refine h.isResuming (task ▸ Multiset.mem_cons_self _ _) ?_
      rw [← List.cons_append, closings_append, closes.closings]
      simp
    exact hdeed
  | finish _ => exact ⟨r, by rw [Books.runs_finishRun, hr], .same⟩
  | @settle id' text rest tasks task plain =>
    refine Books.becomes_modifyRun hr fun hid => .replayed ?_
    have hresuming : s.books.isResuming id' = true := by
      refine h.isResuming (task ▸ Multiset.mem_cons_self _ _) ?_
      rw [(Closing.replay plain : Closing id' .replay _).closings]
      exact List.mem_singleton.mpr rfl
    simpa [hid, Books.isResuming_eq hr] using hresuming
  | resume _ _ deed =>
    cases deed with
    | none _ => exact ⟨r, hr, .same⟩
    | settle run resumed => exact Books.becomes_put hr run (.settle resumed)
    | replay run resumed _ => exact Books.becomes_put hr run (.resume resumed)

theorem Phased.becomes (h : s.Phased) (hstep : Handled now s job s')
    (hr : s.books.runs.get? id = some r) :
    ∃ r', s'.books.runs.get? id = some r' ∧ r.Becomes now id job r' := by
  cases hstep with
  | step hstep => exact h.becomes_step hstep hr
  | call _ _ => exact ⟨r, hr, .same⟩
  | pause _ run paused _ => exact Books.becomes_put hr run (.pause paused)
  | pass _ _ => exact ⟨r, hr, .same⟩
  | stop _ => exact Books.becomes_modifyRun hr fun _ => .stop

end Scene

/-! ## Worlds -/

namespace World

variable {w : World} {place : Nat} {t : Task}

/-- The turn of a call is a step of the scene. -/
theorem handled_turn_call (htaken : w.controller.started = []) {id : RunId} {c : RunCall}
    (h : w.tasks[place]? = some t) (hjobs : t.jobs = [c.job id]) :
    w.scene.Handled w.now (some (c.job id)) (w.turn place).scene := by
  have htasks : w.scene.tasks = [c.job id] ::ₘ w.others place := hjobs ▸ tasks_scene h
  have hquiet (b : Books) (hb : b.started = w.controller.started) :
      b.taken = b ∧ Scene.begun b = 0 :=
    ⟨Books.taken_eq (hb.trans htaken), Scene.begun_eq_zero (hb.trans htaken)⟩
  cases c with
  | pause =>
    have hrun : w.controller.run w.now (.pauseRun id) =
        .done (w.controller.pauseRun w.now id).1 (w.controller.pauseRun w.now id).2 none := rfl
    have hplain : ∀ j ∈ (w.controller.pauseRun w.now id).2, j.IsPlain :=
      w.controller.plain_pauseRun id
    rcases (w.controller.books_pauseRun id :
      (w.controller.pauseRun w.now id).1.books = _ ∨ _) with hbooks | ⟨r, r', run, paused, hbooks⟩
    · obtain ⟨htaken', hbegun⟩ := hquiet _ (congrArg Books.started hbooks)
      rw [scene_turn_done h hjobs hrun, htaken', hbegun, Multiset.zero_add, List.append_nil, hbooks]
      exact .pass htasks hplain
    · obtain ⟨htaken', hbegun⟩ := hquiet _ (congrArg Books.started hbooks)
      rw [scene_turn_done h hjobs hrun, htaken', hbegun, Multiset.zero_add, List.append_nil, hbooks]
      exact .pause htasks run paused hplain
  | resume =>
    exact .step (scene_turn htaken (.resuming (by simp)) h hjobs)
  | stop =>
    have hrun : w.controller.run w.now (.stopRun id) =
        .done (w.controller.stopRun id) [] none := rfl
    obtain ⟨htaken', hbegun⟩ := hquiet (w.controller.stopRun id).books rfl
    rw [scene_turn_done h hjobs hrun, htaken', hbegun, Multiset.zero_add]
    exact .stop htasks

/-- Every act is a step of the scene. -/
theorem handled_does (hs : w.scene.Phased) (a : Act) :
    w.scene.Handled w.now (w.doing? a) (w.does a).scene := by
  cases a with
  | call id c =>
    have htasks : (w.does (.call id c)).scene.tasks = [c.job id] ::ₘ w.scene.tasks := by
      simp only [scene, does, List.map_append, ← Multiset.coe_add]
      exact Multiset.add_comm _ _
    have hstep : w.scene.Handled w.now none ⟨w.scene.books, [c.job id] ::ₘ w.scene.tasks⟩ :=
      .call id c
    rwa [← htasks] at hstep
  | move m =>
    by_cases hcall : ∃ place t id c, m = .turn place ∧ w.tasks[place]? = some t ∧
        t.jobs = [RunCall.job id c]
    · obtain ⟨place, t, id, c, rfl, ht, hjobs⟩ := hcall
      have hjob : w.doing? (.move (.turn place)) = some (c.job id) := by
        simp [doing?, job?, ht, hjobs]
      rw [hjob]
      exact handled_turn_call hs.taken ht hjobs
    · refine .step (scene_moved hs.taken m fun place t hm ht => ?_)
      generalize hjobs : t.jobs = jobs
      cases hjobs ▸ hs.duty _ (jobs_mem_scene ht) with
      | task h => exact h
      | call id c => exact absurd ⟨place, t, id, c, hm, ht, hjobs⟩ hcall

theorem phased_ofController {c : Controller} (fresh : c.IsFresh) :
    (ofController c).scene.Phased := by
  have hs := sound_ofController fresh
  refine ⟨fun id => (hs.books.run_none id).mpr, hs.taken,
    fun jobs hjobs => .task (hs.task jobs hjobs), fun id => ?_⟩
  have hnone : (ofController c).scene.books.runs.get? id = none := by
    simp [ofController, scene, Controller.takeStarted, Controller.books, fresh.runs,
      Table.get?_empty]
  rw [hs.unknown id .replay hnone, Books.isResuming, hnone]
  rfl

theorem Attended.phased (h : w.Attended) : w.scene.Phased := by
  induction h with
  | start fresh => exact phased_ofController fresh
  | act a _ ih => exact ih.handled (handled_does ih a)

end World

end Signalbox
