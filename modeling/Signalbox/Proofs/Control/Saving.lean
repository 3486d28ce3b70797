import Signalbox.Proofs.Control.Spheres
import Signalbox.Proofs.Control.Traffic

/-
  Signalbox/Proofs/Control/Saving.lean --- who writes the layout into the store.

  Nodes and links are saved by the operations on the layout and by what they leave to be
  saved, and by nobody else.  Whatever another job writes is about scripts or locos, it
  leaves a store that never fails as one, and nothing that is to be saved of turnouts comes
  of it.
-/

set_option autoImplicit false

namespace Signalbox

/-! ## Changes in the store -/

/-- Whether a change is about a node. -/
def RowChange.isAboutTrack : RowChange → Bool
  | saveState _ _ | saveCoordinate _ _ => true
  | _ => false

namespace Store

variable {s : Store}

theorem rows_flush (s : Store) : s.flush.2.rows = s.rows := by
  unfold flush
  split <;> rfl

/-- A change is made in the rows, or it is not. -/
theorem rows_change (s : Store) (change : RowChange) :
    (s.change change).2.rows = s.rows ∨ s.rows.apply change = .ok (s.change change).2.rows := by
  unfold Store.change
  split
  · exact .inl rfl
  · split
    · exact .inl rfl
    · rename_i rows happly
      rw [rows_flush]
      exact .inr happly

/-- A store that never fails stays one, whatever is changed. -/
theorem NeverFails.after (h : s.NeverFails) (change : RowChange) :
    (s.change change).2.NeverFails := by
  cases happly : s.rows.apply change with
  | error e =>
    have hsame : (s.change change).2 = s := by
      rw [Store.change, h.refuses, happly]
    rwa [hsame]
  | ok rows =>
    obtain ⟨s', hchange, hs', -⟩ := h.change happly
    rwa [hchange]

/-- A change that is about no node leaves nodes and links as they are. -/
theorem track_change {change : RowChange} (hchange : change.isAboutTrack = false) :
    (s.change change).2.rows.nodes = s.rows.nodes ∧
      (s.change change).2.rows.links = s.rows.links := by
  rcases s.rows_change change with hsame | happly
  · rw [hsame]
    exact ⟨rfl, rfl⟩
  · generalize (s.change change).2.rows = rows at happly
    cases change with
    | saveScript row => rw [← Except.ok.inj happly]; exact ⟨rfl, rfl⟩
    | deleteScript id => rw [← Except.ok.inj happly]; exact ⟨rfl, rfl⟩
    | insertLoco record => rw [← Except.ok.inj happly]; exact ⟨rfl, rfl⟩
    | deleteLoco address => rw [← Except.ok.inj happly]; exact ⟨rfl, rfl⟩
    | updateLoco previous record =>
      simp only [Rows.apply, Rows.updateLoco] at happly
      split at happly
      · rw [← Except.ok.inj happly]; exact ⟨rfl, rfl⟩
      · simp at happly
    | saveState id state => simp [RowChange.isAboutTrack] at hchange
    | saveCoordinate id place => simp [RowChange.isAboutTrack] at hchange

end Store

/-! ## What is to be saved -/

@[simp] theorem savesOf_nil : savesOf [] = [] := rfl

@[simp] theorem savesOf_cons (j : Job) (jobs : List Job) :
    savesOf (j :: jobs) = j.saves ++ savesOf jobs := rfl

@[simp] theorem savesOf_append (left right : List Job) :
    savesOf (left ++ right) = savesOf left ++ savesOf right := List.flatMap_append

@[simp] theorem savesOf_sends (refused : OnRefusal) (requests : List Request) :
    savesOf (Controller.sends refused requests) = [] := by
  simp [savesOf, Controller.sends, Job.saves]

@[simp] theorem savesOf_jobs (id : RunId) (part : Part) (commands : List Command) :
    savesOf (Command.jobs id part commands) = [] := by
  simp [savesOf, Command.jobs, Job.saves]

@[simp] theorem savesOf_scriptJobs (id : RunId) (s : Script) : savesOf (s.jobs id) = [] := by
  simp [Script.jobs, Job.saves]

/-! ## Jobs that leave nodes and links alone -/

/-- Nodes and links are as before in the store, which still works if it did, and no task that
was started has anything to save. -/
structure Controller.LeavesTrack (c c' : Controller) : Prop where
  nodes : c'.store.rows.nodes = c.store.rows.nodes
  links : c'.store.rows.links = c.store.rows.links
  works : c.store.NeverFails → c'.store.NeverFails
  started : ∀ t ∈ c'.started, t ∈ c.started ∨ savesOf t.jobs = []

/-- The outcome leaves nodes and links alone, and nothing that follows saves them. -/
def Outcome.LeavesTrack (c : Controller) : Outcome → Prop
  | .waits _ => True
  | .done c' next _ => c.LeavesTrack c' ∧ savesOf next = []
  | .fails c' _ => c.LeavesTrack c'

namespace Controller

variable {c c' c'' : Controller}

theorem LeavesTrack.of_eq (hstore : c'.store = c.store) (hstarted : c'.started = c.started) :
    c.LeavesTrack c' :=
  ⟨by rw [hstore], by rw [hstore], fun h => hstore ▸ h, fun _ ht => .inl (hstarted ▸ ht)⟩

theorem LeavesTrack.refl (c : Controller) : c.LeavesTrack c := .of_eq rfl rfl

theorem LeavesTrack.trans (h : c.LeavesTrack c') (h' : c'.LeavesTrack c'') :
    c.LeavesTrack c'' := by
  refine ⟨h'.nodes.trans h.nodes, h'.links.trans h.links, fun hc => h'.works (h.works hc),
    fun t ht => ?_⟩
  rcases h'.started t ht with ht | ht
  · exact h.started t ht
  · exact .inr ht

/-- Done, with nothing to follow. -/
theorem LeavesTrack.finished (h : c.LeavesTrack c') : (Outcome.finished c').LeavesTrack c :=
  ⟨h, rfl⟩

/-- Done, with a reply. -/
theorem LeavesTrack.answers {reply : Reply} (h : c.LeavesTrack c') :
    (Outcome.answers c' reply).LeavesTrack c := ⟨h, rfl⟩

/-- What is left alone until an outcome and by it. -/
theorem LeavesTrack.upTo {o : Outcome} (h : c.LeavesTrack c') (h' : o.LeavesTrack c') :
    o.LeavesTrack c := by
  cases o with
  | waits wait => trivial
  | done c'' next reply => exact ⟨h.trans h'.1, h'.2⟩
  | fails c'' f => exact h.trans h'

/-! ### Parts of jobs -/

theorem leavesTrack_save {change : RowChange} (hchange : change.isAboutTrack = false)
    {result : Except StorageError Unit} (hsave : c.save change = (result, c')) :
    c.LeavesTrack c' := by
  obtain rfl := congrArg Prod.snd hsave
  obtain ⟨hnodes, hlinks⟩ := c.store.track_change hchange
  exact ⟨hnodes, hlinks, fun h => h.after change, fun _ ht => .inl ht⟩

theorem leavesTrack_begin {jobs : List Job} (hjobs : savesOf jobs = []) :
    c.LeavesTrack (c.begin jobs) := by
  refine ⟨rfl, rfl, fun h => h, fun t ht => ?_⟩
  rcases List.mem_append.mp ht with ht | ht
  · exact .inl ht
  · rw [List.mem_singleton.mp ht]
    exact .inr hjobs

theorem leavesTrack_startRun (script : Script) (loco : Option LocoHandle) (root : Int) :
    c.LeavesTrack (c.startRun script loco root).2 := by
  have hbegun {c₁ : Controller} (h : c.LeavesTrack c₁) :
      c.LeavesTrack (c₁.tellRuns.begin (script.jobs c.runs.size)) := by
    have htold : c₁.LeavesTrack c₁.tellRuns := .of_eq rfl rfl
    exact (h.trans htold).trans (leavesTrack_begin (by simp))
  exact hbegun (.of_eq rfl rfl)

theorem leavesTrack_handle (e : TurnoutEvent) : c.LeavesTrack (c.handle e).2 := by
  unfold handle
  split
  · exact .refl c
  · exact leavesTrack_startRun _ none eventRoot

theorem leavesTrack_addScripts (scripts : List Script) :
    c.LeavesTrack (c.addScripts scripts).2.2 := by
  induction scripts generalizing c with
  | nil => exact .refl c
  | cons script rest ih =>
    rw [addScripts]
    split
    · rename_i hsave
      exact leavesTrack_save rfl hsave
    · rename_i hsave
      have hregistered {c' : Controller} : c'.LeavesTrack
          { c' with catalog := c'.catalog.register script } := .of_eq rfl rfl
      exact ((leavesTrack_save rfl hsave).trans hregistered).trans ih

theorem leavesTrack_act {h : LocoHandle} {a : LocoAct} {requests : List Request}
    (hact : c.act h a = .ok (c', requests)) : c.LeavesTrack c' := by
  unfold act at hact
  split at hact
  · simp at hact
  · split at hact
    · simp at hact
    · obtain ⟨rfl, -⟩ := Prod.mk.inj (Except.ok.inj hact)
      split <;> exact .of_eq rfl rfl

theorem leavesTrack_halt (h : LocoHandle) :
    c.LeavesTrack (c.halt h).1 ∧ savesOf (c.halt h).2 = [] := by
  unfold halt
  split
  · rename_i hact
    exact ⟨leavesTrack_act hact, savesOf_sends _ _⟩
  · exact ⟨.refl c, rfl⟩

theorem leavesTrack_pauseRun (now : Nat) (id : RunId) :
    c.LeavesTrack (c.pauseRun now id).1 ∧ savesOf (c.pauseRun now id).2 = [] := by
  unfold pauseRun
  split
  · exact ⟨.refl c, rfl⟩
  · rename_i run _
    have hpaused : c.LeavesTrack (c.modifyRun id fun _ => run) := .of_eq rfl rfl
    simp only
    split
    · exact ⟨hpaused, rfl⟩
    · rename_i h _
      obtain ⟨hleaves, hnext⟩ := leavesTrack_halt (c := c.modifyRun id fun _ => run) h
      exact ⟨hpaused.trans hleaves, hnext⟩

theorem leavesTrack_send? {r : Request} {result : Except DriverError Unit}
    (hsend : c.send? r = some (result, c')) : c.LeavesTrack c' := by
  unfold send? at hsend
  split at hsend
  · simp at hsend
  · obtain ⟨-, rfl⟩ := Prod.mk.inj (Option.some.inj hsend)
    exact .refl _
  · obtain rfl := congrArg Prod.snd (Option.some.inj hsend)
    exact .of_eq rfl rfl

theorem leavesTrack_connected (generation : Nat) (d : Device)
    (result : Except DriverError DriverKind) : c.LeavesTrack (c.connected generation d result) := by
  unfold connected
  split
  · split <;> exact .of_eq rfl rfl
  · split <;> exact .of_eq rfl rfl

/-! ### Operations -/

section Operations

variable (c)

theorem leavesTrack_acting (h : LocoHandle) (a : LocoAct) {next : List Job} (reply : Reply)
    (hnext : savesOf next = []) : (c.acting h a next reply).LeavesTrack c := by
  unfold acting
  split
  · exact .refl c
  · rename_i hact
    exact ⟨leavesTrack_act hact, by simp [hnext]⟩

theorem leavesTrack_actingOn (id : LocoId) (level : SyncLevel) (a : LocoAct)
    {next : Nat → List Job} (hnext : ∀ address, savesOf (next address) = []) :
    (c.actingOn id level a next).LeavesTrack c := by
  unfold actingOn
  split
  · exact .refl c
  · exact c.leavesTrack_acting _ _ _ (hnext _)

theorem leavesTrack_toggleDirection (id : LocoId) : (c.toggleDirection id).LeavesTrack c := by
  unfold toggleDirection
  split
  · exact .refl c
  · split
    · exact .refl c
    · exact c.leavesTrack_acting _ _ _ rfl

theorem leavesTrack_syncLoco (address : Nat) (level : SyncLevel) :
    (c.syncLoco address level).LeavesTrack c := by
  unfold syncLoco
  split
  · exact .refl c
  · refine ⟨?_, savesOf_sends _ _⟩
    split <;> exact .of_eq rfl rfl

theorem leavesTrack_announceSpeed (address : Nat) : (c.announceSpeed address).LeavesTrack c := by
  unfold announceSpeed
  split
  · exact .refl c
  · exact LeavesTrack.finished (.of_eq rfl rfl)

theorem leavesTrack_addLoco (name : String) (address : Nat) :
    (c.addLoco name address).LeavesTrack c := by
  unfold addLoco
  split
  · exact .refl c
  · simp only
    split
    · rename_i hsave
      exact leavesTrack_save rfl hsave
    · rename_i hsave
      exact LeavesTrack.answers ((leavesTrack_save rfl hsave).trans (.of_eq rfl rfl))

theorem leavesTrack_editLoco (id : LocoId) (name : Option String) (address : Option Nat) :
    (c.editLoco id name address).LeavesTrack c := by
  unfold editLoco
  split
  · exact .refl c
  · split
    · exact .refl c
    · simp only
      split
      · exact .refl c
      · split
        · rename_i hsave
          exact leavesTrack_save rfl hsave
        · rename_i hsave
          exact LeavesTrack.answers ((leavesTrack_save rfl hsave).trans (.of_eq rfl rfl))

theorem leavesTrack_deleteLoco (id : LocoId) : (c.deleteLoco id).LeavesTrack c := by
  unfold deleteLoco
  split
  · exact .refl c
  · split
    · rename_i hsave
      exact leavesTrack_save rfl hsave
    · rename_i hsave
      split
      · exact leavesTrack_save rfl hsave
      · exact LeavesTrack.answers ((leavesTrack_save rfl hsave).trans (.of_eq rfl rfl))

theorem leavesTrack_loadLocos : c.loadLocos.LeavesTrack c := by
  unfold loadLocos
  split
  · exact .refl c
  · exact LeavesTrack.answers (.of_eq rfl rfl)

theorem leavesTrack_runScript (id : Int) (loco : Option LocoId) :
    (c.runScript id loco).LeavesTrack c := by
  unfold runScript
  split
  · exact .refl c
  · split
    · exact LeavesTrack.answers (leavesTrack_startRun _ _ _)
    · split
      · exact .refl c
      · exact LeavesTrack.answers (leavesTrack_startRun _ _ _)

theorem leavesTrack_trigger (event : String) : (c.trigger event).LeavesTrack c := by
  unfold trigger
  split
  · exact LeavesTrack.answers (.refl c)
  · exact LeavesTrack.answers (leavesTrack_handle _)

theorem leavesTrack_pause (now : Nat) (pid : Pid) : (c.pause now pid).LeavesTrack c := by
  unfold pause
  split
  · exact .refl c
  · rename_i id _ _
    obtain ⟨hleaves, hnext⟩ := leavesTrack_pauseRun (c := c) now id
    have hrest : savesOf ((c.pauseRun now id).2 ++ [.announceRuns]) = [] := by
      rw [savesOf_append, hnext]
      rfl
    exact ⟨hleaves, hrest⟩

theorem leavesTrack_resume (pid : Pid) : (c.resume pid).LeavesTrack c := by
  unfold resume
  split
  · exact .refl c
  · exact LeavesTrack.finished ((leavesTrack_begin rfl).trans (.of_eq rfl rfl))

theorem leavesTrack_stop (pid : Pid) : (c.stop pid).LeavesTrack c := by
  unfold stop
  split
  · exact .refl c
  · rename_i id _ _
    have hstopped : c.LeavesTrack ((c.retire pid).stopRun id).tellRuns := .of_eq rfl rfl
    simp only
    split
    · exact LeavesTrack.finished hstopped
    · rename_i h _
      obtain ⟨hleaves, hnext⟩ :=
        leavesTrack_halt (c := ((c.retire pid).stopRun id).tellRuns) ⟨h.address, .all⟩
      exact ⟨hstopped.trans hleaves, hnext⟩

theorem leavesTrack_upload (text : String) : (c.upload text).LeavesTrack c := by
  unfold upload
  split
  · exact LeavesTrack.of_eq rfl rfl
  · rename_i scripts _
    have htold {c' : Controller} : c'.LeavesTrack c'.tellCatalog := .of_eq rfl rfl
    have hadded := (leavesTrack_addScripts (c := c) scripts).trans htold
    simp only
    split
    · exact hadded
    · exact LeavesTrack.answers hadded

theorem leavesTrack_loadScripts : c.loadScripts.LeavesTrack c := by
  unfold loadScripts
  split
  · exact .refl c
  · exact LeavesTrack.answers (.of_eq rfl rfl)

theorem leavesTrack_deleteScript (id : Int) : (c.deleteScript id).LeavesTrack c := by
  unfold deleteScript
  split
  · exact .refl c
  · have hdropped {catalog : Catalog} : c.LeavesTrack { c with catalog := catalog } :=
      .of_eq rfl rfl
    split
    · rename_i hsave
      exact hdropped.trans (leavesTrack_save rfl hsave)
    · rename_i hsave
      exact LeavesTrack.finished
        ((hdropped.trans (leavesTrack_save rfl hsave)).trans (.of_eq rfl rfl))

theorem leavesTrack_describe (id : Int) (text : String) : (c.describe id text).LeavesTrack c := by
  unfold describe
  split
  · exact .refl c
  · have hregistered {catalog : Catalog} : c.LeavesTrack { c with catalog := catalog } :=
      .of_eq rfl rfl
    simp only
    split
    · rename_i hsave
      exact hregistered.trans (leavesTrack_save rfl hsave)
    · rename_i hsave
      exact LeavesTrack.finished
        ((hregistered.trans (leavesTrack_save rfl hsave)).trans (.of_eq rfl rfl))

/-- A switch begins with a task that saves nothing. -/
theorem leavesTrack_switchTo (d : Device) (attempt : Attempt) :
    (Outcome.finished (c.switchTo d attempt)).LeavesTrack c := by
  have hclosed {c₁ : Controller} (h : c.LeavesTrack c₁) :
      c.LeavesTrack (c₁.begin [.connect c₁.adapter.generation d attempt]) :=
    h.trans (leavesTrack_begin rfl)
  exact LeavesTrack.finished (hclosed (.of_eq rfl rfl))

/-- What is not about the layout leaves nodes and links alone, whatever the operation. -/
theorem leavesTrack_operate (now : Nat) {op : Operation} (hop : op.sphere? ≠ some .layout) :
    (c.operate now op).LeavesTrack c := by
  cases op with
  | setTurnout id state => exact absurd rfl hop
  | setRoute start finish => exact absurd rfl hop
  | clearRoute id => exact absurd rfl hop
  | moveNode id coordinate => exact absurd rfl hop
  | addLoco name address => exact c.leavesTrack_addLoco name address
  | editLoco id name address => exact c.leavesTrack_editLoco id name address
  | deleteLoco id => exact c.leavesTrack_deleteLoco id
  | loadLocos => exact c.leavesTrack_loadLocos
  | setSpeed id speed => exact c.leavesTrack_actingOn _ _ _ fun _ => rfl
  | setDirection id d => exact c.leavesTrack_actingOn _ _ _ fun _ => rfl
  | toggleDirection id => exact c.leavesTrack_toggleDirection id
  | setFunction id number on => exact c.leavesTrack_actingOn _ _ _ fun _ => rfl
  | syncLoco address level => exact c.leavesTrack_syncLoco address level
  | actOn handle act => exact c.leavesTrack_acting handle act _ rfl
  | setPower on => exact ⟨.refl c, rfl⟩
  | upload text => exact c.leavesTrack_upload text
  | loadScripts => exact c.leavesTrack_loadScripts
  | deleteScript id => exact c.leavesTrack_deleteScript id
  | describe id text => exact c.leavesTrack_describe id text
  | runScript id loco => exact c.leavesTrack_runScript id loco
  | trigger event => exact c.leavesTrack_trigger event
  | pause pid => exact c.leavesTrack_pause now pid
  | resume pid => exact c.leavesTrack_resume pid
  | stop pid => exact c.leavesTrack_stop pid
  | request r => exact ⟨.refl c, rfl⟩
  | selectDriver name address => exact c.leavesTrack_switchTo _ _
  | selectDevice d => exact c.leavesTrack_switchTo _ _
  | switchTo d attempt => exact c.leavesTrack_switchTo d attempt

end Operations

/-! ### Jobs -/

section Jobs

variable (c)

theorem leavesTrack_driveFor (run : Run) (a : LocoAct) : (c.driveFor run a).LeavesTrack c := by
  unfold driveFor
  split
  · exact LeavesTrack.finished (.refl c)
  · split
    · exact LeavesTrack.finished (.refl c)
    · rename_i hact
      exact ⟨leavesTrack_act hact, savesOf_sends _ _⟩

theorem leavesTrack_command (now : Nat) (id : RunId) (part : Part) {cmd : Command}
    (hcmd : (Job.command id part cmd).sphere? ≠ some .layout) :
    (c.command now id part cmd).LeavesTrack c := by
  unfold command
  split
  · exact LeavesTrack.finished (.refl c)
  · rename_i run _
    split
    · exact LeavesTrack.finished (.refl c)
    · trivial
    · have hnoted : c.LeavesTrack (c.modifyRun id (·.record now cmd.isDelay cmd.text)) :=
        .of_eq rfl rfl
      simp only
      unfold effect
      split
      · exact absurd rfl hcmd
      · exact ⟨hnoted.trans (.of_eq rfl rfl), rfl⟩
      · split
        · exact LeavesTrack.finished hnoted
        · rename_i act _
          exact hnoted.upTo (leavesTrack_driveFor _ run act)
      · split
        · exact ⟨hnoted, savesOf_jobs id part _⟩
        · exact LeavesTrack.finished hnoted

theorem leavesTrack_resumeRun (id : RunId) : (c.resumeRun id).LeavesTrack c := by
  unfold resumeRun
  split
  · exact LeavesTrack.answers (.refl c)
  · simp only
    split
    · exact LeavesTrack.answers (.of_eq rfl rfl)
    · split
      · exact LeavesTrack.answers (.of_eq rfl rfl)
      · exact ⟨.of_eq rfl rfl, by simp [Job.saves]⟩

theorem leavesTrack_finishRun (id : RunId) : (c.finishRun id).LeavesTrack c := by
  unfold finishRun
  split
  · exact LeavesTrack.finished (.refl c)
  · split
    · exact LeavesTrack.finished (.of_eq rfl rfl)
    · exact LeavesTrack.finished (.refl c)

theorem leavesTrack_sending (r : Request) (refused : OnRefusal) :
    (c.sending r refused).LeavesTrack c := by
  unfold sending
  split
  · trivial
  · rename_i hsend
    exact LeavesTrack.finished (leavesTrack_send? hsend)
  · rename_i hsend
    split
    · exact leavesTrack_send? hsend
    · exact LeavesTrack.finished (leavesTrack_send? hsend)

/-- A job that is not about the layout and has nothing to save leaves nodes and links alone. -/
theorem leavesTrack_run (now : Nat) {j : Job} (hj : j.sphere? ≠ some .layout)
    (hsaves : j.saves = []) : (c.run now j).LeavesTrack c := by
  cases j with
  | operate op => exact c.leavesTrack_operate now hj
  | command id part cmd => exact c.leavesTrack_command now id part hj
  | mark id part isDelay text =>
    simp only [run, mark]
    split
    · exact LeavesTrack.finished (.refl c)
    · split
      · exact LeavesTrack.answers (.refl c)
      · trivial
      · exact LeavesTrack.answers (.of_eq rfl rfl)
  | delay id part milliseconds => exact ⟨.of_eq rfl rfl, rfl⟩
  | asleep id part alarm =>
    simp only [run, asleep]
    split
    · exact LeavesTrack.finished (.refl c)
    · split
      · exact LeavesTrack.finished (.refl c)
      · trivial
  | send r refused => exact c.leavesTrack_sending r refused
  | settings rest =>
    rw [saves_settings] at hsaves
    subst hsaves
    exact LeavesTrack.finished (.refl c)
  | finish id => exact c.leavesTrack_finishRun id
  | pauseRun id =>
    obtain ⟨hleaves, hnext⟩ := leavesTrack_pauseRun (c := c) now id
    exact ⟨hleaves, hnext⟩
  | resumeRun id => exact c.leavesTrack_resumeRun id
  | stopRun id => exact LeavesTrack.finished (.of_eq rfl rfl)
  | endReplay id text => exact LeavesTrack.answers (.of_eq rfl rfl)
  | announceRuns => exact LeavesTrack.finished (.of_eq rfl rfl)
  | announceSpeed address => exact c.leavesTrack_announceSpeed address
  | announcePower on => exact LeavesTrack.answers (.of_eq rfl rfl)
  | connect generation d attempt =>
    simp only [run, connecting]
    split
    · exact LeavesTrack.finished (leavesTrack_connected _ _ _)
    · exact ⟨.of_eq rfl rfl, rfl⟩
  | connecting alarm generation d result =>
    simp only [run, stillConnecting]
    split
    · exact LeavesTrack.finished (leavesTrack_connected _ _ _)
    · trivial

end Jobs

end Controller

end Signalbox
