import Signalbox.Control.Step

/-
  Signalbox/Proofs/Control/Spheres.lean --- what jobs leave alone.

  The layout, the catalog and the adapter are each changed by few jobs, and no job
  changes two of them.  Whatever is proved about one of the three has to look into
  the jobs of its sphere only: all others leave it as it is.  What a job that has
  nothing to do with the layout tells clients is not about the layout.  A job that has
  nothing to do with the adapter may still call a driver, but only the one in place and
  only with requests, while it is available; it forgets no call, and no job that would
  bring a driver up comes of it.
-/

set_option autoImplicit false

namespace Signalbox

/-- A part of a controller that has jobs of its own. -/
inductive Sphere where
  | layout
  | catalog
  | adapter
  deriving DecidableEq, Repr

/-- The sphere that an operation has to do with, if any. -/
def Operation.sphere? : Operation → Option Sphere
  | setTurnout _ _ | setRoute _ _ | clearRoute _ | moveNode _ _ => some .layout
  | upload _ | loadScripts | deleteScript _ | describe _ _ => some .catalog
  | selectDriver _ _ | selectDevice _ | switchTo _ _ => some .adapter
  | _ => none

/-- The sphere that a job has to do with, if any. -/
def Job.sphere? : Job → Option Sphere
  | operate op => op.sphere?
  | command _ _ (.act (.set _ _)) => some .layout
  | connect _ _ _ | connecting _ _ _ _ => some .adapter
  | _ => none

/-- Whether clients are told something about the layout or its routes. -/
def Event.isAboutLayout : Event → Bool
  | turnout _ _ | route _ | held _ | released _ | moved _ _ => true
  | _ => false

/-- No job of a list would bring a driver up. -/
def SpareAdapter (jobs : List Job) : Prop := ∀ j ∈ jobs, j.sphere? ≠ some .adapter

namespace Controller

/-- The adapter is as before, no call is forgotten, and no task that was started would bring a
driver up. -/
structure LeavesAdapter (c c' : Controller) : Prop where
  adapter : c'.adapter = c.adapter
  calls : c.calls <+: c'.calls
  started : ∀ t ∈ c'.started, t ∈ c.started ∨ SpareAdapter t.jobs

/-- The calls that were made are requests to the driver in place, which was available. -/
def AsksOnly (c c' : Controller) : Prop :=
  ∃ requests : List Request, c'.calls = c.calls ++
      requests.map (fun r => ⟨c.adapter.driver, .request r⟩) ∧
    (requests = [] ∨ c.adapter.status = .available)

/-- The adapter is left alone, and drivers are called with requests at most. -/
structure LeavesDriver (c c' : Controller) : Prop extends c.LeavesAdapter c' where
  asks : c.AsksOnly c'

/-- What clients were told is not about the layout. -/
def TellsElse (c c' : Controller) : Prop :=
  ∃ more : List Event, c'.events = c.events ++ more ∧ ∀ e ∈ more, e.isAboutLayout = false

/-- The layout and its routes are as before, and clients are told nothing about them. -/
structure LeavesLayout (c c' : Controller) : Prop where
  interlocking : c'.interlocking = c.interlocking
  tells : c.TellsElse c'

/-- A sphere is as before. -/
def Leaves (c c' : Controller) : Sphere → Prop
  | .layout => c.LeavesLayout c'
  | .catalog => c'.catalog = c.catalog
  | .adapter => c.LeavesDriver c'

end Controller

/-- The controller that an outcome leaves behind, one job after `c`. -/
def Outcome.leaving (c : Controller) : Outcome → Controller
  | .waits _ => c
  | .done c' _ _ => c'
  | .fails c' _ => c'

/-- The outcome leaves a sphere as it is. -/
def Outcome.Leaves (c : Controller) (s : Sphere) : Outcome → Prop
  | .waits _ => True
  | .done c' next _ => c.Leaves c' s ∧ (s = .adapter → SpareAdapter next)
  | .fails c' _ => c.Leaves c' s

theorem spareAdapter_sends (refused : OnRefusal) (requests : List Request) :
    SpareAdapter (Controller.sends refused requests) := by
  simp [SpareAdapter, Controller.sends, Job.sphere?]

theorem spareAdapter_jobs (id : RunId) (part : Part) (commands : List Command) :
    SpareAdapter (Command.jobs id part commands) := by
  intro j hj
  obtain ⟨c, -, rfl⟩ := List.mem_map.mp hj
  cases c with
  | act a => cases a <;> simp [Job.sphere?]
  | test wanted turnout body => simp [Job.sphere?]

theorem SpareAdapter.append {left right : List Job} (h : SpareAdapter left)
    (h' : SpareAdapter right) : SpareAdapter (left ++ right) := fun j hj =>
  (List.mem_append.mp hj).elim (h j) (h' j)

namespace Controller

variable {c c' c'' : Controller} {s : Sphere}

/-! ## Parts of jobs -/

theorem LeavesAdapter.trans (h : c.LeavesAdapter c') (h' : c'.LeavesAdapter c'') :
    c.LeavesAdapter c'' := by
  refine ⟨h'.adapter.trans h.adapter, h.calls.trans h'.calls, fun t ht => ?_⟩
  rcases h'.started t ht with ht | ht
  · exact h.started t ht
  · exact .inr ht

theorem AsksOnly.of_eq (hcalls : c'.calls = c.calls) : c.AsksOnly c' :=
  ⟨[], by simp [hcalls], .inl rfl⟩

theorem LeavesDriver.of_eq (hadapter : c'.adapter = c.adapter) (hcalls : c'.calls = c.calls)
    (hstarted : c'.started = c.started) : c.LeavesDriver c' :=
  ⟨⟨hadapter, hcalls ▸ List.prefix_rfl, fun _ ht => .inl (hstarted ▸ ht)⟩, .of_eq hcalls⟩

theorem LeavesDriver.trans (h : c.LeavesDriver c') (h' : c'.LeavesDriver c'') :
    c.LeavesDriver c'' := by
  refine ⟨h.toLeavesAdapter.trans h'.toLeavesAdapter, ?_⟩
  obtain ⟨requests, hcalls, hwhen⟩ := h.asks
  obtain ⟨requests', hcalls', hwhen'⟩ := h'.asks
  rw [h.adapter] at hcalls' hwhen'
  refine ⟨requests ++ requests', by simp [hcalls', hcalls], ?_⟩
  rcases hwhen with rfl | havailable
  · exact hwhen'
  · exact .inr havailable

/-- What an act on a loco tells clients is not about the layout. -/
theorem isAboutLayout_of_mem_events {address : Nat} {l : Loco} {a : LocoAct} {e : Event}
    (he : e ∈ a.events address l) : e.isAboutLayout = false := by
  unfold LocoAct.events at he
  split at he
  · rw [List.mem_singleton.mp he]
    rfl
  · rcases List.mem_cons.mp he with rfl | he
    · rfl
    · rw [List.mem_singleton.mp he]
      rfl

theorem TellsElse.of_eq (hevents : c'.events = c.events) : c.TellsElse c' :=
  ⟨[], by simp [hevents], by simp⟩

theorem TellsElse.trans (h : c.TellsElse c') (h' : c'.TellsElse c'') : c.TellsElse c'' := by
  obtain ⟨more, hevents, hmore⟩ := h
  obtain ⟨more', hevents', hmore'⟩ := h'
  refine ⟨more ++ more', by simp [hevents', hevents], fun e he => ?_⟩
  exact (List.mem_append.mp he).elim (hmore e) (hmore' e)

/-- What neither the spheres nor clients take note of. -/
theorem Leaves.of_eq (hlayout : c'.interlocking = c.interlocking)
    (hcatalog : c'.catalog = c.catalog) (hadapter : c'.adapter = c.adapter)
    (hcalls : c'.calls = c.calls) (hstarted : c'.started = c.started)
    (hevents : c'.events = c.events) : c.Leaves c' s := by
  cases s with
  | layout => exact ⟨hlayout, .of_eq hevents⟩
  | catalog => exact hcatalog
  | adapter => exact LeavesDriver.of_eq hadapter hcalls hstarted

theorem Leaves.refl (c : Controller) (s : Sphere) : c.Leaves c s :=
  .of_eq rfl rfl rfl rfl rfl rfl

theorem Leaves.trans (h : c.Leaves c' s) (h' : c'.Leaves c'' s) : c.Leaves c'' s := by
  cases s with
  | layout =>
    exact ⟨(LeavesLayout.interlocking h').trans (LeavesLayout.interlocking h),
      (LeavesLayout.tells h).trans (LeavesLayout.tells h')⟩
  | catalog => exact Eq.trans h' h
  | adapter => exact LeavesDriver.trans h h'

/-- What an outcome leaves alone is found in the controller that it leaves behind. -/
theorem leaves_leaving {o : Outcome} (h : o.Leaves c s) :
    c.Leaves (o.leaving c) s := by
  cases o with
  | waits wait => exact .refl c s
  | done c' next reply => exact h.1
  | fails c' f => exact h

/-- Clients are told something else than news of the layout. -/
theorem leaves_tellAll {events : List Event} (hevents : ∀ e ∈ events, e.isAboutLayout = false)
    (s : Sphere) : c.Leaves (c.tellAll events) s := by
  cases s with
  | layout => exact ⟨rfl, events, rfl, hevents⟩
  | catalog => rfl
  | adapter => exact LeavesDriver.of_eq rfl rfl rfl

theorem leaves_tell {e : Event} (he : e.isAboutLayout = false) (s : Sphere) :
    c.Leaves (c.tell e) s := by
  have hnews : ∀ e' ∈ [e], e'.isAboutLayout = false := by simpa using he
  exact leaves_tellAll hnews s

/-- The layout is another one, and so is what clients are told. -/
theorem leaves_layout (after : Interlocking) (events : List Event) (hs : s ≠ .layout) :
    c.Leaves { c with interlocking := after, events := events } s := by
  cases s with
  | layout => exact absurd rfl hs
  | catalog => rfl
  | adapter => exact LeavesDriver.of_eq rfl rfl rfl

/-- The catalog is another one. -/
theorem leaves_catalog (catalog : Catalog) (hs : s ≠ .catalog) :
    c.Leaves { c with catalog := catalog } s := by
  cases s with
  | layout => exact ⟨rfl, .of_eq rfl⟩
  | catalog => exact absurd rfl hs
  | adapter => exact LeavesDriver.of_eq rfl rfl rfl

/-- The roster is another one, and clients are told. -/
theorem leaves_roster {roster : Roster} {e : Event} (he : e.isAboutLayout = false) (s : Sphere) :
    c.Leaves (tell { c with roster := roster } e) s := by
  have hput : c.Leaves { c with roster := roster } s := .of_eq rfl rfl rfl rfl rfl rfl
  exact hput.trans (leaves_tell he s)

theorem leaves_save {change : RowChange} {result : Except StorageError Unit}
    (hsave : c.save change = (result, c')) (s : Sphere) : c.Leaves c' s := by
  obtain rfl := congrArg Prod.snd hsave
  exact .of_eq rfl rfl rfl rfl rfl rfl

theorem leaves_begin {jobs : List Job} (spare : SpareAdapter jobs) (s : Sphere) :
    c.Leaves (c.begin jobs) s := by
  cases s with
  | layout => exact ⟨rfl, .of_eq rfl⟩
  | catalog => rfl
  | adapter =>
    refine ⟨⟨rfl, List.prefix_refl _, fun t ht => ?_⟩, .of_eq rfl⟩
    rcases List.mem_append.mp ht with ht | ht
    · exact .inl ht
    · rw [List.mem_singleton.mp ht]
      exact .inr spare

theorem leaves_startRun (script : Script) (loco : Option LocoHandle) (root : Int) (s : Sphere) :
    c.Leaves (c.startRun script loco root).2 s := by
  have hspare : SpareAdapter (script.jobs c.runs.size) :=
    (spareAdapter_jobs _ _ _).append (by simp [SpareAdapter, Job.sphere?])
  have htold {c₁ : Controller} (h : c.Leaves c₁ s) :
      c.Leaves (c₁.tellRuns.begin (script.jobs c.runs.size)) s :=
    (h.trans (leaves_tell rfl s)).trans (leaves_begin hspare s)
  exact htold (.of_eq rfl rfl rfl rfl rfl rfl)

theorem leaves_handle (e : TurnoutEvent) (s : Sphere) : c.Leaves (c.handle e).2 s := by
  unfold handle
  split
  · exact .refl c s
  · exact leaves_startRun _ none eventRoot s

theorem leaves_noteTurnout (id : NodeId) (state : TurnoutState) (s : Sphere) :
    c.Leaves (c.noteTurnout id state) s := by
  have hsaved : c.Leaves (c.saveAnyway (.saveState id state)) s := .of_eq rfl rfl rfl rfl rfl rfl
  exact hsaved.trans (leaves_handle ⟨id, state⟩ s)

theorem leaves_nextSetting (rest : List Setting) (s : Sphere) :
    c.Leaves (c.nextSetting rest).1 s ∧ SpareAdapter (c.nextSetting rest).2 := by
  cases rest with
  | nil => exact ⟨.refl c s, by simp [nextSetting, SpareAdapter]⟩
  | cons setting rest =>
    refine ⟨leaves_noteTurnout _ _ s, ?_⟩
    simp [nextSetting, turnoutJob, SpareAdapter, Job.sphere?]

/-- Operating a turnout changes the layout only. -/
theorem leaves_setTurnout {id : NodeId} {state : TurnoutState} {next : List Job}
    (h : c.setTurnout id state = .ok (c', next)) (hs : s ≠ .layout) :
    c.Leaves c' s ∧ SpareAdapter next := by
  unfold setTurnout at h
  split at h
  · simp at h
  · rename_i released after _
    obtain ⟨rfl, rfl⟩ := Prod.mk.inj (Except.ok.inj h)
    have hmoved : c.Leaves (tellAll { c with interlocking := after }
        (releasedEvents released ++ [.turnout id state])) s := leaves_layout after _ hs
    exact ⟨hmoved.trans (leaves_noteTurnout id state s),
      by simp [turnoutJob, SpareAdapter, Job.sphere?]⟩

theorem leaves_addScripts (scripts : List Script) (hs : s ≠ .catalog) :
    c.Leaves (c.addScripts scripts).2.2 s := by
  induction scripts generalizing c with
  | nil => exact .refl c s
  | cons script rest ih =>
    rw [addScripts]
    split
    · rename_i hsave
      exact leaves_save hsave s
    · rename_i hsave
      have hregistered {c' : Controller} : c'.Leaves
          { c' with catalog := c'.catalog.register script } s := leaves_catalog _ hs
      exact ((leaves_save hsave s).trans hregistered).trans ih

theorem leaves_act {h : LocoHandle} {a : LocoAct} {requests : List Request}
    (hact : c.act h a = .ok (c', requests)) (s : Sphere) : c.Leaves c' s := by
  unfold act at hact
  split at hact
  · simp at hact
  · split at hact
    · simp at hact
    · obtain ⟨rfl, -⟩ := Prod.mk.inj (Except.ok.inj hact)
      have hput {roster : Roster} : c.Leaves { c with roster := roster } s :=
        .of_eq rfl rfl rfl rfl rfl rfl
      split
      · exact hput.trans (leaves_tellAll (fun e he => isAboutLayout_of_mem_events he) s)
      · exact hput

theorem leaves_halt (h : LocoHandle) (s : Sphere) :
    c.Leaves (c.halt h).1 s ∧ SpareAdapter (c.halt h).2 := by
  unfold halt
  split
  · rename_i hact
    exact ⟨leaves_act hact s, spareAdapter_sends _ _⟩
  · exact ⟨.refl c s, by simp [SpareAdapter]⟩

theorem leaves_pauseRun (now : Nat) (id : RunId) (s : Sphere) :
    c.Leaves (c.pauseRun now id).1 s ∧ SpareAdapter (c.pauseRun now id).2 := by
  unfold pauseRun
  split
  · exact ⟨.refl c s, by simp [SpareAdapter]⟩
  · rename_i run _
    have hpaused : c.Leaves (c.modifyRun id fun _ => run) s := .of_eq rfl rfl rfl rfl rfl rfl
    simp only
    split
    · exact ⟨hpaused, by simp [SpareAdapter]⟩
    · rename_i h _
      obtain ⟨hleaves, hspare⟩ := leaves_halt (c := c.modifyRun id fun _ => run) h s
      exact ⟨hpaused.trans hleaves, hspare⟩

theorem leaves_send? {r : Request} {result : Except DriverError Unit}
    (hsend : c.send? r = some (result, c')) (s : Sphere) : c.Leaves c' s := by
  unfold send? at hsend
  split at hsend
  · simp at hsend
  · obtain ⟨-, rfl⟩ := Prod.mk.inj (Option.some.inj hsend)
    exact .refl _ s
  · obtain rfl := congrArg Prod.snd (Option.some.inj hsend)
    cases s with
    | layout => exact ⟨rfl, .of_eq rfl⟩
    | catalog => rfl
    | adapter =>
      exact ⟨⟨rfl, List.prefix_append _ _, fun t ht => .inl ht⟩, [r], rfl, .inr ‹_›⟩

/-! ## Operations -/

/-- Done, with nothing to follow. -/
theorem Leaves.finished (h : c.Leaves c' s) : (Outcome.finished c').Leaves c s :=
  ⟨h, fun _ => by simp [SpareAdapter]⟩

/-- Done, with a reply. -/
theorem Leaves.answers {reply : Reply} (h : c.Leaves c' s) :
    (Outcome.answers c' reply).Leaves c s :=
  ⟨h, fun _ => by simp [SpareAdapter]⟩

/-- What is left alone until an outcome and by it. -/
theorem Leaves.upTo {o : Outcome} (h : c.Leaves c' s) (h' : o.Leaves c' s) : o.Leaves c s := by
  cases o with
  | waits wait => trivial
  | done c'' next reply => exact ⟨h.trans h'.1, h'.2⟩
  | fails c'' f => exact h.trans h'

section Operations

variable (s)

theorem leaves_acting (h : LocoHandle) (a : LocoAct) {next : List Job} (reply : Reply)
    (hnext : SpareAdapter next) : (c.acting h a next reply).Leaves c s := by
  unfold acting
  split
  · exact .refl c s
  · rename_i hact
    exact ⟨leaves_act hact s, fun _ => (spareAdapter_sends _ _).append hnext⟩

theorem leaves_actingOn (id : LocoId) (level : SyncLevel) (a : LocoAct) {next : Nat → List Job}
    (hnext : ∀ address, SpareAdapter (next address)) :
    (c.actingOn id level a next).Leaves c s := by
  unfold actingOn
  split
  · exact .refl c s
  · exact leaves_acting s _ _ _ (hnext _)

theorem leaves_toggleDirection (id : LocoId) : (c.toggleDirection id).Leaves c s := by
  unfold toggleDirection
  split
  · exact .refl c s
  · split
    · exact .refl c s
    · exact leaves_acting s _ _ _ (by simp [SpareAdapter])

theorem leaves_syncLoco (address : Nat) (level : SyncLevel) :
    (c.syncLoco address level).Leaves c s := by
  unfold syncLoco
  split
  · exact .refl c s
  · refine ⟨?_, fun _ => spareAdapter_sends _ _⟩
    split
    · exact leaves_tellAll (by simp [LocoAct.motion, Event.isAboutLayout]) s
    · exact .refl c s

theorem leaves_announceSpeed (address : Nat) : (c.announceSpeed address).Leaves c s := by
  unfold announceSpeed
  split
  · exact .refl c s
  · exact Leaves.finished (leaves_tell rfl s)

theorem leaves_addLoco (name : String) (address : Nat) : (c.addLoco name address).Leaves c s := by
  unfold addLoco
  split
  · exact .refl c s
  · simp only
    split
    · rename_i hsave
      exact leaves_save hsave s
    · rename_i hsave
      exact Leaves.answers ((leaves_save hsave s).trans (leaves_roster rfl s))

theorem leaves_editLoco (id : LocoId) (name : Option String) (address : Option Nat) :
    (c.editLoco id name address).Leaves c s := by
  unfold editLoco
  split
  · exact .refl c s
  · split
    · exact .refl c s
    · simp only
      split
      · exact .refl c s
      · split
        · rename_i hsave
          exact leaves_save hsave s
        · rename_i hsave
          exact Leaves.answers ((leaves_save hsave s).trans (leaves_roster rfl s))

theorem leaves_deleteLoco (id : LocoId) : (c.deleteLoco id).Leaves c s := by
  unfold deleteLoco
  split
  · exact .refl c s
  · split
    · rename_i hsave
      exact leaves_save hsave s
    · rename_i hsave
      split
      · exact leaves_save hsave s
      · exact Leaves.answers ((leaves_save hsave s).trans (leaves_roster rfl s))

theorem leaves_loadLocos : c.loadLocos.Leaves c s := by
  unfold loadLocos
  split
  · exact .refl c s
  · exact ⟨.of_eq rfl rfl rfl rfl rfl rfl, fun _ => by simp [SpareAdapter]⟩

theorem leaves_runScript (id : Int) (loco : Option LocoId) : (c.runScript id loco).Leaves c s := by
  unfold runScript
  split
  · exact .refl c s
  · split
    · exact Leaves.answers (leaves_startRun _ _ _ s)
    · split
      · exact .refl c s
      · exact Leaves.answers (leaves_startRun _ _ _ s)

theorem leaves_trigger (event : String) : (c.trigger event).Leaves c s := by
  unfold trigger
  split
  · exact Leaves.answers (.refl c s)
  · exact Leaves.answers (leaves_handle _ s)

theorem leaves_pause (now : Nat) (pid : Pid) : (c.pause now pid).Leaves c s := by
  unfold pause
  split
  · exact .refl c s
  · obtain ⟨hleaves, hspare⟩ := leaves_pauseRun (c := c) now _ s
    exact ⟨hleaves, fun _ => hspare.append (by simp [SpareAdapter, Job.sphere?])⟩

theorem leaves_resume (pid : Pid) : (c.resume pid).Leaves c s := by
  unfold resume
  split
  · exact .refl c s
  · have hbegun {id : RunId} : c.Leaves (c.begin [.resumeRun id, .announceRuns]) s :=
      leaves_begin (by simp [SpareAdapter, Job.sphere?]) s
    exact Leaves.finished (hbegun.trans (leaves_tell rfl s))

theorem leaves_stop (pid : Pid) : (c.stop pid).Leaves c s := by
  unfold stop
  split
  · exact .refl c s
  · rename_i id _ _
    have hretired : c.Leaves ((c.retire pid).stopRun id) s := .of_eq rfl rfl rfl rfl rfl rfl
    have hstopped : c.Leaves ((c.retire pid).stopRun id).tellRuns s :=
      hretired.trans (leaves_tell rfl s)
    simp only
    split
    · exact Leaves.finished hstopped
    · rename_i h _
      obtain ⟨hleaves, hspare⟩ :=
        leaves_halt (c := ((c.retire pid).stopRun id).tellRuns) ⟨h.address, .all⟩ s
      exact ⟨hstopped.trans hleaves, fun _ => hspare⟩

variable {s}

theorem leaves_setRoute (start finish : NodeId) (hs : s ≠ .layout) :
    (c.setRoute start finish).Leaves c s := by
  unfold setRoute
  split
  · exact .refl c s
  · rename_i o _
    have hmoved : c.Leaves (tellAll { c with interlocking := o.after } (routeEvents o)) s :=
      leaves_layout o.after _ hs
    obtain ⟨hleaves, hspare⟩ := leaves_nextSetting (c := tellAll { c with
      interlocking := o.after } (routeEvents o)) o.changes s
    exact ⟨hmoved.trans hleaves, fun _ => hspare⟩

theorem leaves_clearRoute (id : RouteId) (hs : s ≠ .layout) : (c.clearRoute id).Leaves c s := by
  unfold clearRoute
  split
  · exact .refl c s
  · exact Leaves.answers (leaves_layout _ _ hs)

theorem leaves_moveNode (id : NodeId) (coordinate : Coordinate) (hs : s ≠ .layout) :
    (c.moveNode id coordinate).Leaves c s := by
  unfold moveNode
  split
  · exact .refl c s
  · rename_i after _
    have hmoved : c.Leaves { c with interlocking := after } s := leaves_layout after _ hs
    split
    · rename_i hsave
      exact hmoved.trans (leaves_save hsave s)
    · rename_i hsave
      exact Leaves.finished ((hmoved.trans (leaves_save hsave s)).trans (leaves_layout _ _ hs))

theorem leaves_upload (text : String) (hs : s ≠ .catalog) : (c.upload text).Leaves c s := by
  unfold upload
  split
  · exact leaves_tell rfl s
  · rename_i scripts _
    have htold {c' : Controller} : c'.Leaves c'.tellCatalog s := leaves_tell rfl s
    have hadded := (leaves_addScripts (c := c) scripts hs).trans htold
    simp only
    split
    · exact hadded
    · exact Leaves.answers hadded

theorem leaves_loadScripts (hs : s ≠ .catalog) : c.loadScripts.Leaves c s := by
  unfold loadScripts
  split
  · exact .refl c s
  · exact Leaves.answers (leaves_catalog _ hs)

theorem leaves_deleteScript (id : Int) (hs : s ≠ .catalog) : (c.deleteScript id).Leaves c s := by
  unfold deleteScript
  split
  · exact .refl c s
  · have hdropped {catalog : Catalog} : c.Leaves { c with catalog := catalog } s :=
      leaves_catalog _ hs
    split
    · rename_i hsave
      exact hdropped.trans (leaves_save hsave s)
    · rename_i hsave
      exact Leaves.finished ((hdropped.trans (leaves_save hsave s)).trans (leaves_tell rfl s))

theorem leaves_describe (id : Int) (text : String) (hs : s ≠ .catalog) :
    (c.describe id text).Leaves c s := by
  unfold describe
  split
  · exact .refl c s
  · have hregistered {catalog : Catalog} : c.Leaves { c with catalog := catalog } s :=
      leaves_catalog _ hs
    simp only
    split
    · rename_i hsave
      exact hregistered.trans (leaves_save hsave s)
    · rename_i hsave
      exact Leaves.finished ((hregistered.trans (leaves_save hsave s)).trans (leaves_tell rfl s))

/-- A switch changes the adapter only. -/
theorem leaves_switchTo (d : Device) (attempt : Attempt) (hs : s ≠ .adapter) :
    (Outcome.finished (c.switchTo d attempt)).Leaves c s := by
  refine Leaves.finished ?_
  cases s with
  | layout => exact ⟨rfl, .of_eq rfl⟩
  | catalog => rfl
  | adapter => exact absurd rfl hs

theorem leaves_connected (generation : Nat) (d : Device) (result : Except DriverError DriverKind)
    (hs : s ≠ .adapter) : c.Leaves (c.connected generation d result) s := by
  have htold {a : Adapter} : c.Leaves (tell { c with adapter := a } (.hardware a.view)) s := by
    cases s with
    | layout => exact ⟨rfl, [_], rfl, by simp [Event.isAboutLayout]⟩
    | catalog => rfl
    | adapter => exact absurd rfl hs
  unfold connected
  split
  · split
    · exact htold
    · cases s with
      | layout => exact ⟨rfl, .of_eq rfl⟩
      | catalog => rfl
      | adapter => exact absurd rfl hs
  · split
    · exact htold
    · exact .refl c s

theorem leaves_connecting (now generation : Nat) (d : Device) (attempt : Attempt)
    (hs : s ≠ .adapter) : (c.connecting now generation d attempt).Leaves c s := by
  unfold connecting
  split
  · exact Leaves.finished (leaves_connected _ _ _ hs)
  · exact ⟨.of_eq rfl rfl rfl rfl rfl rfl, fun h => absurd h hs⟩

theorem leaves_stillConnecting (now : Nat) (alarm : Alarm) (generation : Nat) (d : Device)
    (result : Except DriverError DriverKind) (hs : s ≠ .adapter) :
    (c.stillConnecting now alarm generation d result).Leaves c s := by
  unfold stillConnecting
  split
  · exact Leaves.finished (leaves_connected _ _ _ hs)
  · trivial

end Operations

/-- What is not about a sphere leaves it as it is, whatever the operation. -/
theorem leaves_operate (now : Nat) (op : Operation) (hs : op.sphere? ≠ some s) :
    (c.operate now op).Leaves c s := by
  have hne {s' : Sphere} (h : op.sphere? = some s') : s ≠ s' := fun hsame => hs (hsame ▸ h)
  cases op with
  | setTurnout id state =>
    simp only [operate]
    split
    · exact .refl c s
    · rename_i hset
      obtain ⟨hleaves, hspare⟩ := leaves_setTurnout hset (hne rfl)
      exact ⟨hleaves, fun _ => hspare⟩
  | setRoute start finish => exact leaves_setRoute start finish (hne rfl)
  | clearRoute id => exact leaves_clearRoute id (hne rfl)
  | moveNode id coordinate => exact leaves_moveNode id coordinate (hne rfl)
  | addLoco name address => exact leaves_addLoco s name address
  | editLoco id name address => exact leaves_editLoco s id name address
  | deleteLoco id => exact leaves_deleteLoco s id
  | loadLocos => exact leaves_loadLocos s
  | setSpeed id speed => exact leaves_actingOn s _ _ _ (by simp [SpareAdapter, Job.sphere?])
  | setDirection id d => exact leaves_actingOn s _ _ _ (by simp [SpareAdapter])
  | toggleDirection id => exact leaves_toggleDirection s id
  | setFunction id number on => exact leaves_actingOn s _ _ _ (by simp [SpareAdapter])
  | syncLoco address level => exact leaves_syncLoco s address level
  | actOn handle act => exact leaves_acting s handle act _ (by simp [SpareAdapter])
  | setPower on => exact ⟨.refl c s, fun _ => by simp [SpareAdapter, Job.sphere?]⟩
  | upload text => exact leaves_upload text (hne rfl)
  | loadScripts => exact leaves_loadScripts (hne rfl)
  | deleteScript id => exact leaves_deleteScript id (hne rfl)
  | describe id text => exact leaves_describe id text (hne rfl)
  | runScript id loco => exact leaves_runScript s id loco
  | trigger event => exact leaves_trigger s event
  | pause pid => exact leaves_pause s now pid
  | resume pid => exact leaves_resume s pid
  | stop pid => exact leaves_stop s pid
  | request r => exact ⟨.refl c s, fun _ => by simp [SpareAdapter, Job.sphere?]⟩
  | selectDriver name address => exact leaves_switchTo _ _ (hne rfl)
  | selectDevice d => exact leaves_switchTo _ _ (hne rfl)
  | switchTo d attempt => exact leaves_switchTo d attempt (hne rfl)

/-! ## Jobs -/

theorem leaves_driveFor (run : Run) (a : LocoAct) (s : Sphere) : (c.driveFor run a).Leaves c s := by
  unfold driveFor
  split
  · exact Leaves.finished (.refl c s)
  · split
    · exact Leaves.finished (.refl c s)
    · rename_i hact
      exact ⟨leaves_act hact s, fun _ => spareAdapter_sends _ _⟩

theorem leaves_command (now : Nat) (id : RunId) (part : Part) (cmd : Command)
    (hs : (Job.command id part cmd).sphere? ≠ some s) :
    (c.command now id part cmd).Leaves c s := by
  unfold command
  split
  · exact Leaves.finished (.refl c s)
  · rename_i run _
    split
    · exact Leaves.finished (.refl c s)
    · trivial
    · have hnoted : c.Leaves (c.modifyRun id (·.record now cmd.isDelay cmd.text)) s :=
        .of_eq rfl rfl rfl rfl rfl rfl
      simp only
      unfold effect
      split
      · split
        · exact Leaves.finished hnoted
        · rename_i hset
          have hne : s ≠ .layout := fun hsame => hs (hsame ▸ rfl)
          obtain ⟨hleaves, hspare⟩ := leaves_setTurnout hset hne
          exact ⟨hnoted.trans hleaves, fun _ => hspare⟩
      · exact ⟨hnoted.trans (.of_eq rfl rfl rfl rfl rfl rfl), fun _ => by
          simp [SpareAdapter, Job.sphere?]⟩
      · split
        · exact Leaves.finished hnoted
        · rename_i act _
          exact hnoted.upTo (leaves_driveFor run act s)
      · split
        · exact ⟨hnoted, fun _ => spareAdapter_jobs id part _⟩
        · exact Leaves.finished hnoted

theorem leaves_resumeRun (id : RunId) (s : Sphere) : (c.resumeRun id).Leaves c s := by
  unfold resumeRun
  split
  · exact Leaves.answers (.refl c s)
  · simp only
    split
    · exact Leaves.answers (.of_eq rfl rfl rfl rfl rfl rfl)
    · split
      · exact Leaves.answers (.of_eq rfl rfl rfl rfl rfl rfl)
      · exact ⟨.of_eq rfl rfl rfl rfl rfl rfl, fun _ =>
          (spareAdapter_jobs _ _ _).append (by simp [SpareAdapter, Job.sphere?])⟩

theorem leaves_finishRun (id : RunId) (s : Sphere) : (c.finishRun id).Leaves c s := by
  unfold finishRun
  split
  · exact Leaves.finished (.refl c s)
  · rename_i run _
    split
    · have hretired : c.Leaves (c.retire run.pid) s := .of_eq rfl rfl rfl rfl rfl rfl
      exact Leaves.finished (hretired.trans (leaves_tell rfl s))
    · exact Leaves.finished (.refl c s)

theorem leaves_sending (r : Request) (refused : OnRefusal) (s : Sphere) :
    (c.sending r refused).Leaves c s := by
  unfold sending
  split
  · trivial
  · rename_i hsend
    exact Leaves.finished (leaves_send? hsend s)
  · rename_i hsend
    split
    · exact leaves_send? hsend s
    · exact Leaves.finished (leaves_send? hsend s)

/-- What is not about a sphere leaves it as it is, whatever the job. -/
theorem leaves_run (now : Nat) {j : Job} (hs : j.sphere? ≠ some s) : (c.run now j).Leaves c s := by
  have hne {s' : Sphere} (h : j.sphere? = some s') : s ≠ s' := fun hsame => hs (hsame ▸ h)
  cases j with
  | operate op => exact leaves_operate now op hs
  | command id part cmd => exact leaves_command now id part cmd hs
  | mark id part isDelay text =>
    simp only [run, mark]
    split
    · exact Leaves.finished (.refl c s)
    · split
      · exact Leaves.answers (.refl c s)
      · trivial
      · exact Leaves.answers (.of_eq rfl rfl rfl rfl rfl rfl)
  | delay id part milliseconds =>
    exact ⟨.of_eq rfl rfl rfl rfl rfl rfl, fun _ => by simp [SpareAdapter, Job.sphere?]⟩
  | asleep id part alarm =>
    simp only [run, asleep]
    split
    · exact Leaves.finished (.refl c s)
    · split
      · exact Leaves.finished (.refl c s)
      · trivial
  | send r refused => exact leaves_sending r refused s
  | settings rest =>
    obtain ⟨hleaves, hspare⟩ := leaves_nextSetting (c := c) rest s
    exact ⟨hleaves, fun _ => hspare⟩
  | finish id => exact leaves_finishRun id s
  | pauseRun id =>
    obtain ⟨hleaves, hspare⟩ := leaves_pauseRun (c := c) now id s
    exact ⟨hleaves, fun _ => hspare⟩
  | resumeRun id => exact leaves_resumeRun id s
  | stopRun id => exact Leaves.finished (.of_eq rfl rfl rfl rfl rfl rfl)
  | endReplay id text => exact Leaves.answers (.of_eq rfl rfl rfl rfl rfl rfl)
  | announceRuns => exact Leaves.finished (leaves_tell rfl s)
  | announceSpeed address => exact leaves_announceSpeed s address
  | announcePower on =>
    have hnoted : c.Leaves { c with power := on } s := .of_eq rfl rfl rfl rfl rfl rfl
    exact Leaves.answers (hnoted.trans (leaves_tell rfl s))
  | connect generation d attempt => exact leaves_connecting now generation d attempt (hne rfl)
  | connecting alarm generation d result =>
    exact leaves_stillConnecting now alarm generation d result (hne rfl)

end Controller

end Signalbox
