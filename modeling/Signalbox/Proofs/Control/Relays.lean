import Signalbox.Proofs.Control.Deeds
import Signalbox.Proofs.Control.Spheres
import Signalbox.Proofs.Run.Basic

/-
  Signalbox/Proofs/Control/Relays.lean --- what jobs tell of the list of runs.

  Clients are told the whole list whenever it has changed, as it is at that moment.  A
  job that starts a run, ends it or stops it tells the new list at once, and all other
  jobs but two leave the list as it is.  The two are pausing and resuming: they change
  how one run is shown, and leave it to a later job to tell.
-/

set_option autoImplicit false

namespace Signalbox

/-! ## The list of runs -/

/-- The list of runs that is known after some news, by what was known before. -/
def Event.shown (before : List RunEntry) : Event → List RunEntry
  | running runs => runs
  | _ => before

/-- Whether clients are told the list of runs. -/
def Event.isAboutRuns : Event → Bool
  | running _ => true
  | _ => false

theorem Event.shown_eq {e : Event} (he : e.isAboutRuns = false) (before : List RunEntry) :
    e.shown before = before := by
  cases e <;> first | rfl | simp [isAboutRuns] at he

namespace Controller

/-- The list of runs that clients were told last. -/
def shownRuns (c : Controller) : List RunEntry := c.events.foldl Event.shown []

/-- A run as it is shown in the list. -/
def listing? (c : Controller) (id : RunId) : Option RunEntry := (c.runs.get? id).map Run.entry

/-- The same runs are on the list, each is shown as before, and clients were not told of any. -/
structure Quiet (c c' : Controller) : Prop where
  live : c'.live = c.live
  entry : ∀ id, c'.listing? id = c.listing? id
  shown : c'.shownRuns = c.shownRuns

/-- Clients have been told the list as it is, or there is nothing to tell. -/
inductive Relays (c c' : Controller) : Prop
  | told (told : c'.shownRuns = c'.entries)
  | quiet (quiet : c.Quiet c')

end Controller

/-- The outcome changes no list of runs without telling. -/
def Outcome.Relays (c : Controller) : Outcome → Prop
  | .waits _ => True
  | .done c' _ _ => c.Relays c'
  | .fails c' _ => c.Relays c'

namespace Controller

variable {c c' c'' : Controller} {now : Nat}

@[simp] theorem shownRuns_tell (c : Controller) (e : Event) :
    (c.tell e).shownRuns = e.shown c.shownRuns := by
  simp [shownRuns, tell]

theorem shownRuns_tellAll (c : Controller) {news : List Event}
    (h : ∀ e ∈ news, e.isAboutRuns = false) : (c.tellAll news).shownRuns = c.shownRuns := by
  rw [shownRuns, tellAll, List.foldl_append, shownRuns]
  generalize c.events.foldl Event.shown [] = shown
  induction news with
  | nil => rfl
  | cons e news ih =>
    rw [List.foldl_cons, Event.shown_eq (h e List.mem_cons_self)]
    exact ih fun e he => h e (List.mem_cons_of_mem _ he)

theorem entries_eq (c : Controller) : c.entries = c.live.values.filterMap c.listing? := rfl

theorem shownRuns_tellRuns (c : Controller) : c.tellRuns.shownRuns = c.entries := by
  rw [tellRuns, shownRuns_tell]
  rfl

theorem Quiet.refl (c : Controller) : c.Quiet c := ⟨rfl, fun _ => rfl, rfl⟩

theorem Quiet.trans (h : c.Quiet c') (h' : c'.Quiet c'') : c.Quiet c'' :=
  ⟨h'.live.trans h.live, fun id => (h'.entry id).trans (h.entry id), h'.shown.trans h.shown⟩

theorem Quiet.of_books (hbooks : c'.books = c.books) (hshown : c'.shownRuns = c.shownRuns) :
    c.Quiet c' := by
  have hlive : c'.live = c.live := congrArg Books.live hbooks
  have hruns : c'.runs = c.runs := congrArg Books.runs hbooks
  exact ⟨hlive, fun id => by rw [listing?, hruns, listing?], hshown⟩

theorem Quiet.entries_eq (h : c.Quiet c') : c'.entries = c.entries := by
  have hentry : c'.listing? = c.listing? := funext h.entry
  rw [Controller.entries_eq, h.live, hentry, ← Controller.entries_eq]

theorem Relays.refl (c : Controller) : c.Relays c := .quiet (.refl c)

theorem Relays.of_books (hbooks : c'.books = c.books) (hshown : c'.shownRuns = c.shownRuns) :
    c.Relays c' := .quiet (.of_books hbooks hshown)

theorem Relays.trans (h : c.Relays c') (h' : c'.Relays c'') : c.Relays c'' := by
  cases h' with
  | told told => exact .told told
  | quiet quiet =>
    cases h with
    | told told => exact .told (by rw [quiet.shown, told, quiet.entries_eq])
    | quiet quiet' => exact .quiet (quiet'.trans quiet)

/-! ## Parts of jobs -/

theorem relays_tell (c : Controller) {e : Event} (he : e.isAboutRuns = false) :
    c.Relays (c.tell e) :=
  .of_books rfl (by rw [shownRuns_tell, Event.shown_eq he])

theorem quiet_tellAll (c : Controller) {news : List Event}
    (h : ∀ e ∈ news, e.isAboutRuns = false) : c.Quiet (c.tellAll news) :=
  .of_books rfl (c.shownRuns_tellAll h)

theorem relays_tellAll (c : Controller) {news : List Event}
    (h : ∀ e ∈ news, e.isAboutRuns = false) : c.Relays (c.tellAll news) :=
  .quiet (c.quiet_tellAll h)

theorem relays_save {change : RowChange} {result : Except StorageError Unit}
    (hsave : c.save change = (result, c')) : c.Relays c' := by
  obtain rfl := congrArg Prod.snd hsave
  exact .of_books rfl rfl

theorem listing?_modifyRun (c : Controller) (id id' : RunId) (change : Run → Run) :
    (c.modifyRun id change).listing? id' =
      if id = id' then (c.runs.get? id).map fun r => (change r).entry else c.listing? id' := by
  change ((c.runs.modify id change).get? id').map Run.entry = _
  rw [Table.get?_modify]
  split
  · rename_i hid
    rw [← hid, Option.map_map]
    rfl
  · rfl

/-- A change of a run that does not show. -/
theorem quiet_modifyRun (c : Controller) (id : RunId) {change : Run → Run}
    (h : ∀ r, c.runs.get? id = some r → (change r).entry = r.entry) :
    c.Quiet (c.modifyRun id change) := by
  refine ⟨rfl, fun id' => ?_, rfl⟩
  rw [listing?_modifyRun]
  split
  · rename_i hid
    rw [← hid, listing?, Option.map_congr h]
  · rfl

theorem relays_startRun (c : Controller) (script : Script) (loco : Option LocoHandle)
    (root : Int) : c.Relays (c.startRun script loco root).2 :=
  .told (shownRuns_tellRuns _)

theorem relays_handle (c : Controller) (e : TurnoutEvent) : c.Relays (c.handle e).2 := by
  unfold handle
  split
  · exact .refl c
  · exact relays_startRun _ _ _ _

theorem relays_noteTurnout (c : Controller) (id : NodeId) (state : TurnoutState) :
    c.Relays (c.noteTurnout id state) := by
  have hsaved : c.Relays (c.saveAnyway (.saveState id state)) := .of_books rfl rfl
  exact hsaved.trans (relays_handle _ _)

theorem relays_nextSetting (c : Controller) (rest : List Setting) :
    c.Relays (c.nextSetting rest).1 := by
  cases rest with
  | nil => exact .refl c
  | cons s rest => exact c.relays_noteTurnout s.turnout s.state

theorem isAboutRuns_releasedEvents (released : Components) :
    ∀ e ∈ releasedEvents released, e.isAboutRuns = false := by
  unfold releasedEvents
  split <;> simp [Event.isAboutRuns]

theorem relays_setTurnout {id : NodeId} {state : TurnoutState} {next : List Job}
    (h : c.setTurnout id state = .ok (c', next)) : c.Relays c' := by
  unfold setTurnout at h
  split at h
  · simp at h
  · rename_i released s _
    obtain ⟨rfl, rfl⟩ := Prod.mk.inj (Except.ok.inj h)
    have hmoved : c.Relays { c with interlocking := s } := .of_books rfl rfl
    refine (hmoved.trans (relays_tellAll _ fun e he => ?_)).trans (relays_noteTurnout _ _ _)
    rcases List.mem_append.mp he with he | he
    · exact isAboutRuns_releasedEvents released e he
    · rw [List.mem_singleton.mp he]
      rfl

theorem isAboutRuns_events (a : LocoAct) (address : Nat) (l : Loco) :
    ∀ e ∈ a.events address l, e.isAboutRuns = false := by
  cases a <;> simp [LocoAct.events, LocoAct.motion, Event.isAboutRuns]

theorem quiet_follow (c : Controller) (level : SyncLevel) {events : List Event} (r : Request)
    (h : ∀ e ∈ events, e.isAboutRuns = false) : c.Quiet (c.follow level events r).1 := by
  unfold follow
  split
  · exact c.quiet_tellAll h
  · exact .refl c

/-- What is told of an act is not about runs. -/
theorem quiet_act {h : LocoHandle} {a : LocoAct} {requests : List Request}
    (hact : c.act h a = .ok (c', requests)) : c.Quiet c' := by
  unfold act at hact
  split at hact
  · simp at hact
  · split at hact
    · simp at hact
    · rename_i l roster _
      obtain ⟨rfl, -⟩ := Prod.mk.inj (Except.ok.inj hact)
      have hchanged : c.Quiet { c with roster := roster } := .of_books rfl rfl
      exact hchanged.trans (quiet_follow _ _ (a.request h.address l) (isAboutRuns_events a _ _))

theorem quiet_halt (c : Controller) (h : LocoHandle) : c.Quiet (c.halt h).1 := by
  unfold halt
  split
  · rename_i hact
    exact quiet_act hact
  · exact .refl c

theorem relays_callDriver (c : Controller) (d : Driver) (call : DriverCall) :
    c.Relays (c.callDriver d call).2 := .of_books rfl rfl

theorem relays_send? {r : Request} {result : Except DriverError Unit}
    (hsend : c.send? r = some (result, c')) : c.Relays c' := by
  unfold send? at hsend
  split at hsend
  · simp at hsend
  · obtain ⟨-, rfl⟩ := Prod.mk.inj (Option.some.inj hsend)
    exact .refl _
  · obtain rfl := congrArg Prod.snd (Option.some.inj hsend)
    exact relays_callDriver _ _ _

theorem relays_switchTo (c : Controller) (d : Device) (attempt : Attempt) :
    c.Relays (c.switchTo d attempt) := .quiet ⟨rfl, fun _ => rfl, rfl⟩

theorem relays_connected (c : Controller) (generation : Nat) (d : Device)
    (result : Except DriverError DriverKind) : c.Relays (c.connected generation d result) := by
  have hinstalled (a : Adapter) : c.Relays (tell { c with adapter := a } (.hardware a.view)) := by
    have hset : c.Relays { c with adapter := a } := .of_books rfl rfl
    exact hset.trans (relays_tell _ rfl)
  unfold connected
  split
  · split
    · exact hinstalled _
    · exact c.relays_callDriver _ _
  · split
    · exact hinstalled _
    · exact .refl c

theorem relays_addScripts (c : Controller) (scripts : List Script) :
    c.Relays (c.addScripts scripts).2.2 := by
  induction scripts generalizing c with
  | nil => exact .refl c
  | cons s rest ih =>
    rw [addScripts]
    split
    · rename_i hsave
      exact relays_save hsave
    · rename_i hsave
      have hregistered {c' : Controller} : c'.Relays
          { c' with catalog := c'.catalog.register s } := .of_books rfl rfl
      exact ((relays_save hsave).trans hregistered).trans (ih _)

theorem relays_tellCatalog (c : Controller) : c.Relays c.tellCatalog := relays_tell _ rfl

end Controller

/-! ## Outcomes -/

namespace Outcome

variable {c c' : Controller} {o : Outcome}

/-- The outcome of the rest of a job, after some of it has been done. -/
theorem Relays.upTo (h : c.Relays c') (h' : o.Relays c') : o.Relays c := by
  cases o with
  | waits wait => trivial
  | done c'' next reply => exact Controller.Relays.trans h h'
  | fails c'' f => exact Controller.Relays.trans h h'

end Outcome

namespace Controller

variable (c : Controller) {now : Nat}

/-! ### Locos -/

theorem relays_acting (h : LocoHandle) (a : LocoAct) (next : List Job) (reply : Reply) :
    (c.acting h a next reply).Relays c := by
  unfold acting
  split
  · exact .refl c
  · rename_i hact
    exact .quiet (quiet_act hact)

theorem relays_actingOn (id : LocoId) (level : SyncLevel) (a : LocoAct) (next : Nat → List Job) :
    (c.actingOn id level a next).Relays c := by
  unfold actingOn
  split
  · exact .refl c
  · exact c.relays_acting _ _ _ _

theorem relays_toggleDirection (id : LocoId) : (c.toggleDirection id).Relays c := by
  unfold toggleDirection
  split
  · exact .refl c
  · split
    · exact .refl c
    · exact c.relays_acting _ _ _ _

theorem relays_syncLoco (address : Nat) (level : SyncLevel) :
    (c.syncLoco address level).Relays c := by
  unfold syncLoco
  split
  · exact .refl c
  · rename_i l _
    exact .quiet (c.quiet_follow level (LocoAct.motionRequest address l)
      (by simp [LocoAct.motion, Event.isAboutRuns]))

theorem relays_announceSpeed (address : Nat) : (c.announceSpeed address).Relays c := by
  unfold announceSpeed
  split
  · exact .refl c
  · exact c.relays_tell rfl

/-- The roster has changed, and clients are told of that. -/
theorem relays_roster {c c' : Controller} {change : RowChange}
    {result : Except StorageError Unit} (hsave : c.save change = (result, c')) (roster : Roster)
    {e : Event} (he : e.isAboutRuns = false) :
    c.Relays (tell { c' with roster := roster } e) := by
  have hchanged : c'.Relays { c' with roster := roster } := .of_books rfl rfl
  exact ((relays_save hsave).trans hchanged).trans (relays_tell _ he)

theorem relays_addLoco (name : String) (address : Nat) : (c.addLoco name address).Relays c := by
  unfold addLoco
  split
  · exact .refl c
  · simp only
    split <;> rename_i hsave
    · exact relays_save hsave
    · exact relays_roster hsave _ rfl

theorem relays_editLoco (id : LocoId) (name : Option String) (address : Option Nat) :
    (c.editLoco id name address).Relays c := by
  unfold editLoco
  split
  · exact .refl c
  · split
    · exact .refl c
    · simp only
      split
      · exact .refl c
      · split <;> rename_i hsave
        · exact relays_save hsave
        · exact relays_roster hsave _ rfl

theorem relays_deleteLoco (id : LocoId) : (c.deleteLoco id).Relays c := by
  unfold deleteLoco
  split
  · exact .refl c
  · split <;> rename_i hsave
    · exact relays_save hsave
    · split
      · exact relays_save hsave
      · exact relays_roster hsave _ rfl

theorem relays_loadLocos : c.loadLocos.Relays c := by
  unfold loadLocos
  split
  · exact .refl c
  · exact .of_books rfl rfl

/-! ### Layout and catalog -/

theorem relays_operate_setTurnout (id : NodeId) (state : TurnoutState) :
    (c.operate now (.setTurnout id state)).Relays c := by
  rw [operate]
  split
  · exact .refl c
  · rename_i hset
    exact relays_setTurnout hset

theorem relays_setRoute (start finish : NodeId) : (c.setRoute start finish).Relays c := by
  unfold setRoute
  split
  · exact .refl c
  · rename_i o _
    have hmoved : c.Relays { c with interlocking := o.after } := .of_books rfl rfl
    refine (hmoved.trans (relays_tellAll _ fun e he => ?_)).trans (relays_nextSetting _ o.changes)
    rcases List.mem_append.mp he with he | he
    · rcases List.mem_append.mp he with he | he
      · exact isAboutRuns_releasedEvents _ e he
      · obtain ⟨s, -, rfl⟩ := List.mem_map.mp he
        rfl
    · rcases List.mem_cons.mp he with rfl | he
      · rfl
      · rw [List.mem_singleton.mp he]
        rfl

theorem relays_clearRoute (id : RouteId) : (c.clearRoute id).Relays c := by
  unfold clearRoute
  split
  · exact .refl c
  · rename_i released s _
    have hmoved : c.Relays { c with interlocking := s } := .of_books rfl rfl
    exact hmoved.trans (relays_tell _ rfl)

theorem relays_moveNode (id : NodeId) (coordinate : Coordinate) :
    (c.moveNode id coordinate).Relays c := by
  unfold moveNode
  split
  · exact .refl c
  · rename_i s _
    have hmoved : c.Relays { c with interlocking := s } := .of_books rfl rfl
    split <;> rename_i hsave
    · exact hmoved.trans (relays_save hsave)
    · exact (hmoved.trans (relays_save hsave)).trans (relays_tell _ rfl)

theorem relays_upload (text : String) : (c.upload text).Relays c := by
  unfold upload
  split
  · exact c.relays_tell rfl
  · have hadded (scripts : List Script) : c.Relays (c.addScripts scripts).2.2.tellCatalog :=
      (c.relays_addScripts scripts).trans (relays_tellCatalog _)
    simp only
    split
    · exact hadded _
    · exact hadded _

theorem relays_loadScripts : c.loadScripts.Relays c := by
  unfold loadScripts
  split
  · exact .refl c
  · exact .of_books rfl rfl

theorem relays_deleteScript (id : Int) : (c.deleteScript id).Relays c := by
  unfold deleteScript
  split
  · exact .refl c
  · rename_i catalog _
    have hdropped : c.Relays { c with catalog := catalog } := .of_books rfl rfl
    split <;> rename_i hsave
    · exact hdropped.trans (relays_save hsave)
    · exact (hdropped.trans (relays_save hsave)).trans (relays_tellCatalog _)

theorem relays_describe (id : Int) (text : String) : (c.describe id text).Relays c := by
  unfold describe
  split
  · exact .refl c
  · rename_i s _
    have hregistered : c.Relays
        { c with catalog := c.catalog.register { s with description := text } } :=
      .of_books rfl rfl
    simp only
    split <;> rename_i hsave
    · exact hregistered.trans (relays_save hsave)
    · exact (hregistered.trans (relays_save hsave)).trans (relays_tellCatalog _)

/-! ### Runs -/

theorem relays_runScript (id : Int) (loco : Option LocoId) : (c.runScript id loco).Relays c := by
  unfold runScript
  split
  · exact .refl c
  · split
    · exact c.relays_startRun _ _ _
    · split
      · exact .refl c
      · exact c.relays_startRun _ _ _

theorem relays_trigger (event : String) : (c.trigger event).Relays c := by
  unfold trigger
  split
  · exact .refl c
  · exact c.relays_handle _

theorem relays_resume (pid : Pid) : (c.resume pid).Relays c := by
  unfold resume
  split
  · exact .refl c
  · exact .told (shownRuns_tellRuns _)

theorem relays_stop (pid : Pid) : (c.stop pid).Relays c := by
  unfold stop
  split
  · exact .refl c
  · rename_i id _ _
    have htold : c.Relays ((c.retire pid).stopRun id).tellRuns := .told (shownRuns_tellRuns _)
    simp only
    split
    · exact htold
    · exact htold.trans (.quiet (quiet_halt _ _))

theorem relays_finishRun (id : RunId) : (c.finishRun id).Relays c := by
  unfold finishRun
  split
  · exact .refl c
  · split
    · exact .told (shownRuns_tellRuns _)
    · exact .refl c

theorem relays_driveFor (r : Run) (a : LocoAct) : (c.driveFor r a).Relays c := by
  unfold driveFor
  split
  · exact .refl c
  · split
    · exact .refl c
    · rename_i hact
      exact .quiet (quiet_act hact)

theorem relays_effect (id : RunId) (r : Run) (part : Part) (cmd : Command) :
    (c.effect now id r part cmd).Relays c := by
  unfold effect
  split
  · split
    · exact .refl c
    · rename_i hset
      exact relays_setTurnout hset
  · exact .of_books rfl rfl
  · split
    · exact .refl c
    · exact c.relays_driveFor r _
  · split
    · exact .refl c
    · exact .refl c

theorem relays_record (id : RunId) (now : Nat) (isDelay : Bool) (text : String) :
    c.Relays (c.modifyRun id (·.record now isDelay text)) :=
  .quiet (c.quiet_modifyRun id fun _ _ => rfl)

theorem relays_command (id : RunId) (part : Part) (cmd : Command) :
    (c.command now id part cmd).Relays c := by
  unfold command
  split
  · exact .refl c
  · split
    · exact .refl c
    · trivial
    · exact Outcome.Relays.upTo (c.relays_record id now _ _) (relays_effect _ id _ part cmd)

/-! ### The hardware -/

theorem relays_sending (r : Request) (refused : OnRefusal) : (c.sending r refused).Relays c := by
  unfold sending
  split
  · trivial
  · rename_i hsend
    exact relays_send? hsend
  · rename_i hsend
    split
    · exact relays_send? hsend
    · exact relays_send? hsend

theorem relays_connecting (generation : Nat) (d : Device) (attempt : Attempt) :
    (c.connecting now generation d attempt).Relays c := by
  unfold connecting
  split
  · exact c.relays_connected _ _ _
  · exact .of_books rfl rfl

theorem relays_stillConnecting (alarm : Alarm) (generation : Nat) (d : Device)
    (result : Except DriverError DriverKind) :
    (c.stillConnecting now alarm generation d result).Relays c := by
  unfold stillConnecting
  split
  · exact c.relays_connected _ _ _
  · trivial

end Controller

/-! ## Jobs that tell later -/

/-- Whether a job may change how a run is shown and leave it to another job to tell. -/
def Job.tellsLater : Job → Bool
  | operate (.pause _) | pauseRun _ | resumeRun _ => true
  | _ => false

namespace Controller

/-- One run is shown otherwise from now on, and clients have not been told. -/
structure Shifts (c c' : Controller) (id : RunId) (status : RunStatus) : Prop where
  live : c'.live = c.live
  shown : c'.shownRuns = c.shownRuns
  entry : ∀ id', c'.listing? id' = if id = id' then
    (c.listing? id).map fun e => { e with status := status } else c.listing? id'

variable (c : Controller) {now : Nat}

theorem relays_operate {op : Operation} (hop : (Job.operate op).tellsLater = false) :
    (c.operate now op).Relays c := by
  cases op with
  | setTurnout id state => exact c.relays_operate_setTurnout id state
  | setRoute start finish => exact c.relays_setRoute start finish
  | clearRoute id => exact c.relays_clearRoute id
  | moveNode id coordinate => exact c.relays_moveNode id coordinate
  | addLoco name address => exact c.relays_addLoco name address
  | editLoco id name address => exact c.relays_editLoco id name address
  | deleteLoco id => exact c.relays_deleteLoco id
  | loadLocos => exact c.relays_loadLocos
  | setSpeed id speed => exact c.relays_actingOn id _ _ _
  | setDirection id d => exact c.relays_actingOn id _ _ _
  | toggleDirection id => exact c.relays_toggleDirection id
  | setFunction id number on => exact c.relays_actingOn id _ _ _
  | syncLoco address level => exact c.relays_syncLoco address level
  | actOn handle act => exact c.relays_acting handle act _ _
  | setPower on => exact .refl c
  | upload text => exact c.relays_upload text
  | loadScripts => exact c.relays_loadScripts
  | deleteScript id => exact c.relays_deleteScript id
  | describe id text => exact c.relays_describe id text
  | runScript id loco => exact c.relays_runScript id loco
  | trigger event => exact c.relays_trigger event
  | pause pid => simp [Job.tellsLater] at hop
  | resume pid => exact c.relays_resume pid
  | stop pid => exact c.relays_stop pid
  | request r => exact .refl c
  | selectDriver name address => exact c.relays_switchTo _ _
  | selectDevice d => exact c.relays_switchTo _ _
  | switchTo d attempt => exact c.relays_switchTo d attempt

/-- A run that settles is shown as running before and after. -/
theorem quiet_settleRun (id : RunId) : c.Quiet (c.settleRun id) := by
  refine c.quiet_modifyRun id fun r _ => ?_
  rw [Run.settled_eq]
  split
  · rename_i hstate
    simp [Run.entry, Run.status, Run.withState, hstate]
  · rfl

/-- Any other job tells of what it changes. -/
theorem relays_run {j : Job} (hj : j.tellsLater = false) : (c.run now j).Relays c := by
  cases j with
  | operate op => exact c.relays_operate hj
  | command id part cmd => exact c.relays_command id part cmd
  | mark id part isDelay text =>
    simp only [run, mark]
    split
    · exact .refl c
    · rename_i r hr
      split
      · exact .refl c
      · trivial
      · refine .quiet (c.quiet_modifyRun id fun r' hr' => ?_)
        rw [hr] at hr'
        rw [← Option.some.inj hr']
        rfl
  | delay id part milliseconds => exact .of_books rfl rfl
  | asleep id part alarm =>
    simp only [run, asleep]
    split
    · exact .refl c
    · split
      · exact .refl c
      · trivial
  | send r refused => exact c.relays_sending r refused
  | settings rest => exact c.relays_nextSetting rest
  | finish id => exact c.relays_finishRun id
  | pauseRun id => simp [Job.tellsLater] at hj
  | resumeRun id => simp [Job.tellsLater] at hj
  | stopRun id => exact .quiet (c.quiet_modifyRun id fun _ _ => rfl)
  | endReplay id text => exact .quiet (c.quiet_settleRun id)
  | announceRuns => exact .told (shownRuns_tellRuns c)
  | announceSpeed address => exact c.relays_announceSpeed address
  | announcePower on =>
    have hnoted : c.Relays { c with power := on } := .of_books rfl rfl
    exact hnoted.trans (relays_tell _ rfl)
  | connect generation d attempt => exact c.relays_connecting generation d attempt
  | connecting alarm generation d result => exact c.relays_stillConnecting alarm generation d result

/-! ### Pausing and resuming -/

theorem shifts_modifyRun {id : RunId} {r r' : Run} (hr : c.runs.get? id = some r)
    {status : RunStatus} (hentry : r'.entry = { r.entry with status := status }) :
    c.Shifts (c.modifyRun id fun _ => r') id status := by
  refine ⟨rfl, rfl, fun id' => ?_⟩
  rw [listing?_modifyRun]
  split
  · rw [listing?, hr, Option.map_some, Option.map_some, Option.map_some, hentry]
  · rfl

theorem Shifts.quiet {c c' c'' : Controller} {id : RunId} {status : RunStatus}
    (h : c.Shifts c' id status) (quiet : c'.Quiet c'') : c.Shifts c'' id status :=
  ⟨quiet.live.trans h.live, quiet.shown.trans h.shown,
    fun id' => (quiet.entry id').trans (h.entry id')⟩

/-- The request that brings a loco to a stand. -/
def standstill (address : Nat) : Request := .speed address 0 .stopped

/-- A loco is brought to a stand by one request at most. -/
theorem halt_cases (h : LocoHandle) :
    (c.halt h).2 = [] ∨ (c.halt h).2 = [.send (standstill h.address) .ignore] := by
  unfold halt
  split
  · rename_i hact
    unfold act at hact
    split at hact
    · simp at hact
    · split at hact
      · simp at hact
      · rename_i l roster hmodify
        obtain ⟨old, -, hl⟩ := Option.map_eq_some_iff.mp hmodify
        obtain ⟨rfl, -⟩ := Prod.mk.inj hl
        obtain ⟨-, rfl⟩ := Prod.mk.inj (Except.ok.inj hact)
        split
        · exact .inr rfl
        · exact .inl rfl
  · exact .inl rfl

/-- Pausing a run shows it as paused, and its loco is brought to a stand. -/
theorem pauseRun_cases (now : Nat) (id : RunId) : c.pauseRun now id = (c, []) ∨
    c.Shifts (c.pauseRun now id).1 id .paused ∧
      ((c.pauseRun now id).2 = [] ∨ ∃ e address, c.listing? id = some e ∧ e.loco = some address ∧
        (c.pauseRun now id).2 = [.send (standstill address) .ignore]) := by
  unfold pauseRun
  split
  · exact .inl rfl
  · rename_i r' hr'
    obtain ⟨r, hr, hpause⟩ := Option.bind_eq_some_iff.mp hr'
    obtain ⟨-, -, rfl⟩ := Run.pause?_eq_some hpause
    let r' : Run := { r.withState .paused with pausedAt := some now }
    have hentry : r'.entry = { r.entry with status := .paused } := rfl
    have hshifts := c.shifts_modifyRun hr hentry
    refine .inr ?_
    simp only
    split
    · exact ⟨hshifts, .inl rfl⟩
    · rename_i h hloco
      refine ⟨hshifts.quiet (quiet_halt _ h), ?_⟩
      rcases halt_cases _ h with hnone | hone
      · exact .inl hnone
      · exact .inr ⟨r.entry, h.address, by rw [listing?, hr, Option.map_some],
          congrArg (Option.map LocoHandle.address) hloco, hone⟩

/-- Resuming a run shows it as running, and replays what it has to or is over at once. -/
theorem resumeRun_cases (id : RunId) : ∃ c' next reply, c.resumeRun id = .done c' next reply ∧
    ((c' = c ∧ next = []) ∨ c.Shifts c' id .running ∧
      (next = [] ∨ ∃ active text, next = active ++ [.endReplay id text] ∧
        ∀ j ∈ active, j.Serves id .replay)) := by
  unfold resumeRun
  split
  · exact ⟨c, [], _, rfl, .inl ⟨rfl, rfl⟩⟩
  · rename_i r' hr'
    obtain ⟨r, hr, hresume⟩ := Option.bind_eq_some_iff.mp hr'
    obtain ⟨-, rfl⟩ := Run.resume?_eq_some hresume
    have hentry : (r.withState .resuming).entry = { r.entry with status := .running } := rfl
    have hshifts := c.shifts_modifyRun hr hentry
    have hsettled : c.Shifts (settleRun (c.modifyRun id fun _ => r.withState .resuming) id) id
        .running := hshifts.quiet (quiet_settleRun _ id)
    simp only
    split
    · exact ⟨_, [], _, rfl, .inr ⟨hsettled, .inl rfl⟩⟩
    · rename_i text _
      split
      · exact ⟨_, [], _, rfl, .inr ⟨hsettled, .inl rfl⟩⟩
      · exact ⟨_, _, _, rfl, .inr ⟨hshifts, .inr ⟨_, text, rfl, serves_jobs id .replay _⟩⟩⟩

end Controller

end Signalbox
