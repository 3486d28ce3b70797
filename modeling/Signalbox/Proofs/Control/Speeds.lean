import Signalbox.Proofs.Control.Followers
import Signalbox.Proofs.Control.Motion
import Signalbox.Proofs.Control.Requests

/-
  Signalbox/Proofs/Control/Speeds.lean --- what is told of how fast locos run.

  Clients are told of no speed but one at which a loco of the roster runs at that moment.
  Jobs that have nothing to do with locos are silent on speeds, and the others tell what
  they find in the roster after they have written it.  The hardware is told by requests
  only, which are made of the roster too and sent by jobs of their own.
-/

set_option autoImplicit false

namespace Signalbox

/-! ## What is told -/

/-- The speed of a loco that clients are told. -/
def Event.speed? : Event → Option Nat
  | speed _ n => some n
  | locoAdded l => some l.speed
  | locoEdited _ l => some l.speed
  | _ => none

namespace Controller

/-- Nobody was told how fast a loco runs. -/
structure SilentOnSpeeds (c c' : Controller) : Prop where
  told : ∀ e ∈ c'.events, e ∈ c.events ∨ e.speed? = none
  sent : c'.sentMotions = c.sentMotions

/-- Clients were told of no speed but those at which locos run now, and the hardware was told
nothing of how they run. -/
structure TellsSpeeds (c c' : Controller) : Prop where
  told : ∀ e ∈ c'.events,
    e ∈ c.events ∨ ∀ n, e.speed? = some n → ∃ a l, c'.loco? a = some l ∧ l.speed = n
  sent : c'.sentMotions = c.sentMotions

variable {c c' c'' : Controller} {now : Nat}

theorem SilentOnSpeeds.of_eq (hevents : c'.events = c.events)
    (hsent : c'.sentMotions = c.sentMotions) : c.SilentOnSpeeds c' :=
  ⟨fun _ he => .inl (hevents ▸ he), hsent⟩

theorem SilentOnSpeeds.refl (c : Controller) : c.SilentOnSpeeds c := .of_eq rfl rfl

theorem SilentOnSpeeds.trans (h : c.SilentOnSpeeds c') (h' : c'.SilentOnSpeeds c'') :
    c.SilentOnSpeeds c'' := by
  refine ⟨fun e he => ?_, h'.sent.trans h.sent⟩
  rcases h'.told e he with he | he
  · exact h.told e he
  · exact .inr he

/-- Something is told after nothing was. -/
theorem SilentOnSpeeds.tells (h : c.SilentOnSpeeds c') (h' : c'.TellsSpeeds c'') :
    c.TellsSpeeds c'' := by
  refine ⟨fun e he => ?_, h'.sent.trans h.sent⟩
  rcases h'.told e he with he | he
  · rcases h.told e he with he | he
    · exact .inl he
    · exact .inr (by simp [he])
  · exact .inr he

theorem SilentOnSpeeds.tellsSpeeds (h : c.SilentOnSpeeds c') : c.TellsSpeeds c' := by
  refine ⟨fun e he => ?_, h.sent⟩
  rcases h.told e he with he | he
  · exact .inl he
  · exact .inr (by simp [he])

theorem TellsSpeeds.of_eq (hevents : c'.events = c.events)
    (hsent : c'.sentMotions = c.sentMotions) : c.TellsSpeeds c' :=
  (SilentOnSpeeds.of_eq hevents hsent).tellsSpeeds

theorem TellsSpeeds.refl (c : Controller) : c.TellsSpeeds c := .of_eq rfl rfl

/-- The outcome of the rest of a job, after nothing was told in some of it. -/
theorem SilentOnSpeeds.upTo (h : c.SilentOnSpeeds c') {o : Outcome}
    (ho : c'.TellsSpeeds (o.leaving c')) : c.TellsSpeeds (o.leaving c) := by
  cases o with
  | waits wait => exact .refl c
  | done c'' next reply => exact h.tells ho
  | fails c'' f => exact h.tells ho

theorem silentOnSpeeds_tellAll (c : Controller) {events : List Event}
    (h : ∀ e ∈ events, e.speed? = none) : c.SilentOnSpeeds (c.tellAll events) :=
  ⟨fun e he => (List.mem_append.mp he).imp id (h e), rfl⟩

theorem silentOnSpeeds_tell (c : Controller) {e : Event} (he : e.speed? = none) :
    c.SilentOnSpeeds (c.tell e) := by
  have hnews : ∀ e' ∈ [e], e'.speed? = none := by simpa using he
  exact c.silentOnSpeeds_tellAll hnews

theorem silentOnSpeeds_tellRuns (c : Controller) : c.SilentOnSpeeds c.tellRuns :=
  c.silentOnSpeeds_tell rfl

theorem silentOnSpeeds_tellCatalog (c : Controller) : c.SilentOnSpeeds c.tellCatalog :=
  c.silentOnSpeeds_tell rfl

theorem silentOnSpeeds_save {change : RowChange} {result : Except StorageError Unit}
    (hsave : c.save change = (result, c')) : c.SilentOnSpeeds c' := by
  obtain rfl := congrArg Prod.snd hsave
  exact .of_eq rfl rfl

/-- What clients are told of a loco after its own change. -/
theorem tellsSpeeds_tellAll {events : List Event} {a : Nat} {l : Loco} (hl : c.loco? a = some l)
    (h : ∀ e ∈ events, ∀ n, e.speed? = some n → l.speed = n) : c.TellsSpeeds (c.tellAll events) :=
  ⟨fun e he => (List.mem_append.mp he).imp id fun he n hn => ⟨a, l, hl, h e he n hn⟩, rfl⟩

/-! ### Parts of jobs -/

theorem silentOnSpeeds_startRun (c : Controller) (script : Script) (loco : Option LocoHandle)
    (root : Int) : c.SilentOnSpeeds (c.startRun script loco root).2 := by
  refine ⟨fun e he => ?_, rfl⟩
  rcases List.mem_append.mp he with he | he
  · exact .inl he
  · rw [List.mem_singleton.mp he]
    exact .inr rfl

theorem silentOnSpeeds_handle (c : Controller) (e : TurnoutEvent) :
    c.SilentOnSpeeds (c.handle e).2 := by
  unfold handle
  split
  · exact .refl c
  · exact c.silentOnSpeeds_startRun _ _ _

theorem silentOnSpeeds_noteTurnout (c : Controller) (id : NodeId) (state : TurnoutState) :
    c.SilentOnSpeeds (c.noteTurnout id state) := by
  have hsaved : c.SilentOnSpeeds (c.saveAnyway (.saveState id state)) := .of_eq rfl rfl
  exact hsaved.trans (silentOnSpeeds_handle _ _)

theorem silentOnSpeeds_nextSetting (c : Controller) (rest : List Setting) :
    c.SilentOnSpeeds (c.nextSetting rest).1 := by
  cases rest with
  | nil => exact .refl c
  | cons s rest => exact c.silentOnSpeeds_noteTurnout s.turnout s.state

theorem speed?_releasedEvents (released : Components) :
    ∀ e ∈ releasedEvents released, e.speed? = none := by
  unfold releasedEvents
  split <;> simp [Event.speed?]

theorem silentOnSpeeds_setTurnout {id : NodeId} {state : TurnoutState} {next : List Job}
    (h : c.setTurnout id state = .ok (c', next)) : c.SilentOnSpeeds c' := by
  unfold setTurnout at h
  split at h
  · simp at h
  · rename_i released s _
    obtain ⟨rfl, rfl⟩ := Prod.mk.inj (Except.ok.inj h)
    have hmoved : c.SilentOnSpeeds { c with interlocking := s } := .of_eq rfl rfl
    refine (hmoved.trans (silentOnSpeeds_tellAll _ fun e he => ?_)).trans
      (silentOnSpeeds_noteTurnout _ _ _)
    rcases List.mem_append.mp he with he | he
    · exact speed?_releasedEvents released e he
    · rw [List.mem_singleton.mp he]
      rfl

theorem silentOnSpeeds_switchTo (c : Controller) (d : Device) (attempt : Attempt) :
    c.SilentOnSpeeds (c.switchTo d attempt) := .of_eq rfl (spares_switchTo d attempt).sent

theorem silentOnSpeeds_connected (c : Controller) (generation : Nat) (d : Device)
    (result : Except DriverError DriverKind) :
    c.SilentOnSpeeds (c.connected generation d result) := by
  refine ⟨fun e he => ?_, (spares_connected generation d result).sent⟩
  have hinstalled (a : Adapter)
      (he : e ∈ (tell { c with adapter := a } (.hardware a.view)).events) :
      e ∈ c.events ∨ e.speed? = none := (silentOnSpeeds_tell { c with adapter := a } rfl).told e he
  unfold connected at he
  split at he
  · split at he
    · exact hinstalled _ he
    · exact .inl he
  · split at he
    · exact hinstalled _ he
    · exact .inl he

theorem silentOnSpeeds_addScripts (c : Controller) (scripts : List Script) :
    c.SilentOnSpeeds (c.addScripts scripts).2.2 := by
  induction scripts generalizing c with
  | nil => exact .refl c
  | cons s rest ih =>
    rw [addScripts]
    split
    · rename_i hsave
      exact silentOnSpeeds_save hsave
    · rename_i hsave
      have hregistered {c' : Controller} : c'.SilentOnSpeeds
          { c' with catalog := c'.catalog.register s } := .of_eq rfl rfl
      exact ((silentOnSpeeds_save hsave).trans hregistered).trans (ih _)

/-! ### Acting on a loco -/

/-- Clients are told of the speed of a loco as it is after an act. -/
theorem speed?_events {a : LocoAct} {address : Nat} {l : Loco} :
    ∀ e ∈ a.events address l, ∀ n, e.speed? = some n → l.speed = n := by
  cases a <;> simp [LocoAct.events, LocoAct.motion, Event.speed?]

theorem tellsSpeeds_act {h : LocoHandle} {a : LocoAct} {requests : List Request}
    (hact : c.act h a = .ok (c', requests)) : c.TellsSpeeds c' := by
  unfold act at hact
  split at hact
  · simp at hact
  · split at hact
    · simp at hact
    · rename_i l roster hmodify
      obtain ⟨rfl, -⟩ := Prod.mk.inj (Except.ok.inj hact)
      obtain ⟨old, hold, rfl, hroster⟩ := Roster.modify?_eq_some hmodify
      have hchanged : c.SilentOnSpeeds { c with roster := roster } := .of_eq rfl rfl
      refine hchanged.tells ?_
      split
      · refine tellsSpeeds_tellAll (a := h.address) ?_ speed?_events
        rw [loco?, hroster, Table.get?_modify, if_pos rfl, hold, Option.map_some]
      · exact .refl _

theorem tellsSpeeds_halt (c : Controller) (h : LocoHandle) : c.TellsSpeeds (c.halt h).1 := by
  unfold halt
  split
  · rename_i hact
    exact tellsSpeeds_act hact
  · exact .refl c

theorem tellsSpeeds_acting (c : Controller) (h : LocoHandle) (a : LocoAct) (next : List Job)
    (reply : Reply) : c.TellsSpeeds ((c.acting h a next reply).leaving c) := by
  unfold acting
  split
  · exact .refl c
  · rename_i hact
    exact tellsSpeeds_act hact

theorem tellsSpeeds_actingOn (c : Controller) (id : LocoId) (level : SyncLevel) (a : LocoAct)
    (next : Nat → List Job) : c.TellsSpeeds ((c.actingOn id level a next).leaving c) := by
  unfold actingOn
  split
  · exact .refl c
  · exact c.tellsSpeeds_acting _ _ _ _

theorem tellsSpeeds_toggleDirection (c : Controller) (id : LocoId) :
    c.TellsSpeeds ((c.toggleDirection id).leaving c) := by
  unfold toggleDirection
  split
  · exact .refl c
  · split
    · exact .refl c
    · exact c.tellsSpeeds_acting _ _ _ _

theorem tellsSpeeds_syncLoco (c : Controller) (address : Nat) (level : SyncLevel) :
    c.TellsSpeeds ((c.syncLoco address level).leaving c) := by
  unfold syncLoco
  split
  · exact .refl c
  · rename_i l hl
    simp only [Outcome.leaving, Outcome.follows, follow]
    split
    · exact tellsSpeeds_tellAll hl (speed?_events (a := .speed 0))
    · exact .refl c

theorem tellsSpeeds_announceSpeed (c : Controller) (address : Nat) :
    c.TellsSpeeds ((c.announceSpeed address).leaving c) := by
  unfold announceSpeed
  split
  · exact .refl c
  · rename_i l hl
    have htold : c.TellsSpeeds (c.tellAll [.speed address l.speed]) :=
      tellsSpeeds_tellAll hl (by simp [Event.speed?])
    exact htold

/-! ### Keeping the roster -/

/-- A loco has come into the roster, and clients are shown it. -/
theorem tellsSpeeds_roster {change : RowChange} {result : Except StorageError Unit}
    (hsave : c.save change = (result, c')) {roster : Roster} {e : Event} {l : Loco}
    (hl : roster.byAddress.get? l.address = some l) (he : ∀ n, e.speed? = some n → l.speed = n) :
    c.TellsSpeeds (tell { c' with roster := roster } e) := by
  have hchanged : c'.SilentOnSpeeds { c' with roster := roster } := .of_eq rfl rfl
  have htold : TellsSpeeds { c' with roster := roster }
      (tellAll { c' with roster := roster } [e]) :=
    tellsSpeeds_tellAll (a := l.address) hl (by simpa using he)
  exact ((silentOnSpeeds_save hsave).trans hchanged).tells htold

theorem tellsSpeeds_addLoco (c : Controller) (name : String) (address : Nat) :
    c.TellsSpeeds ((c.addLoco name address).leaving c) := by
  unfold addLoco
  split
  · exact .refl c
  · simp only
    split <;> rename_i hsave
    · exact (silentOnSpeeds_save hsave).tellsSpeeds
    · refine tellsSpeeds_roster (l := .standing name address) hsave ?_ (by simp [Event.speed?])
      rw [Roster.get?_insert, if_pos rfl]

theorem tellsSpeeds_editLoco (c : Controller) (id : LocoId) (name : Option String)
    (address : Option Nat) : c.TellsSpeeds ((c.editLoco id name address).leaving c) := by
  unfold editLoco
  split
  · exact .refl c
  · split
    · exact .refl c
    · rename_i l _
      simp only
      split
      · exact .refl c
      · split <;> rename_i hsave
        · exact (silentOnSpeeds_save hsave).tellsSpeeds
        · refine tellsSpeeds_roster (l := Roster.edited l name address) hsave ?_
            (by simp [Event.speed?])
          rw [Roster.get?_replace, if_pos rfl]

theorem silentOnSpeeds_deleteLoco (c : Controller) (id : LocoId) :
    c.SilentOnSpeeds ((c.deleteLoco id).leaving c) := by
  unfold deleteLoco
  split
  · exact .refl c
  · split <;> rename_i hsave
    · exact silentOnSpeeds_save hsave
    · rename_i c'
      split
      · exact silentOnSpeeds_save hsave
      · rename_i roster _
        have hchanged : c'.SilentOnSpeeds { c' with roster := roster } := .of_eq rfl rfl
        exact ((silentOnSpeeds_save hsave).trans hchanged).trans (silentOnSpeeds_tell _ rfl)

theorem silentOnSpeeds_loadLocos (c : Controller) :
    c.SilentOnSpeeds (c.loadLocos.leaving c) := by
  unfold loadLocos
  split
  · exact .refl c
  · exact .of_eq rfl rfl

/-! ### Layout and catalog -/

theorem silentOnSpeeds_setRoute (c : Controller) (start finish : NodeId) :
    c.SilentOnSpeeds ((c.setRoute start finish).leaving c) := by
  unfold setRoute
  split
  · exact .refl c
  · rename_i o _
    have hmoved : c.SilentOnSpeeds { c with interlocking := o.after } := .of_eq rfl rfl
    refine (hmoved.trans (silentOnSpeeds_tellAll _ fun e he => ?_)).trans
      (silentOnSpeeds_nextSetting _ o.changes)
    rcases List.mem_append.mp he with he | he
    · rcases List.mem_append.mp he with he | he
      · exact speed?_releasedEvents _ e he
      · obtain ⟨s, -, rfl⟩ := List.mem_map.mp he
        rfl
    · rcases List.mem_cons.mp he with rfl | he
      · rfl
      · rw [List.mem_singleton.mp he]
        rfl

theorem silentOnSpeeds_clearRoute (c : Controller) (id : RouteId) :
    c.SilentOnSpeeds ((c.clearRoute id).leaving c) := by
  unfold clearRoute
  split
  · exact .refl c
  · rename_i released s _
    have hmoved : c.SilentOnSpeeds { c with interlocking := s } := .of_eq rfl rfl
    exact hmoved.trans (silentOnSpeeds_tell _ rfl)

theorem silentOnSpeeds_moveNode (c : Controller) (id : NodeId) (coordinate : Coordinate) :
    c.SilentOnSpeeds ((c.moveNode id coordinate).leaving c) := by
  unfold moveNode
  split
  · exact .refl c
  · rename_i s _
    have hmoved : c.SilentOnSpeeds { c with interlocking := s } := .of_eq rfl rfl
    split <;> rename_i hsave
    · exact hmoved.trans (silentOnSpeeds_save hsave)
    · exact (hmoved.trans (silentOnSpeeds_save hsave)).trans (silentOnSpeeds_tell _ rfl)

theorem silentOnSpeeds_upload (c : Controller) (text : String) :
    c.SilentOnSpeeds ((c.upload text).leaving c) := by
  unfold upload
  split
  · exact c.silentOnSpeeds_tell rfl
  · have hadded (scripts : List Script) :
        c.SilentOnSpeeds (c.addScripts scripts).2.2.tellCatalog :=
      (c.silentOnSpeeds_addScripts scripts).trans (silentOnSpeeds_tellCatalog _)
    simp only
    split
    · exact hadded _
    · exact hadded _

theorem silentOnSpeeds_loadScripts (c : Controller) :
    c.SilentOnSpeeds (c.loadScripts.leaving c) := by
  unfold loadScripts
  split
  · exact .refl c
  · exact .of_eq rfl rfl

theorem silentOnSpeeds_deleteScript (c : Controller) (id : Int) :
    c.SilentOnSpeeds ((c.deleteScript id).leaving c) := by
  unfold deleteScript
  split
  · exact .refl c
  · rename_i catalog _
    have hdropped : c.SilentOnSpeeds { c with catalog := catalog } := .of_eq rfl rfl
    split <;> rename_i hsave
    · exact hdropped.trans (silentOnSpeeds_save hsave)
    · exact (hdropped.trans (silentOnSpeeds_save hsave)).trans (silentOnSpeeds_tellCatalog _)

theorem silentOnSpeeds_describe (c : Controller) (id : Int) (text : String) :
    c.SilentOnSpeeds ((c.describe id text).leaving c) := by
  unfold describe
  split
  · exact .refl c
  · rename_i s _
    have hregistered : c.SilentOnSpeeds
        { c with catalog := c.catalog.register { s with description := text } } := .of_eq rfl rfl
    simp only
    split <;> rename_i hsave
    · exact hregistered.trans (silentOnSpeeds_save hsave)
    · exact (hregistered.trans (silentOnSpeeds_save hsave)).trans (silentOnSpeeds_tellCatalog _)

/-! ### Runs -/

theorem silentOnSpeeds_runScript (c : Controller) (id : Int) (loco : Option LocoId) :
    c.SilentOnSpeeds ((c.runScript id loco).leaving c) := by
  unfold runScript
  split
  · exact .refl c
  · split
    · exact c.silentOnSpeeds_startRun _ _ _
    · split
      · exact .refl c
      · exact c.silentOnSpeeds_startRun _ _ _

theorem silentOnSpeeds_trigger (c : Controller) (event : String) :
    c.SilentOnSpeeds ((c.trigger event).leaving c) := by
  unfold trigger
  split
  · exact .refl c
  · exact c.silentOnSpeeds_handle _

theorem silentOnSpeeds_resume (c : Controller) (pid : Pid) :
    c.SilentOnSpeeds ((c.resume pid).leaving c) := by
  unfold resume
  split
  · exact .refl c
  · have hbegun {jobs : List Job} : c.SilentOnSpeeds (c.begin jobs) := .of_eq rfl rfl
    exact hbegun.trans (silentOnSpeeds_tellRuns _)

theorem tellsSpeeds_pauseRun (c : Controller) (now : Nat) (id : RunId) :
    c.TellsSpeeds (c.pauseRun now id).1 := by
  unfold pauseRun
  split
  · exact .refl c
  · rename_i r _
    have hpaused : c.SilentOnSpeeds (c.modifyRun id fun _ => r) := .of_eq rfl rfl
    simp only
    split
    · exact hpaused.tellsSpeeds
    · exact hpaused.tells (tellsSpeeds_halt _ _)

theorem tellsSpeeds_pause (c : Controller) (now : Nat) (pid : Pid) :
    c.TellsSpeeds ((c.pause now pid).leaving c) := by
  unfold pause
  split
  · exact .refl c
  · exact c.tellsSpeeds_pauseRun now _

theorem tellsSpeeds_stop (c : Controller) (pid : Pid) :
    c.TellsSpeeds ((c.stop pid).leaving c) := by
  unfold stop
  split
  · exact .refl c
  · rename_i id _ _
    have hstopped : c.SilentOnSpeeds ((c.retire pid).stopRun id) := .of_eq rfl rfl
    have htold := hstopped.trans (silentOnSpeeds_tellRuns _)
    simp only
    split
    · exact htold.tellsSpeeds
    · exact htold.tells (tellsSpeeds_halt _ _)

theorem silentOnSpeeds_finishRun (c : Controller) (id : RunId) :
    c.SilentOnSpeeds ((c.finishRun id).leaving c) := by
  unfold finishRun
  split
  · exact .refl c
  · rename_i r _
    split
    · have hretired : c.SilentOnSpeeds (c.retire r.pid) := .of_eq rfl rfl
      exact hretired.trans (silentOnSpeeds_tellRuns _)
    · exact .refl c

theorem silentOnSpeeds_resumeRun (c : Controller) (id : RunId) :
    c.SilentOnSpeeds ((c.resumeRun id).leaving c) := by
  unfold resumeRun
  split
  · exact .refl c
  · simp only
    split
    · exact .of_eq rfl rfl
    · split
      · exact .of_eq rfl rfl
      · exact .of_eq rfl rfl

theorem tellsSpeeds_driveFor (c : Controller) (r : Run) (a : LocoAct) :
    c.TellsSpeeds ((c.driveFor r a).leaving c) := by
  unfold driveFor
  split
  · exact .refl c
  · split
    · exact .refl c
    · rename_i hact
      exact tellsSpeeds_act hact

theorem tellsSpeeds_effect (c : Controller) (now : Nat) (id : RunId) (r : Run) (part : Part)
    (cmd : Command) : c.TellsSpeeds ((c.effect now id r part cmd).leaving c) := by
  unfold effect
  split
  · split
    · exact .refl c
    · rename_i hset
      exact (silentOnSpeeds_setTurnout hset).tellsSpeeds
  · exact .of_eq rfl rfl
  · split
    · exact .refl c
    · exact c.tellsSpeeds_driveFor r _
  · split
    · exact .refl c
    · exact .refl c

theorem tellsSpeeds_command (c : Controller) (now : Nat) (id : RunId) (part : Part)
    (cmd : Command) : c.TellsSpeeds ((c.command now id part cmd).leaving c) := by
  unfold command
  split
  · exact .refl c
  · rename_i r _
    split
    · exact .refl c
    · exact .refl c
    · have hnoted : c.SilentOnSpeeds (c.modifyRun id (·.record now cmd.isDelay cmd.text)) :=
        .of_eq rfl rfl
      exact hnoted.upTo (tellsSpeeds_effect _ now id r part cmd)

/-! ### The hardware -/

theorem silentOnSpeeds_connecting (c : Controller) (now generation : Nat) (d : Device)
    (attempt : Attempt) :
    c.SilentOnSpeeds ((c.connecting now generation d attempt).leaving c) := by
  unfold connecting
  split
  · exact c.silentOnSpeeds_connected _ _ _
  · exact .of_eq rfl rfl

theorem silentOnSpeeds_stillConnecting (c : Controller) (now : Nat) (alarm : Alarm)
    (generation : Nat) (d : Device) (result : Except DriverError DriverKind) :
    c.SilentOnSpeeds ((c.stillConnecting now alarm generation d result).leaving c) := by
  unfold stillConnecting
  split
  · exact c.silentOnSpeeds_connected _ _ _
  · exact .refl c

/-! ### All jobs -/

theorem tellsSpeeds_operate (c : Controller) (now : Nat) (op : Operation) :
    c.TellsSpeeds ((c.operate now op).leaving c) := by
  cases op with
  | setTurnout id state =>
    simp only [operate]
    split
    · exact .refl c
    · rename_i hset
      exact (silentOnSpeeds_setTurnout hset).tellsSpeeds
  | setRoute start finish => exact (c.silentOnSpeeds_setRoute start finish).tellsSpeeds
  | clearRoute id => exact (c.silentOnSpeeds_clearRoute id).tellsSpeeds
  | moveNode id coordinate => exact (c.silentOnSpeeds_moveNode id coordinate).tellsSpeeds
  | addLoco name address => exact c.tellsSpeeds_addLoco name address
  | editLoco id name address => exact c.tellsSpeeds_editLoco id name address
  | deleteLoco id => exact (c.silentOnSpeeds_deleteLoco id).tellsSpeeds
  | loadLocos => exact c.silentOnSpeeds_loadLocos.tellsSpeeds
  | setSpeed id speed => exact c.tellsSpeeds_actingOn id _ _ _
  | setDirection id d => exact c.tellsSpeeds_actingOn id _ _ _
  | toggleDirection id => exact c.tellsSpeeds_toggleDirection id
  | setFunction id number on => exact c.tellsSpeeds_actingOn id _ _ _
  | syncLoco address level => exact c.tellsSpeeds_syncLoco address level
  | actOn handle act => exact c.tellsSpeeds_acting handle act _ _
  | setPower on => exact .refl c
  | upload text => exact (c.silentOnSpeeds_upload text).tellsSpeeds
  | loadScripts => exact c.silentOnSpeeds_loadScripts.tellsSpeeds
  | deleteScript id => exact (c.silentOnSpeeds_deleteScript id).tellsSpeeds
  | describe id text => exact (c.silentOnSpeeds_describe id text).tellsSpeeds
  | runScript id loco => exact (c.silentOnSpeeds_runScript id loco).tellsSpeeds
  | trigger event => exact (c.silentOnSpeeds_trigger event).tellsSpeeds
  | pause pid => exact c.tellsSpeeds_pause now pid
  | resume pid => exact (c.silentOnSpeeds_resume pid).tellsSpeeds
  | stop pid => exact c.tellsSpeeds_stop pid
  | request r => exact .refl c
  | selectDriver name address => exact (c.silentOnSpeeds_switchTo _ _).tellsSpeeds
  | selectDevice d => exact (c.silentOnSpeeds_switchTo _ _).tellsSpeeds
  | switchTo d attempt => exact (c.silentOnSpeeds_switchTo d attempt).tellsSpeeds

/-- Clients are told of no speed but those of the roster, and only a request that is sent tells the
hardware of one. -/
theorem tellsSpeeds_run (c : Controller) (now : Nat) {j : Job}
    (hj : ∀ r refused, j ≠ .send r refused) : c.TellsSpeeds ((c.run now j).leaving c) := by
  cases j with
  | operate op => exact c.tellsSpeeds_operate now op
  | command id part cmd => exact c.tellsSpeeds_command now id part cmd
  | mark id part isDelay text =>
    simp only [run, mark]
    split
    · exact .refl c
    · split
      · exact .refl c
      · exact .refl c
      · exact .of_eq rfl rfl
  | delay id part milliseconds => exact .of_eq rfl rfl
  | asleep id part alarm =>
    simp only [run, asleep]
    split
    · exact .refl c
    · split
      · exact .refl c
      · exact .refl c
  | send r refused => exact absurd rfl (hj r refused)
  | settings rest => exact (c.silentOnSpeeds_nextSetting rest).tellsSpeeds
  | finish id => exact (c.silentOnSpeeds_finishRun id).tellsSpeeds
  | pauseRun id => exact c.tellsSpeeds_pauseRun now id
  | resumeRun id => exact (c.silentOnSpeeds_resumeRun id).tellsSpeeds
  | stopRun id => exact .of_eq rfl rfl
  | endReplay id text => exact .of_eq rfl rfl
  | announceRuns => exact c.silentOnSpeeds_tellRuns.tellsSpeeds
  | announceSpeed address => exact c.tellsSpeeds_announceSpeed address
  | announcePower on =>
    have hnoted : c.SilentOnSpeeds { c with power := on } := .of_eq rfl rfl
    exact (hnoted.trans (silentOnSpeeds_tell _ rfl)).tellsSpeeds
  | connect generation d attempt =>
    exact (c.silentOnSpeeds_connecting now generation d attempt).tellsSpeeds
  | connecting alarm generation d result =>
    exact (c.silentOnSpeeds_stillConnecting now alarm generation d result).tellsSpeeds

/-- A request that is sent leaves the locos alone, and is told to nobody but the driver. -/
theorem sends_leaving (c : Controller) (r : Request) (refused : OnRefusal) :
    ((c.sending r refused).leaving c).roster = c.roster ∧
      ((c.sending r refused).leaving c).events = c.events ∧
      ∀ s ∈ ((c.sending r refused).leaving c).sentMotions,
        s ∈ c.sentMotions ∨ r.motion? = some s := by
  cases hsend : c.send? r with
  | none =>
    have hwaits : (c.sending r refused).leaving c = c := by rw [sending, hsend]; rfl
    rw [hwaits]
    exact ⟨rfl, rfl, fun s hs => .inl hs⟩
  | some sent =>
    obtain ⟨result, c'⟩ := sent
    rw [leaving_sending hsend]
    unfold send? at hsend
    split at hsend
    · simp at hsend
    · obtain ⟨-, rfl⟩ := Prod.mk.inj (Option.some.inj hsend)
      exact ⟨rfl, rfl, fun s hs => .inl hs⟩
    · obtain rfl := congrArg Prod.snd (Option.some.inj hsend)
      refine ⟨rfl, rfl, fun s hs => ?_⟩
      obtain ⟨call, hcall, hs⟩ := List.mem_filterMap.mp hs
      rcases List.mem_append.mp hcall with hcall | hcall
      · exact .inl (List.mem_filterMap.mpr ⟨call, hcall, hs⟩)
      · rw [List.mem_singleton.mp hcall] at hs
        exact .inr hs

end Controller

end Signalbox
