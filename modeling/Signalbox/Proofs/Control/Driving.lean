import Signalbox.Proofs.Control.Plain
import Signalbox.Proofs.Table

/-
  Signalbox/Proofs/Control/Driving.lean --- what jobs do to locos.

  The roster is written by few jobs: those that act on a loco, and those that keep
  the roster itself.  All others spare the locos.  They leave the roster alone, tell
  the hardware nothing of how a loco runs, and nothing that does so follows from
  them.  For each job it is said once which of these it is; whatever is proved about
  locos goes by these cases and looks into no job again.
-/

set_option autoImplicit false

namespace Signalbox

/-! ## How locos run -/

/-- How fast a loco runs, and which way. -/
structure Motion where
  speed : Nat
  direction : Direction
  deriving DecidableEq, Repr

/-- How the loco runs. -/
def Loco.motion (l : Loco) : Motion := ⟨l.speed, l.direction⟩

/-- What a request says of how a loco runs, with the address of the loco. -/
def Request.motion? : Request → Option (Nat × Motion)
  | speed address n d => some (address, ⟨n, d⟩)
  | _ => none

/-- What a call to a driver says of how a loco runs. -/
def DriverCall.motion? : DriverCall → Option (Nat × Motion)
  | request r => r.motion?
  | close => none

/-- What a job is about to tell the hardware of how a loco runs. -/
def Job.motion? : Job → Option (Nat × Motion)
  | send r _ => r.motion?
  | operate (.request r) => r.motion?
  | _ => none

@[simp] theorem motion?_send (r : Request) (refused : OnRefusal) :
    (Job.send r refused).motion? = r.motion? := rfl

@[simp] theorem motion?_request (r : Request) : (Job.operate (.request r)).motion? = r.motion? :=
  rfl

/-- The requests about how locos run that are sent after an act. -/
def LocoAct.requests (a : LocoAct) (h : LocoHandle) (l : Loco) : List Request :=
  if h.sync.reachesHardware then [a.request h.address l] else []

/-- What an operation may make of a roster that it keeps. -/
inductive Roster.Kept (r : Roster) : Operation → Roster → Prop
  | add {name : String} {address : Nat} (accepted : r.refusal name address none = none) :
      Kept r (.addLoco name address) (r.insert (.standing name address))
  | edit {id : LocoId} {current : Nat} {l : Loco} {name : Option String} {address : Option Nat}
      (found : r.addressOf? id = some current) (loco : r.byAddress.get? current = some l)
      (accepted : r.refusal (edited l name address).name (edited l name address).address
        (some current) = none) :
      Kept r (.editLoco id name address) (r.replace current (edited l name address))
  | delete {id : LocoId} {address : Nat} {l : Loco} {r' : Roster}
      (found : r.addressOf? id = some address) (removed : r.remove? address = some (l, r')) :
      Kept r (.deleteLoco id) r'
  | load (records : List LocoRecord) : Kept r .loadLocos (r.loadAll records).2

namespace Controller

/-- The loco at an address. -/
def loco? (c : Controller) (address : Nat) : Option Loco := c.roster.byAddress.get? address

/-- What the hardware was told of how locos run, oldest first. -/
def sentMotions (c : Controller) : List (Nat × Motion) := c.calls.filterMap (·.call.motion?)

/-! ## Jobs that act on locos -/

/-- A job acts on the loco of a handle. -/
inductive Acts (c : Controller) (now : Nat) : Job → LocoHandle → LocoAct → Prop
  | setSpeed {id : LocoId} {address n : Nat} (found : c.roster.addressOf? id = some address) :
      Acts c now (.operate (.setSpeed id n)) ⟨address, .hardwareOnly⟩ (.speed n)
  | setDirection {id : LocoId} {address : Nat} {d : Direction}
      (found : c.roster.addressOf? id = some address) :
      Acts c now (.operate (.setDirection id d)) ⟨address, .all⟩
        (if d = .stopped then .emergencyStop else .direction d)
  | toggleDirection {id : LocoId} {address : Nat} {l : Loco}
      (found : c.roster.addressOf? id = some address) (loco : c.loco? address = some l) :
      Acts c now (.operate (.toggleDirection id)) ⟨address, .all⟩ (.direction l.direction.toggled)
  | setFunction {id : LocoId} {address number : Nat} {on : Bool}
      (found : c.roster.addressOf? id = some address) :
      Acts c now (.operate (.setFunction id number on)) ⟨address, .all⟩ (.function number on)
  | actOn {h : LocoHandle} {a : LocoAct} : Acts c now (.operate (.actOn h a)) h a
  | command {id : RunId} {part : Part} {action : Action} {r : Run} {h : LocoHandle} {a : LocoAct}
      (run : c.runs.get? id = some r) (bound : r.loco = some h)
      (ready : r.readiness part = .ready) (act : action.locoAct? = some a) :
      Acts c now (.command id part (.act action)) h a
  | pause {pid : Pid} {id : RunId} {r r' : Run} {h : LocoHandle}
      (live : c.live.get? pid = some id) (run : c.runs.get? id = some r)
      (paused : r.pause? now = some r') (bound : r'.loco = some h) :
      Acts c now (.operate (.pause pid)) h .emergencyStop
  | pauseRun {id : RunId} {r r' : Run} {h : LocoHandle} (run : c.runs.get? id = some r)
      (paused : r.pause? now = some r') (bound : r'.loco = some h) :
      Acts c now (.pauseRun id) h .emergencyStop
  | stop {pid : Pid} {id : RunId} {r : Run} {h : LocoHandle} (live : c.live.get? pid = some id)
      (run : c.runs.get? id = some r) (bound : r.loco = some h) :
      Acts c now (.operate (.stop pid)) ⟨h.address, .all⟩ .emergencyStop

/-! ## What jobs do -/

/-- The locos are as before, the hardware was told nothing of them, and nothing is about to. -/
structure SparesLocos (c c' : Controller) : Prop where
  roster : c'.roster = c.roster
  sent : c'.sentMotions = c.sentMotions
  started : ∀ t ∈ c'.started, t ∈ c.started ∨ ∀ j ∈ t.jobs, j.motion? = none

/-- Drivers carry out every call, and requests are never refused for want of a driver. -/
structure Works (c : Controller) : Prop where
  faults : ∀ d call, c.faults d call = none
  adapter : c.adapter.status ≠ .unavailable

/-- What a job does that is done, with the jobs to follow. -/
inductive Drives (c : Controller) (now : Nat) : Job → Controller → List Job → Prop
  | spares {j : Job} {c' : Controller} {next : List Job} (spared : c.SparesLocos c')
      (follow : ∀ k ∈ next, k.motion? = none) (idle : c.Works → j.motion? = none) :
      Drives c now j c' next
  | acts {j : Job} {h : LocoHandle} {a : LocoAct} {l : Loco} {c' : Controller}
      {refused : OnRefusal} {rest : List Job} (acts : c.Acts now j h a)
      (changed : c.roster.modify? h.address a.change = some (l, c'.roster))
      (sent : c'.sentMotions = c.sentMotions) (started : c'.started = c.started)
      (follow : ∀ k ∈ rest, k.motion? = none) :
      Drives c now j c' (sends refused (a.requests h l) ++ rest)
  | syncs {address : Nat} {level : SyncLevel} {l : Loco} {c' : Controller}
      (loco : c.loco? address = some l) (spared : c.SparesLocos c') :
      Drives c now (.operate (.syncLoco address level)) c'
        (sends .failLoco
          (if level.reachesHardware then [LocoAct.motionRequest address l] else []))
  | requests {r : Request} : Drives c now (.operate (.request r)) c [.send r .failDriver]
  | sends {r : Request} {refused : OnRefusal} {c' : Controller} (roster : c'.roster = c.roster)
      (sent : c'.sentMotions = c.sentMotions ++ r.motion?.toList)
      (started : c'.started = c.started) : Drives c now (.send r refused) c' []
  | keeps {op : Operation} {c' : Controller} (kept : c.roster.Kept op c'.roster)
      (sent : c'.sentMotions = c.sentMotions) (started : c'.started = c.started) :
      Drives c now (.operate op) c' []

/-- What a job leaves that has failed: only a request may have been refused by a driver. -/
structure Fails (c : Controller) (j : Job) (c' : Controller) : Prop where
  roster : c'.roster = c.roster
  started : ∀ t ∈ c'.started, t ∈ c.started ∨ ∀ k ∈ t.jobs, k.motion? = none
  spared : c.Works → c.SparesLocos c' ∧ j.motion? = none

end Controller

/-- The outcome spares the locos. -/
def Outcome.SparesLocos (c : Controller) : Outcome → Prop
  | .waits _ => True
  | .done c' next _ => c.SparesLocos c' ∧ ∀ k ∈ next, k.motion? = none
  | .fails c' _ => c.SparesLocos c'

/-- The outcome is one of a job. -/
def Outcome.Drives (c : Controller) (now : Nat) (j : Job) : Outcome → Prop
  | .waits _ => True
  | .done c' next _ => c.Drives now j c' next
  | .fails c' _ => c.Fails j c'

/-- The outcome is one of an operation that keeps the roster. -/
def Outcome.Keeps (c : Controller) (op : Operation) : Outcome → Prop
  | .waits _ => True
  | .done c' next _ => c.roster.Kept op c'.roster ∧ c'.sentMotions = c.sentMotions ∧
      c'.started = c.started ∧ next = []
  | .fails c' _ => c.SparesLocos c'

theorem Controller.SparesLocos.fails {c c' : Controller} {j : Job} (h : c.SparesLocos c')
    (hj : j.motion? = none) : c.Fails j c' :=
  ⟨h.roster, h.started, fun _ => ⟨h, hj⟩⟩

theorem Outcome.SparesLocos.drives {c : Controller} {now : Nat} {j : Job} {o : Outcome}
    (h : o.SparesLocos c) (hj : j.motion? = none) : o.Drives c now j := by
  cases o with
  | waits wait => trivial
  | done c' next reply => exact .spares h.1 h.2 fun _ => hj
  | fails c' f => exact Controller.SparesLocos.fails h hj

theorem Outcome.Keeps.drives {c : Controller} {now : Nat} {op : Operation} {o : Outcome}
    (h : o.Keeps c op) (hop : (Job.operate op).motion? = none) : o.Drives c now (.operate op) := by
  cases o with
  | waits wait => trivial
  | done c' next reply =>
    obtain ⟨kept, sent, started, rfl⟩ := h
    exact .keeps kept sent started
  | fails c' f => exact Controller.SparesLocos.fails h hop

namespace Controller

variable {c c' c'' : Controller} {now : Nat} {j : Job}

/-! ### Parts of jobs -/

theorem SparesLocos.of_eq (hroster : c'.roster = c.roster) (hcalls : c'.calls = c.calls)
    (hstarted : c'.started = c.started) : c.SparesLocos c' :=
  ⟨hroster, by rw [sentMotions, hcalls]; rfl, fun t ht => .inl (hstarted ▸ ht)⟩

theorem SparesLocos.refl (c : Controller) : c.SparesLocos c := .of_eq rfl rfl rfl

theorem SparesLocos.trans (h : c.SparesLocos c') (h' : c'.SparesLocos c'') : c.SparesLocos c'' := by
  refine ⟨h'.roster.trans h.roster, h'.sent.trans h.sent, fun t ht => ?_⟩
  rcases h'.started t ht with ht | ht
  · exact h.started t ht
  · exact .inr ht

theorem spares_save {change : RowChange} {result : Except StorageError Unit}
    (hsave : c.save change = (result, c')) : c.SparesLocos c' := by
  obtain rfl := congrArg Prod.snd hsave
  exact .of_eq rfl rfl rfl

theorem spares_begin {jobs : List Job} (hjobs : ∀ j ∈ jobs, j.motion? = none) :
    c.SparesLocos (c.begin jobs) := by
  refine ⟨rfl, rfl, fun t ht => ?_⟩
  rcases List.mem_append.mp ht with ht | ht
  · exact .inl ht
  · rw [List.mem_singleton.mp ht]
    exact .inr hjobs

theorem motion?_jobs (id : RunId) (part : Part) (commands : List Command) :
    ∀ k ∈ Command.jobs id part commands, k.motion? = none := by
  simp [Command.jobs, Job.motion?]

theorem spares_startRun (script : Script) (loco : Option LocoHandle) (root : Int) :
    c.SparesLocos (c.startRun script loco root).2 := by
  refine ⟨rfl, rfl, fun t ht => ?_⟩
  rcases List.mem_append.mp ht with ht | ht
  · exact .inl ht
  · rw [List.mem_singleton.mp ht]
    refine .inr fun k hk => ?_
    rcases List.mem_append.mp hk with hk | hk
    · exact motion?_jobs _ _ _ k hk
    · rw [List.mem_singleton.mp hk]
      rfl

theorem spares_handle (e : TurnoutEvent) : c.SparesLocos (c.handle e).2 := by
  unfold handle
  split
  · exact .refl c
  · exact spares_startRun _ none eventRoot

theorem spares_noteTurnout (id : NodeId) (state : TurnoutState) :
    c.SparesLocos (c.noteTurnout id state) := by
  have hsaved : c.SparesLocos (c.saveAnyway (.saveState id state)) := .of_eq rfl rfl rfl
  exact hsaved.trans (spares_handle ⟨id, state⟩)

theorem spares_nextSetting (rest : List Setting) : c.SparesLocos (c.nextSetting rest).1 ∧
    ∀ k ∈ (c.nextSetting rest).2, k.motion? = none := by
  cases rest with
  | nil => exact ⟨.refl c, by simp [nextSetting]⟩
  | cons s rest =>
    refine ⟨spares_noteTurnout _ _, ?_⟩
    simp [nextSetting, turnoutJob, Job.motion?, Request.motion?]

theorem spares_setTurnout {id : NodeId} {state : TurnoutState} {next : List Job}
    (h : c.setTurnout id state = .ok (c', next)) :
    c.SparesLocos c' ∧ ∀ k ∈ next, k.motion? = none := by
  unfold setTurnout at h
  split at h
  · simp at h
  · rename_i released s _
    obtain ⟨rfl, rfl⟩ := Prod.mk.inj (Except.ok.inj h)
    have hmoved : c.SparesLocos (tellAll { c with interlocking := s }
        (releasedEvents released ++ [.turnout id state])) := .of_eq rfl rfl rfl
    exact ⟨hmoved.trans (spares_noteTurnout id state),
      by simp [turnoutJob, Job.motion?, Request.motion?]⟩

theorem spares_callDriver_close (d : Driver) : c.SparesLocos (c.callDriver d .close).2 := by
  refine ⟨rfl, ?_, fun t ht => .inl ht⟩
  simp [callDriver, sentMotions, DriverCall.motion?]

theorem spares_switchTo (d : Device) (attempt : Attempt) :
    c.SparesLocos (c.switchTo d attempt) := by
  have hbegun : c.SparesLocos { c with adapter := c.adapter.beginSwitch d } := .of_eq rfl rfl rfl
  exact (hbegun.trans (spares_callDriver_close _)).trans (spares_begin (by simp [Job.motion?]))

theorem spares_connected (generation : Nat) (d : Device) (result : Except DriverError DriverKind) :
    c.SparesLocos (c.connected generation d result) := by
  unfold connected
  split
  · split
    · exact .of_eq rfl rfl rfl
    · exact spares_callDriver_close _
  · split
    · exact .of_eq rfl rfl rfl
    · exact .refl c

theorem spares_addScripts (scripts : List Script) : c.SparesLocos (c.addScripts scripts).2.2 := by
  induction scripts generalizing c with
  | nil => exact .refl c
  | cons s rest ih =>
    rw [addScripts]
    split
    · rename_i hsave
      exact spares_save hsave
    · rename_i hsave
      have hregistered {c' : Controller} : c'.SparesLocos
          { c' with catalog := c'.catalog.register s } := .of_eq rfl rfl rfl
      exact ((spares_save hsave).trans hregistered).trans ih

/-! ### Acting on a loco -/

variable {h : LocoHandle} {a : LocoAct} {requests : List Request}

theorem act_eq_ok (hact : c.act h a = .ok (c', requests)) :
    ∃ l, c.roster.modify? h.address a.change = some (l, c'.roster) ∧
      c'.sentMotions = c.sentMotions ∧ c'.started = c.started ∧ requests = a.requests h l := by
  unfold act at hact
  split at hact
  · simp at hact
  · split at hact
    · simp at hact
    · rename_i l roster hmodify
      obtain ⟨rfl, rfl⟩ := Prod.mk.inj (Except.ok.inj hact)
      refine ⟨l, ?_, ?_, ?_, rfl⟩
      · rw [hmodify]
        split <;> rfl
      · split <;> rfl
      · split <;> rfl

/-- A job that acts on a loco tells the hardware nothing before that. -/
theorem Acts.motion?_eq (acts : c.Acts now j h a) : j.motion? = none := by
  cases acts <;> rfl

/-- A job acts on a loco, perhaps after it has done something else. -/
theorem drives_act {c₁ : Controller} {rest : List Job} (refused : OnRefusal)
    (acts : c.Acts now j h a) (hroster : c₁.roster = c.roster) (hcalls : c₁.calls = c.calls)
    (hstarted : c₁.started = c.started) (hact : c₁.act h a = .ok (c', requests))
    (hrest : ∀ k ∈ rest, k.motion? = none) :
    c.Drives now j c' (Controller.sends refused requests ++ rest) := by
  obtain ⟨l, hmodify, hsent, hstarted', rfl⟩ := act_eq_ok hact
  exact .acts acts (hroster ▸ hmodify) (hsent.trans (by rw [sentMotions, hcalls]; rfl))
    (hstarted'.trans hstarted) hrest

theorem drives_acting {next : List Job} (reply : Reply) (acts : c.Acts now j h a)
    (hnext : ∀ k ∈ next, k.motion? = none) : (c.acting h a next reply).Drives c now j := by
  unfold acting
  split
  · exact (SparesLocos.refl c).fails acts.motion?_eq
  · rename_i hact
    exact drives_act .failLoco acts rfl rfl rfl hact hnext

theorem drives_actingOn {id : LocoId} {level : SyncLevel} {next : Nat → List Job}
    (acts : ∀ address, c.roster.addressOf? id = some address → c.Acts now j ⟨address, level⟩ a)
    (hj : j.motion? = none) (hnext : ∀ address, ∀ k ∈ next address, k.motion? = none) :
    (c.actingOn id level a next).Drives c now j := by
  unfold actingOn
  split
  · exact (SparesLocos.refl c).fails hj
  · rename_i address hfound
    exact drives_acting .done (acts address hfound) (hnext address)

/-- A loco is brought to a stand, if there is one. -/
theorem drives_halt {c₁ : Controller} (acts : c.Acts now j h .emergencyStop)
    (hroster : c₁.roster = c.roster) (hcalls : c₁.calls = c.calls)
    (hstarted : c₁.started = c.started) {rest : List Job} (hrest : ∀ k ∈ rest, k.motion? = none) :
    c.Drives now j (c₁.halt h).1 ((c₁.halt h).2 ++ rest) := by
  unfold halt
  split
  · rename_i hact
    exact drives_act .ignore acts hroster hcalls hstarted hact hrest
  · exact .spares (.of_eq hroster hcalls hstarted) (by simpa using hrest) fun _ => acts.motion?_eq

/-! ### Operations on locos -/

theorem drives_toggleDirection (id : LocoId) :
    (c.toggleDirection id).Drives c now (.operate (.toggleDirection id)) := by
  unfold toggleDirection
  split
  · exact (SparesLocos.refl c).fails rfl
  · rename_i address hfound
    split
    · exact (SparesLocos.refl c).fails rfl
    · rename_i l hloco
      exact drives_acting _ (.toggleDirection hfound hloco) (by simp)

theorem drives_syncLoco (address : Nat) (level : SyncLevel) :
    (c.syncLoco address level).Drives c now (.operate (.syncLoco address level)) := by
  unfold syncLoco
  split
  · exact (SparesLocos.refl c).fails rfl
  · rename_i l hloco
    refine .syncs hloco ?_
    split <;> exact .of_eq rfl rfl rfl

theorem keeps_addLoco (name : String) (address : Nat) :
    (c.addLoco name address).Keeps c (.addLoco name address) := by
  unfold addLoco
  split
  · exact .refl c
  · rename_i hrefusal
    simp only
    split
    · rename_i hsave
      exact spares_save hsave
    · rename_i c' hsave
      obtain rfl : (c.save _).2 = c' := congrArg Prod.snd hsave
      exact ⟨.add hrefusal, rfl, rfl, rfl⟩

theorem keeps_editLoco (id : LocoId) (name : Option String) (address : Option Nat) :
    (c.editLoco id name address).Keeps c (.editLoco id name address) := by
  unfold editLoco
  split
  · exact .refl c
  · rename_i current hfound
    split
    · exact .refl c
    · rename_i l hloco
      simp only
      split
      · exact .refl c
      · rename_i hrefusal
        split
        · rename_i hsave
          exact spares_save hsave
        · rename_i c' hsave
          obtain rfl : (c.save _).2 = c' := congrArg Prod.snd hsave
          exact ⟨.edit hfound hloco hrefusal, rfl, rfl, rfl⟩

theorem keeps_deleteLoco (id : LocoId) : (c.deleteLoco id).Keeps c (.deleteLoco id) := by
  unfold deleteLoco
  split
  · exact .refl c
  · rename_i address hfound
    split
    · rename_i hsave
      exact spares_save hsave
    · rename_i c' hsave
      obtain rfl : (c.save _).2 = c' := congrArg Prod.snd hsave
      split
      · exact spares_save hsave
      · rename_i l roster hremove
        exact ⟨.delete hfound hremove, rfl, rfl, rfl⟩

theorem keeps_loadLocos : c.loadLocos.Keeps c .loadLocos := by
  unfold loadLocos
  split
  · exact .refl c
  · rename_i records _
    exact ⟨.load records, rfl, rfl, rfl⟩

/-! ### Operations that spare locos -/

theorem spares_setRoute (start finish : NodeId) :
    (c.setRoute start finish).SparesLocos c := by
  unfold setRoute
  split
  · exact .refl c
  · rename_i o _
    have hmoved : c.SparesLocos (tellAll { c with interlocking := o.after } (routeEvents o)) :=
      .of_eq rfl rfl rfl
    obtain ⟨hspared, hnext⟩ := spares_nextSetting (c := tellAll { c with
      interlocking := o.after } (routeEvents o)) o.changes
    exact ⟨hmoved.trans hspared, hnext⟩

theorem spares_clearRoute (id : RouteId) : (c.clearRoute id).SparesLocos c := by
  unfold clearRoute
  split
  · exact .refl c
  · exact ⟨.of_eq rfl rfl rfl, by simp⟩

theorem spares_moveNode (id : NodeId) (coordinate : Coordinate) :
    (c.moveNode id coordinate).SparesLocos c := by
  unfold moveNode
  split
  · exact .refl c
  · rename_i s _
    have hmoved : c.SparesLocos { c with interlocking := s } := .of_eq rfl rfl rfl
    split
    · rename_i hsave
      exact hmoved.trans (spares_save hsave)
    · rename_i hsave
      have htold {c' : Controller} : c'.SparesLocos (c'.tell (.moved id coordinate)) :=
        .of_eq rfl rfl rfl
      exact ⟨(hmoved.trans (spares_save hsave)).trans htold, by simp⟩

theorem spares_upload (text : String) : (c.upload text).SparesLocos c := by
  unfold upload
  split
  · exact .of_eq rfl rfl rfl
  · rename_i scripts _
    have htold {c' : Controller} : c'.SparesLocos c'.tellCatalog := .of_eq rfl rfl rfl
    have hadded := (spares_addScripts (c := c) scripts).trans htold
    simp only
    split
    · exact hadded
    · exact ⟨hadded, by simp⟩

theorem spares_loadScripts : c.loadScripts.SparesLocos c := by
  unfold loadScripts
  split
  · exact .refl c
  · exact ⟨.of_eq rfl rfl rfl, by simp⟩

theorem spares_deleteScript (id : Int) : (c.deleteScript id).SparesLocos c := by
  unfold deleteScript
  split
  · exact .refl c
  · rename_i catalog _
    have hdropped : c.SparesLocos { c with catalog := catalog } := .of_eq rfl rfl rfl
    split
    · rename_i hsave
      exact hdropped.trans (spares_save hsave)
    · rename_i hsave
      have htold {c' : Controller} : c'.SparesLocos c'.tellCatalog := .of_eq rfl rfl rfl
      exact ⟨(hdropped.trans (spares_save hsave)).trans htold, by simp⟩

theorem spares_describe (id : Int) (text : String) : (c.describe id text).SparesLocos c := by
  unfold describe
  split
  · exact .refl c
  · rename_i s _
    have hregistered : c.SparesLocos
        { c with catalog := c.catalog.register { s with description := text } } :=
      .of_eq rfl rfl rfl
    simp only
    split
    · rename_i hsave
      exact hregistered.trans (spares_save hsave)
    · rename_i hsave
      have htold {c' : Controller} : c'.SparesLocos c'.tellCatalog := .of_eq rfl rfl rfl
      exact ⟨(hregistered.trans (spares_save hsave)).trans htold, by simp⟩

theorem spares_runScript (id : Int) (loco : Option LocoId) :
    (c.runScript id loco).SparesLocos c := by
  unfold runScript
  split
  · exact .refl c
  · split
    · exact ⟨spares_startRun _ _ _, by simp⟩
    · split
      · exact .refl c
      · exact ⟨spares_startRun _ _ _, by simp⟩

theorem spares_trigger (event : String) : (c.trigger event).SparesLocos c := by
  unfold trigger
  split
  · exact ⟨.refl c, by simp⟩
  · exact ⟨spares_handle _, by simp⟩

theorem spares_resume (pid : Pid) : (c.resume pid).SparesLocos c := by
  unfold resume
  split
  · exact .refl c
  · rename_i id _ _
    have htold {c' : Controller} : c'.SparesLocos c'.tellRuns := .of_eq rfl rfl rfl
    exact ⟨(spares_begin (by simp [Job.motion?])).trans htold, by simp⟩

/-! ### Runs -/

theorem drives_pauseRun (id : RunId)
    (acts : ∀ r r' h, c.runs.get? id = some r → r.pause? now = some r' → r'.loco = some h →
      c.Acts now j h .emergencyStop) (hj : j.motion? = none) {rest : List Job}
    (hrest : ∀ k ∈ rest, k.motion? = none) :
    c.Drives now j (c.pauseRun now id).1 ((c.pauseRun now id).2 ++ rest) := by
  unfold pauseRun
  split
  · exact .spares (.refl c) (by simpa using hrest) fun _ => hj
  · rename_i r' hr'
    obtain ⟨r, hr, hpause⟩ := Option.bind_eq_some_iff.mp hr'
    simp only
    split
    · exact .spares (.of_eq rfl rfl rfl) (by simpa using hrest) fun _ => hj
    · rename_i h hloco
      have hroster : (c.modifyRun id fun _ => r').roster = c.roster := rfl
      exact drives_halt (acts r r' h hr hpause hloco) hroster rfl rfl hrest

theorem drives_pause (pid : Pid) : (c.pause now pid).Drives c now (.operate (.pause pid)) := by
  unfold pause
  split
  · exact (SparesLocos.refl c).fails rfl
  · rename_i id r hlive
    obtain ⟨hlive, -⟩ := c.liveRun?_eq_some hlive
    exact drives_pauseRun id (fun _ _ _ hr hpause hloco => .pause hlive hr hpause hloco) rfl
      (by simp [Job.motion?])

theorem drives_stop (pid : Pid) : (c.stop pid).Drives c now (.operate (.stop pid)) := by
  unfold stop
  split
  · exact (SparesLocos.refl c).fails rfl
  · rename_i id r hlive
    obtain ⟨hlive, hrun⟩ := c.liveRun?_eq_some hlive
    simp only
    split
    · exact .spares (.of_eq rfl rfl rfl) (by simp) fun _ => rfl
    · rename_i h hloco
      have acts : c.Acts now (.operate (.stop pid)) ⟨h.address, .all⟩ .emergencyStop :=
        .stop hlive hrun hloco
      have hroster : ((c.retire pid).stopRun id).tellRuns.roster = c.roster := rfl
      have hnothing : ∀ k ∈ ([] : List Job), k.motion? = none := by simp
      have hdrives := drives_halt acts hroster rfl rfl hnothing
      rw [List.append_nil] at hdrives
      exact hdrives

theorem drives_driveFor {c₁ : Controller} {r : Run} {a : LocoAct}
    (acts : ∀ h, r.loco = some h → c.Acts now j h a) (hj : j.motion? = none)
    (hroster : c₁.roster = c.roster) (hcalls : c₁.calls = c.calls)
    (hstarted : c₁.started = c.started) : (c₁.driveFor r a).Drives c now j := by
  have hspares : (Outcome.finished c₁).Drives c now j :=
    .spares (.of_eq hroster hcalls hstarted) (by simp) fun _ => hj
  unfold driveFor
  split
  · exact hspares
  · rename_i h hloco
    split
    · exact hspares
    · rename_i hact
      have hnothing : ∀ k ∈ ([] : List Job), k.motion? = none := by simp
      have hdrives := drives_act .ignore (acts h hloco) hroster hcalls hstarted hact hnothing
      rw [List.append_nil] at hdrives
      exact hdrives

theorem drives_command (id : RunId) (part : Part) (cmd : Command) :
    (c.command now id part cmd).Drives c now (.command id part cmd) := by
  unfold command
  split
  · exact .spares (.refl c) (by simp) fun _ => rfl
  · rename_i r hrun
    split
    · exact .spares (.refl c) (by simp) fun _ => rfl
    · trivial
    · rename_i hready
      have hnoted : c.SparesLocos (c.modifyRun id (·.record now cmd.isDelay cmd.text)) :=
        .of_eq rfl rfl rfl
      simp only
      unfold effect
      split
      · split
        · exact .spares hnoted (by simp) fun _ => rfl
        · rename_i hset
          obtain ⟨hspared, hnext⟩ := spares_setTurnout hset
          exact .spares (hnoted.trans hspared) hnext fun _ => rfl
      · exact .spares (hnoted.trans (.of_eq rfl rfl rfl)) (by simp [Job.motion?]) fun _ => rfl
      · split
        · exact .spares hnoted (by simp) fun _ => rfl
        · rename_i a ha
          exact drives_driveFor (fun h hloco => .command hrun hloco hready ha) rfl rfl rfl rfl
      · split
        · exact .spares hnoted (motion?_jobs id part _) fun _ => rfl
        · exact .spares hnoted (by simp) fun _ => rfl

theorem spares_resumeRun (id : RunId) : (c.resumeRun id).SparesLocos c := by
  unfold resumeRun
  split
  · exact ⟨.refl c, by simp⟩
  · simp only
    split
    · exact ⟨.of_eq rfl rfl rfl, by simp⟩
    · split
      · exact ⟨.of_eq rfl rfl rfl, by simp⟩
      · refine ⟨.of_eq rfl rfl rfl, fun k hk => ?_⟩
        rcases List.mem_append.mp hk with hk | hk
        · exact motion?_jobs _ _ _ k hk
        · rw [List.mem_singleton.mp hk]
          rfl

theorem spares_finishRun (id : RunId) : (c.finishRun id).SparesLocos c := by
  unfold finishRun
  split
  · exact ⟨.refl c, by simp⟩
  · split
    · exact ⟨.of_eq rfl rfl rfl, by simp⟩
    · exact ⟨.refl c, by simp⟩

/-! ### Requests -/

theorem drives_sending (r : Request) (refused : OnRefusal) :
    (c.sending r refused).Drives c now (.send r refused) := by
  have hsent : (c.callDriver c.adapter.driver (.request r)).2.sentMotions =
      c.sentMotions ++ r.motion?.toList := by
    cases hr : r.motion? <;> simp [sentMotions, callDriver, DriverCall.motion?, hr]
  unfold sending send?
  cases hstatus : c.adapter.status with
  | switching => trivial
  | unavailable =>
    have hworks : ¬ c.Works := fun hworks => hworks.adapter hstatus
    simp only
    split
    · exact ⟨rfl, fun t ht => .inl ht, fun h => absurd h hworks⟩
    · exact .spares (.refl c) (by simp) fun h => absurd h hworks
  | available =>
    cases hfault : c.faults c.adapter.driver (.request r) with
    | none =>
      simp only [callDriver, hfault]
      exact .sends rfl hsent rfl
    | some e =>
      have hworks : ¬ c.Works := fun hworks => by simp [hworks.faults] at hfault
      simp only [callDriver, hfault]
      split
      · exact ⟨rfl, fun t ht => .inl ht, fun h => absurd h hworks⟩
      · exact .sends rfl hsent rfl

theorem spares_connecting (generation : Nat) (d : Device) (attempt : Attempt) :
    (c.connecting now generation d attempt).SparesLocos c := by
  unfold connecting
  split
  · exact ⟨spares_connected _ _ _, by simp⟩
  · exact ⟨.of_eq rfl rfl rfl, by simp [Job.motion?]⟩

theorem spares_stillConnecting (alarm : Alarm) (generation : Nat) (d : Device)
    (result : Except DriverError DriverKind) :
    (c.stillConnecting now alarm generation d result).SparesLocos c := by
  unfold stillConnecting
  split
  · exact ⟨spares_connected _ _ _, by simp⟩
  · trivial

/-! ### All jobs -/

theorem drives_operate (op : Operation) : (c.operate now op).Drives c now (.operate op) := by
  cases op with
  | setTurnout id state =>
    simp only [operate]
    split
    · exact (SparesLocos.refl c).fails rfl
    · rename_i hset
      obtain ⟨hspared, hnext⟩ := spares_setTurnout hset
      exact .spares hspared hnext fun _ => rfl
  | setRoute start finish => exact (spares_setRoute start finish).drives rfl
  | clearRoute id => exact (spares_clearRoute id).drives rfl
  | moveNode id coordinate => exact (spares_moveNode id coordinate).drives rfl
  | addLoco name address => exact (keeps_addLoco name address).drives rfl
  | editLoco id name address => exact (keeps_editLoco id name address).drives rfl
  | deleteLoco id => exact (keeps_deleteLoco id).drives rfl
  | loadLocos => exact keeps_loadLocos.drives rfl
  | setSpeed id speed =>
    exact drives_actingOn (fun _ hfound => .setSpeed hfound) rfl (by simp [Job.motion?])
  | setDirection id d => exact drives_actingOn (fun _ hfound => .setDirection hfound) rfl (by simp)
  | toggleDirection id => exact drives_toggleDirection id
  | setFunction id number on =>
    exact drives_actingOn (fun _ hfound => .setFunction hfound) rfl (by simp)
  | syncLoco address level => exact drives_syncLoco address level
  | actOn handle act => exact drives_acting .done .actOn (by simp)
  | setPower on =>
    exact .spares (.refl c) (by simp [Job.motion?, Request.motion?]) fun _ => rfl
  | upload text => exact (spares_upload text).drives rfl
  | loadScripts => exact spares_loadScripts.drives rfl
  | deleteScript id => exact (spares_deleteScript id).drives rfl
  | describe id text => exact (spares_describe id text).drives rfl
  | runScript id loco => exact (spares_runScript id loco).drives rfl
  | trigger event => exact (spares_trigger event).drives rfl
  | pause pid => exact drives_pause pid
  | resume pid => exact (spares_resume pid).drives rfl
  | stop pid => exact drives_stop pid
  | request r => exact .requests
  | selectDriver name address => exact .spares (spares_switchTo _ _) (by simp) fun _ => rfl
  | selectDevice d => exact .spares (spares_switchTo _ _) (by simp) fun _ => rfl
  | switchTo d attempt => exact .spares (spares_switchTo d attempt) (by simp) fun _ => rfl

/-- What a job does to locos, whatever the job. -/
theorem drives_run (j : Job) : (c.run now j).Drives c now j := by
  cases j with
  | operate op => exact drives_operate op
  | command id part cmd => exact drives_command id part cmd
  | mark id part isDelay text =>
    simp only [run, mark]
    split
    · exact .spares (.refl c) (by simp) fun _ => rfl
    · split
      · exact .spares (.refl c) (by simp) fun _ => rfl
      · trivial
      · exact .spares (.of_eq rfl rfl rfl) (by simp) fun _ => rfl
  | delay id part milliseconds =>
    exact .spares (.of_eq rfl rfl rfl) (by simp [Job.motion?]) fun _ => rfl
  | asleep id part alarm =>
    simp only [run, asleep]
    split
    · exact .spares (.refl c) (by simp) fun _ => rfl
    · split
      · exact .spares (.refl c) (by simp) fun _ => rfl
      · trivial
  | send r refused => exact drives_sending r refused
  | settings rest =>
    obtain ⟨hspared, hnext⟩ := spares_nextSetting (c := c) rest
    exact .spares hspared hnext fun _ => rfl
  | finish id => exact (spares_finishRun id).drives rfl
  | pauseRun id =>
    have hdrives : c.Drives now (.pauseRun id) (c.pauseRun now id).1
        ((c.pauseRun now id).2 ++ []) :=
      drives_pauseRun id (fun _ _ _ hr hpause hloco => .pauseRun hr hpause hloco) rfl (by simp)
    rw [List.append_nil] at hdrives
    exact hdrives
  | resumeRun id => exact (spares_resumeRun id).drives rfl
  | stopRun id => exact .spares (.of_eq rfl rfl rfl) (by simp) fun _ => rfl
  | endReplay id text => exact .spares (.of_eq rfl rfl rfl) (by simp) fun _ => rfl
  | announceRuns => exact .spares (.of_eq rfl rfl rfl) (by simp) fun _ => rfl
  | announceSpeed address =>
    simp only [run, announceSpeed]
    split
    · exact (SparesLocos.refl c).fails rfl
    · exact .spares (.of_eq rfl rfl rfl) (by simp) fun _ => rfl
  | announcePower on => exact .spares (.of_eq rfl rfl rfl) (by simp) fun _ => rfl
  | connect generation d attempt => exact (spares_connecting generation d attempt).drives rfl
  | connecting alarm generation d result =>
    exact (spares_stillConnecting alarm generation d result).drives rfl

end Controller

end Signalbox
