import Signalbox.Proofs.Control.Deeds

/-
  Signalbox/Proofs/Control/Plain.lean --- what plain jobs do.

  Most operations leave the books alone.  A few start a run, and three are about a
  run that is live: each of them is an entry of its own in the books.
-/

set_option autoImplicit false

namespace Signalbox

/-! ## Plain jobs -/

/-- The outcome leaves the books as they are, and only plain jobs follow. -/
def Outcome.IsQuiet (b : Books) : Outcome → Prop
  | .waits _ => True
  | .done c next _ => c.books = b ∧ ∀ j ∈ next, j.IsPlain
  | .fails c _ => c.books = b

/-- The outcome is one of a plain job. -/
def Outcome.IsPlain (b : Books) (now : Nat) (j : Job) : Outcome → Prop
  | .waits _ => True
  | .done c next _ => b.Plainly now j c.books ∧ ∀ k ∈ next, k.IsPlain
  | .fails c _ => c.books = b

theorem Outcome.IsQuiet.isPlain {b : Books} {now : Nat} {j : Job} {o : Outcome}
    (h : o.IsQuiet b) : o.IsPlain b now j := by
  cases o with
  | waits wait => trivial
  | done c next reply => exact ⟨h.1 ▸ .grow .same, h.2⟩
  | fails c f => exact h

namespace Controller

variable (c : Controller)

section Locos

theorem isQuiet_acting (h : LocoHandle) (a : LocoAct) {next : List Job} (reply : Reply)
    (hnext : ∀ j ∈ next, j.IsPlain) : (c.acting h a next reply).IsQuiet c.books := by
  unfold acting
  split
  · rfl
  · rename_i hact
    refine ⟨books_act c hact, ?_⟩
    intro j hj
    rcases List.mem_append.mp hj with hj | hj
    · exact plain_sends _ _ j hj
    · exact hnext j hj

theorem isQuiet_actingOn (id : LocoId) (level : SyncLevel) (a : LocoAct) {next : Nat → List Job}
    (hnext : ∀ address, ∀ j ∈ next address, j.IsPlain) :
    (c.actingOn id level a next).IsQuiet c.books := by
  unfold actingOn
  split
  · rfl
  · exact c.isQuiet_acting _ _ _ (hnext _)

theorem isQuiet_toggleDirection (id : LocoId) : (c.toggleDirection id).IsQuiet c.books := by
  unfold toggleDirection
  split
  · rfl
  · split
    · rfl
    · exact c.isQuiet_acting _ _ _ (by simp)

theorem isQuiet_syncLoco (address : Nat) (level : SyncLevel) :
    (c.syncLoco address level).IsQuiet c.books := by
  unfold syncLoco
  split
  · rfl
  · rename_i l _
    exact ⟨c.books_follow level _ (LocoAct.motionRequest address l), plain_sends _ _⟩

theorem isQuiet_announceSpeed (address : Nat) : (c.announceSpeed address).IsQuiet c.books := by
  unfold announceSpeed
  split
  · rfl
  · exact ⟨rfl, by simp⟩

theorem isQuiet_addLoco (name : String) (address : Nat) :
    (c.addLoco name address).IsQuiet c.books := by
  unfold addLoco
  split
  · rfl
  · simp only
    split
    · rename_i hsave
      have hbooks := books_of_save hsave
      exact hbooks
    · rename_i hsave
      have hbooks := books_of_save hsave
      exact ⟨hbooks, by simp⟩

theorem isQuiet_editLoco (id : LocoId) (name : Option String) (address : Option Nat) :
    (c.editLoco id name address).IsQuiet c.books := by
  unfold editLoco
  split
  · rfl
  · split
    · rfl
    · simp only
      split
      · rfl
      · split
        · rename_i hsave
          have hbooks := books_of_save hsave
          exact hbooks
        · rename_i hsave
          have hbooks := books_of_save hsave
          exact ⟨hbooks, by simp⟩

theorem isQuiet_deleteLoco (id : LocoId) : (c.deleteLoco id).IsQuiet c.books := by
  unfold deleteLoco
  split
  · rfl
  · split
    · rename_i hsave
      have hbooks := books_of_save hsave
      exact hbooks
    · rename_i hsave
      have hbooks := books_of_save hsave
      split
      · exact hbooks
      · exact ⟨hbooks, by simp⟩

theorem isQuiet_loadLocos : c.loadLocos.IsQuiet c.books := by
  unfold loadLocos
  split
  · rfl
  · exact ⟨rfl, by simp⟩

end Locos

section Scripts

theorem isQuiet_upload (text : String) : (c.upload text).IsQuiet c.books := by
  unfold upload
  split
  · rfl
  · have hbooks := c.books_addScripts
    simp only
    split
    · exact hbooks _
    · exact ⟨hbooks _, by simp⟩

theorem isQuiet_loadScripts : c.loadScripts.IsQuiet c.books := by
  unfold loadScripts
  split
  · rfl
  · exact ⟨rfl, by simp⟩

theorem isQuiet_deleteScript (id : Int) : (c.deleteScript id).IsQuiet c.books := by
  unfold deleteScript
  split
  · rfl
  · split
    · rename_i hsave
      have hbooks := books_of_save hsave
      exact hbooks
    · rename_i hsave
      have hbooks := books_of_save hsave
      exact ⟨hbooks, by simp⟩

theorem isQuiet_describe (id : Int) (text : String) : (c.describe id text).IsQuiet c.books := by
  unfold describe
  split
  · rfl
  · simp only
    split
    · rename_i hsave
      have hbooks := books_of_save hsave
      exact hbooks
    · rename_i hsave
      have hbooks := books_of_save hsave
      exact ⟨hbooks, by simp⟩

end Scripts

section Layout

theorem isQuiet_clearRoute (id : RouteId) : (c.clearRoute id).IsQuiet c.books := by
  unfold clearRoute
  split
  · rfl
  · exact ⟨rfl, by simp⟩

theorem isQuiet_moveNode (id : NodeId) (coordinate : Coordinate) :
    (c.moveNode id coordinate).IsQuiet c.books := by
  unfold moveNode
  split
  · rfl
  · split
    · rename_i hsave
      have hbooks := books_of_save hsave
      exact hbooks
    · rename_i hsave
      have hbooks := books_of_save hsave
      exact ⟨hbooks, by simp⟩

end Layout

/-! ### Jobs that start runs -/

theorem grows_handle (e : TurnoutEvent) : c.books.Grows (c.handle e).2.books := by
  unfold handle
  split
  · exact .same
  · exact .startRun _ none eventRoot

theorem grows_noteTurnout {b : Books} (hb : c.books = b) (id : NodeId) (state : TurnoutState) :
    b.Grows (c.noteTurnout id state).books := by
  subst hb
  exact (c.saveAnyway (.saveState id state)).grows_handle ⟨id, state⟩

theorem grows_nextSetting {b : Books} (hb : c.books = b) (rest : List Setting) :
    b.Grows (c.nextSetting rest).1.books := by
  cases rest with
  | nil => exact hb ▸ .same
  | cons s rest => exact c.grows_noteTurnout hb s.turnout s.state

theorem plain_nextSetting (rest : List Setting) : ∀ j ∈ (c.nextSetting rest).2, j.IsPlain := by
  cases rest with
  | nil => simp [nextSetting]
  | cons s rest => simp [nextSetting, turnoutJob, Job.IsPlain]

/-- Operating a turnout may start its handler, and one request follows. -/
theorem grows_setTurnout {id : NodeId} {state : TurnoutState} {c' : Controller} {next : List Job}
    (h : c.setTurnout id state = .ok (c', next)) :
    c.books.Grows c'.books ∧ next = [turnoutJob id state] := by
  unfold setTurnout at h
  split at h
  · simp at h
  · obtain ⟨rfl, rfl⟩ := Prod.mk.inj (Except.ok.inj h)
    refine ⟨grows_noteTurnout _ ?_ id state, rfl⟩
    rfl

variable {now : Nat} {j : Job}

theorem isPlain_operate_setTurnout (id : NodeId) (state : TurnoutState) :
    (c.operate now (.setTurnout id state)).IsPlain c.books now j := by
  rw [operate]
  split
  · rfl
  · rename_i hset
    obtain ⟨hgrows, rfl⟩ := c.grows_setTurnout hset
    exact ⟨.grow hgrows, by simp [turnoutJob, Job.IsPlain]⟩

theorem isPlain_setRoute (start finish : NodeId) :
    (c.setRoute start finish).IsPlain c.books now j := by
  unfold setRoute
  split
  · rfl
  · rename_i o _
    refine ⟨.grow (grows_nextSetting _ ?_ o.changes), plain_nextSetting _ o.changes⟩
    rfl

theorem isPlain_runScript (id : Int) (loco : Option LocoId) :
    (c.runScript id loco).IsPlain c.books now j := by
  unfold runScript
  split
  · rfl
  · rename_i script _
    split
    · exact ⟨.grow (.startRun script none script.id), by simp⟩
    · split
      · rfl
      · rename_i address _
        exact ⟨.grow (.startRun script (some ⟨address, c.defaultSync⟩) script.id), by simp⟩

theorem isPlain_trigger (event : String) : (c.trigger event).IsPlain c.books now j := by
  unfold trigger
  split
  · exact ⟨.grow .same, by simp⟩
  · exact ⟨.grow (c.grows_handle _), by simp⟩

/-! ### Jobs that pause, resume and stop runs -/

/-- A live name leads to a run. -/
theorem liveRun?_eq_some {pid : Pid} {id : RunId} {r : Run} (h : c.liveRun? pid = some (id, r)) :
    c.books.live.get? pid = some id ∧ c.books.runs.get? id = some r := by
  simp only [liveRun?, Option.bind_eq_bind, Option.bind_eq_some_iff] at h
  obtain ⟨id', hlive, r', hrun, h⟩ := h
  obtain ⟨rfl, rfl⟩ := Prod.mk.inj (Option.some.inj h)
  exact ⟨hlive, hrun⟩

theorem books_halt (h : LocoHandle) : (c.halt h).1.books = c.books := by
  unfold halt
  split
  · rename_i hact
    exact c.books_act hact
  · rfl

theorem plain_halt (h : LocoHandle) : ∀ j ∈ (c.halt h).2, j.IsPlain := by
  unfold halt
  split
  · exact plain_sends _ _
  · simp

/-- What pausing a run does to the books, if anything. -/
theorem books_pauseRun (id : RunId) : (c.pauseRun now id).1.books = c.books ∨
    ∃ r r', c.books.runs.get? id = some r ∧ r.pause? now = some r' ∧
      (c.pauseRun now id).1.books = c.books.modifyRun id fun _ => r' := by
  unfold pauseRun
  split
  · exact .inl rfl
  · rename_i r' hr'
    obtain ⟨r, hr, hpause⟩ := Option.bind_eq_some_iff.mp hr'
    refine .inr ⟨r, r', hr, hpause, ?_⟩
    simp only
    split
    · rfl
    · rw [books_halt, books_modifyRun]

theorem plain_pauseRun (id : RunId) : ∀ j ∈ (c.pauseRun now id).2, j.IsPlain := by
  unfold pauseRun
  split
  · simp
  · simp only
    split
    · simp
    · exact plain_halt _ _

theorem isPlain_pause (pid : Pid) :
    (c.pause now pid).IsPlain c.books now (.operate (.pause pid)) := by
  unfold pause
  split
  · rfl
  · rename_i id r hlive
    obtain ⟨hlive, -⟩ := c.liveRun?_eq_some hlive
    constructor
    · change c.books.Plainly now _ (c.pauseRun now id).1.books
      rcases c.books_pauseRun id with h | ⟨r, r', hrun, hpause, h⟩
      · rw [h]
        exact .grow .same
      · rw [h]
        exact .pause hlive hrun hpause
    · intro j hj
      rcases List.mem_append.mp hj with hj | hj
      · exact c.plain_pauseRun id j hj
      · rw [List.mem_singleton.mp hj]
        trivial

theorem isPlain_resume (pid : Pid) :
    (c.resume pid).IsPlain c.books now (.operate (.resume pid)) := by
  unfold resume
  split
  · rfl
  · rename_i hlive
    obtain ⟨hlive, -⟩ := c.liveRun?_eq_some hlive
    exact ⟨.resume hlive, by simp⟩

theorem isPlain_stop (pid : Pid) : (c.stop pid).IsPlain c.books now (.operate (.stop pid)) := by
  unfold stop
  split
  · rfl
  · rename_i id r hlive
    obtain ⟨hlive, -⟩ := c.liveRun?_eq_some hlive
    have hstopped : c.books.Plainly now (.operate (.stop pid))
        ((c.books.retire pid).modifyRun id Run.stop) := .stop hlive
    simp only
    split
    · exact ⟨hstopped, by simp⟩
    · refine ⟨?_, plain_halt _ _⟩
      rw [books_halt]
      exact hstopped

/-! ### Jobs about the hardware -/

theorem isQuiet_sending (r : Request) (refused : OnRefusal) :
    (c.sending r refused).IsQuiet c.books := by
  unfold sending
  split
  · trivial
  · rename_i hsend
    exact ⟨c.books_send? hsend, by simp⟩
  · rename_i hsend
    have hbooks := c.books_send? hsend
    split
    · exact hbooks
    · exact ⟨hbooks, by simp⟩

theorem isPlain_switchTo (d : Device) (attempt : Attempt) :
    (Outcome.finished (c.switchTo d attempt)).IsPlain c.books now j := by
  refine ⟨.grow (.begin ?_), by simp⟩
  intro k hk
  rw [List.mem_singleton.mp hk]
  trivial

theorem isQuiet_connecting (generation : Nat) (d : Device) (attempt : Attempt) :
    (c.connecting now generation d attempt).IsQuiet c.books := by
  unfold connecting
  split
  · exact ⟨c.books_connected _ _ _, by simp⟩
  · exact ⟨rfl, by simp [Job.IsPlain]⟩

theorem isQuiet_stillConnecting (alarm : Alarm) (generation : Nat) (d : Device)
    (result : Except DriverError DriverKind) :
    (c.stillConnecting now alarm generation d result).IsQuiet c.books := by
  unfold stillConnecting
  split
  · exact ⟨c.books_connected _ _ _, by simp⟩
  · trivial

/-! ### All plain jobs -/

theorem isPlain_operate (op : Operation) :
    (c.operate now op).IsPlain c.books now (.operate op) := by
  cases op with
  | setTurnout id state => exact c.isPlain_operate_setTurnout id state
  | setRoute start finish => exact c.isPlain_setRoute start finish
  | clearRoute id => exact (c.isQuiet_clearRoute id).isPlain
  | moveNode id coordinate => exact (c.isQuiet_moveNode id coordinate).isPlain
  | addLoco name address => exact (c.isQuiet_addLoco name address).isPlain
  | editLoco id name address => exact (c.isQuiet_editLoco id name address).isPlain
  | deleteLoco id => exact (c.isQuiet_deleteLoco id).isPlain
  | loadLocos => exact c.isQuiet_loadLocos.isPlain
  | setSpeed id speed => exact (c.isQuiet_actingOn id _ _ (by simp [Job.IsPlain])).isPlain
  | setDirection id d => exact (c.isQuiet_actingOn id _ _ (by simp)).isPlain
  | toggleDirection id => exact (c.isQuiet_toggleDirection id).isPlain
  | setFunction id number on => exact (c.isQuiet_actingOn id _ _ (by simp)).isPlain
  | syncLoco address level => exact (c.isQuiet_syncLoco address level).isPlain
  | actOn handle act => exact (c.isQuiet_acting handle act _ (by simp)).isPlain
  | setPower on => exact ⟨.grow .same, by simp [Job.IsPlain]⟩
  | upload text => exact (c.isQuiet_upload text).isPlain
  | loadScripts => exact c.isQuiet_loadScripts.isPlain
  | deleteScript id => exact (c.isQuiet_deleteScript id).isPlain
  | describe id text => exact (c.isQuiet_describe id text).isPlain
  | runScript id loco => exact c.isPlain_runScript id loco
  | trigger event => exact c.isPlain_trigger event
  | pause pid => exact c.isPlain_pause pid
  | resume pid => exact c.isPlain_resume pid
  | stop pid => exact c.isPlain_stop pid
  | request r => exact ⟨.grow .same, by simp [Job.IsPlain]⟩
  | selectDriver name address => exact c.isPlain_switchTo _ _
  | selectDevice d => exact c.isPlain_switchTo _ _
  | switchTo d attempt => exact c.isPlain_switchTo d attempt

/-- What plain jobs do. -/
theorem isPlain_run (hj : j.IsPlain) : (c.run now j).IsPlain c.books now j := by
  cases j with
  | operate op => exact c.isPlain_operate op
  | send r refused => exact (c.isQuiet_sending r refused).isPlain
  | settings rest =>
    exact ⟨.grow (c.grows_nextSetting rfl rest), c.plain_nextSetting rest⟩
  | announceRuns => exact ⟨.grow .same, by simp⟩
  | announceSpeed address => exact (c.isQuiet_announceSpeed address).isPlain
  | announcePower on => exact ⟨.grow .same, by simp⟩
  | connect generation d attempt => exact (c.isQuiet_connecting generation d attempt).isPlain
  | connecting alarm generation d result =>
    exact (c.isQuiet_stillConnecting alarm generation d result).isPlain
  | _ => exact hj.elim

end Controller

end Signalbox
