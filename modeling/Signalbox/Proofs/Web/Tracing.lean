import Signalbox.Proofs.Web.Causes

/-
  Signalbox/Proofs/Web/Tracing.lean --- failures traced to their causes.

  An operation goes on from job to job.  Whatever a client can ask for, each of its
  jobs leads to other jobs of the same operation, and when one of them fails, the
  controller has a cause to refuse it as it is at that moment.  There is one lemma
  for each kind of operation, and at the end one for all jobs.
-/

set_option autoImplicit false

namespace Signalbox

/-! ## The jobs of an operation -/

/-- The operation may come to a job. -/
def Operation.ComesTo (op : Operation) : Job → Prop
  | .operate op' => op' = op
  | .send r refused =>
    match refused with
    | .ignore => True
    | .failLoco => op.loco?.isSome
    | .failDriver => ∃ on, op = .setPower on ∧ r = .power on
  | .settings _ | .announceRuns | .announceSpeed _ | .announcePower _ => True
  | _ => False

/-- A job of an operation comes to jobs of the same operation and to no failure as its reply; if it
fails, there is a cause. -/
def Outcome.IsTraced (c : Controller) (op : Operation) (j : Job) : Outcome → Prop
  | .waits _ => True
  | .done _ next reply => (∀ k ∈ next, op.ComesTo k) ∧ ∀ f, reply ≠ some (.failed f)
  | .fails _ f => ∃ cause, c.Refuses j f cause

namespace Controller

variable {c : Controller} {now : Nat} {op : Operation} {j : Job} {f : Failure} {cause : Cause}

/-- A job that is done with nothing of interest. -/
theorem isTraced_done {c' : Controller} {next : List Job} {reply : Option Reply}
    (hnext : ∀ k ∈ next, op.ComesTo k) (hreply : ∀ f, reply ≠ some (.failed f)) :
    (Outcome.done c' next reply).IsTraced c op j := ⟨hnext, hreply⟩

/-- A job that is refused. -/
theorem Refuses.isTraced {c' : Controller} (h : c.Refuses j f cause) :
    (Outcome.fails c' f).IsTraced c op j := ⟨cause, h⟩

theorem comesTo_send (r : Request) : op.ComesTo (.send r .ignore) := trivial

theorem comesTo_sends {refused : OnRefusal} (h : ∀ r, op.ComesTo (.send r refused))
    (requests : List Request) : ∀ k ∈ sends refused requests, op.ComesTo k := by
  intro k hk
  obtain ⟨r, -, rfl⟩ := List.mem_map.mp hk
  exact h r

theorem comesTo_nextSetting (rest : List Setting) : ∀ k ∈ (c.nextSetting rest).2, op.ComesTo k := by
  cases rest <;> simp [nextSetting, turnoutJob, Operation.ComesTo]

theorem comesTo_halt (h : LocoHandle) : ∀ k ∈ (c.halt h).2, op.ComesTo k := by
  unfold halt
  split
  · exact comesTo_sends comesTo_send _
  · simp

theorem comesTo_pauseRun (id : RunId) : ∀ k ∈ (c.pauseRun now id).2, op.ComesTo k := by
  unfold pauseRun
  split
  · simp
  · simp only
    split
    · simp
    · exact comesTo_halt _

section Layout

variable {id : NodeId}

theorem isTraced_setTurnout (state : TurnoutState) :
    (c.operate now (.setTurnout id state)).IsTraced c (.setTurnout id state)
      (.operate (.setTurnout id state)) := by
  simp only [operate, setTurnout]
  cases h : c.interlocking.setTurnout id state with
  | error e =>
    obtain ⟨rfl, hnone⟩ := Interlocking.setTurnout_eq_error h
    exact (Refuses.noTurnout hnone).isTraced
  | ok o => exact isTraced_done (by simp [turnoutJob, Operation.ComesTo]) (by simp)

theorem isTraced_setRoute (start finish : NodeId) :
    (c.setRoute start finish).IsTraced c (.setRoute start finish)
      (.operate (.setRoute start finish)) := by
  unfold setRoute
  cases h : c.interlocking.setRoute start finish with
  | error e =>
    have hroute := Interlocking.setRoute_eq_error h
    obtain ⟨id, hend, hid, rfl⟩ | ⟨hstart, hfinish, -⟩ := Interlocking.findRoute_eq_error hroute
    · exact (Refuses.noEnd hend hid).isTraced
    · exact (Refuses.badRoute hstart hfinish hroute).isTraced
  | ok o => exact isTraced_done (comesTo_nextSetting _) (by simp)

theorem isTraced_clearRoute (id : RouteId) :
    (c.clearRoute id).IsTraced c (.clearRoute id) (.operate (.clearRoute id)) := by
  unfold clearRoute
  cases h : c.interlocking.clearRoute id with
  | error e =>
    obtain ⟨rfl, hnone⟩ := Interlocking.clearRoute_eq_error h
    exact (Refuses.noRoute hnone).isTraced
  | ok o => exact isTraced_done (by simp) (by simp)

theorem isTraced_moveNode (place : Coordinate) :
    (c.moveNode id place).IsTraced c (.moveNode id place) (.operate (.moveNode id place)) := by
  unfold moveNode
  cases h : c.interlocking.moveNode id place with
  | error e =>
    obtain ⟨rfl, hnone⟩ := Interlocking.moveNode_eq_error h
    exact (Refuses.noNode hnone).isTraced
  | ok s =>
    obtain ⟨there, hplace⟩ := Interlocking.exists_placeOf?_of_moveNode h
    simp only [save_eq]
    cases hsave : (c.store.change (.saveCoordinate id place)).1 with
    | error e =>
      have hchange : (Operation.moveNode id place).change? c = some (.saveCoordinate id place) := by
        simp [Operation.change?, hplace]
      exact (Refuses.unsaved hchange hsave).isTraced
    | ok _ => exact isTraced_done (by simp) (by simp)

end Layout

section Locos

variable {id : LocoId} {address : Nat}

/-- An address that leads to no loco makes its identifier lead nowhere. -/
theorem find?_of_get? (haddress : c.roster.addressOf? id = some address)
    (h : c.roster.byAddress.get? address = none) : c.roster.find? id = none := by
  simp [Roster.find?, haddress, h]

theorem find?_of_addressOf? (h : c.roster.addressOf? id = none) : c.roster.find? id = none := by
  simp [Roster.find?, h]

theorem isTraced_acting (hop : op.loco? = some id)
    (haddress : c.roster.addressOf? id = some address) (level : SyncLevel) {a : LocoAct}
    (ha : ∀ e, a.refusal = some e → ∃ cause, c.Refuses (.operate op) (.loco e) cause)
    {next : List Job} (hnext : ∀ k ∈ next, op.ComesTo k) {reply : Reply}
    (hreply : ∀ f, reply ≠ .failed f) :
    (c.acting ⟨address, level⟩ a next reply).IsTraced c op (.operate op) := by
  unfold acting
  split
  · rename_i e hact
    unfold act at hact
    split at hact
    · rename_i e' hrefusal
      obtain rfl := Except.error.inj hact
      exact ha e' hrefusal
    · split at hact
      · rename_i hnone
        obtain rfl := Except.error.inj hact
        have hget : c.roster.byAddress.get? address = none := by
          simpa [Roster.modify?] using hnone
        exact (Refuses.noLoco hop (find?_of_get? haddress hget)).isTraced
      · simp at hact
  · refine isTraced_done (fun k hk => ?_) (by simpa using hreply)
    rcases List.mem_append.mp hk with hk | hk
    · exact comesTo_sends (fun r => show op.ComesTo (.send r .failLoco) by
        simp [Operation.ComesTo, hop]) _ k hk
    · exact hnext k hk

theorem isTraced_actingOn (hop : op.loco? = some id) (level : SyncLevel) {a : LocoAct}
    (ha : ∀ address e, c.roster.addressOf? id = some address → a.refusal = some e →
      ∃ cause, c.Refuses (.operate op) (.loco e) cause)
    {next : Nat → List Job} (hnext : ∀ address, ∀ k ∈ next address, op.ComesTo k) :
    (c.actingOn id level a next).IsTraced c op (.operate op) := by
  unfold actingOn
  split
  · rename_i hnone
    exact (Refuses.noLoco hop (find?_of_addressOf? hnone)).isTraced
  · rename_i address haddress
    exact isTraced_acting hop haddress level (fun e => ha address e haddress) (hnext address)
      (by simp)

theorem isTraced_toggleDirection :
    (c.toggleDirection id).IsTraced c (.toggleDirection id) (.operate (.toggleDirection id)) := by
  unfold toggleDirection
  split
  · rename_i hnone
    exact (Refuses.noLoco rfl (find?_of_addressOf? hnone)).isTraced
  · rename_i address haddress
    split
    · rename_i hnone
      exact (Refuses.noLoco rfl (find?_of_get? haddress hnone)).isTraced
    · exact isTraced_acting rfl haddress .all (by simp [LocoAct.refusal]) (by simp) (by simp)

theorem isTraced_addLoco (name : String) (address : Nat) :
    (c.addLoco name address).IsTraced c (.addLoco name address)
      (.operate (.addLoco name address)) := by
  unfold addLoco
  cases h : c.roster.refusal name address none with
  | some e => exact (Refuses.badLoco h).isTraced
  | none =>
    simp only [save_eq]
    have hchange : (Operation.addLoco name address).change? c =
        some (.insertLoco (Loco.standing name address).record) := by
      simp only [Operation.change?, h]
    cases hsave : (c.store.change (.insertLoco (Loco.standing name address).record)).1 with
    | error e => exact (Refuses.unsaved hchange hsave).isTraced
    | ok _ => exact isTraced_done (by simp) (by simp)

theorem isTraced_editLoco (name : Option String) (new : Option Nat) :
    (c.editLoco id name new).IsTraced c (.editLoco id name new)
      (.operate (.editLoco id name new)) := by
  unfold editLoco
  cases hcurrent : c.roster.addressOf? id with
  | none => exact (Refuses.noLoco rfl (find?_of_addressOf? hcurrent)).isTraced
  | some current =>
    simp only
    cases hl : c.roster.byAddress.get? current with
    | none => exact (Refuses.noLoco rfl (find?_of_get? hcurrent hl)).isTraced
    | some l =>
      simp only
      cases h : c.roster.refusal (Roster.edited l name new).name (Roster.edited l name new).address
        (some current) with
      | some e => exact (Refuses.badEdit hcurrent hl h).isTraced
      | none =>
        simp only [save_eq]
        have hchange : (Operation.editLoco id name new).change? c =
            some (.updateLoco current (Roster.edited l name new).record) := by
          simp [Operation.change?, hcurrent, hl, h]
        cases hsave :
            (c.store.change (.updateLoco current (Roster.edited l name new).record)).1 with
        | error e => exact (Refuses.unsaved hchange hsave).isTraced
        | ok _ => exact isTraced_done (by simp) (by simp)

theorem isTraced_deleteLoco :
    (c.deleteLoco id).IsTraced c (.deleteLoco id) (.operate (.deleteLoco id)) := by
  unfold deleteLoco
  cases haddress : c.roster.addressOf? id with
  | none => exact (Refuses.noLoco rfl (find?_of_addressOf? haddress)).isTraced
  | some address =>
    simp only [save_eq]
    have hchange : (Operation.deleteLoco id).change? c = some (.deleteLoco address) := by
      simp [Operation.change?, haddress]
    cases hsave : (c.store.change (.deleteLoco address)).1 with
    | error e => exact (Refuses.unsaved hchange hsave).isTraced
    | ok _ =>
      simp only
      cases hremove : c.roster.remove? address with
      | none =>
        have hget : c.roster.byAddress.get? address = none := by
          simpa [Roster.remove?] using hremove
        exact (Refuses.noLoco rfl (find?_of_get? haddress hget)).isTraced
      | some x => exact isTraced_done (by simp) (by simp)

end Locos

section Scripts

/-- What an upload has saved when the store refuses a script. -/
theorem exists_unsaved_of_addScripts {scripts : List Script} {e : StorageError}
    (h : (c.addScripts scripts).2.1 = some e) :
    ∃ before s after, scripts = before ++ s :: after ∧ (c.addScripts before).2.1 = none ∧
      ((c.addScripts before).2.2.store.change (.saveScript s.row)).1 = .error e := by
  induction scripts generalizing c with
  | nil => simp [addScripts] at h
  | cons s rest ih =>
    rw [addScripts, save_eq] at h
    cases hsave : (c.store.change (.saveScript s.row)).1 with
    | error e' =>
      rw [hsave] at h
      obtain rfl := Option.some.inj h
      exact ⟨[], s, rest, rfl, rfl, hsave⟩
    | ok _ =>
      rw [hsave] at h
      obtain ⟨before, t, after, rfl, hbefore, ht⟩ := ih h
      refine ⟨s :: before, t, after, rfl, ?_, ?_⟩
      · rw [addScripts, save_eq, hsave]
        exact hbefore
      · rw [addScripts, save_eq, hsave]
        exact ht

theorem isTraced_upload (text : String) :
    (c.upload text).IsTraced c (.upload text) (.operate (.upload text)) := by
  unfold upload
  cases hcompile : Script.compile text with
  | error e => exact (Refuses.badScript hcompile).isTraced
  | ok scripts =>
    simp only
    cases hrefusal : (c.addScripts scripts).2.1 with
    | some e =>
      obtain ⟨before, s, after, rfl, hbefore, hs⟩ := exists_unsaved_of_addScripts hrefusal
      exact (Refuses.unsavedScript hcompile hbefore hs).isTraced
    | none => exact isTraced_done (by simp) (by simp)

theorem isTraced_deleteScript (id : Int) :
    (c.deleteScript id).IsTraced c (.deleteScript id) (.operate (.deleteScript id)) := by
  unfold deleteScript
  cases hs : c.catalog.scripts.get? id with
  | none =>
    have hnone : c.catalog.unregister? id = none := by simp [Catalog.unregister?, hs]
    rw [hnone]
    exact (Refuses.noScript rfl hs).isTraced
  | some s =>
    cases hcatalog : c.catalog.unregister? id with
    | none => simp [Catalog.unregister?, hs] at hcatalog
    | some catalog =>
      simp only [save_eq]
      have hchange : (Operation.deleteScript id).change? c = some (.deleteScript id) := by
        simp [Operation.change?, hs]
      cases hsave : (c.store.change (.deleteScript id)).1 with
      | error e => exact (Refuses.unsaved hchange hsave).isTraced
      | ok _ => exact isTraced_done (by simp) (by simp)

theorem isTraced_describe (id : Int) (text : String) :
    (c.describe id text).IsTraced c (.describe id text) (.operate (.describe id text)) := by
  unfold describe
  cases hs : c.catalog.scripts.get? id with
  | none => exact (Refuses.noScript rfl hs).isTraced
  | some s =>
    simp only [save_eq]
    have hchange : (Operation.describe id text).change? c =
        some (.saveScript (Script.row { s with description := text })) := by
      simp [Operation.change?, hs]
    cases hsave : (c.store.change (.saveScript (Script.row { s with description := text }))).1 with
    | error e => exact (Refuses.unsaved hchange hsave).isTraced
    | ok _ => exact isTraced_done (by simp) (by simp)

end Scripts

section Runs

theorem isTraced_runScript (id : Int) (loco : Option LocoId) :
    (c.runScript id loco).IsTraced c (.runScript id loco) (.operate (.runScript id loco)) := by
  unfold runScript
  cases hs : c.catalog.scripts.get? id with
  | none => exact (Refuses.noScript rfl hs).isTraced
  | some s =>
    simp only
    split
    · exact isTraced_done (by simp) (by simp)
    · rename_i l hl
      obtain ⟨rfl, -⟩ := Option.filter_eq_some_iff.mp hl
      split
      · rename_i haddress
        exact (Refuses.noLocoForRun haddress).isTraced
      · exact isTraced_done (by simp) (by simp)

theorem isTraced_pause (pid : Pid) :
    (c.pause now pid).IsTraced c (.pause pid) (.operate (.pause pid)) := by
  unfold pause
  split
  · rename_i hnone
    exact (Refuses.noRun rfl hnone).isTraced
  · refine isTraced_done (fun k hk => ?_) (by simp)
    rcases List.mem_append.mp hk with hk | hk
    · exact comesTo_pauseRun _ k hk
    · rw [List.mem_singleton.mp hk]
      trivial

theorem isTraced_resume (pid : Pid) :
    (c.resume pid).IsTraced c (.resume pid) (.operate (.resume pid)) := by
  unfold resume
  split
  · rename_i hnone
    exact (Refuses.noRun rfl hnone).isTraced
  · exact isTraced_done (by simp) (by simp)

theorem isTraced_stop (pid : Pid) :
    (c.stop pid).IsTraced c (.stop pid) (.operate (.stop pid)) := by
  unfold stop
  split
  · rename_i hnone
    exact (Refuses.noRun rfl hnone).isTraced
  · simp only
    split
    · exact isTraced_done (by simp) (by simp)
    · exact isTraced_done (comesTo_halt _) (by simp)

end Runs

/-- Whatever operation is asked for over the web, its first job is traced. -/
theorem isTraced_operate (h : op.IsOffered) : (c.operate now op).IsTraced c op (.operate op) := by
  cases op with
  | setTurnout id state => exact isTraced_setTurnout state
  | setRoute start finish => exact isTraced_setRoute start finish
  | clearRoute id => exact isTraced_clearRoute id
  | moveNode id place => exact isTraced_moveNode place
  | addLoco name address => exact isTraced_addLoco name address
  | editLoco id name address => exact isTraced_editLoco name address
  | deleteLoco id => exact isTraced_deleteLoco
  | setSpeed id speed =>
    exact isTraced_actingOn rfl _ (by simp [LocoAct.refusal]) (by simp [Operation.ComesTo])
  | setDirection id d =>
    refine isTraced_actingOn rfl _ (fun address e _ he => ?_) (by simp)
    split at he <;> simp [LocoAct.refusal] at he
  | toggleDirection id => exact isTraced_toggleDirection
  | setFunction id n on =>
    refine isTraced_actingOn rfl _ (fun address e haddress he => ?_) (by simp)
    obtain ⟨hn, rfl⟩ : maxFunction < n ∧ LocoError.functionRange n = e := by
      simpa [LocoAct.refusal] using he
    exact ⟨_, .badFunction haddress hn⟩
  | setPower on => exact isTraced_done (by simp [Operation.ComesTo]) (by simp)
  | upload text => exact isTraced_upload text
  | deleteScript id => exact isTraced_deleteScript id
  | describe id text => exact isTraced_describe id text
  | runScript id loco => exact isTraced_runScript id loco
  | pause pid => exact isTraced_pause pid
  | resume pid => exact isTraced_resume pid
  | stop pid => exact isTraced_stop pid
  | selectDriver name address => exact isTraced_done (by simp) (by simp)
  | selectDevice d => exact isTraced_done (by simp) (by simp)
  | _ => exact h.elim

theorem isTraced_sending {r : Request} {refused : OnRefusal} (h : op.ComesTo (.send r refused)) :
    (c.sending r refused).IsTraced c op (.send r refused) := by
  unfold sending
  split
  · trivial
  · exact isTraced_done (by simp) (by simp)
  · rename_i e c' hsend
    cases refused with
    | ignore => exact isTraced_done (by simp) (by simp)
    | failLoco => exact (Refuses.noAnswer hsend).isTraced
    | failDriver =>
      obtain ⟨on, -, rfl⟩ := h
      exact (Refuses.noPower hsend).isTraced

/-- So is every job that such an operation comes to. -/
theorem isTraced_run (hop : op.IsOffered) (h : op.ComesTo j) : (c.run now j).IsTraced c op j := by
  cases j with
  | operate op' =>
    obtain rfl : op' = op := h
    exact isTraced_operate hop
  | send r refused => exact isTraced_sending h
  | settings rest => exact isTraced_done (comesTo_nextSetting rest) (by simp)
  | announceRuns => exact isTraced_done (by simp) (by simp)
  | announcePower on => exact isTraced_done (by simp) (by simp)
  | announceSpeed address =>
    simp only [run, announceSpeed]
    split
    · rename_i hnone
      exact (Refuses.locoGone hnone).isTraced
    · exact isTraced_done (by simp) (by simp)
  | _ => exact h.elim

/-! ## Edits of the roster -/

/-- An edit of the roster is over with its first job. -/
theorem operate_editsRoster (h : op.editsRoster = true) :
    (∃ c' reply, c.operate now op = .done c' [] reply) ∨
      ∃ c' f, c.operate now op = .fails c' f := by
  cases op with
  | addLoco name address =>
    simp only [operate, addLoco, save_eq, Outcome.answers]
    split
    · simp
    · split <;> simp
  | editLoco id name address =>
    simp only [operate, editLoco, save_eq, Outcome.answers]
    split
    · simp
    · split
      · simp
      · split
        · simp
        · split <;> simp
  | deleteLoco id =>
    simp only [operate, deleteLoco, save_eq, Outcome.answers]
    split
    · simp
    · split
      · simp
      · split <;> simp
  | _ => simp [Operation.editsRoster] at h

/-- An edit of the roster fails when the store does not save the change. -/
theorem operate_of_unsaved (now : Nat) (h : op.editsRoster = true) {change : RowChange}
    (hchange : op.change? c = some change) {e : StorageError}
    (he : (c.store.change change).1 = .error e) :
    ∃ c', c.operate now op = .fails c' (.loco (.storage e)) := by
  cases op with
  | addLoco name address =>
    simp only [Operation.change?] at hchange
    split at hchange
    · simp at hchange
    · rename_i hrefusal
      obtain rfl := Option.some.inj hchange
      simp only [operate, addLoco, hrefusal, save_eq, he]
      exact ⟨_, rfl⟩
  | editLoco id name address =>
    obtain ⟨current, hcurrent, hchange⟩ := Option.bind_eq_some_iff.mp hchange
    obtain ⟨l, hl, hchange⟩ := Option.bind_eq_some_iff.mp hchange
    simp only at hchange
    split at hchange
    · simp at hchange
    · rename_i hrefusal
      obtain rfl := Option.some.inj hchange
      simp only [operate, editLoco, hcurrent, hl, hrefusal, save_eq, he]
      exact ⟨_, rfl⟩
  | deleteLoco id =>
    obtain ⟨address, haddress, rfl⟩ := Option.map_eq_some_iff.mp hchange
    simp only [operate, deleteLoco, haddress, save_eq, he]
    exact ⟨_, rfl⟩
  | _ => simp [Operation.editsRoster] at h

end Controller

end Signalbox
