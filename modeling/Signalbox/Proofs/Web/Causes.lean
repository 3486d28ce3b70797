import Signalbox.Proofs.Control.Refusals
import Signalbox.Proofs.Except
import Signalbox.Web.Server

/-
  Signalbox/Proofs/Web/Causes.lean --- why an operation fails.

  An operation that clients can ask for over the web fails for one of four causes:
  an id leads nowhere, the hardware refuses track power, the store fails, or
  anything else.  A refusal says what there is about the controller that makes it
  refuse, so the cause is told from the controller and not from the error.
-/

set_option autoImplicit false

namespace Signalbox

/-! ## Causes -/

/-- What a failure comes from in the end. -/
inductive Cause where
  | unknownId
  | powerRefused
  | storeFailed
  | other
  deriving DecidableEq, Repr

/-- The status that a cause is documented to have. -/
def Cause.status : Cause → Nat
  | unknownId => 404
  | powerRefused => 503
  | storeFailed => 500
  | other => 400

/-! ## Operations -/

namespace Operation

/-- Clients can ask for the operation over the web. -/
def IsOffered : Operation → Prop
  | loadLocos | syncLoco _ _ | actOn _ _ => False
  | loadScripts | trigger _ => False
  | request _ | switchTo _ _ => False
  | _ => True

/-- The loco that an operation is about; a run may do without one. -/
def loco? : Operation → Option LocoId
  | editLoco id _ _ | deleteLoco id => some id
  | setSpeed id _ | setDirection id _ | toggleDirection id | setFunction id _ _ => some id
  | _ => none

/-- The script that an operation is about. -/
def script? : Operation → Option Int
  | deleteScript id | describe id _ | runScript id _ => some id
  | _ => none

/-- The live run that an operation is about. -/
def pid? : Operation → Option Pid
  | pause pid | resume pid | stop pid => some pid
  | _ => none

/-- The operation adds, edits or deletes a loco. -/
def editsRoster : Operation → Bool
  | addLoco _ _ | editLoco _ _ _ | deleteLoco _ => true
  | _ => false

/-- The change that an operation has to have saved, when nothing else is wrong with it.  An upload
has one for each script. -/
def change? (c : Controller) : Operation → Option RowChange
  | moveNode id place => (c.interlocking.placeOf? id).map fun _ => .saveCoordinate id place
  | addLoco name address =>
    match c.roster.refusal name address none with
    | some _ => none
    | none => some (.insertLoco (Loco.standing name address).record)
  | editLoco id name address => do
    let current ← c.roster.addressOf? id
    let l ← c.roster.byAddress.get? current
    let edited := Roster.edited l name address
    match c.roster.refusal edited.name edited.address (some current) with
    | some _ => none
    | none => some (.updateLoco current edited.record)
  | deleteLoco id => (c.roster.addressOf? id).map .deleteLoco
  | deleteScript id => (c.catalog.scripts.get? id).map fun _ => .deleteScript id
  | describe id text => (c.catalog.scripts.get? id).map fun s =>
      .saveScript (Script.row { s with description := text })
  | _ => none

/-- The failure of an operation whose change is not saved. -/
def unsaved (e : StorageError) : Operation → Failure
  | moveNode _ _ => .layout (.notSaved e.message)
  | addLoco _ _ | editLoco _ _ _ | deleteLoco _ => .loco (.storage e)
  | _ => .run (.storage e)

end Operation

/-! ## Refusals -/

/-- The controller refuses a job with a failure, and there is a cause for it. -/
inductive Controller.Refuses (c : Controller) : Job → Failure → Cause → Prop
  -- An id leads nowhere.
  | noTurnout {id : NodeId} {state : TurnoutState}
      (h : c.interlocking.layout.turnouts.get? id = none) :
      Refuses c (.operate (.setTurnout id state)) (.layout (.unknownTurnout id)) .unknownId
  | noEnd {start finish id : NodeId} (hend : id = start ∨ id = finish)
      (h : c.interlocking.graph.hasVertex id = false) :
      Refuses c (.operate (.setRoute start finish)) (.layout (.unknownNode id)) .unknownId
  | noRoute {id : RouteId} (h : c.interlocking.routes.get? id = none) :
      Refuses c (.operate (.clearRoute id)) (.layout (.unknownRoute id)) .unknownId
  | noNode {id : NodeId} {place : Coordinate} (h : c.interlocking.placeOf? id = none) :
      Refuses c (.operate (.moveNode id place)) (.layout (.unknownNode id)) .unknownId
  | noLoco {op : Operation} {id : LocoId} (hop : op.loco? = some id)
      (h : c.roster.find? id = none) : Refuses c (.operate op) (.loco .notFound) .unknownId
  | noLocoForRun {script : Int} {id : LocoId} (h : c.roster.addressOf? id = none) :
      Refuses c (.operate (.runScript script (some id))) (.run (.loco .notFound)) .unknownId
  /-- The loco has been deleted since its speed was set. -/
  | locoGone {address : Nat} (h : c.roster.byAddress.get? address = none) :
      Refuses c (.announceSpeed address) (.loco .notFound) .unknownId
  | noScript {op : Operation} {id : Int} (hop : op.script? = some id)
      (h : c.catalog.scripts.get? id = none) :
      Refuses c (.operate op) (.run (.noScript id)) .unknownId
  | noRun {op : Operation} {pid : Pid} (hop : op.pid? = some pid) (h : c.liveRun? pid = none) :
      Refuses c (.operate op) (.run (.noRun pid)) .unknownId
  -- The hardware refuses.
  | noPower {on : Bool} {e : DriverError} {c' : Controller}
      (h : c.send? (.power on) = some (.error e, c')) :
      Refuses c (.send (.power on) .failDriver) (.driver e) .powerRefused
  | noAnswer {r : Request} {e : DriverError} {c' : Controller}
      (h : c.send? r = some (.error e, c')) :
      Refuses c (.send r .failLoco) (.loco (.hardware e)) .other
  -- The store fails.
  | unsaved {op : Operation} {change : RowChange} {e : StorageError}
      (hop : op.change? c = some change) (h : (c.store.change change).1 = .error e) :
      Refuses c (.operate op) (op.unsaved e) .storeFailed
  | unsavedScript {text : String} {before after : List Script} {s : Script} {e : StorageError}
      (hcompile : Script.compile text = .ok (before ++ s :: after))
      (hbefore : (c.addScripts before).2.1 = none)
      (h : ((c.addScripts before).2.2.store.change (.saveScript s.row)).1 = .error e) :
      Refuses c (.operate (.upload text)) (.run (.storage e)) .storeFailed
  -- Anything else.
  | badRoute {start finish : NodeId} {e : LayoutError}
      (hstart : c.interlocking.graph.hasVertex start = true)
      (hfinish : c.interlocking.graph.hasVertex finish = true)
      (h : c.interlocking.findRoute start finish = .error e) :
      Refuses c (.operate (.setRoute start finish)) (.layout e) .other
  | badLoco {name : String} {address : Nat} {e : LocoError}
      (h : c.roster.refusal name address none = some e) :
      Refuses c (.operate (.addLoco name address)) (.loco e) .other
  | badEdit {id : LocoId} {name : Option String} {address : Option Nat} {current : Nat} {l : Loco}
      {e : LocoError} (hcurrent : c.roster.addressOf? id = some current)
      (hl : c.roster.byAddress.get? current = some l)
      (h : c.roster.refusal (Roster.edited l name address).name
        (Roster.edited l name address).address (some current) = some e) :
      Refuses c (.operate (.editLoco id name address)) (.loco e) .other
  | badFunction {id : LocoId} {n : Nat} {on : Bool} {address : Nat}
      (haddress : c.roster.addressOf? id = some address) (h : maxFunction < n) :
      Refuses c (.operate (.setFunction id n on)) (.loco (.functionRange n)) .other
  | badScript {text : String} {e : ScriptError} (h : Script.compile text = .error e) :
      Refuses c (.operate (.upload text)) (.run (.script e)) .other

/-! ## Statuses -/

/-- There are four things that can be wrong with a name and an address for a loco. -/
theorem Roster.refusal_eq_some {r : Roster} {name : String} {address : Nat} {current : Option Nat}
    {e : LocoError} (h : r.refusal name address current = some e) :
    e = .blankName ∨ e = .addressRange address ∨ e = .nameTaken name ∨
      e = .addressTaken address := by
  unfold refusal at h
  grind

/-- None of them is an unknown id, and none comes from the store. -/
theorem Roster.status_refusal {r : Roster} {name : String} {address : Nat} {current : Option Nat}
    {e : LocoError} (h : r.refusal name address current = some e) :
    e.status = 400 ∧ ∀ e', e ≠ .storage e' := by
  rcases refusal_eq_some h with rfl | rfl | rfl | rfl <;> simp [LocoError.status]

namespace Interlocking

variable {s : Interlocking}

theorem setTurnout_eq_error {id : NodeId} {state : TurnoutState} {e : LayoutError}
    (h : s.setTurnout id state = .error e) :
    e = .unknownTurnout id ∧ s.layout.turnouts.get? id = none := by
  unfold setTurnout at h
  split at h
  · simp at h
  · rename_i hcontains
    exact ⟨(Except.error.inj h).symm, by simpa [Table.contains] using hcontains⟩

theorem clearRoute_eq_error {id : RouteId} {e : LayoutError} (h : s.clearRoute id = .error e) :
    e = .unknownRoute id ∧ s.routes.get? id = none := by
  unfold clearRoute at h
  split at h
  · simp at h
  · rename_i hcontains
    exact ⟨(Except.error.inj h).symm, by simpa [Table.contains] using hcontains⟩

theorem moveNode_eq_error {id : NodeId} {place : Coordinate} {e : LayoutError}
    (h : s.moveNode id place = .error e) : e = .unknownNode id ∧ s.placeOf? id = none := by
  unfold moveNode at h
  simp only at h
  split at h
  · simp at h
  · rename_i hturnout
    split at h
    · simp at h
    · rename_i hdestination
      have hturnout : s.layout.turnouts.get? id = none := by
        simpa [Table.contains] using hturnout
      have hdestination : s.layout.destinations.get? id = none := by
        simpa [Table.contains] using hdestination
      exact ⟨(Except.error.inj h).symm, by simp [placeOf?, hturnout, hdestination]⟩

/-- A node that has been moved was there. -/
theorem exists_placeOf?_of_moveNode {s' : Interlocking} {id : NodeId} {place : Coordinate}
    (h : s.moveNode id place = .ok s') : ∃ there, s.placeOf? id = some there := by
  unfold moveNode at h
  simp only at h
  split at h
  · rename_i hcontains
    obtain ⟨t, ht⟩ := Table.contains_iff.mp hcontains
    exact ⟨t.coordinate, by simp [placeOf?, ht]⟩
  · rename_i hnone
    split at h
    · rename_i hcontains
      obtain ⟨d, hd⟩ := Table.contains_iff.mp hcontains
      have hturnout : s.layout.turnouts.get? id = none := by simpa [Table.contains] using hnone
      exact ⟨d.coordinate, by simp [placeOf?, hturnout, hd]⟩
    · simp at h

end Interlocking

/-- When both ends of a path are there, their ids are not what is wrong with it. -/
theorem Graph.status_findPath {g : Graph} {start finish : NodeId} {e : LayoutError}
    (hstart : g.hasVertex start = true) (hfinish : g.hasVertex finish = true)
    (h : g.findPath start finish = .error e) : e.status = 400 := by
  simp only [findPath, hstart, hfinish, Bool.not_true, Bool.false_eq_true, if_false] at h
  split at h
  · exact Except.error.inj h ▸ rfl
  · split at h
    · exact Except.error.inj h ▸ rfl
    · split at h
      · simp at h
      · exact Except.error.inj h ▸ rfl

/-- What is wrong with the ends of a path has nothing to do with its being known. -/
theorem Layout.status_routeAlong {l : Layout} {g : Graph} {nodes : List NodeId} {e : LayoutError}
    (h : l.routeAlong g nodes = .error e) : e.status = 400 := by
  have hend {id : NodeId} {e : LayoutError} (h : l.endOf id = .error e) : e.status = 400 := by
    unfold endOf at h
    split at h
    · simp at h
    · obtain rfl := Except.error.inj h
      rfl
  unfold routeAlong at h
  split at h
  · obtain rfl := Except.error.inj h
    rfl
  · obtain hstart | ⟨start, -, h⟩ := Steps.bind_eq_error.mp h
    · exact hend hstart
    · obtain hfinish | ⟨finish, -, h⟩ := Steps.bind_eq_error.mp h
      · exact hend hfinish
      · simp at h

namespace Interlocking

variable {s : Interlocking} {start finish : NodeId} {e : LayoutError}

/-- A route is not found because an end is not there, or for another reason than that. -/
theorem findRoute_eq_error (h : s.findRoute start finish = .error e) :
    (∃ id, (id = start ∨ id = finish) ∧ s.graph.hasVertex id = false ∧ e = .unknownNode id) ∨
      s.graph.hasVertex start = true ∧ s.graph.hasVertex finish = true ∧ e.status = 400 := by
  cases hstart : s.graph.hasVertex start with
  | false =>
    simp [findRoute, Graph.findPath, hstart] at h
    exact .inl ⟨start, .inl rfl, hstart, h.symm⟩
  | true =>
    cases hfinish : s.graph.hasVertex finish with
    | false =>
      simp [findRoute, Graph.findPath, hstart, hfinish] at h
      exact .inl ⟨finish, .inr rfl, hfinish, h.symm⟩
    | true =>
      refine .inr ⟨rfl, rfl, ?_⟩
      obtain hpath | ⟨path, -, halong⟩ := Steps.bind_eq_error.mp h
      · exact Graph.status_findPath hstart hfinish hpath
      · exact Layout.status_routeAlong halong

theorem setRoute_eq_error (h : s.setRoute start finish = .error e) :
    s.findRoute start finish = .error e := by
  obtain hroute | ⟨route, -, h⟩ := Steps.bind_eq_error.mp h
  · exact hroute
  · simp at h

end Interlocking

namespace Controller

variable {c : Controller} {j : Job} {f : Failure} {cause : Cause}

/-- The status of a failure is that of its cause, but for a store that fails to save a loco. -/
theorem Refuses.status_iff (h : c.Refuses j f cause) :
    f.status = cause.status ↔ ∀ e, f ≠ .loco (.storage e) := by
  cases h with
  | @unsaved op change e hop h =>
    cases op <;> simp [Operation.change?] at hop <;>
      simp [Operation.unsaved, Failure.status, LayoutError.status, LocoError.status,
        RunError.status, Cause.status]
  | badRoute hstart hfinish h =>
    rcases Interlocking.findRoute_eq_error h with ⟨id, rfl | rfl, hid, -⟩ | ⟨-, -, hstatus⟩
    · simp [hstart] at hid
    · simp [hfinish] at hid
    · simp [Failure.status, hstatus, Cause.status]
  | badLoco h =>
    obtain ⟨hstatus, hother⟩ := Roster.status_refusal h
    simp [Failure.status, hstatus, Cause.status, hother]
  | badEdit _ _ h =>
    obtain ⟨hstatus, hother⟩ := Roster.status_refusal h
    simp [Failure.status, hstatus, Cause.status, hother]
  | _ =>
    simp [Failure.status, LayoutError.status, LocoError.status, RunError.status, Cause.status]

/-- The store is the cause only of failed edits of the roster among the failures about locos. -/
theorem Refuses.of_storage {e : StorageError} (h : c.Refuses j (.loco (.storage e)) cause) :
    ∃ op change, j = .operate op ∧ op.editsRoster = true ∧ op.change? c = some change ∧
      (c.store.change change).1 = .error e := by
  generalize hf : Failure.loco (.storage e) = f at h
  cases h with
  | @unsaved op change e' hop he =>
    refine ⟨op, change, rfl, ?_⟩
    cases op with
    | addLoco _ _ | editLoco _ _ _ | deleteLoco _ =>
      obtain rfl := LocoError.storage.inj (Failure.loco.inj hf)
      exact ⟨rfl, hop, he⟩
    | _ => simp [Operation.unsaved] at hf
  | badLoco h => exact absurd (Failure.loco.inj hf).symm ((Roster.status_refusal h).2 e)
  | badEdit _ _ h => exact absurd (Failure.loco.inj hf).symm ((Roster.status_refusal h).2 e)
  | _ => simp at hf

end Controller

end Signalbox
