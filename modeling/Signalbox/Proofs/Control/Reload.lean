import Signalbox.Proofs.Control.Agreement
import Signalbox.Proofs.Control.Mirror
import Signalbox.Proofs.Control.Saving
import Signalbox.Proofs.Layout.Frames

/-
  Signalbox/Proofs/Control/Reload.lean --- a layout that is loaded again.

  A call changes the layout at once and saves the changes one by one, so that the store is
  behind the layout for a while.  It is behind by just what is still to be saved: written
  to the rows, that makes them the rows of the layout.  As long as every call on the layout
  waits until those before it have saved what they had to, this is so after every step, and
  once nothing is left to be saved, the layout that is loaded from the store is the one in
  memory.
-/

set_option autoImplicit false

namespace Signalbox

/-! ## Nodes that are moved -/

namespace Interlocking

variable {s s' : Interlocking}

/-- A node that is moved is a turnout or a destination, and nothing else has its id. -/
theorem layout_moveNode (hapart : s.layout.NodesApart) (horder : s.layout.InOrder) {id : NodeId}
    {place : Coordinate} (h : s.moveNode id place = .ok s') :
    s'.layout = s.layout.withPlace id place ∧
      ((s.layout.turnouts.get? id).isSome = true ∨
        (s.layout.destinations.get? id).isSome = true) := by
  simp only [moveNode] at h
  split at h
  · rename_i hid
    have hother : s.layout.destinations.get? id = none := by
      have hnot := hapart id (Table.mem_keys_iff.mpr hid)
      rwa [Table.mem_keys_iff, Bool.not_eq_true, Option.isSome_eq_false_iff,
        Option.isNone_iff_eq_none] at hnot
    have hsame : (s.layout.destinations.modify id fun d => { d with coordinate := place }) =
        s.layout.destinations :=
      (horder.destinations.modify_eq_self_iff _ _).mpr fun d hd => by simp [hother] at hd
    obtain rfl := Except.ok.inj h
    exact ⟨by rw [Layout.withPlace, hsame], .inl hid⟩
  · rename_i hid
    have hother : s.layout.turnouts.get? id = none := by
      rwa [Table.contains, Bool.not_eq_true, Option.isSome_eq_false_iff,
        Option.isNone_iff_eq_none] at hid
    have hsame : (s.layout.turnouts.modify id fun t => { t with coordinate := place }) =
        s.layout.turnouts :=
      (horder.turnouts.modify_eq_self_iff _ _).mpr fun t ht => by simp [hother] at ht
    split at h
    · rename_i hid'
      obtain rfl := Except.ok.inj h
      exact ⟨by rw [Layout.withPlace, hsame], .inr hid'⟩
    · simp at h

end Interlocking

/-! ## Being behind -/

/-- No task of a list has anything to save. -/
def AllSaved (tasks : List Task) : Prop := ∀ t ∈ tasks, savesOf t.jobs = []

/-- The jobs of a task: what they have to save is to be saved next, or after one turnout has been
sent. -/
inductive IsTidy : List Job → Prop
  | saved {jobs : List Job} (h : savesOf jobs = []) : IsTidy jobs
  | saving (rest : List Setting) {tail : List Job} (h : savesOf tail = []) :
      IsTidy (.settings rest :: tail)
  | sending (x : Setting) (rest : List Setting) {tail : List Job} (h : savesOf tail = []) :
      IsTidy (Controller.turnoutJob x.turnout x.state :: .settings rest :: tail)

namespace Controller

/-- The store works, its nodes are under their own ids, and what is still to be saved is all that
it lacks of the layout. -/
structure IsBehind (c : Controller) (pending : List Setting) : Prop where
  works : c.store.NeverFails
  keyed : c.store.rows.nodes.KeyedBy Node.id
  layout : c.store.rows.layout.withStates pending = c.interlocking.layout

variable {c c' : Controller} {pending : List Setting}

theorem IsBehind.leavesTrack (h : c.IsBehind pending) (hleaves : c.LeavesTrack c')
    (hlayout : c'.interlocking = c.interlocking) : c'.IsBehind pending := by
  refine ⟨hleaves.works h.works, hleaves.nodes ▸ h.keyed, ?_⟩
  rw [Rows.layout_congr hleaves.nodes hleaves.links, h.layout, hlayout]

/-- With nothing left to be saved, the layout is in order. -/
theorem IsBehind.inOrder (h : c.IsBehind []) : c.interlocking.layout.InOrder :=
  h.layout ▸ Rows.inOrder_layout _

theorem IsBehind.nodesApart (h : c.IsBehind []) : c.interlocking.layout.NodesApart := by
  intro id hid
  rw [← h.layout, Layout.withStates_nil, Table.mem_keys_iff] at hid ⊢
  obtain ⟨t, ht⟩ := Option.isSome_iff_exists.mp hid
  simp [Rows.get?_destinations_eq_none h.keyed ht]

/-- The state that is to be saved next is saved. -/
theorem IsBehind.saveState {id : NodeId} {state : TurnoutState}
    (h : c.IsBehind (⟨id, state⟩ :: pending)) :
    (c.saveAnyway (.saveState id state)).IsBehind pending := by
  have hlayout := h.layout
  rw [Layout.withStates_cons] at hlayout
  change IsBehind { c with store := (c.store.change (.saveState id state)).2 } pending
  cases hrows : c.store.rows.apply (.saveState id state) with
  | ok rows =>
    obtain ⟨store, hchange, hworks, rfl⟩ := h.works.change hrows
    obtain ⟨hkeyed, hsaved⟩ := Rows.layout_saveState h.keyed hrows
    rw [hchange]
    exact ⟨hworks, hkeyed, by rw [hsaved, hlayout]⟩
  | error e =>
    have hsame : (c.store.change (.saveState id state)).2 = c.store := by
      rw [Store.change, h.works.refuses, hrows]
    rw [hsame]
    exact ⟨h.works, h.keyed, by rw [← hlayout, Rows.layout_of_not_saveState h.keyed hrows]⟩

theorem IsBehind.noteTurnout {id : NodeId} {state : TurnoutState}
    (h : c.IsBehind (⟨id, state⟩ :: pending)) (hstarted : c.started = []) :
    (c.noteTurnout id state).IsBehind pending ∧ AllSaved (c.noteTurnout id state).started := by
  have hleaves := leavesTrack_handle (c := c.saveAnyway (.saveState id state)) ⟨id, state⟩
  have hlayout : ((c.saveAnyway (.saveState id state)).handle ⟨id, state⟩).2.interlocking =
      (c.saveAnyway (.saveState id state)).interlocking :=
    LeavesLayout.interlocking (leaves_handle ⟨id, state⟩ .layout)
  refine ⟨h.saveState.leavesTrack hleaves hlayout, fun t ht => ?_⟩
  rcases hleaves.started t ht with ht | ht
  · have hnone : t ∈ c.started := ht
    simp [hstarted] at hnone
  · exact ht

/-- What a route has changed is saved from the first on. -/
theorem IsBehind.nextSetting (h : c.IsBehind pending) (hstarted : c.started = []) :
    (c.nextSetting pending).1.IsBehind (savesOf (c.nextSetting pending).2) ∧
      (∀ tail, savesOf tail = [] → IsTidy ((c.nextSetting pending).2 ++ tail)) ∧
      AllSaved (c.nextSetting pending).1.started := by
  cases pending with
  | nil =>
    refine ⟨h, fun tail htail => .saved htail, fun t ht => ?_⟩
    have hnone : t ∈ c.started := ht
    simp [hstarted] at hnone
  | cons x rest =>
    obtain ⟨hnoted, hallSaved⟩ := h.noteTurnout hstarted
    have hsaves : savesOf [turnoutJob x.turnout x.state, .settings rest] = rest := by simp
    exact ⟨hsaves.symm ▸ hnoted, fun tail htail => .sending x rest htail, hallSaved⟩

end Controller

/-! ## Jobs about the layout -/

/-- The store is behind by what follows, which will be saved, and by nothing else. -/
def Outcome.LeavesBehind : Outcome → Prop
  | .waits _ => True
  | .done c next _ => c.IsBehind (savesOf next) ∧
      (∀ tail, savesOf tail = [] → IsTidy (next ++ tail)) ∧ AllSaved c.started
  | .fails c _ => c.IsBehind [] ∧ AllSaved c.started

namespace Controller

variable {c c' : Controller} {pending : List Setting}

theorem IsBehind.refused (h : c.IsBehind []) (hstarted : c.started = []) (f : Failure) :
    (Outcome.fails c f).LeavesBehind :=
  ⟨h, by simp [AllSaved, hstarted]⟩

theorem IsBehind.finished (h : c.IsBehind []) (hstarted : c.started = []) :
    (Outcome.finished c).LeavesBehind :=
  ⟨h, fun _ htail => .saved htail, by simp [AllSaved, hstarted]⟩

theorem IsBehind.setTurnout (h : c.IsBehind []) (hstarted : c.started = []) {id : NodeId}
    {state : TurnoutState} {next : List Job} (hset : c.setTurnout id state = .ok (c', next)) :
    (Outcome.follows c' next).LeavesBehind := by
  unfold Controller.setTurnout at hset
  split at hset
  · simp at hset
  · rename_i released s hmoved
    obtain ⟨rfl, rfl⟩ := Prod.mk.inj (Except.ok.inj hset)
    have hbehind : IsBehind (tellAll { c with interlocking := s }
        (releasedEvents released ++ [.turnout id state])) [⟨id, state⟩] := by
      refine ⟨h.works, h.keyed, ?_⟩
      have hlayout : s.layout = c.interlocking.layout.withState id state :=
        Interlocking.layout_setTurnout hmoved
      rw [← h.layout] at hlayout
      exact hlayout.symm
    obtain ⟨hnoted, hallSaved⟩ := hbehind.noteTurnout hstarted
    refine ⟨hnoted, fun tail htail => .saved ?_, hallSaved⟩
    simpa using htail

theorem IsBehind.setRoute (h : c.IsBehind []) (hstarted : c.started = []) (start finish : NodeId) :
    (c.setRoute start finish).LeavesBehind := by
  unfold Controller.setRoute
  split
  · exact h.refused hstarted _
  · rename_i o hset
    have hbehind :
        IsBehind (tellAll { c with interlocking := o.after } (routeEvents o)) o.changes := by
      refine ⟨h.works, h.keyed, ?_⟩
      have hlayout : o.after.layout = c.interlocking.layout.withStates o.changes :=
        Interlocking.layout_setRoute hset
      rw [← h.layout] at hlayout
      exact hlayout.symm
    exact hbehind.nextSetting hstarted

theorem IsBehind.clearRoute (h : c.IsBehind []) (hstarted : c.started = []) (id : RouteId) :
    (c.clearRoute id).LeavesBehind := by
  unfold Controller.clearRoute
  split
  · exact h.refused hstarted _
  · rename_i released s hclear
    have hbehind : IsBehind (tell { c with interlocking := s } (.released released)) [] :=
      ⟨h.works, h.keyed, h.layout.trans (Interlocking.layout_clearRoute hclear).symm⟩
    exact ⟨hbehind, fun _ htail => .saved htail, by simp [AllSaved, tell, hstarted]⟩

theorem IsBehind.moveNode (h : c.IsBehind []) (hstarted : c.started = []) (id : NodeId)
    (place : Coordinate) : (c.moveNode id place).LeavesBehind := by
  unfold Controller.moveNode
  split
  · exact h.refused hstarted _
  · rename_i s hmove
    obtain ⟨hlayout, hknown⟩ := Interlocking.layout_moveNode h.nodesApart h.inOrder hmove
    rw [← h.layout] at hlayout hknown
    -- The row of a node of the layout is there, so the place is saved.
    obtain ⟨rows, hrows⟩ := Rows.exists_saveCoordinate h.keyed place hknown
    obtain ⟨hkeyed, hsaved⟩ := Rows.layout_saveCoordinate h.keyed hrows
    have happly : c.store.rows.apply (.saveCoordinate id place) = .ok rows := hrows
    obtain ⟨store, hchange, hworks, rfl⟩ := h.works.change happly
    have hsave : save { c with interlocking := s } (.saveCoordinate id place) =
        (.ok (), { c with interlocking := s, store := store }) := by
      simp only [save, hchange]
    rw [hsave]
    exact ⟨⟨hworks, hkeyed, hsaved.trans hlayout.symm⟩, fun _ htail => .saved htail,
      by simp [AllSaved, tell, hstarted]⟩

/-- A job about the layout that has its turn when nothing is left to be saved. -/
theorem IsBehind.run (h : c.IsBehind []) (hstarted : c.started = []) (now : Nat) {j : Job}
    (hj : j.sphere? = some .layout) : (c.run now j).LeavesBehind := by
  cases j with
  | operate op =>
    cases op with
    | setTurnout id state =>
      simp only [Controller.run, operate]
      split
      · exact h.refused hstarted _
      · rename_i hset
        exact h.setTurnout hstarted hset
    | setRoute start finish => exact h.setRoute hstarted start finish
    | clearRoute id => exact h.clearRoute hstarted id
    | moveNode id place => exact h.moveNode hstarted id place
    | _ => simp [Job.sphere?, Operation.sphere?] at hj
  | command id part cmd =>
    cases cmd with
    | test wanted turnout body => simp [Job.sphere?] at hj
    | act a =>
      cases a with
      | set state turnout =>
        simp only [Controller.run, command]
        split
        · exact h.finished hstarted
        · split
          · exact h.finished hstarted
          · trivial
          · simp only [effect]
            have hnoted {change : Run → Run} : (c.modifyRun id change).IsBehind [] :=
              ⟨h.works, h.keyed, h.layout⟩
            split
            · exact hnoted.finished hstarted
            · rename_i hset
              exact hnoted.setTurnout hstarted hset
      | _ => simp [Job.sphere?] at hj
  | _ => simp [Job.sphere?] at hj

end Controller

/-! ## Worlds -/

/-- Whether a task has something to save. -/
def Task.saves (t : Task) : Bool := !(savesOf t.jobs).isEmpty

theorem Task.saves_eq_false_iff {t : Task} : t.saves = false ↔ savesOf t.jobs = [] := by
  simp [Task.saves]

theorem allSaved_iff {tasks : List Task} : AllSaved tasks ↔ tasks.countP Task.saves = 0 := by
  simp [AllSaved, List.countP_eq_zero, Task.saves_eq_false_iff]

namespace World

variable {w : World} {front mid back : List Task} {place : Nat}

/-- The store is behind the layout by what the tasks have to save, and only one task has that to
save. -/
structure KeepsUp (w : World) : Prop where
  behind : w.controller.IsBehind w.pendingSaves
  started : w.controller.started = []
  tidy : ∀ t ∈ w.tasks, IsTidy t.jobs
  alone : w.tasks.countP Task.saves ≤ 1

/-- The tasks before one of them and those after it. -/
structure Parts (w : World) (place : Nat) (t : Task) (front back : List Task) : Prop where
  tasks : w.tasks = front ++ [t] ++ back
  set : ∀ u, w.tasks.set place u = front ++ [u] ++ back
  erase : w.tasks.eraseIdx place = front ++ [] ++ back

theorem exists_parts {t : Task} (ht : w.tasks[place]? = some t) :
    ∃ front back, w.Parts place t front back := by
  obtain ⟨hplace, rfl⟩ := List.getElem?_eq_some_iff.mp ht
  refine ⟨w.tasks.take place, w.tasks.drop (place + 1), ?_, fun u => ?_, ?_⟩
  · simp
  · rw [List.set_eq_take_append_cons_drop, if_pos hplace, List.append_assoc,
      List.singleton_append]
  · rw [List.append_nil]
    exact List.eraseIdx_eq_take_drop_succ ..

/-- What tasks have to save. -/
def savesIn (tasks : List Task) : List Setting := tasks.flatMap fun t => savesOf t.jobs

theorem savesIn_of_allSaved {tasks : List Task} (h : AllSaved tasks) : savesIn tasks = [] :=
  List.flatMap_eq_nil_iff.mpr h

theorem pendingSaves_append {tasks : List Task} {c : Controller} {now : Nat}
    (hallSaved : AllSaved tasks) :
    pendingSaves ⟨now, c, front ++ mid ++ back ++ tasks⟩ =
      savesIn front ++ savesIn mid ++ savesIn back := by
  have hnone := savesIn_of_allSaved hallSaved
  rw [savesIn] at hnone
  simp only [pendingSaves, savesIn, List.flatMap_append, hnone, List.append_nil]

/-- A task is replaced by what is left of it, and others are started that have nothing to save. -/
theorem KeepsUp.replace (h : w.KeepsUp) {t : Task} (hparts : w.Parts place t front back)
    {c : Controller} {started : List Task}
    (hbehind : c.IsBehind (savesIn front ++ savesIn mid ++ savesIn back))
    (htidy : ∀ u ∈ mid, IsTidy u.jobs) (halone : (front ++ mid ++ back).countP Task.saves ≤ 1)
    (hstarted : AllSaved started) :
    KeepsUp ⟨w.now, c.takeStarted.2, front ++ mid ++ back ++ started⟩ := by
  refine ⟨?behind, rfl, ?tidy, ?alone⟩
  case behind =>
    rw [pendingSaves_append hstarted]
    exact ⟨hbehind.works, hbehind.keyed, hbehind.layout⟩
  case tidy =>
    intro u hu
    simp only [List.mem_append] at hu
    rcases hu with ((hu | hu) | hu) | hu
    · exact h.tidy u (by simp [hparts.tasks, hu])
    · exact htidy u hu
    · exact h.tidy u (by simp [hparts.tasks, hu])
    · exact .saved (hstarted u hu)
  case alone =>
    rw [List.countP_append, allSaved_iff.mp hstarted]
    exact halone

section Turn

variable {t : Task} {job : Job} {rest next : List Job} {reply : Option Reply} {c : Controller}

/-- While a task has something to save, no other has. -/
theorem KeepsUp.allSaved_others (h : w.KeepsUp) (hparts : w.Parts place t front back)
    (hsaves : savesOf t.jobs ≠ []) : AllSaved front ∧ AllSaved back := by
  have halone := h.alone
  have hbusy : t.saves = true := by simpa [Task.saves] using hsaves
  rw [hparts.tasks, List.countP_append, List.countP_append, List.countP_singleton, if_pos hbusy]
    at halone
  exact ⟨allSaved_iff.mpr (by omega), allSaved_iff.mpr (by omega)⟩

/-- A task has done a job, and has no more to save than the rest of it and what follows. -/
theorem KeepsUp.done (h : w.KeepsUp) (ht : w.tasks[place]? = some t)
    (hparts : w.Parts place t front back) (hjobs : t.jobs = job :: rest)
    (hrun : w.controller.run w.now job = .done c next reply)
    (hbehind : c.IsBehind (savesIn front ++ savesOf (next ++ rest) ++ savesIn back))
    (htidy : IsTidy (next ++ rest))
    (hothers : savesOf (next ++ rest) = [] ∨ AllSaved front ∧ AllSaved back)
    (hstarted : AllSaved c.started) : (w.turn place).KeepsUp := by
  rw [turn_done ht hjobs hrun, hparts.set]
  refine h.replace hparts ?_ (by simpa using htidy) ?_ hstarted
  · simpa [savesIn] using hbehind
  · have halone := h.alone
    rw [hparts.tasks, List.countP_append, List.countP_append] at halone
    rw [List.countP_append, List.countP_append, List.countP_singleton]
    rcases hothers with hnone | ⟨hfront, hback⟩
    · rw [if_neg (by simp [Task.saves, hnone])]
      omega
    · rw [allSaved_iff.mp hfront, allSaved_iff.mp hback]
      split <;> omega

/-- A task has ended, and had nothing more to save. -/
theorem KeepsUp.ended (h : w.KeepsUp) (hparts : w.Parts place t front back)
    (hbehind : c.IsBehind (savesIn front ++ savesIn back)) (hstarted : AllSaved c.started) :
    KeepsUp ⟨w.now, c.takeStarted.2, w.tasks.eraseIdx place ++ c.started⟩ := by
  rw [hparts.erase]
  refine h.replace hparts (by simpa [savesIn] using hbehind) (by simp) ?_ hstarted
  have halone := h.alone
  rw [hparts.tasks, List.countP_append, List.countP_append] at halone
  rw [List.countP_append, List.countP_append, List.countP_nil]
  omega

theorem pendingSaves_parts (hparts : w.Parts place t front back) :
    w.pendingSaves = savesIn front ++ savesOf t.jobs ++ savesIn back := by
  simp [pendingSaves, savesIn, hparts.tasks]

/-- The turn of a task whose next job is about the layout: nothing is left to be saved. -/
theorem KeepsUp.turn_layout (h : w.KeepsUp) (ht : w.tasks[place]? = some t)
    (hjobs : t.jobs = job :: rest) (hjob : job.sphere? = some .layout)
    (hnone : w.pendingSaves = []) : (w.turn place).KeepsUp := by
  obtain ⟨front, back, hparts⟩ := exists_parts ht
  have hsplit := hnone
  rw [pendingSaves_parts hparts, List.append_eq_nil_iff, List.append_eq_nil_iff, hjobs,
    savesOf_cons, List.append_eq_nil_iff] at hsplit
  obtain ⟨⟨hfront, -, hrest⟩, hback⟩ := hsplit
  have hallSaved : AllSaved front ∧ AllSaved back :=
    ⟨List.flatMap_eq_nil_iff.mp hfront, List.flatMap_eq_nil_iff.mp hback⟩
  have hbehind : w.controller.IsBehind [] := hnone ▸ h.behind
  have hleaves := hbehind.run h.started w.now hjob
  cases hrun : w.controller.run w.now job with
  | waits wait => rwa [turn_waits ht hjobs hrun]
  | done c next reply =>
    rw [hrun] at hleaves
    obtain ⟨hbehind', htidy, hstarted⟩ := hleaves
    refine h.done ht hparts hjobs hrun ?_ (htidy rest hrest) (.inr hallSaved) hstarted
    rwa [hfront, hback, List.nil_append, List.append_nil, savesOf_append, hrest, List.append_nil]
  | fails c f =>
    rw [hrun] at hleaves
    rw [turn_fails ht hjobs hrun]
    exact h.ended hparts (by rw [hfront, hback]; exact hleaves.1) hleaves.2

/-- The turn of a task that has something to save. -/
theorem KeepsUp.turn_settings (h : w.KeepsUp) (ht : w.tasks[place]? = some t)
    {settings : List Setting} (hjobs : t.jobs = .settings settings :: rest)
    (hsettings : settings ≠ []) : (w.turn place).KeepsUp := by
  obtain ⟨front, back, hparts⟩ := exists_parts ht
  have hrest : savesOf rest = [] := by
    have htidy := h.tidy t (List.mem_of_getElem? ht)
    rw [hjobs] at htidy
    cases htidy with
    | saved hnone => simp [hsettings] at hnone
    | saving _ htail => exact htail
  have hsaves : savesOf t.jobs = settings := by simp [hjobs, hrest]
  obtain ⟨hfront, hback⟩ := h.allSaved_others hparts (hsaves.symm ▸ hsettings)
  have hbehind := h.behind
  rw [pendingSaves_parts hparts, savesIn_of_allSaved hfront, savesIn_of_allSaved hback, hsaves,
    List.nil_append, List.append_nil] at hbehind
  obtain ⟨hbehind', htidy, hstarted⟩ := hbehind.nextSetting h.started
  have hrun : w.controller.run w.now (.settings settings) =
      .done (w.controller.nextSetting settings).1 (w.controller.nextSetting settings).2 none := rfl
  refine h.done ht hparts hjobs hrun ?_ (htidy rest hrest) (.inr ⟨hfront, hback⟩) hstarted
  rwa [savesIn_of_allSaved hfront, savesIn_of_allSaved hback, List.nil_append, List.append_nil,
    savesOf_append, hrest, List.append_nil]

/-- A turnout is sent or waits to be, and its task goes on with what comes after. -/
theorem run_turnoutJob (c : Controller) (now : Nat) (id : NodeId) (state : TurnoutState) :
    (∃ wait, c.run now (Controller.turnoutJob id state) = .waits wait) ∨
      ∃ c', c.run now (Controller.turnoutJob id state) = .finished c' := by
  simp only [Controller.run, Controller.turnoutJob, Controller.sending]
  split
  · exact .inl ⟨_, rfl⟩
  · exact .inr ⟨_, rfl⟩
  · exact .inr ⟨_, rfl⟩

/-- The turn of a task whose next job has nothing to do with nodes and links. -/
theorem KeepsUp.turn_other (h : w.KeepsUp) (ht : w.tasks[place]? = some t)
    (hjobs : t.jobs = job :: rest) (hjob : job.sphere? ≠ some .layout) (hsaves : job.saves = []) :
    (w.turn place).KeepsUp := by
  obtain ⟨front, back, hparts⟩ := exists_parts ht
  have htidy := h.tidy t (List.mem_of_getElem? ht)
  have htrack := w.controller.leavesTrack_run w.now hjob hsaves
  have hlayout := Controller.leaves_run (c := w.controller) w.now hjob
  have hbehind := h.behind
  rw [pendingSaves_parts hparts, hjobs, savesOf_cons, hsaves, List.nil_append] at hbehind
  rw [hjobs] at htidy
  have hallSaved {c : Controller} (hleaves : w.controller.LeavesTrack c) : AllSaved c.started := by
    intro u hu
    rcases hleaves.started u hu with hu | hu
    · simp [h.started] at hu
    · exact hu
  cases hrun : w.controller.run w.now job with
  | waits wait => rwa [turn_waits ht hjobs hrun]
  | done c next reply =>
    rw [hrun] at htrack hlayout
    obtain ⟨hleaves, hnext⟩ := htrack
    have hsame := Controller.LeavesLayout.interlocking hlayout.1
    have hrest : savesOf (next ++ rest) = savesOf rest := by
      rw [savesOf_append, hnext, List.nil_append]
    have htidy' : IsTidy (next ++ rest) := by
      cases htidy with
      | saved hnone => exact .saved (by simpa [hrest, hsaves] using hnone)
      | saving settings htail =>
        rw [saves_settings] at hsaves
        subst hsaves
        exact .saved (by simp [hrest, htail])
      | sending x settings htail =>
        have hnothing : next = [] := by
          rcases run_turnoutJob w.controller w.now x.turnout x.state with ⟨_, hwait⟩ | ⟨_, hdone⟩
          · simp [hwait] at hrun
          · rw [hdone] at hrun
            injection hrun with _ hnext
            exact hnext.symm
        rw [hnothing, List.nil_append]
        exact .saving settings htail
    refine h.done ht hparts hjobs hrun ?_ htidy' ?_ (hallSaved hleaves)
    · rw [hrest]
      exact hbehind.leavesTrack hleaves hsame
    · by_cases hnone : savesOf rest = []
      · exact .inl (hrest.trans hnone)
      · refine .inr (h.allSaved_others hparts ?_)
        rwa [hjobs, savesOf_cons, hsaves, List.nil_append]
  | fails c f =>
    rw [hrun] at htrack hlayout
    have hsame := Controller.LeavesLayout.interlocking hlayout
    have hrest : savesOf rest = [] := by
      cases htidy with
      | saved hnone => simpa [hsaves] using hnone
      | saving settings htail => exact htail
      | sending x settings htail =>
        rcases run_turnoutJob w.controller w.now x.turnout x.state with ⟨_, hwait⟩ | ⟨_, hdone⟩
        · simp [hwait] at hrun
        · simp [hdone, Outcome.finished] at hrun
    rw [turn_fails ht hjobs hrun]
    refine h.ended hparts ?_ (hallSaved htrack)
    rw [hrest, List.append_nil] at hbehind
    exact hbehind.leavesTrack htrack hsame

/-- A task that has its turn keeps the store up, if it begins nothing about the layout before all
is saved. -/
theorem KeepsUp.turn (h : w.KeepsUp) (place : Nat)
    (halone : (w.job? (.turn place)).bind Job.sphere? = some .layout → w.pendingSaves = []) :
    (w.turn place).KeepsUp := by
  cases ht : w.tasks[place]? with
  | none => rwa [turn_none ht]
  | some t =>
    cases hjobs : t.jobs with
    | nil =>
      obtain ⟨front, back, hparts⟩ := exists_parts ht
      have hbehind := h.behind
      rw [pendingSaves_parts hparts, hjobs, savesOf_nil, List.append_nil] at hbehind
      have hended := h.ended hparts hbehind (by simp [AllSaved, h.started])
      rw [turn_over ht hjobs]
      rwa [Controller.takeStarted_eq h.started, h.started, List.append_nil] at hended
    | cons job rest =>
      have hjob : w.job? (.turn place) = some job := by simp [job?, ht, hjobs]
      by_cases hlayout : job.sphere? = some .layout
      · exact h.turn_layout ht hjobs hlayout (halone (by rwa [hjob]))
      · by_cases hsaves : job.saves = []
        · exact h.turn_other ht hjobs hlayout hsaves
        · cases job with
          | settings settings => exact h.turn_settings ht hjobs hsaves
          | _ => simp [Job.saves] at hsaves

end Turn

/-! ## Calls in turn -/

/-- What is done to a controller that was loaded from a store, when a job about the layout has its
turn only if nothing is left to be saved: every call begins when those before it have saved what
they had to.  All else may happen at any time. -/
inductive InTurn (store : Store) : World → Prop
  | start {adapter : Adapter} {sync : SyncLevel} {c : Controller}
      (load : Controller.load store adapter sync = .ok c) : InTurn store (.ofController c)
  | ask {w : World} (h : InTurn store w) (op : Operation) : InTurn store (w.after (.ask op))
  | turn {w : World} (h : InTurn store w) (place : Nat)
      (alone : (w.job? (.turn place)).bind Job.sphere? = some .layout → w.pendingSaves = []) :
      InTurn store (w.after (.turn place))
  | wait {w : World} (h : InTurn store w) (milliseconds : Nat) :
      InTurn store (w.after (.wait milliseconds))
  | drivers {w : World} (h : InTurn store w)
      (faults : Driver → DriverCall → Option DriverError) :
      InTurn store (w.after (.outside w.controller.store faults))

theorem rows_of_load {store : Store} (hstore : store.NeverFails) :
    store.loadNodes = .ok store.rows.nodes.values ∧ store.loadLinks = .ok store.rows.links.values ∧
      store.loadLocos = .ok store.rows.locos.values ∧
      store.loadScripts = .ok store.rows.scripts.values := by
  simp [Store.loadNodes, Store.loadLinks, Store.loadLocos, Store.loadScripts, Store.query,
    hstore.refuses]

/-- A store that never fails is loaded, with the layout of its rows and no route. -/
theorem exists_load {store : Store} (hstore : store.NeverFails) (adapter : Adapter)
    (sync : SyncLevel) :
    ∃ c, Controller.load store adapter sync = .ok c ∧ c.store = store ∧ c.started = [] ∧
      c.interlocking = .ofLayout store.rows.layout := by
  obtain ⟨hnodes, hlinks, hlocos, hscripts⟩ := rows_of_load hstore
  have hload : Controller.load store adapter sync =
      .ok { Controller.ofLayout store store.rows.layout adapter sync with
        roster := (Roster.empty.loadAll store.rows.locos.values).2
        catalog := Catalog.empty.registerAll (Catalog.scriptsOf store.rows.scripts.values) } := by
    rw [Controller.load, hnodes, hlinks, hlocos, hscripts]
    rfl
  exact ⟨_, hload, rfl, rfl, rfl⟩

section InTurn

variable {store : Store}

theorem InTurn.keepsUp (hstore : store.NeverFails) (hrows : store.rows.nodes.KeyedBy Node.id)
    (h : w.InTurn store) : w.KeepsUp ∧ w.Tracks store.rows.layout := by
  induction h with
  | @start adapter sync c load =>
    obtain ⟨c', hload, hsame, hstarted, hlayout⟩ := exists_load hstore adapter sync
    obtain rfl := Except.ok.inj (load.symm.trans hload)
    rw [ofController, Controller.takeStarted_eq hstarted]
    refine ⟨⟨⟨hsame ▸ hstore, hsame ▸ hrows, ?_⟩, hstarted, by simp, by simp⟩,
      tracks_ofLayout hlayout⟩
    rw [hlayout, hsame]
    rfl
  | @ask w _ op ih =>
    refine ⟨⟨?_, ih.1.started, ?_, ?_⟩, ih.2.after _⟩
    · have hsaves : (w.after (.ask op)).pendingSaves = w.pendingSaves := by
        simp [pendingSaves, World.after, Task.ofJobs, Job.saves]
      rw [hsaves]
      exact ih.1.behind
    · intro t ht
      rcases List.mem_append.mp ht with ht | ht
      · exact ih.1.tidy t ht
      · rw [List.mem_singleton.mp ht]
        exact .saved rfl
    · have halone := ih.1.alone
      change (w.tasks ++ [Task.ofJobs [.operate op]]).countP Task.saves ≤ 1
      rw [List.countP_append]
      exact halone
  | turn _ place alone ih => exact ⟨ih.1.turn place alone, ih.2.after _⟩
  | wait _ milliseconds ih =>
    exact ⟨⟨ih.1.behind, ih.1.started, ih.1.tidy, ih.1.alone⟩, ih.2.after _⟩
  | drivers _ faults ih =>
    have hbehind := ih.1.behind
    exact ⟨⟨⟨hbehind.works, hbehind.keyed, hbehind.layout⟩, ih.1.started, ih.1.tidy, ih.1.alone⟩,
      ih.2.after _⟩

/-- Once nothing is left to be saved, as when all calls have returned, another controller that is
loaded from the store has the layout that the first one has in memory, with every state, place,
name and leg, and the same graph, and no route is set in it. -/
theorem load_inTurn (hstore : store.NeverFails) (hrows : store.rows.nodes.KeyedBy Node.id)
    (h : w.InTurn store) (hsaved : w.pendingSaves = []) (adapter : Adapter) (sync : SyncLevel) :
    ∃ c, Controller.load w.controller.store adapter sync = .ok c ∧
      c.interlocking.layout = w.controller.interlocking.layout ∧
      c.interlocking.graph = w.controller.interlocking.graph ∧
      c.interlocking.routes = Table.empty := by
  obtain ⟨hkeeps, htracks⟩ := h.keepsUp hstore hrows
  have hbehind := hkeeps.behind
  rw [hsaved] at hbehind
  obtain ⟨c, hload, -, -, hlayout⟩ := exists_load hbehind.works adapter sync
  have hsame : w.controller.store.rows.layout = w.controller.interlocking.layout := hbehind.layout
  refine ⟨c, hload, ?_, ?_, ?_⟩
  · rw [hlayout]
    exact hsame
  · -- Neither graph has been changed since its layout was loaded, and the layouts vary.
    rw [hlayout, htracks.sound.base.graph, ← htracks.varies.graph]
    exact congrArg Layout.graph hsame
  · rw [hlayout]
    rfl

/-- A client asks for something of an idle world, and its task has so many turns. -/
def called (w : World) (op : Operation) : Nat → World
  | 0 => w.after (.ask op)
  | turns + 1 => (w.called op turns).after (.turn 0)

theorem InTurn.called (h : w.InTurn store) (op : Operation) (turns : Nat)
    (alone : ∀ n < turns, ((w.called op n).job? (.turn 0)).bind Job.sphere? = some .layout →
      (w.called op n).pendingSaves = []) : (w.called op turns).InTurn store := by
  induction turns with
  | zero => exact h.ask op
  | succ turns ih => exact (ih fun n hn => alone n (by omega)).turn 0 (alone turns (by omega))

end InTurn

/-- A route along the line changes both of its turnouts and is taken down; then the second one
is thrown by hand, the first one is moved, and the route is set again. -/
def lineInUse : World :=
  (((((ofController lineController).called (.setRoute 1 2) 6).called (.clearRoute 1) 2).called
    (.setTurnout 11 .thrown) 3).called
    (.moveNode 10 ⟨⟨false, Binary64.hiddenBit, -52⟩, .zero⟩) 2).called (.setRoute 1 2) 4

/-- All calls have returned and the route is set; the line is loaded again as it is, without the
route. -/
theorem load_inTurn_line :
    lineInUse.tasks = [] ∧ lineInUse.controller.interlocking.routes.keys = [1] ∧
      ∃ c, Controller.load lineInUse.controller.store (.ofDriver .virtual [] fun _ => .virtual)
          .all = .ok c ∧
        c.interlocking.layout = lineInUse.controller.interlocking.layout ∧
        c.interlocking.graph = lineInUse.controller.interlocking.graph ∧
        c.interlocking.routes = Table.empty := by
  have hload : Controller.load lineStore (.ofDriver .virtual [] fun _ => .virtual) .all =
      .ok lineController := rfl
  have hline : lineInUse.InTurn lineStore :=
    (((((InTurn.start hload).called (.setRoute 1 2) 6 (by decide +kernel)).called
      (.clearRoute 1) 2 (by decide +kernel)).called
      (.setTurnout 11 .thrown) 3 (by decide +kernel)).called
      (.moveNode 10 _) 2 (by decide +kernel)).called (.setRoute 1 2) 4 (by decide +kernel)
  exact ⟨rfl, by decide +kernel, load_inTurn ⟨fun _ => rfl, by simp [lineStore, Store.inMemory]⟩
    (Table.keyedBy_ofList lineNodes) hline rfl _ _⟩

end World

end Signalbox
