import Signalbox.Proofs.Control.Spheres
import Signalbox.Proofs.Control.World
import Signalbox.Proofs.Layout.Variation

/-
  Signalbox/Proofs/Control/Reports.lean --- what clients are told of the layout.

  Four calls change a layout and its routes, and each tells clients what it has changed.
  A command that operates a turnout makes one of these calls; no other job changes
  anything there, or tells clients about it.  There is one exception: a node that could
  not be saved has moved in the layout, but clients are not told.
-/

set_option autoImplicit false

namespace Signalbox

open Controller (releasedEvents routeEvents)

/-- What clients are told of a call, with the interlocking before and after it. -/
inductive Interlocking.Reports (s : Interlocking) : List Event → Interlocking → Prop
  | nothing : Reports s [] s
  | turnout {id : NodeId} {state : TurnoutState} {released : Components} {s' : Interlocking}
      (set : s.setTurnout id state = .ok (released, s')) :
      Reports s (releasedEvents released ++ [.turnout id state]) s'
  | route {start finish : NodeId} {o : RouteOutcome} (set : s.setRoute start finish = .ok o) :
      Reports s (routeEvents o) o.after
  | cleared {id : RouteId} {released : Components} {s' : Interlocking}
      (clear : s.clearRoute id = .ok (released, s')) : Reports s [.released released] s'
  | moved {id : NodeId} {place : Coordinate} {s' : Interlocking}
      (move : s.moveNode id place = .ok s') : Reports s [.moved id place] s'

namespace Interlocking

variable {l : Layout} {s s' : Interlocking} {news : List Event}

/-- What is told of a call is about the layout. -/
theorem Reports.filter_eq (h : s.Reports news s') : news.filter Event.isAboutLayout = news := by
  have hreleased (c : Components) : ∀ e ∈ releasedEvents c, e.isAboutLayout = true := by
    intro e he
    unfold releasedEvents at he
    split at he
    · simp at he
    · rw [List.mem_singleton.mp he]
      rfl
  refine List.filter_eq_self.mpr fun e he => ?_
  cases h with
  | nothing => simp at he
  | turnout set =>
    rcases List.mem_append.mp he with he | he
    · exact hreleased _ e he
    · rw [List.mem_singleton.mp he]
      rfl
  | route set =>
    rcases List.mem_append.mp he with he | he
    · rcases List.mem_append.mp he with he | he
      · exact hreleased _ e he
      · obtain ⟨x, -, rfl⟩ := List.mem_map.mp he
        rfl
    · rcases List.mem_cons.mp he with rfl | he
      · rfl
      · rw [List.mem_singleton.mp he]
        rfl
  | cleared clear =>
    rw [List.mem_singleton.mp he]
    rfl
  | moved move =>
    rw [List.mem_singleton.mp he]
    rfl

theorem Reports.varies (h : s.Reports news s') : s.layout.Varies s'.layout := by
  cases h with
  | nothing => exact .refl
  | turnout set => exact varies_setTurnout set
  | route set => exact varies_setRoute set
  | cleared clear => exact varies_clearRoute clear
  | moved move => exact varies_moveNode move

theorem Sound.reports (h : Sound l s) (reports : s.Reports news s') : Sound l s' := by
  cases reports with
  | nothing => exact h
  | turnout set => exact h.setTurnout set
  | route set => exact h.setRoute set
  | cleared clear => exact h.clearRoute clear
  | moved move => exact h.moveNode move

end Interlocking

namespace Controller

variable {c c' c'' : Controller} {news : List Event} {s : Interlocking}

/-- What clients are told of the layout is what has happened to it. -/
def Reports (c c' : Controller) : Prop :=
  ∃ news, c'.events = c.events ++ news ∧
    c.interlocking.Reports (news.filter Event.isAboutLayout) c'.interlocking

theorem Reports.refl (c : Controller) : c.Reports c := ⟨[], (List.append_nil _).symm, .nothing⟩

theorem LeavesLayout.reports (h : c.LeavesLayout c') : c.Reports c' := by
  obtain ⟨news, hevents, helse⟩ := h.tells
  refine ⟨news, hevents, ?_⟩
  rw [h.interlocking, List.filter_eq_nil_iff.mpr fun e he => by simp [helse e he]]
  exact .nothing

/-- More may happen that is not about the layout. -/
theorem Reports.leaves (h : c.Reports c') (h' : c'.LeavesLayout c'') : c.Reports c'' := by
  obtain ⟨news, hevents, hreports⟩ := h
  obtain ⟨others, hevents', helse⟩ := h'.tells
  have hnone : others.filter Event.isAboutLayout = [] :=
    List.filter_eq_nil_iff.mpr fun e he => by simp [helse e he]
  refine ⟨news ++ others, by rw [hevents', hevents, List.append_assoc], ?_⟩
  rwa [List.filter_append, hnone, List.append_nil, h'.interlocking]

/-- A call has been made, and clients have been told. -/
theorem reports_tellAll (h : c.interlocking.Reports news s) :
    c.Reports (tellAll { c with interlocking := s } news) := by
  refine ⟨news, rfl, ?_⟩
  rwa [h.filter_eq]

/-! ## Jobs -/

theorem reports_setTurnout {id : NodeId} {state : TurnoutState} {next : List Job}
    (hset : c.setTurnout id state = .ok (c', next)) : c.Reports c' := by
  unfold setTurnout at hset
  split at hset
  · simp at hset
  · rename_i hmoved
    obtain ⟨rfl, -⟩ := Prod.mk.inj (Except.ok.inj hset)
    exact (reports_tellAll (.turnout hmoved)).leaves (leaves_noteTurnout id state .layout)

theorem reports_setRoute (start finish : NodeId) :
    c.Reports ((c.setRoute start finish).leaving c) := by
  unfold setRoute
  split
  · exact .refl c
  · rename_i o hset
    exact (reports_tellAll (.route hset)).leaves (leaves_nextSetting o.changes .layout).1

theorem reports_clearRoute (id : RouteId) : c.Reports ((c.clearRoute id).leaving c) := by
  unfold clearRoute
  split
  · exact .refl c
  · rename_i hclear
    exact reports_tellAll (.cleared hclear)

/-- Whether the node that a job moves, if it moves one, is also saved. -/
def savesPlace (c : Controller) : Job → Bool
  | .operate (.moveNode id place) =>
    !(c.interlocking.moveNode id place).isOk || (c.store.change (.saveCoordinate id place)).1.isOk
  | _ => true

theorem reports_moveNode (id : NodeId) (place : Coordinate) :
    c.Reports ((c.moveNode id place).leaving c) ∨
      c.savesPlace (.operate (.moveNode id place)) = false ∧
        c.interlocking.moveNode id place = .ok ((c.moveNode id place).leaving c).interlocking := by
  unfold moveNode
  split
  · exact .inl (.refl c)
  · rename_i s hmove
    split <;> rename_i hsave
    · obtain rfl := congrArg Prod.snd hsave
      have herror : (c.store.change (.saveCoordinate id place)).1 = .error _ :=
        congrArg Prod.fst hsave
      refine .inr ⟨?_, hmove⟩
      simp only [savesPlace, hmove, herror]
      rfl
    · obtain rfl := congrArg Prod.snd hsave
      exact .inl (reports_tellAll (.moved hmove))

/-- A command that operates a turnout. -/
theorem reports_command (now : Nat) (id : RunId) (part : Part) (state : TurnoutState)
    (turnout : Int) :
    c.Reports ((c.command now id part (.act (.set state turnout))).leaving c) := by
  unfold command
  split
  · exact .refl c
  · split
    · exact .refl c
    · exact .refl c
    · simp only [effect]
      split
      · exact .refl c
      · rename_i hset
        exact reports_setTurnout (c := c.modifyRun id _) hset

/-- Whatever the job, clients are told what has happened to the layout, or a node has moved that
could not be saved. -/
theorem reports_run (c : Controller) (now : Nat) (j : Job) :
    c.Reports ((c.run now j).leaving c) ∨ c.savesPlace j = false ∧
      ∃ id place, c.interlocking.moveNode id place =
        .ok ((c.run now j).leaving c).interlocking := by
  by_cases hs : j.sphere? = some .layout
  · cases j with
    | operate op =>
      cases op with
      | setTurnout id state =>
        simp only [run, operate]
        split
        · exact .inl (.refl c)
        · rename_i hset
          exact .inl (reports_setTurnout hset)
      | setRoute start finish => exact .inl (reports_setRoute start finish)
      | clearRoute id => exact .inl (reports_clearRoute id)
      | moveNode id place =>
        exact (reports_moveNode id place).imp_right fun h => ⟨h.1, id, place, h.2⟩
      | _ => simp [Job.sphere?, Operation.sphere?] at hs
    | command id part cmd =>
      cases cmd with
      | act a =>
        cases a with
        | set state turnout => exact .inl (reports_command now id part state turnout)
        | _ => simp [Job.sphere?] at hs
      | test wanted turnout body => simp [Job.sphere?] at hs
    | _ => simp [Job.sphere?] at hs
  · exact .inl (LeavesLayout.reports (leaves_leaving (leaves_run now hs)))

end Controller

/-! ## Worlds -/

namespace World

variable {w : World}

/-- Whether the node that a move moves, if it moves one, is also saved. -/
def savesPlace (w : World) (m : Move) : Bool := (w.job? m).all w.controller.savesPlace

/-- Whatever the move, clients are told what has happened to the layout, or a node has moved that
could not be saved. -/
theorem reports_after (w : World) (m : Move) :
    w.controller.Reports (w.after m).controller ∨ w.savesPlace m = false ∧
      ∃ id place, w.controller.interlocking.moveNode id place =
        .ok (w.after m).controller.interlocking := by
  cases hjob : w.job? m with
  | none =>
    obtain ⟨store, faults, hsame⟩ := after_of_no_job hjob
    rw [hsame]
    exact .inl (Controller.LeavesLayout.reports ⟨rfl, .of_eq rfl⟩)
  | some j =>
    obtain ⟨started, hafter⟩ := after_of_job hjob
    have hstarted {c : Controller} : c.LeavesLayout { c with started := started } :=
      ⟨rfl, .of_eq rfl⟩
    rw [hafter, savesPlace, hjob, Option.all_some]
    exact (w.controller.reports_run w.now j).imp_left fun h => h.leaves hstarted

/-- In a move, no turnout or destination comes or goes. -/
theorem varies_after (w : World) (m : Move) :
    w.controller.interlocking.layout.Varies (w.after m).controller.interlocking.layout := by
  rcases w.reports_after m with ⟨news, -, hreports⟩ | ⟨-, id, place, hmove⟩
  · exact hreports.varies
  · exact Interlocking.varies_moveNode hmove

end World

end Signalbox
