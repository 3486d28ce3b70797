import Signalbox.Proofs.Control.Reports
import Signalbox.Proofs.Layout.Deltas

/-
  Signalbox/Proofs/Control/Mirror.lean --- clients that keep up with the layout.

  A client is shown the layout once, at any moment, and from then on hears only what has
  changed.  Whatever is done meanwhile, and in whatever order tasks have their turns, it
  knows at every moment what another client would be shown that asks at that moment.

  Each call of the interlocking tells enough, given that the holders are exact; runs only
  put calls one after the other.
-/

set_option autoImplicit false

namespace Signalbox

open Controller (releasedEvents routeEvents)

/-! ## News of a call -/

namespace LayoutView

variable {v : LayoutView}

/-- Only news about the layout count. -/
theorem tell_of_not_isAboutLayout {e : Event} (he : e.isAboutLayout = false) : v.tell e = v := by
  cases e <;> first | rfl | simp [Event.isAboutLayout] at he

theorem tellAll_filter (v : LayoutView) (news : List Event) :
    v.tellAll (news.filter Event.isAboutLayout) = v.tellAll news := by
  induction news generalizing v with
  | nil => rfl
  | cons e news ih =>
    cases he : e.isAboutLayout with
    | true =>
      rw [List.filter_cons_of_pos he]
      exact ih (v.tell e)
    | false =>
      have hsame : v.tellAll (e :: news) = v.tellAll news :=
        congrArg (tellAll · news) (tell_of_not_isAboutLayout he)
      rw [List.filter_cons_of_neg (by simp [he]), hsame]
      exact ih v

/-- That nothing is released need not be told. -/
theorem tellAll_releasedEvents (v : LayoutView) (c : Components) :
    v.tellAll (releasedEvents c) = v.tell (.released c) := by
  unfold releasedEvents
  split
  · rename_i hempty
    rw [Components.eq_empty_of_isEmpty hempty, tell, Components.without_empty]
    rfl
  · rfl

end LayoutView

namespace Interlocking

variable {l : Layout} {s s' : Interlocking} {news : List Event}

theorem Sound.view_setTurnout (h : Sound l s) (hkeyed : s.layout.Keyed) {id : NodeId}
    {state : TurnoutState} {released : Components}
    (hset : s.setTurnout id state = .ok (released, s')) :
    (s.view.tellAll (releasedEvents released ++ [.turnout id state])).Same s'.view := by
  unfold Interlocking.setTurnout at hset
  split at hset
  · obtain ⟨rfl, rfl⟩ := Prod.mk.inj (Except.ok.inj hset)
    have hturnouts := hkeyed.turnouts
    rw [← s.layout_release (s.turnoutHolders.get? id).toList] at hturnouts
    rw [LayoutView.tellAll_append, LayoutView.tellAll_releasedEvents, ← view_moveTurnout hturnouts]
    exact (h.view_release _).tellAll [.turnout id state]
  · simp at hset

/-- What a route releases, what it changes and what it holds, one after the other. -/
theorem Sound.view_setRoute (h : Sound l s) (hkeyed : s.layout.Keyed) {start finish : NodeId}
    {o : RouteOutcome} (hset : s.setRoute start finish = .ok o) :
    (s.view.tellAll (routeEvents o)).Same o.after.view := by
  have hsets := sets_of_setRoute hset
  let free := (s.release (s.holdersOf o.route.components)).2
  let moved := (free.applySettings o.route.settings).2
  have hfree : Sound l free := h.release _
  have hreleased : (s.view.tell (.released o.released)).Same free.view :=
    hsets.released ▸ h.view_release _
  have hmoved : free.view.tellAll (o.changes.map fun x => .turnout x.turnout x.state) =
      moved.view := by
    have hturnouts : free.layout.turnouts.KeyedBy Turnout.id :=
      (s.layout_release _ : free.layout = s.layout) ▸ hkeyed.turnouts
    rw [hsets.changes]
    exact view_applySettings hturnouts o.route.settings
  have hheld : (moved.view.tell (.held o.route.components)).Same o.after.view := by
    -- Moving turnouts does not touch the routes, so the number of the new one is still free.
    have hroutes : moved.routes = free.routes := free.routes_applySettings o.route.settings
    have hnumber : moved.routes.get? o.id = none := by
      rw [hroutes, hsets.number]
      exact hfree.routes_allocated
    have hview : (Interlocking.claim moved o.id o.route).view = o.after.view :=
      view_congr hsets.layout.symm (by rw [hsets.routes, ← hroutes]; rfl)
    exact hview ▸ view_claim (hroutes ▸ hfree.ordered.routes) hnumber o.route
  rw [routeEvents, LayoutView.tellAll_append, LayoutView.tellAll_append,
    LayoutView.tellAll_releasedEvents]
  have hchanged := hreleased.tellAll (o.changes.map fun x => .turnout x.turnout x.state)
  rw [hmoved] at hchanged
  exact (hchanged.tell (.held o.route.components)).trans hheld

/-- What is told of a call is all that a client needs. -/
theorem Sound.view_reports (h : Sound l s) (hkeyed : s.layout.Keyed) (hapart : s.layout.NodesApart)
    (reports : s.Reports news s') : (s.view.tellAll news).Same s'.view := by
  cases reports with
  | nothing => exact .refl s.view
  | turnout set => exact h.view_setTurnout hkeyed set
  | route set => exact h.view_setRoute hkeyed set
  | cleared clear =>
    unfold Interlocking.clearRoute at clear
    split at clear
    · obtain ⟨rfl, rfl⟩ := Prod.mk.inj (Except.ok.inj clear)
      exact h.view_release [_]
    · simp at clear
  | moved move =>
    rw [← view_moveNode hkeyed hapart move]
    exact .refl _

end Interlocking

/-! ## Controllers and worlds -/

/-- A client that was shown the layout of one controller, and has been told what another one has
told since, knows what would be shown of that. -/
def Controller.Mirrors (c c' : Controller) : Prop :=
  ∃ news, c'.events = c.events ++ news ∧
    (c.interlocking.view.tellAll news).Same c'.interlocking.view

namespace Controller

variable {c c' c'' : Controller}

theorem Mirrors.refl (c : Controller) : c.Mirrors c := ⟨[], (List.append_nil _).symm, .refl _⟩

theorem Mirrors.trans (h : c.Mirrors c') (h' : c'.Mirrors c'') : c.Mirrors c'' := by
  obtain ⟨news, hevents, hsame⟩ := h
  obtain ⟨more, hevents', hsame'⟩ := h'
  refine ⟨news ++ more, by rw [hevents', hevents, List.append_assoc], ?_⟩
  rw [LayoutView.tellAll_append]
  exact (hsame.tellAll more).trans hsame'

end Controller

namespace World

variable {l : Layout} {w : World}

/-- The routes are those of a layout after some calls, and no node has come or gone. -/
structure Tracks (l : Layout) (w : World) : Prop where
  sound : Interlocking.Sound l w.controller.interlocking
  varies : l.Varies w.controller.interlocking.layout

theorem tracks_ofLayout (h : w.controller.interlocking = .ofLayout l) : w.Tracks l := by
  refine ⟨?_, ?_⟩
  · rw [h]
    exact Interlocking.sound_ofLayout l
  · rw [h]
    exact .refl

theorem Tracks.after (h : w.Tracks l) (m : Move) : (w.after m).Tracks l := by
  refine ⟨?_, h.varies.trans (w.varies_after m)⟩
  rcases w.reports_after m with ⟨news, -, hreports⟩ | ⟨-, id, place, hmove⟩
  · exact h.sound.reports hreports
  · exact h.sound.moveNode hmove

theorem Tracks.afterAll (h : w.Tracks l) (moves : List Move) : (w.afterAll moves).Tracks l := by
  induction moves generalizing w with
  | nil => exact h
  | cons m moves ih => exact ih (h.after m)

/-- A client keeps up with a move. -/
theorem Tracks.mirrors_after (h : w.Tracks l) (hl : l.Keyed) (hapart : l.NodesApart) {m : Move}
    (hsaves : w.savesPlace m = true) : w.controller.Mirrors (w.after m).controller := by
  rcases w.reports_after m with ⟨news, hevents, hreports⟩ | ⟨hlost, -⟩
  · have hsame := h.sound.view_reports (hl.varies h.varies) (hapart.varies h.varies) hreports
    rw [LayoutView.tellAll_filter] at hsame
    exact ⟨news, hevents, hsame⟩
  · rw [hsaves] at hlost
    simp at hlost

/-- Whether the store saves all nodes that some moves move. -/
def savesPlaces (w : World) : List Move → Bool
  | [] => true
  | m :: moves => w.savesPlace m && (w.after m).savesPlaces moves

theorem Tracks.mirrors_afterAll (h : w.Tracks l) (hl : l.Keyed) (hapart : l.NodesApart)
    (moves : List Move) (hsaves : w.savesPlaces moves = true) :
    w.controller.Mirrors (w.afterAll moves).controller := by
  induction moves generalizing w with
  | nil => exact .refl _
  | cons m moves ih =>
    obtain ⟨hfirst, hrest⟩ := Bool.and_eq_true_iff.mp hsaves
    exact (h.mirrors_after hl hapart hfirst).trans (ih (h.after m) hrest)

/-- Whatever has been done when a client is shown a layout in which no turnout and destination
have an id in common, and whatever is done after that, all that the client is told until some
moment makes what it was shown into what is shown at that moment, as long as the store saves
the nodes that are moved. -/
theorem client_mirrors {l : Layout} (hl : l.Keyed) (hapart : l.NodesApart) {w : World}
    (hstart : w.controller.interlocking = .ofLayout l) (before moves : List Move)
    (hsaves : (w.afterAll before).savesPlaces moves = true) :
    (w.afterAll before).controller.Mirrors
      ((w.afterAll before).afterAll moves).controller := by
  have htracks := (tracks_ofLayout hstart).afterAll before
  exact htracks.mirrors_afterAll hl hapart moves hsaves

/-- A turnout that leads from one destination to either of two others. -/
def forkNodes : List Node :=
  [.destination ⟨1, "", "", .origin⟩, .destination ⟨2, "", "", .origin⟩,
    .destination ⟨3, "", "", .origin⟩, .turnout ⟨10, "", .origin, .closed, 102, 103⟩]

def forkLinks : List Link := [⟨101, 1, 1, 10, []⟩, ⟨102, 1, 10, 2, []⟩, ⟨103, 1, 10, 3, []⟩]

/-- A world of the fork, with its nodes stored. -/
def forkTrial : World :=
  .ofController (.ofLayout
    (.inMemory { Rows.empty with nodes := Table.ofList (forkNodes.map fun n => (n.id, n)) })
    (.ofParts forkNodes forkLinks) (.ofDriver .virtual [] fun _ => .virtual) .all)

/-- A route takes the place of the one that a client has been shown; then a node is moved, the
turnout of the route is operated by hand, and the first route is taken down in vain. -/
def forkMoves : List Move :=
  [.ask (.setRoute 1 3), .turn 1, .ask (.moveNode 3 ⟨⟨false, Binary64.hiddenBit, -52⟩, .zero⟩),
    .turn 2, .ask (.setTurnout 10 .closed), .turn 3, .ask (.clearRoute 1), .turn 4]

/-- The client knows in the end that nothing is held. -/
theorem client_mirrors_fork :
    (forkTrial.afterAll [.ask (.setRoute 1 2), .turn 0]).controller.interlocking.locked =
        ⟨[1, 2], [10], [101, 102]⟩ ∧
      ((forkTrial.afterAll [.ask (.setRoute 1 2), .turn 0]).afterAll
        forkMoves).controller.interlocking.locked = .empty ∧
      (forkTrial.afterAll [.ask (.setRoute 1 2), .turn 0]).controller.Mirrors
        ((forkTrial.afterAll [.ask (.setRoute 1 2), .turn 0]).afterAll forkMoves).controller := by
  have hapart : (Layout.ofParts forkNodes forkLinks).NodesApart := by
    unfold Layout.NodesApart
    decide +kernel
  exact ⟨by decide +kernel, by decide +kernel,
    client_mirrors (Layout.keyed_ofParts _ _) hapart rfl _ forkMoves (by decide +kernel)⟩

end World

end Signalbox
