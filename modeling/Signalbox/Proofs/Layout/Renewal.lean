import Signalbox.Proofs.Layout.Frames

/-
  Signalbox/Proofs/Layout/Renewal.lean --- setting a route that has just been set.

  The path between two destinations depends on the graph alone, and what it needs of the
  layout is not changed by putting turnouts into states.  So the same route is found again.
  It meets itself and, since everything else in its way has been taken down, nothing but
  itself; and its turnouts stand as it wants them.  It is taken down and set again, perhaps
  under another number, and everything is as it was.
-/

set_option autoImplicit false

namespace Signalbox

namespace Layout

/-- A layout whose destinations are the same has the same routes. -/
theorem Varies.routeAlong {l l' : Layout} (h : l.Varies l')
    (hdestinations : l'.destinations = l.destinations) (g : Graph) (nodes : List NodeId) :
    l'.routeAlong g nodes = l.routeAlong g nodes := by
  cases nodes with
  | nil => rfl
  | cons first rest =>
    simp only [Layout.routeAlong, endOf, hdestinations, h.settingsAlong, h.linksAlong]

end Layout

/-- No route is apart from itself, since it has its ends. -/
theorem Route.not_apart_self (r : Route) : ¬ r.components.Apart r.components := by
  intro hapart
  have hstart : r.start.id ∈ r.components.destinations := List.mem_cons_self
  exact hapart.destinations hstart hstart

namespace Interlocking

variable {l : Layout} {s : Interlocking}

/-! ## The same components -/

/-- The same components are locked, each as often, and somebody holds the same ones. -/
structure LocksAlike (s s' : Interlocking) : Prop where
  turnouts : s'.locked.turnouts.Perm s.locked.turnouts
  links : s'.locked.links.Perm s.locked.links
  ends : s'.locked.destinations.Perm s.locked.destinations
  turnoutKeys : s'.turnoutHolders.keys.Perm s.turnoutHolders.keys
  linkKeys : s'.linkHolders.keys.Perm s.linkHolders.keys
  endKeys : s'.endHolders.keys.Perm s.endHolders.keys

/-- Exact tables beside routes with the same components have the same keys. -/
theorem Exact.keys_perm {holders holders' : Table Int RouteId} {routes routes' : Table RouteId Route}
    {part : Components → List Int} (h : Exact holders routes part)
    (h' : Exact holders' routes' part) (ha : holders.Ascending) (ha' : holders'.Ascending)
    (hsame : ∀ r, (∃ id, routes'.get? id = some r) ↔ ∃ id, routes.get? id = some r) :
    holders'.keys.Perm holders.keys := by
  rw [List.perm_ext_iff_of_nodup ha'.nodup ha.nodup]
  intro key
  rw [h.mem_keys_iff, h'.mem_keys_iff, exists_comm, @exists_comm RouteId]
  exact exists_congr fun r => by rw [exists_and_right, exists_and_right, hsame]

/-- Interlockings in which the same routes are set lock the same components. -/
theorem Sound.locksAlike {s' : Interlocking} (h : Sound l s) (h' : Sound l s') (hl : l.Keyed)
    (hsame : ∀ r, (∃ id, s'.routes.get? id = some r) ↔ ∃ id, s.routes.get? id = some r) :
    s.LocksAlike s' := by
  have honce := h.showsHeldOnce hl
  have honce' := h'.showsHeldOnce hl
  have hturnouts := h.booked.turnouts.keys_perm h'.booked.turnouts h.ordered.turnouts
    h'.ordered.turnouts hsame
  have hlinks := h.booked.links.keys_perm h'.booked.links h.ordered.links h'.ordered.links hsame
  have hends := h.booked.ends.keys_perm h'.booked.ends h.ordered.ends h'.ordered.ends hsame
  exact ⟨(honce'.turnouts.trans hturnouts).trans honce.turnouts.symm,
    (honce'.links.trans hlinks).trans honce.links.symm,
    (honce'.ends.trans hends).trans honce.ends.symm, hturnouts, hlinks, hends⟩

/-! ## Finding the route again -/

theorem destinations_setRoute {start finish : NodeId} {o : RouteOutcome}
    (ho : s.setRoute start finish = .ok o) :
    o.after.layout.destinations = s.layout.destinations := by
  obtain ⟨turnouts, hsettings⟩ := exists_turnouts_applySettings
    (s.release (s.holdersOf o.route.components)).2 o.route.settings
  rw [(sets_of_setRoute ho).layout, hsettings, layout_release]

/-- A route that is set does not change which route joins two destinations. -/
theorem Sound.findRoute_after (h : Sound l s) {start finish : NodeId} {o : RouteOutcome}
    (ho : s.setRoute start finish = .ok o) (a b : NodeId) :
    o.after.findRoute a b = s.findRoute a b := by
  have hgraph : o.after.graph = s.graph := (h.setRoute ho).base.graph.trans h.base.graph.symm
  have hroute := (varies_setRoute ho).routeAlong (destinations_setRoute ho) s.graph
  simp only [findRoute, hgraph, hroute]

/-- A route that is found can be set. -/
theorem exists_setRoute {start finish : NodeId} {r : Route}
    (hr : s.findRoute start finish = .ok r) : ∃ o, s.setRoute start finish = .ok o := by
  simp only [setRoute, hr]
  exact ⟨_, rfl⟩

/-! ## What is in its way -/

/-- A route that is set is the only one that meets it. -/
theorem Replaces.meets_iff {start finish : NodeId} {o : RouteOutcome}
    (h : s.Replaces start finish o) {id : RouteId} {r : Route} :
    o.after.routes.get? id = some r ∧ ¬ r.components.Apart o.route.components ↔
      id = o.id ∧ r = o.route := by
  rw [h.routes]
  constructor
  · rintro ⟨hroute | ⟨-, hapart⟩, hmeets⟩
    · exact hroute
    · exact absurd hapart hmeets
  · rintro ⟨rfl, rfl⟩
    exact ⟨.inl ⟨rfl, rfl⟩, o.route.not_apart_self⟩

/-- So it is all that stands in the way of its being set again. -/
theorem Replaces.holdersOf_after {start finish : NodeId} {o : RouteOutcome}
    (h : s.Replaces start finish o) : o.after.holdersOf o.route.components = [o.id] := by
  have hnodup : (o.after.holdersOf o.route.components).Nodup := (Table.ascending_ofList _).nodup
  apply List.perm_singleton.mp
  rw [List.perm_ext_iff_of_nodup hnodup (List.nodup_singleton _)]
  intro id
  rw [h.booked.mem_holdersOf_iff, List.mem_singleton]
  simp only [h.meets_iff]
  constructor
  · rintro ⟨-, hid, -⟩
    exact hid
  · intro hid
    exact ⟨o.route, hid, rfl⟩

theorem release_singleton {id : RouteId} {r : Route} (hr : s.routes.get? id = some r) :
    (s.release [id]).1 = r.components := by
  simp [release, releaseOne, hr, Components.append, Components.empty]

/-! ## Setting it again -/

/-- What setting a route does that has just been set: that route is taken down, no other, and is
set again, and no turnout is changed. -/
structure Renews (o again : RouteOutcome) : Prop where
  route : again.route = o.route
  released : again.released = o.route.components
  changes : again.changes = []
  layout : again.after.layout = o.after.layout
  /-- The other routes are those before, under their numbers. -/
  others : ∀ id r, r ≠ o.route →
    (again.after.routes.get? id = some r ↔ o.after.routes.get? id = some r)
  once : ∀ id, again.after.routes.get? id = some o.route ↔ id = again.id
  locked : o.after.LocksAlike again.after

/-- The route is the only one under its number and has no other number. -/
theorem Replaces.get?_route_iff {start finish : NodeId} {o : RouteOutcome}
    (h : s.Replaces start finish o) (id : RouteId) :
    o.after.routes.get? id = some o.route ↔ id = o.id := by
  constructor
  · intro hroute
    exact (h.meets_iff.mp ⟨hroute, o.route.not_apart_self⟩).1
  · rintro rfl
    exact (h.meets_iff.mpr ⟨rfl, rfl⟩).1

/-- Setting a route that has just been set succeeds, and renews it. -/
theorem Sound.renews (h : Sound l s) (hl : l.Keyed) (hvaries : l.Varies s.layout)
    {start finish : NodeId} {o : RouteOutcome} (ho : s.setRoute start finish = .ok o) :
    ∃ again, o.after.setRoute start finish = .ok again ∧ Renews o again := by
  have hsound := h.setRoute ho
  have hvaries' := hvaries.trans (varies_setRoute ho)
  have hfirst := h.replaces hl hvaries ho
  have hfound : o.after.findRoute start finish = .ok o.route :=
    (h.findRoute_after ho start finish).trans hfirst.found
  obtain ⟨again, hagain⟩ := exists_setRoute hfound
  have hsecond := hsound.replaces hl hvaries' hagain
  have hroute : again.route = o.route := Except.ok.inj (hsecond.found.symm.trans hfound)
  have hchanges : again.changes = [] := by
    rw [hsecond.changes, hroute, List.filter_eq_nil_iff]
    intro x hx
    simp [hfirst.states x hx]
  have hothers : ∀ id r, r ≠ o.route →
      (again.after.routes.get? id = some r ↔ o.after.routes.get? id = some r) := by
    intro id r hne
    rw [hsecond.routes, hroute]
    constructor
    · rintro (⟨-, heq⟩ | ⟨hr, -⟩)
      · exact absurd heq hne
      · exact hr
    · intro hr
      refine .inr ⟨hr, by_contra fun hmeets => hne ?_⟩
      exact (hfirst.meets_iff.mp ⟨hr, hmeets⟩).2
  have honce : ∀ id, again.after.routes.get? id = some o.route ↔ id = again.id := by
    intro id
    rw [← hroute]
    exact hsecond.get?_route_iff id
  refine ⟨again, hagain, hroute, ?_, hchanges, ?_, hothers, honce, ?_⟩
  · rw [(sets_of_setRoute hagain).released, hroute, hfirst.holdersOf_after,
      release_singleton ((hfirst.get?_route_iff o.id).mpr rfl)]
  · rw [hsecond.layout, hchanges, Layout.withStates_nil]
  · apply hsound.locksAlike (hsound.setRoute hagain) hl
    intro r
    by_cases hr : r = o.route
    · subst hr
      exact iff_of_true ⟨again.id, (honce _).mpr rfl⟩ ⟨o.id, (hfirst.get?_route_iff _).mpr rfl⟩
    · exact exists_congr fun id => hothers id r hr

end Interlocking

end Signalbox
