import Signalbox.Proofs.Layout.Passage
import Signalbox.Proofs.Store.Track

/-
  Signalbox/Proofs/Layout/Frames.lean --- what a call takes down and changes, and what it leaves.

  Setting a route takes down the routes that have a component in common with it and no
  other.  Those routes are looked up in the tables of holders, which say what the routes
  themselves say, so that none is missed.  A path runs through a turnout once, so that a
  turnout changes exactly if it was in another state before.
-/

set_option autoImplicit false

namespace Signalbox

namespace Layout

variable {l : Layout}

theorem get?_withState (l : Layout) (id id' : NodeId) (state : TurnoutState) :
    (l.withState id state).turnouts.get? id' =
      if id = id' then (l.turnouts.get? id').map fun t => { t with state := state }
      else l.turnouts.get? id' :=
  Table.get?_modify ..

/-- Other turnouts than those that are put into states are left as they are. -/
theorem get?_withStates_of_not_mem {settings : List Setting} {id : NodeId}
    (h : id ∉ settings.map (·.turnout)) :
    (l.withStates settings).turnouts.get? id = l.turnouts.get? id := by
  induction settings generalizing l with
  | nil => rfl
  | cons x rest ih =>
    rw [List.map_cons, List.mem_cons, not_or] at h
    rw [withStates_cons, ih h.2, get?_withState, if_neg (Ne.symm h.1)]

end Layout

/-- A route needs no state of a turnout that is not in the layout. -/
theorem Route.LaidAlong.isSome_turnout {l l' : Layout} {r : Route} {nodes : List NodeId}
    (h : r.LaidAlong l nodes) (hvaries : l.Varies l') {x : Setting} (hx : x ∈ r.settings) :
    (l'.turnouts.get? x.turnout).isSome = true := by
  rw [h.settings] at hx
  obtain ⟨before, after, -, hfor⟩ := Layout.mem_settingsAlong_iff.mp hx
  obtain ⟨t, ht, -⟩ := Option.bind_eq_some_iff.mp hfor
  rw [hvaries.isSome_turnout, ht]
  rfl

namespace Interlocking

variable {l : Layout} {s s' : Interlocking}

/-! ## The layout -/

theorem layout_moveTurnout (s : Interlocking) (id : NodeId) (state : TurnoutState) :
    (s.moveTurnout id state).layout = s.layout.withState id state := rfl

/-- A route puts the turnouts that it changes into their states. -/
theorem layout_applySettings (s : Interlocking) (settings : List Setting) :
    (s.applySettings settings).2.layout = s.layout.withStates (s.applySettings settings).1 := by
  induction settings generalizing s with
  | nil => rfl
  | cons wanted rest ih =>
    unfold applySettings
    split
    · exact ih s
    · split
      · exact ih s
      · exact ih (s.moveTurnout wanted.turnout wanted.state)

theorem layout_setTurnout {id : NodeId} {state : TurnoutState} {released : Components}
    (h : s.setTurnout id state = .ok (released, s')) :
    s'.layout = s.layout.withState id state := by
  unfold setTurnout at h
  split at h
  · obtain ⟨-, rfl⟩ := Prod.mk.inj (Except.ok.inj h)
    rw [layout_moveTurnout, layout_release]
  · simp at h

theorem layout_setRoute {start finish : NodeId} {o : RouteOutcome}
    (h : s.setRoute start finish = .ok o) : o.after.layout = s.layout.withStates o.changes := by
  have hsets := sets_of_setRoute h
  rw [hsets.layout, layout_applySettings, layout_release, hsets.changes]

theorem layout_clearRoute {id : RouteId} {released : Components}
    (h : s.clearRoute id = .ok (released, s')) : s'.layout = s.layout := by
  unfold clearRoute at h
  split at h
  · have hrelease := s.layout_release [id]
    rwa [Except.ok.inj h] at hrelease
  · simp at h

/-- With one setting for each turnout, those are changed that were in another state. -/
theorem changes_eq_filter (settings : List Setting) (honce : (settings.map (·.turnout)).Nodup)
    (hknown : ∀ x ∈ settings, (s.turnoutState? x.turnout).isSome = true) :
    (s.applySettings settings).1 =
      settings.filter fun x => s.turnoutState? x.turnout ≠ some x.state := by
  induction settings generalizing s with
  | nil => rfl
  | cons wanted rest ih =>
    rw [List.map_cons, List.nodup_cons] at honce
    have hknown' : ∀ x ∈ rest, (s.turnoutState? x.turnout).isSome = true := fun x hx =>
      hknown x (List.mem_cons_of_mem _ hx)
    obtain ⟨state, hstate⟩ := Option.isSome_iff_exists.mp (hknown wanted List.mem_cons_self)
    simp only [applySettings, hstate]
    by_cases hsame : state = wanted.state
    · rw [if_pos hsame, List.filter_cons_of_neg (by simp [hstate, hsame]), ih honce.2 hknown']
    · -- The turnouts of the rest are other ones, so their states are what they were.
      have hmoved : ∀ x ∈ rest, (s.moveTurnout wanted.turnout wanted.state).turnoutState?
          x.turnout = s.turnoutState? x.turnout := by
        intro x hx
        have hne : wanted.turnout ≠ x.turnout := fun heq =>
          honce.1 (heq ▸ List.mem_map_of_mem (f := (·.turnout)) hx)
        rw [turnoutState?_moveTurnout, if_neg hne]
      rw [if_neg hsame, List.filter_cons_of_pos (by simp [hstate, hsame])]
      have hrest := ih (s := s.moveTurnout wanted.turnout wanted.state) honce.2
        fun x hx => by rw [hmoved x hx]; exact hknown' x hx
      rw [hrest, List.filter_congr fun x hx => by rw [hmoved x hx]]

/-! ## The routes -/

/-- Routes are left that are not taken down. -/
theorem routes_release_eq_some_iff {ids : List RouteId} {id : RouteId} {r : Route} :
    (s.release ids).2.routes.get? id = some r ↔ s.routes.get? id = some r ∧ id ∉ ids := by
  rw [get?_routes_release]
  split <;> simp [*]

/-- The routes that hold some components are those that are not apart from them. -/
theorem Booked.mem_holdersOf_iff (h : s.Booked) {c : Components} {id : RouteId} :
    id ∈ s.holdersOf c ↔ ∃ r, s.routes.get? id = some r ∧ ¬ r.components.Apart c := by
  have hapart (r : Route) : ¬ r.components.Apart c ↔
      (∃ k ∈ c.turnouts, k ∈ r.components.turnouts) ∨ (∃ k ∈ c.links, k ∈ r.components.links) ∨
        ∃ k ∈ c.destinations, k ∈ r.components.destinations := by
    constructor
    · intro hnot
      by_contra hnone
      simp only [not_or, not_exists, not_and] at hnone
      exact hnot ⟨fun k hr hc => hnone.2.2 k hc hr, fun k hr hc => hnone.1 k hc hr,
        fun k hr hc => hnone.2.1 k hc hr⟩
    · rintro (⟨k, hc, hr⟩ | ⟨k, hc, hr⟩ | ⟨k, hc, hr⟩) hapart
      · exact hapart.turnouts hr hc
      · exact hapart.links hr hc
      · exact hapart.destinations hr hc
  simp only [Interlocking.mem_holdersOf_iff, h.turnouts _ _, h.links _ _, h.ends _ _, hapart]
  constructor
  · rintro (⟨k, hc, r, hr, hk⟩ | ⟨k, hc, r, hr, hk⟩ | ⟨k, hc, r, hr, hk⟩)
    · exact ⟨r, hr, .inl ⟨k, hc, hk⟩⟩
    · exact ⟨r, hr, .inr (.inl ⟨k, hc, hk⟩)⟩
    · exact ⟨r, hr, .inr (.inr ⟨k, hc, hk⟩)⟩
  · rintro ⟨r, hr, ⟨k, hc, hk⟩ | ⟨k, hc, hk⟩ | ⟨k, hc, hk⟩⟩
    · exact .inl ⟨k, hc, r, hr, hk⟩
    · exact .inr (.inl ⟨k, hc, r, hr, hk⟩)
    · exact .inr (.inr ⟨k, hc, r, hr, hk⟩)

/-- What a route that is set replaces, and what it leaves. -/
structure Replaces (s : Interlocking) (start finish : NodeId) (o : RouteOutcome) : Prop where
  found : s.findRoute start finish = .ok o.route
  /-- Of the routes before, those are left that have nothing in common with the new one. -/
  routes : ∀ id r, o.after.routes.get? id = some r ↔
    id = o.id ∧ r = o.route ∨ s.routes.get? id = some r ∧ r.components.Apart o.route.components
  /-- The number may have been that of a route taken down, but not of one that is left. -/
  number : ∀ r, s.routes.get? o.id = some r → ¬ r.components.Apart o.route.components
  booked : o.after.Booked
  states : ∀ x ∈ o.route.settings, o.after.turnoutState? x.turnout = some x.state
  others : ∀ id, id ∉ o.route.settings.map (·.turnout) →
    o.after.layout.turnouts.get? id = s.layout.turnouts.get? id
  /-- Those turnouts are changed that were in another state, in the order of the route. -/
  changes : o.changes =
    o.route.settings.filter fun x => s.turnoutState? x.turnout ≠ some x.state
  layout : o.after.layout = s.layout.withStates o.changes

/-- Setting a route replaces the routes in its way. -/
theorem Sound.replaces (h : Sound l s) (hl : l.Keyed) (hvaries : l.Varies s.layout)
    {start finish : NodeId} {o : RouteOutcome} (ho : s.setRoute start finish = .ok o) :
    s.Replaces start finish o := by
  have hsets := sets_of_setRoute ho
  obtain ⟨-, -, p, -, hlaid⟩ := h.laid_of_findRoute hl hvaries hsets.found
  have honce : (o.route.settings.map (·.turnout)).Nodup :=
    (h.once_of_findRoute hl hsets.found).turnouts
  have hreleased : (s.release (s.holdersOf o.route.components)).2.layout = s.layout :=
    s.layout_release _
  have hknown : ∀ x ∈ o.route.settings,
      ((s.release (s.holdersOf o.route.components)).2.turnoutState? x.turnout).isSome = true := by
    intro x hx
    rw [turnoutState?, hreleased, Option.isSome_map]
    exact hlaid.isSome_turnout hvaries hx
  have hchanges : o.changes =
      o.route.settings.filter fun x => s.turnoutState? x.turnout ≠ some x.state := by
    rw [hsets.changes, changes_eq_filter _ honce hknown]
    exact List.filter_congr fun x _ => by rw [turnoutState?, turnoutState?, hreleased]
  have hlayout := layout_setRoute ho
  have hholders (id : RouteId) : id ∈ s.holdersOf o.route.components ↔ _ :=
    h.booked.mem_holdersOf_iff
  -- No route has the number once those in the way have been taken down.
  have hnumber : ∀ r, s.routes.get? o.id = some r → ¬ r.components.Apart o.route.components := by
    intro r hr
    have hnone := (h.release (s.holdersOf o.route.components)).routes_allocated
    rw [← hsets.number] at hnone
    have hmem : o.id ∈ s.holdersOf o.route.components := by
      by_contra hnot
      simp [routes_release_eq_some_iff.mpr ⟨hr, hnot⟩] at hnone
    obtain ⟨r', hr', hmeets⟩ := (hholders o.id).mp hmem
    obtain rfl := Option.some.inj (hr.symm.trans hr')
    exact hmeets
  refine ⟨hsets.found, fun id r => ?_, hnumber, (h.setRoute ho).booked, fun x hx => ?_,
    fun id hid => ?_, hchanges, hlayout⟩
  · rw [hsets.routes, Table.get?_insert]
    constructor
    · intro hr
      split at hr
      · rename_i hid
        exact .inl ⟨hid.symm, (Option.some.inj hr).symm⟩
      · obtain ⟨hr, hnot⟩ := routes_release_eq_some_iff.mp hr
        refine .inr ⟨hr, by_contra fun hmeets => hnot ?_⟩
        exact (hholders id).mpr ⟨r, hr, hmeets⟩
    · rintro (⟨rfl, rfl⟩ | ⟨hr, hapart⟩)
      · exact if_pos rfl
      · have hne : o.id ≠ id := fun hid => hnumber r (hid ▸ hr) hapart
        rw [if_neg hne, routes_release_eq_some_iff]
        refine ⟨hr, fun hmem => ?_⟩
        obtain ⟨r', hr', hmeets⟩ := (hholders id).mp hmem
        obtain rfl := Option.some.inj (hr.symm.trans hr')
        exact hmeets hapart
  · have hwritten := turnoutState?_applySettings (hknown x hx) o.route.settings
    rw [written_of_mem honce hx] at hwritten
    rw [← hwritten, turnoutState?, turnoutState?, hsets.layout]
  · rw [hlayout]
    apply Layout.get?_withStates_of_not_mem
    intro hmem
    rw [hchanges] at hmem
    exact hid ((List.filter_sublist.map _).subset hmem)

/-- What a turnout that is operated by hand frees, and what it leaves. -/
structure Frees (s : Interlocking) (id : NodeId) (state : TurnoutState) (s' : Interlocking) :
    Prop where
  known : (s.layout.turnouts.get? id).isSome = true
  /-- Of the routes before, those are left that do not hold the turnout. -/
  routes : ∀ key r, s'.routes.get? key = some r ↔
    s.routes.get? key = some r ∧ id ∉ r.components.turnouts
  /-- One route at most has held it. -/
  holder : ∀ key key' r r', s.routes.get? key = some r → s.routes.get? key' = some r' →
    id ∈ r.components.turnouts → id ∈ r'.components.turnouts → key = key'
  booked : s'.Booked
  moved : s'.turnoutState? id = some state
  others : ∀ id', id' ≠ id → s'.layout.turnouts.get? id' = s.layout.turnouts.get? id'
  layout : s'.layout = s.layout.withState id state

/-- Operating a turnout frees it. -/
theorem Sound.frees (h : Sound l s) {id : NodeId} {state : TurnoutState} {released : Components}
    (hset : s.setTurnout id state = .ok (released, s')) : s.Frees id state s' := by
  have hlayout := layout_setTurnout hset
  have hsound := h.setTurnout hset
  unfold Interlocking.setTurnout at hset
  split at hset
  · rename_i known
    obtain ⟨t, ht⟩ := Option.isSome_iff_exists.mp known
    obtain ⟨-, rfl⟩ := Prod.mk.inj (Except.ok.inj hset)
    refine ⟨known, fun key r => ?_, ?_, hsound.booked, ?_, fun id' hne => ?_, hlayout⟩
    · change (s.release (s.turnoutHolders.get? id).toList).2.routes.get? key = some r ↔ _
      rw [routes_release_eq_some_iff, Option.mem_toList, h.booked.turnouts]
      refine and_congr_right fun hr => not_congr ⟨?_, fun hid => ⟨r, hr, hid⟩⟩
      rintro ⟨r', hr', hid⟩
      obtain rfl := Option.some.inj (hr.symm.trans hr')
      exact hid
    · exact fun key key' r r' hr hr' => h.booked.turnouts.unique hr hr'
    · rw [turnoutState?, hlayout, Layout.get?_withState, if_pos rfl, ht]
      rfl
    · rw [hlayout, Layout.get?_withState, if_neg hne.symm]
  · simp at hset

/-- What taking a route down leaves. -/
structure Clears (s : Interlocking) (id : RouteId) (s' : Interlocking) : Prop where
  known : (s.routes.get? id).isSome = true
  routes : ∀ key r, s'.routes.get? key = some r ↔ s.routes.get? key = some r ∧ key ≠ id
  booked : s'.Booked
  layout : s'.layout = s.layout

theorem Sound.clears (h : Sound l s) {id : RouteId} {released : Components}
    (hclear : s.clearRoute id = .ok (released, s')) : s.Clears id s' := by
  have hlayout := layout_clearRoute hclear
  have hsound := h.clearRoute hclear
  unfold Interlocking.clearRoute at hclear
  split at hclear
  · rename_i known
    obtain rfl := congrArg Prod.snd (Except.ok.inj hclear)
    refine ⟨known, fun key r => ?_, hsound.booked, hlayout⟩
    rw [routes_release_eq_some_iff, List.mem_singleton]
  · simp at hclear

end Interlocking

end Signalbox
