import Signalbox.Proofs.Allocator
import Signalbox.Proofs.Layout.Holders
import Signalbox.Proofs.Layout.Route

/-
  Signalbox/Proofs/Layout/Interlocking.lean --- what is held, after any calls.

  However routes are set and taken down, turnouts operated and nodes moved, and
  whether or not these succeed, the tables of holders say neither more nor less than
  the routes that are set, the numbers handed out are those of these routes, and
  what clients are shown as locked is what is held.

  A route is claimed only after every route in its way has been taken down, so that
  no table loses a row to it.
-/

set_option autoImplicit false

namespace Signalbox

/-- Two sets of components have nothing in common. -/
structure Components.Apart (a b : Components) : Prop where
  destinations : a.destinations.Disjoint b.destinations
  turnouts : a.turnouts.Disjoint b.turnouts
  links : a.links.Disjoint b.links

namespace Interlocking

/-! ## Calls -/

/-- A call that may change the interlocking. -/
inductive Call where
  | setRoute (start finish : NodeId)
  | setTurnout (id : NodeId) (state : TurnoutState)
  | clearRoute (id : RouteId)
  | moveNode (id : NodeId) (c : Coordinate)
  deriving DecidableEq, Repr

/-- The interlocking after a call; one that is refused changes nothing. -/
def after (s : Interlocking) : Call → Interlocking
  | .setRoute start finish =>
    match s.setRoute start finish with
    | .ok o => o.after
    | .error _ => s
  | .setTurnout id state =>
    match s.setTurnout id state with
    | .ok (_, s') => s'
    | .error _ => s
  | .clearRoute id =>
    match s.clearRoute id with
    | .ok (_, s') => s'
    | .error _ => s
  | .moveNode id c =>
    match s.moveNode id c with
    | .ok s' => s'
    | .error _ => s

/-- The interlocking after calls, one after the other. -/
def afterAll (s : Interlocking) (calls : List Call) : Interlocking := calls.foldl after s

/-! ## The invariant -/

/-- The holders are those of the routes that are set, and the numbers in use are theirs. -/
structure Booked (s : Interlocking) : Prop where
  turnouts : Exact s.turnoutHolders s.routes Components.turnouts
  links : Exact s.linkHolders s.routes Components.links
  ends : Exact s.endHolders s.routes Components.destinations
  live : ∀ id, s.ids.isLive id = true ↔ s.routes.contains id = true

/-- The tables are in order, and so is the allocator. -/
structure Ordered (s : Interlocking) : Prop where
  turnouts : s.turnoutHolders.Ascending
  links : s.linkHolders.Ascending
  ends : s.endHolders.Ascending
  routes : s.routes.Ascending
  ids : s.ids.Sound

/-- The graph and the links are those of a layout, and destinations keep their ids. -/
structure Over (l : Layout) (s : Interlocking) : Prop where
  graph : s.graph = l.graph
  links : s.layout.links = l.links
  destinations : l.Keyed → s.layout.destinations.KeyedBy Destination.id

/-- What holds of the interlocking of a layout after any calls. -/
structure Sound (l : Layout) (s : Interlocking) : Prop where
  base : Over l s
  booked : Booked s
  ordered : Ordered s
  once : l.Keyed → ∀ id r, s.routes.get? id = some r → r.components.Once

section Sound

variable {l : Layout} {s : Interlocking}

theorem sound_ofLayout (l : Layout) : Sound l (ofLayout l) := by
  refine ⟨⟨rfl, rfl, fun h => h.destinations⟩, ⟨exact_empty _, exact_empty _, exact_empty _, ?_⟩,
    ⟨Table.ascending_empty, Table.ascending_empty, Table.ascending_empty, Table.ascending_empty,
      Allocator.sound_startingAt 1⟩, ?_⟩
  · intro id
    simp [ofLayout, Allocator.isLive_startingAt, Table.contains, Table.get?_empty]
  · intro _ id r hr
    simp [ofLayout, Table.get?_empty] at hr

/-- Changing turnouts, or the places of destinations, does not touch what is held. -/
theorem Sound.withLayout (h : Sound l s) {l' : Layout} (hlinks : l'.links = s.layout.links)
    (hdestinations : s.layout.destinations.KeyedBy Destination.id →
      l'.destinations.KeyedBy Destination.id) : Sound l { s with layout := l' } :=
  ⟨⟨h.base.graph, hlinks.trans h.base.links, fun hl => hdestinations (h.base.destinations hl)⟩,
    ⟨h.booked.turnouts, h.booked.links, h.booked.ends, h.booked.live⟩,
    ⟨h.ordered.turnouts, h.ordered.links, h.ordered.ends, h.ordered.routes, h.ordered.ids⟩,
    h.once⟩

/-! ## Taking routes down -/

theorem release_cons_snd (s : Interlocking) (id : RouteId) (rest : List RouteId) :
    (s.release (id :: rest)).2 = ((s.releaseOne id).2.release rest).2 := rfl

theorem layout_releaseOne (s : Interlocking) (id : RouteId) :
    (s.releaseOne id).2.layout = s.layout := by
  unfold releaseOne
  split <;> rfl

theorem layout_release (s : Interlocking) (ids : List RouteId) :
    (s.release ids).2.layout = s.layout := by
  induction ids generalizing s with
  | nil => rfl
  | cons id ids ih => exact (ih _).trans (s.layout_releaseOne id)

theorem get?_routes_releaseOne (s : Interlocking) (id id' : RouteId) :
    (s.releaseOne id).2.routes.get? id' = if id = id' then none else s.routes.get? id' := by
  unfold releaseOne
  split
  · rename_i hnone
    split
    · rename_i heq
      rw [← heq, hnone]
    · rfl
  · exact Table.get?_erase ..

theorem get?_routes_release (s : Interlocking) (ids : List RouteId) (id : RouteId) :
    (s.release ids).2.routes.get? id = if id ∈ ids then none else s.routes.get? id := by
  induction ids generalizing s with
  | nil => simp [release]
  | cons first rest ih =>
    rw [release_cons_snd, ih, get?_routes_releaseOne]
    by_cases heq : first = id
    · simp [heq]
    · simp [heq, Ne.symm heq]

theorem Sound.releaseOne (h : Sound l s) (id : RouteId) : Sound l (s.releaseOne id).2 := by
  have hroutes := get?_routes_releaseOne s id
  unfold Interlocking.releaseOne at hroutes ⊢
  split
  · exact h
  · rename_i r hr
    simp only [hr] at hroutes
    refine ⟨⟨h.base.graph, h.base.links, h.base.destinations⟩,
      ⟨h.booked.turnouts.release hr, h.booked.links.release hr, h.booked.ends.release hr, ?_⟩,
      ⟨ascending_eraseAll h.ordered.turnouts _, ascending_eraseAll h.ordered.links _,
        ascending_eraseAll h.ordered.ends _, h.ordered.routes.erase id,
        h.ordered.ids.release id⟩, ?_⟩
    · intro id'
      rw [Allocator.isLive_release, h.booked.live, Table.contains_iff, Table.contains_iff]
      simp only [Table.get?_erase]
      by_cases heq : id = id'
      · simp [heq]
      · simp [heq, Ne.symm heq]
    · intro hl id' r' hr'
      rw [hroutes] at hr'
      split at hr'
      · simp at hr'
      · exact h.once hl id' r' hr'

theorem Sound.release (h : Sound l s) (ids : List RouteId) : Sound l (s.release ids).2 := by
  induction ids generalizing s with
  | nil => exact h
  | cons id rest ih => exact ih (h.releaseOne id)

/-! ## Setting a route -/

theorem mem_holdersOf_iff {c : Components} {id : RouteId} :
    id ∈ s.holdersOf c ↔
      (∃ k ∈ c.turnouts, s.turnoutHolders.get? k = some id) ∨
      (∃ k ∈ c.links, s.linkHolders.get? k = some id) ∨
      ∃ k ∈ c.destinations, s.endHolders.get? k = some id := by
  simp only [holdersOf, mem_ascending_iff, List.mem_append, List.mem_filterMap, or_assoc]

/-- No route has the number that is handed out next. -/
theorem Sound.routes_allocated (h : Sound l s) : s.routes.get? s.ids.allocate.1 = none := by
  have hnot := Allocator.isLive_allocated s.ids
  rw [Bool.eq_false_iff, ne_eq, h.booked.live, Table.contains] at hnot
  simpa using hnot

/-- The route gets a number that no route has, and finds its components held by nobody. -/
theorem Sound.claim (h : Sound l s) {r : Route}
    (hturnouts : ∀ k ∈ r.components.turnouts, s.turnoutHolders.get? k = none)
    (hlinks : ∀ k ∈ r.components.links, s.linkHolders.get? k = none)
    (hends : ∀ k ∈ r.components.destinations, s.endHolders.get? k = none)
    (honce : l.Keyed → r.components.Once) :
    Sound l (claim { s with ids := s.ids.allocate.2 } s.ids.allocate.1 r) := by
  have hnone := h.routes_allocated
  refine ⟨⟨h.base.graph, h.base.links, h.base.destinations⟩,
    ⟨h.booked.turnouts.claim hnone hturnouts, h.booked.links.claim hnone hlinks,
      h.booked.ends.claim hnone hends, ?_⟩,
    ⟨ascending_insertAll h.ordered.turnouts _ _, ascending_insertAll h.ordered.links _ _,
      ascending_insertAll h.ordered.ends _ _, h.ordered.routes.insert _ _,
      h.ordered.ids.allocate⟩, ?_⟩
  · intro id
    rw [Interlocking.claim, h.ordered.ids.isLive_allocate, h.booked.live, Table.contains_iff,
      Table.contains_iff]
    simp only [Table.get?_insert]
    by_cases heq : s.ids.allocate.1 = id
    · simp [heq]
    · simp [heq, Ne.symm heq]
  · intro hl id r' hr'
    rw [Interlocking.claim, Table.get?_insert] at hr'
    split at hr'
    · obtain rfl := Option.some.inj hr'
      exact honce hl
    · exact h.once hl id r' hr'

/-- Putting turnouts into their states changes nothing but the turnouts of the layout. -/
theorem exists_turnouts_applySettings (s : Interlocking) (settings : List Setting) :
    ∃ turnouts, (s.applySettings settings).2 =
      { s with layout := { s.layout with turnouts := turnouts } } := by
  induction settings generalizing s with
  | nil => exact ⟨s.layout.turnouts, rfl⟩
  | cons wanted rest ih =>
    unfold applySettings
    split
    · exact ih s
    · split
      · exact ih s
      · obtain ⟨turnouts, heq⟩ := ih (s.moveTurnout wanted.turnout wanted.state)
        exact ⟨turnouts, heq⟩

theorem routes_applySettings (s : Interlocking) (settings : List Setting) :
    (s.applySettings settings).2.routes = s.routes := by
  obtain ⟨turnouts, hsettings⟩ := exists_turnouts_applySettings s settings
  rw [hsettings]

theorem Sound.applySettings (h : Sound l s) (settings : List Setting) :
    Sound l (s.applySettings settings).2 := by
  obtain ⟨turnouts, hsettings⟩ := exists_turnouts_applySettings s settings
  rw [hsettings]
  exact h.withLayout rfl fun hd => hd

/-- A route that is found has no component twice. -/
theorem Sound.once_of_findRoute (h : Sound l s) (hl : l.Keyed) {start finish : NodeId} {r : Route}
    (hr : s.findRoute start finish = .ok r) : r.components.Once := by
  obtain ⟨path, hpath, hroute⟩ := Steps.bind_eq_ok.mp hr
  rw [h.base.graph] at hpath hroute
  obtain ⟨es, hlegal, hnodes, -⟩ := Graph.legal_of_findPath l.graph_sound hpath
  have hlinks : s.layout.links.KeyedBy Link.id := h.base.links ▸ hl.links
  have hg : ∀ id, ∀ e ∈ l.graph.exitsOf id,
      ∃ k ∈ s.layout.links.values, Graph.Follows e id k := by
    rw [h.base.links]
    exact fun id e he => Layout.exists_link_of_mem_exitsOf he
  refine Layout.once_of_routeAlong (h.base.destinations hl) hlinks hg (hnodes ▸ hlegal.once) ?_
    hroute
  have hes : es ≠ [] := by
    rintro rfl
    exact Graph.ne_of_findPath hpath hlegal.walk
  rw [← hnodes, Graph.walkNodes, List.length_cons, List.length_map]
  have := List.length_pos_of_ne_nil hes
  omega

theorem Sound.setRoute (h : Sound l s) {start finish : NodeId} {o : RouteOutcome}
    (ho : s.setRoute start finish = .ok o) : Sound l o.after := by
  obtain ⟨r, hr, ho⟩ := Steps.bind_eq_ok.mp ho
  have honce := fun hl => h.once_of_findRoute hl hr
  have hreleased := h.release (s.holdersOf r.components)
  obtain ⟨turnouts, hsettings⟩ := exists_turnouts_applySettings
    (s.release (s.holdersOf r.components)).2 r.settings
  have hset := hreleased.applySettings r.settings
  -- Whoever held a component of the route has been taken down.
  have hroutes : ∀ id r', (s.release (s.holdersOf r.components)).2.routes.get? id = some r' →
      id ∉ s.holdersOf r.components ∧ s.routes.get? id = some r' := by
    intro id r' hr'
    rw [get?_routes_release] at hr'
    split at hr'
    · simp at hr'
    · rename_i hnot
      exact ⟨hnot, hr'⟩
  obtain rfl := Except.ok.inj ho
  refine hset.claim ?_ ?_ ?_ honce
  · intro k hk
    rw [hsettings]
    exact h.booked.turnouts.free hreleased.booked.turnouts hroutes fun id hid =>
      mem_holdersOf_iff.mpr (.inl ⟨k, hk, hid⟩)
  · intro k hk
    rw [hsettings]
    exact h.booked.links.free hreleased.booked.links hroutes fun id hid =>
      mem_holdersOf_iff.mpr (.inr (.inl ⟨k, hk, hid⟩))
  · intro k hk
    rw [hsettings]
    exact h.booked.ends.free hreleased.booked.ends hroutes fun id hid =>
      mem_holdersOf_iff.mpr (.inr (.inr ⟨k, hk, hid⟩))

/-! ## The other calls -/

theorem Sound.setTurnout (h : Sound l s) {id : NodeId} {state : TurnoutState} {c : Components}
    {s' : Interlocking} (hs : s.setTurnout id state = .ok (c, s')) : Sound l s' := by
  unfold Interlocking.setTurnout at hs
  split at hs
  · obtain ⟨-, rfl⟩ := Prod.mk.inj (Except.ok.inj hs)
    exact (h.release _).withLayout rfl fun hd => hd
  · simp at hs

theorem Sound.clearRoute (h : Sound l s) {id : RouteId} {c : Components} {s' : Interlocking}
    (hs : s.clearRoute id = .ok (c, s')) : Sound l s' := by
  unfold Interlocking.clearRoute at hs
  split at hs
  · have hrelease := h.release [id]
    rwa [Except.ok.inj hs] at hrelease
  · simp at hs

theorem Sound.moveNode (h : Sound l s) {id : NodeId} {c : Coordinate} {s' : Interlocking}
    (hs : s.moveNode id c = .ok s') : Sound l s' := by
  unfold Interlocking.moveNode at hs
  simp only at hs
  split at hs
  · obtain rfl := Except.ok.inj hs
    exact h.withLayout rfl fun hd => hd
  · split at hs
    · obtain rfl := Except.ok.inj hs
      exact h.withLayout rfl fun hd =>
        hd.modify id (fun d => { d with coordinate := c }) fun _ => rfl
    · simp at hs

/-! ## Any calls -/

/-- Every call keeps the invariant. -/
theorem Sound.after (h : Sound l s) (call : Call) : Sound l (s.after call) := by
  cases call with
  | setRoute start finish =>
    simp only [Interlocking.after]
    split
    · rename_i ho
      exact h.setRoute ho
    · exact h
  | setTurnout id state =>
    simp only [Interlocking.after]
    split
    · rename_i hs
      exact h.setTurnout hs
    · exact h
  | clearRoute id =>
    simp only [Interlocking.after]
    split
    · rename_i hs
      exact h.clearRoute hs
    · exact h
  | moveNode id c =>
    simp only [Interlocking.after]
    split
    · rename_i hs
      exact h.moveNode hs
    · exact h

theorem Sound.afterAll (h : Sound l s) (calls : List Call) : Sound l (s.afterAll calls) := by
  induction calls generalizing s with
  | nil => exact h
  | cons call calls ih => exact ih (h.after call)

/-! ## What clients are shown -/

/-- What is locked is listed route by route. -/
theorem locked_eq (s : Interlocking) :
    s.locked = ⟨s.routes.values.flatMap (·.components.destinations),
      s.routes.values.flatMap (·.components.turnouts),
      s.routes.values.flatMap (·.components.links)⟩ := by
  suffices h : ∀ (routes : List Route) (held : Components),
      routes.foldl (fun held r => held.append r.components) held =
        held.append ⟨routes.flatMap (·.components.destinations),
          routes.flatMap (·.components.turnouts), routes.flatMap (·.components.links)⟩ by
    rw [locked, h]
    simp [Components.append, Components.empty]
  intro routes
  induction routes with
  | nil => simp [Components.append]
  | cons r routes ih =>
    intro held
    rw [List.foldl_cons, ih]
    simp [Components.append]

end Sound

/-- What is shown as locked is what the tables hold. -/
structure ShowsHeld (s : Interlocking) : Prop where
  turnouts : ∀ k, k ∈ s.view.locked.turnouts ↔ k ∈ s.turnoutHolders.keys
  links : ∀ k, k ∈ s.view.locked.links ↔ k ∈ s.linkHolders.keys
  ends : ∀ k, k ∈ s.view.locked.destinations ↔ k ∈ s.endHolders.keys

/-- What is shown as locked is what the tables hold, each component once. -/
structure ShowsHeldOnce (s : Interlocking) : Prop where
  turnouts : s.view.locked.turnouts.Perm s.turnoutHolders.keys
  links : s.view.locked.links.Perm s.linkHolders.keys
  ends : s.view.locked.destinations.Perm s.endHolders.keys

theorem Sound.showsHeld {l : Layout} {s : Interlocking} (h : Sound l s) : s.ShowsHeld := by
  have hvalues := fun r => h.ordered.routes.mem_values_iff (a := r)
  refine ⟨?_, ?_, ?_⟩
  · intro k
    rw [h.booked.turnouts.mem_keys_iff, view, locked_eq, List.mem_flatMap]
    simp only [hvalues]
    tauto
  · intro k
    rw [h.booked.links.mem_keys_iff, view, locked_eq, List.mem_flatMap]
    simp only [hvalues]
    tauto
  · intro k
    rw [h.booked.ends.mem_keys_iff, view, locked_eq, List.mem_flatMap]
    simp only [hvalues]
    tauto

theorem Sound.showsHeldOnce {l : Layout} {s : Interlocking} (h : Sound l s) (hl : l.Keyed) :
    s.ShowsHeldOnce := by
  refine ⟨?_, ?_, ?_⟩
  · rw [view, locked_eq]
    exact h.booked.turnouts.perm_keys h.ordered.turnouts h.ordered.routes fun id r hr =>
      (h.once hl id r hr).turnouts
  · rw [view, locked_eq]
    exact h.booked.links.perm_keys h.ordered.links h.ordered.routes fun id r hr =>
      (h.once hl id r hr).links
  · rw [view, locked_eq]
    exact h.booked.ends.perm_keys h.ordered.ends h.ordered.routes fun id r hr =>
      (h.once hl id r hr).destinations

/-- Everything that is held is accounted for: by the tables, by the numbers in use and in
what clients are shown. -/
structure Accounted (l : Layout) (s : Interlocking) : Prop where
  booked : s.Booked
  /-- No component belongs to two routes. -/
  apart : ∀ id id' r r', s.routes.get? id = some r → s.routes.get? id' = some r' → id ≠ id' →
    r.components.Apart r'.components
  shown : s.ShowsHeld
  shownOnce : l.Keyed → s.ShowsHeldOnce

/-- After any calls, succeeded or refused, everything that is held is accounted for. -/
theorem accounted_afterAll (l : Layout) (calls : List Call) :
    Accounted l ((ofLayout l).afterAll calls) := by
  have h := (sound_ofLayout l).afterAll calls
  refine ⟨h.booked, fun id id' r r' hr hr' hne => ⟨?_, ?_, ?_⟩, h.showsHeld, h.showsHeldOnce⟩
  · exact fun k hk hk' => hne (h.booked.ends.unique hr hr' hk hk')
  · exact fun k hk hk' => hne (h.booked.turnouts.unique hr hr' hk hk')
  · exact fun k hk hk' => hne (h.booked.links.unique hr hr' hk hk')

end Interlocking

end Signalbox
