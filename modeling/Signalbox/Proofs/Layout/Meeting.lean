import Signalbox.Proofs.Layout.Passage

/-
  Signalbox/Proofs/Layout/Meeting.lean --- where two routes that are set may meet.

  No component belongs to two routes.  The nodes of a path are not all components of
  its route, though: a destination that it only runs through is none, and neither is a
  turnout that needs no state.  Those are the nodes where the paths of two routes may
  meet, besides an id that is a turnout's and a destination's at once.
-/

set_option autoImplicit false

namespace Signalbox

/-! ## The nodes of a path -/

namespace Layout

variable {l : Layout} {before node after : NodeId}

/-- A path needs no state of a node between two neighbours: the node is no turnout, or its legs
are not links of the layout, or neither leg ends at a neighbour. -/
def NeedsNoState (l : Layout) (before node after : NodeId) : Prop :=
  ∀ t primary secondary, l.turnouts.get? node = some t → l.links.get? t.primary = some primary →
    l.links.get? t.secondary = some secondary →
      ∀ k ∈ [primary, secondary], k.touches before = false ∧ k.touches after = false

theorem settingFor_eq_none_iff :
    l.settingFor before node after = none ↔ l.NeedsNoState before node after := by
  simp only [settingFor, Option.bind_eq_bind]
  constructor
  · intro h t primary secondary ht hprimary hsecondary k hk
    simp only [ht, hprimary, hsecondary, Option.bind_some] at h
    split at h
    · simp at h
    · split at h
      · simp at h
      · simp only [List.mem_cons, List.not_mem_nil, or_false] at hk
        rcases hk with rfl | rfl <;> simp_all
  · intro h
    rw [Option.bind_eq_none_iff]
    intro t ht
    rw [Option.bind_eq_none_iff]
    intro primary hprimary
    rw [Option.bind_eq_none_iff]
    intro secondary hsecondary
    obtain ⟨hbefore, hafter⟩ := h t primary secondary ht hprimary hsecondary primary (by simp)
    obtain ⟨hbefore', hafter'⟩ := h t primary secondary ht hprimary hsecondary secondary (by simp)
    simp [hbefore, hafter, hbefore', hafter']

theorem isSome_of_settingFor {x : Setting} (h : l.settingFor before node after = some x) :
    (l.turnouts.get? node).isSome = true := by
  obtain ⟨t, ht, -⟩ := Option.bind_eq_some_iff.mp h
  simp [ht]

/-- A path runs through a node of which it needs no state. -/
def RunsFreely (l : Layout) (nodes : List NodeId) (node : NodeId) : Prop :=
  ∃ before after, RunsThrough nodes before node after ∧ l.NeedsNoState before node after

/-- One path ends at a node that another runs through, with an id that a turnout and a
destination have in common. -/
structure EndsInside (l : Layout) (nodes nodes' : List NodeId) (node : NodeId) : Prop where
  ends : nodes.head? = some node ∨ nodes.getLast? = some node
  through : ∃ before after, RunsThrough nodes' before node after
  turnout : (l.turnouts.get? node).isSome = true
  destination : (l.destinations.get? node).isSome = true

/-- Two paths meet at a node only because one of them needs nothing there, or because two parts
have one id. -/
def LetsMeet (l : Layout) (nodes nodes' : List NodeId) (node : NodeId) : Prop :=
  (l.RunsFreely nodes node ∨ l.RunsFreely nodes' node) ∨
    l.EndsInside nodes nodes' node ∨ l.EndsInside nodes' nodes node

end Layout

/-- How a route holds a node of its path, if it does not run through it freely. -/
inductive Route.HoldsAt (r : Route) (l : Layout) (nodes : List NodeId) (node : NodeId) : Prop
  | ends (held : node ∈ r.components.destinations)
      (ends : nodes.head? = some node ∨ nodes.getLast? = some node)
      (destination : (l.destinations.get? node).isSome = true)
  | sets (held : node ∈ r.components.turnouts)
      (through : ∃ before after, RunsThrough nodes before node after)
      (turnout : (l.turnouts.get? node).isSome = true)

/-- A route holds the ends of its path, and the turnouts inside of which it needs a state. -/
theorem Route.LaidAlong.holdsAt {r : Route} {l : Layout} {nodes : List NodeId} {node : NodeId}
    (h : r.LaidAlong l nodes) (hnode : node ∈ nodes) :
    r.HoldsAt l nodes node ∨ l.RunsFreely nodes node := by
  rcases end_or_runsThrough hnode with hfirst | hlast | ⟨before, after, hthrough⟩
  · obtain rfl := Option.some.inj (h.start.symm.trans hfirst)
    exact .inl (.ends (by simp [components]) (.inl hfirst) h.known.1)
  · obtain rfl := Option.some.inj (h.finish.symm.trans hlast)
    exact .inl (.ends (by simp [components]) (.inr hlast) h.known.2)
  · cases hsetting : l.settingFor before node after with
    | none => exact .inr ⟨before, after, hthrough, Layout.settingFor_eq_none_iff.mp hsetting⟩
    | some x =>
      have hturnout := Layout.turnout_of_settingFor hsetting
      subst hturnout
      have hmem := Layout.mem_settingsAlong_iff.mpr ⟨before, after, hthrough, hsetting⟩
      rw [← h.settings] at hmem
      exact .inl (.sets (List.mem_map_of_mem hmem) ⟨before, after, hthrough⟩
        (Layout.isSome_of_settingFor hsetting))

/-! ## Two routes -/

namespace Interlocking

/-- The path that a route takes. -/
def pathOf (s : Interlocking) (r : Route) : Except LayoutError Path :=
  s.graph.findPath r.start.id r.finish.id

/-- The paths of different routes have no node in common. -/
def PathsApart (s : Interlocking) : Prop :=
  ∀ id id' r r' p p', s.routes.get? id = some r → s.routes.get? id' = some r' → id ≠ id' →
    s.pathOf r = .ok p → s.pathOf r' = .ok p' → p.nodes.Disjoint p'.nodes

/-- The nodes of the path that the route with a number takes, if that route is set. -/
def nodesOf? (s : Interlocking) (id : RouteId) : Option (List NodeId) :=
  (s.routes.get? id).bind fun r => (s.pathOf r).toOption.map (·.nodes)

theorem PathsApart.disjoint {s : Interlocking} (h : s.PathsApart) {id id' : RouteId}
    {nodes nodes' : List NodeId} (hnodes : s.nodesOf? id = some nodes)
    (hnodes' : s.nodesOf? id' = some nodes') (hne : id ≠ id') : nodes.Disjoint nodes' := by
  obtain ⟨r, hr, hpath⟩ := Option.bind_eq_some_iff.mp hnodes
  obtain ⟨p, hp, rfl⟩ := Steps.map_toOption_eq_some.mp hpath
  obtain ⟨r', hr', hpath'⟩ := Option.bind_eq_some_iff.mp hnodes'
  obtain ⟨p', hp', rfl⟩ := Steps.map_toOption_eq_some.mp hpath'
  exact h id id' r r' p p' hr hr' hne hp hp'

/-- After any calls, every route that is set has its path, and where two of them meet one runs
freely, or a turnout and a destination have one id: there is no node where both end, and no
turnout of which both need a state. -/
theorem paths_meet_afterAll {l : Layout} (hl : l.Keyed) (calls : List Call) {id id' : RouteId}
    {r r' : Route} (hr : ((ofLayout l).afterAll calls).routes.get? id = some r)
    (hr' : ((ofLayout l).afterAll calls).routes.get? id' = some r') (hne : id ≠ id') :
    ∃ p p', ((ofLayout l).afterAll calls).pathOf r = .ok p ∧
      ((ofLayout l).afterAll calls).pathOf r' = .ok p' ∧
      ∀ node ∈ p.nodes, node ∈ p'.nodes → l.LetsMeet p.nodes p'.nodes node := by
  have hsound := (sound_ofLayout l).afterAll calls
  obtain ⟨p, hpath, hlaid⟩ := isLaid_of_afterAll hl calls hr
  obtain ⟨p', hpath', hlaid'⟩ := isLaid_of_afterAll hl calls hr'
  rw [← hsound.base.graph] at hpath hpath'
  refine ⟨p, p', hpath, hpath', fun node hnode hnode' => ?_⟩
  rcases hlaid.holdsAt hnode with hholds | hfree
  · rcases hlaid'.holdsAt hnode' with hholds' | hfree'
    · cases hholds with
      | ends held ends destination =>
        cases hholds' with
        | ends held' _ _ => exact absurd (hsound.booked.ends.unique hr hr' held held') hne
        | sets _ through turnout => exact .inr (.inl ⟨ends, through, turnout, destination⟩)
      | sets held through turnout =>
        cases hholds' with
        | ends _ ends destination => exact .inr (.inr ⟨ends, through, turnout, destination⟩)
        | sets held' _ _ => exact absurd (hsound.booked.turnouts.unique hr hr' held held') hne
    · exact .inl (.inr hfree')
  · exact .inl (.inl hfree)

/-- A layout with a destination 5 between four others, a turnout 20 with four links besides its
legs, and an id 30 that a turnout and a destination have in common. -/
def crossings : Layout :=
  .ofParts
    ([.turnout ⟨20, "Cross", .origin, .closed, 21, 22⟩,
      .turnout ⟨30, "Double", .origin, .closed, 31, 32⟩] ++
      ([1, 2, 3, 4, 5, 6, 7, 8, 9, 10, 16, 17, 18, 30] : List NodeId).map
        fun id => .destination ⟨id, "", "", .origin⟩)
    ([(11, 1, 5), (12, 5, 2), (13, 3, 5), (14, 5, 4), (21, 6, 20), (22, 20, 7), (23, 8, 20),
      (24, 20, 9), (25, 20, 10), (31, 16, 30), (32, 30, 17), (33, 18, 30)].map
        fun (id, start, finish) => ⟨id, 1, start, finish, []⟩)

/-- Six routes of the layout, two at each of its crossings. -/
def crossingCalls : List Call :=
  [.setRoute 1 2, .setRoute 3 4, .setRoute 8 9, .setRoute 6 10, .setRoute 16 17, .setRoute 18 30]

/-- Two routes that meet at a destination which both run through. -/
theorem paths_meet_crossings :
    ∃ r r', ((ofLayout crossings).afterAll crossingCalls).routes.get? 1 = some r ∧
      ((ofLayout crossings).afterAll crossingCalls).routes.get? 2 = some r' ∧ (1 : RouteId) ≠ 2 ∧
      ∃ p p', ((ofLayout crossings).afterAll crossingCalls).pathOf r = .ok p ∧
        ((ofLayout crossings).afterAll crossingCalls).pathOf r' = .ok p' ∧
        ∀ node ∈ p.nodes, node ∈ p'.nodes → crossings.LetsMeet p.nodes p'.nodes node := by
  obtain ⟨r, hr⟩ : ∃ r, ((ofLayout crossings).afterAll crossingCalls).routes.get? 1 = some r :=
    Option.isSome_iff_exists.mp (by decide +kernel)
  obtain ⟨r', hr'⟩ : ∃ r, ((ofLayout crossings).afterAll crossingCalls).routes.get? 2 = some r :=
    Option.isSome_iff_exists.mp (by decide +kernel)
  exact ⟨r, r', hr, hr', by decide,
    paths_meet_afterAll (Layout.keyed_ofParts _ _) crossingCalls hr hr' (by decide)⟩

/-- All six routes are set at the same time, and their paths meet at a destination that both run
through, at a turnout that one runs through without a state, and at the id of two nodes. -/
theorem not_pathsApart_crossings :
    ((ofLayout crossings).afterAll crossingCalls).routes.keys.map
        ((ofLayout crossings).afterAll crossingCalls).nodesOf? =
      [some [1, 5, 2], some [3, 5, 4], some [8, 20, 9], some [6, 20, 10], some [16, 30, 17],
        some [18, 30]] ∧
      ¬ ((ofLayout crossings).afterAll crossingCalls).PathsApart := by
  have hnodes : ((ofLayout crossings).afterAll crossingCalls).nodesOf? 1 = some [1, 5, 2] := by
    decide +kernel
  have hnodes' : ((ofLayout crossings).afterAll crossingCalls).nodesOf? 2 = some [3, 5, 4] := by
    decide +kernel
  refine ⟨by decide +kernel, fun h => ?_⟩
  exact h.disjoint hnodes hnodes' (by decide) (a := 5) (by simp) (by simp)

end Interlocking

end Signalbox
