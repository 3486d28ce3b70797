import Signalbox.Proofs.Layout.Passage

/-
  Signalbox/Proofs/Layout/Alignment.lean --- whether turnouts stand for the links of a route.

  The state that a route needs of a turnout is told from the neighbours on its path: the
  turnout is closed if its primary link ends at one of them.  The links of the route are
  chosen apart from that, each as the shortest between two neighbours.  The two agree as
  long as no route takes the secondary link of a turnout while the primary one ends at a
  neighbour too, and then only.
-/

set_option autoImplicit false

namespace Signalbox

namespace Layout

variable {l : Layout} {nodes : List NodeId} {before node after : NodeId} {t : Turnout}
  {primary secondary : Link}

/-- Each turnout has two different links for its legs, and both end at it. -/
def IsForked (l : Layout) : Prop :=
  ∀ node t, l.turnouts.get? node = some t → t.primary ≠ t.secondary ∧
    ∀ leg ∈ [t.primary, t.secondary], ∃ k, l.links.get? leg = some k ∧ k.touches node = true

/-- A turnout inside a path that has a link besides its legs. -/
structure HasInside (l : Layout) (nodes : List NodeId) (node : NodeId) (t : Turnout) : Prop where
  turnout : l.turnouts.get? node = some t
  inside : ∃ before after, RunsThrough nodes before node after
  toe : ∃ k ∈ l.links.values, k.touches node = true ∧ k.id ≠ t.primary ∧ k.id ≠ t.secondary

/-- A path takes the secondary link of no turnout inside of it while the primary one ends at a
neighbour. -/
def TellsLegs (l : Layout) (nodes : List NodeId) (links : List LinkId) : Prop :=
  ∀ node t before after primary, l.HasInside nodes node t → RunsThrough nodes before node after →
    l.links.get? t.primary = some primary → t.secondary ∈ links →
      primary.touches before = false ∧ primary.touches after = false

/-- A path needs a turnout closed if its primary link ends at a neighbour. -/
theorem settingFor_closed (ht : l.turnouts.get? node = some t)
    (hprimary : l.links.get? t.primary = some primary)
    (hsecondary : l.links.get? t.secondary = some secondary)
    (htouches : primary.touches before = true ∨ primary.touches after = true) :
    l.settingFor before node after = some ⟨node, .closed⟩ := by
  simp [settingFor, ht, hprimary, hsecondary, htouches]

/-- Else it needs it thrown if its secondary link ends at a neighbour. -/
theorem settingFor_thrown (ht : l.turnouts.get? node = some t)
    (hprimary : l.links.get? t.primary = some primary)
    (hsecondary : l.links.get? t.secondary = some secondary)
    (hapart : primary.touches before = false ∧ primary.touches after = false)
    (htouches : secondary.touches before = true ∨ secondary.touches after = true) :
    l.settingFor before node after = some ⟨node, .thrown⟩ := by
  simp [settingFor, ht, hprimary, hsecondary, hapart, htouches]

end Layout

theorem Link.touches_iff {k : Link} {node : NodeId} :
    k.touches node = true ↔ k.start = node ∨ k.finish = node := by
  simp [touches]

namespace Route.LaidAlong

variable {l : Layout} {r : Route} {nodes : List NodeId} {before node after : NodeId} {k : Link}

/-- A link of a route that ends at a node inside its path leads to a neighbour. -/
theorem touches_neighbour (h : r.LaidAlong l nodes) (hl : l.Keyed)
    (hthrough : RunsThrough nodes before node after) {leg : LinkId} (hk : l.links.get? leg = some k)
    (hnode : k.touches node = true) (hmem : leg ∈ r.links.map (·.id)) :
    k.touches before = true ∨ k.touches after = true := by
  obtain ⟨k', hk', rfl⟩ := List.mem_map.mp hmem
  rw [h.links] at hk'
  obtain ⟨a, b, hnext, hedge⟩ := Layout.mem_linksAlong_iff.mp hk'
  obtain ⟨e, -, hget⟩ := Option.bind_eq_some_iff.mp hedge
  have hends := Layout.ends_of_edge hl.links (fun id e he => Layout.exists_link_of_mem_exitsOf he)
    hedge
  rw [hl.links.id_eq _ _ hget] at hk
  obtain rfl := Option.some.inj (hk.symm.trans hget)
  simp only [Link.touches_iff] at hnode ⊢
  -- The link joins two neighbours on the path, and one of them is the node.
  have hone : node = a ∨ node = b := by
    rcases hends with ⟨rfl, rfl⟩ | ⟨rfl, rfl⟩ <;> tauto
  rcases hone with rfl | rfl
  · obtain rfl := next_unique h.once hnext hthrough.leaves
    tauto
  · obtain rfl := previous_unique h.once hnext hthrough.arrives
    tauto

end Route.LaidAlong

/-! ## What is left of the turnouts -/

/-- A route leaves each turnout inside its path that has a link besides its legs closed if it
takes the primary link, and thrown if it takes the secondary one. -/
def RouteOutcome.Aligns (o : RouteOutcome) (l : Layout) (nodes : List NodeId) : Prop :=
  ∀ node t, l.HasInside nodes node t →
    (t.primary ∈ o.route.links.map (·.id) → o.after.turnoutState? node = some .closed) ∧
    (t.secondary ∈ o.route.links.map (·.id) → o.after.turnoutState? node = some .thrown)

namespace Interlocking

variable {l : Layout} {s : Interlocking} {start finish : NodeId} {o : RouteOutcome}

/-- A route leaves its turnouts in the states that it needs. -/
theorem Sets.turnoutState? (h : s.Sets start finish o) (hvaries : l.Varies s.layout)
    {nodes : List NodeId} (hlaid : o.route.LaidAlong l nodes) {before node after : NodeId}
    {x : Setting} (hthrough : RunsThrough nodes before node after)
    (hx : l.settingFor before node after = some x) :
    o.after.turnoutState? node = some x.state := by
  obtain rfl := Layout.turnout_of_settingFor hx
  have hmem : x ∈ o.route.settings := by
    rw [hlaid.settings]
    exact Layout.mem_settingsAlong_iff.mpr ⟨before, after, hthrough, hx⟩
  have honce : (o.route.settings.map (·.turnout)).Nodup := by
    rw [hlaid.settings]
    exact ((l.settingsAlong_sublist nodes).trans (List.tail_sublist nodes)).nodup hlaid.once
  have hknown : ((s.release (s.holdersOf o.route.components)).2.turnoutState? x.turnout).isSome =
      true := by
    obtain ⟨t, ht, -⟩ := Option.bind_eq_some_iff.mp hx
    rw [Interlocking.turnoutState?, layout_release, Option.isSome_map, hvaries.isSome_turnout, ht]
    rfl
  have hwritten := turnoutState?_applySettings hknown o.route.settings
  rw [written_of_mem honce hmem] at hwritten
  rw [← hwritten, Interlocking.turnoutState?, h.layout, Interlocking.turnoutState?]

/-- In any state that calls lead to, a route that is set leaves the turnouts inside its path as
its links need them exactly when it takes the secondary link of none of them while the primary
one ends at a neighbour. -/
theorem aligns_iff (hl : l.Keyed) (hforked : l.IsForked) (calls : List Call)
    (ho : ((ofLayout l).afterAll calls).setRoute start finish = .ok o) :
    ∃ p, l.graph.findPath start finish = .ok p ∧
      (o.Aligns l p.nodes ↔ l.TellsLegs p.nodes (o.route.links.map (·.id))) := by
  have hsets := sets_of_setRoute ho
  have hvaries := (ofLayout l).varies_afterAll calls
  obtain ⟨-, -, p, hpath, hlaid⟩ :=
    ((sound_ofLayout l).afterAll calls).laid_of_findRoute hl hvaries hsets.found
  refine ⟨p, hpath, fun haligns => ?_, fun htells => ?_⟩
  · intro node t before after primary hinside hthrough hprimary hmem
    obtain ⟨-, hlegs⟩ := hforked node t hinside.turnout
    obtain ⟨secondary, hsecondary, -⟩ := hlegs t.secondary (by simp)
    have hthrown := (haligns node t hinside).2 hmem
    by_contra hnot
    have htouches : primary.touches before = true ∨ primary.touches after = true := by
      simpa [or_iff_not_imp_left] using hnot
    -- The route closes the turnout, while it takes its secondary link.
    have hclosed := hsets.turnoutState? hvaries hlaid hthrough
      (Layout.settingFor_closed hinside.turnout hprimary hsecondary htouches)
    simp [hthrown] at hclosed
  · intro node t hinside
    obtain ⟨before, after, hthrough⟩ := hinside.inside
    obtain ⟨-, hlegs⟩ := hforked node t hinside.turnout
    obtain ⟨primary, hprimary, hends⟩ := hlegs t.primary (by simp)
    obtain ⟨secondary, hsecondary, hends'⟩ := hlegs t.secondary (by simp)
    constructor
    · intro hmem
      have htouches := hlaid.touches_neighbour hl hthrough hprimary hends hmem
      exact hsets.turnoutState? hvaries hlaid hthrough
        (Layout.settingFor_closed hinside.turnout hprimary hsecondary htouches)
    · intro hmem
      have htouches := hlaid.touches_neighbour hl hthrough hsecondary hends' hmem
      have hapart := htells node t before after primary hinside hthrough hprimary hmem
      exact hsets.turnoutState? hvaries hlaid hthrough
        (Layout.settingFor_thrown hinside.turnout hprimary hsecondary hapart htouches)

/-- A turnout 5 between two destinations, with a long primary link and a short link besides it to
the first one, and its secondary link to the other. -/
def siding : Layout :=
  .ofParts
    [.destination ⟨1, "West", "", .origin⟩, .destination ⟨2, "East", "", .origin⟩,
      .turnout ⟨5, "Siding", .origin, .thrown, 10, 11⟩]
    [⟨10, 5, 1, 5, []⟩, ⟨11, 1, 5, 2, []⟩, ⟨12, 1, 1, 5, []⟩]

theorem isForked_siding : siding.IsForked := by
  intro node t ht
  have hmem := Table.mem_of_get? ht
  obtain ⟨rfl, rfl⟩ : node = 5 ∧ t = ⟨5, "Siding", .origin, .thrown, 10, 11⟩ := by
    simpa [siding, Layout.ofParts, Layout.addNode, Layout.empty, Table.empty, Table.insert,
      Table.place] using hmem
  decide

/-- The route between the two destinations takes the short link and the secondary one, and leaves
the turnout closed. -/
theorem exists_setRoute_siding :
    ∃ o, ((ofLayout siding).afterAll []).setRoute 1 2 = .ok o ∧
      (o.route.links.map (·.id), o.after.turnoutState? 5) = ([12, 11], some .closed) :=
  Steps.map_toOption_eq_some.mp (by decide)

/-- The condition for that route. -/
theorem aligns_iff_siding :
    siding.Keyed ∧ siding.IsForked ∧
      ∃ o, ((ofLayout siding).afterAll []).setRoute 1 2 = .ok o ∧
        ∃ p, siding.graph.findPath 1 2 = .ok p ∧
          (o.Aligns siding p.nodes ↔ siding.TellsLegs p.nodes (o.route.links.map (·.id))) := by
  have hkeyed : siding.Keyed := Layout.keyed_ofParts _ _
  obtain ⟨o, ho, -⟩ := exists_setRoute_siding
  exact ⟨hkeyed, isForked_siding, o, ho, aligns_iff hkeyed isForked_siding [] ho⟩

/-- The turnout is left closed, for its primary link, though the route leaves it over its secondary
link and comes to it over a third one. -/
theorem not_aligns_siding :
    siding.Keyed ∧ siding.IsForked ∧
      ∃ o, ((ofLayout siding).afterAll []).setRoute 1 2 = .ok o ∧
        siding.graph.findPath 1 2 = .ok ⟨[1, 5, 2], 2⟩ ∧ ¬ o.Aligns siding [1, 5, 2] := by
  obtain ⟨o, ho, hleft⟩ := exists_setRoute_siding
  obtain ⟨hlinks, hstate⟩ := Prod.mk.inj hleft
  have hinside : siding.HasInside [1, 5, 2] 5 ⟨5, "Siding", .origin, .thrown, 10, 11⟩ :=
    ⟨by decide, ⟨1, 2, List.infix_rfl⟩, ⟨12, 1, 1, 5, []⟩, by decide, by decide⟩
  refine ⟨Layout.keyed_ofParts _ _, isForked_siding, o, ho, by decide, fun haligns => ?_⟩
  have hthrown := (haligns 5 _ hinside).2 (by rw [hlinks]; decide)
  simp [hthrown] at hstate

end Interlocking

end Signalbox
