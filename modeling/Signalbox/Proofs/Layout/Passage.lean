import Mathlib.Data.List.Infix
import Signalbox.Proofs.Layout.Variation

/-
  Signalbox/Proofs/Layout/Passage.lean --- how a path passes its nodes.

  A node of a path is one of its ends, or the path runs through it from one neighbour
  to the other.  The states that a path needs are those of turnouts that it runs
  through, and its links join neighbours.

  A route that is set is laid along the path between its ends, and it stays so as long
  as it is set: the graph is never changed, and neither are the legs of turnouts.
-/

set_option autoImplicit false

namespace Signalbox

/-! ## Neighbours -/

/-- The nodes run through a node, from one neighbour to the other. -/
def RunsThrough (nodes : List NodeId) (before node after : NodeId) : Prop :=
  [before, node, after] <:+: nodes

section Neighbours

variable {nodes : List NodeId} {a b before node after : NodeId}

theorem runsThrough_cons_iff {first second third : NodeId} {rest : List NodeId} :
    RunsThrough (first :: second :: third :: rest) before node after ↔
      (before = first ∧ node = second ∧ after = third) ∨
        RunsThrough (second :: third :: rest) before node after := by
  rw [RunsThrough, List.infix_cons_iff]
  simp [RunsThrough]

/-- A node on a path is one of its ends, or the path runs through it. -/
theorem end_or_runsThrough (h : node ∈ nodes) :
    nodes.head? = some node ∨ nodes.getLast? = some node ∨
      ∃ before after, RunsThrough nodes before node after := by
  obtain ⟨front, back, rfl⟩ := List.append_of_mem h
  cases back with
  | nil => exact .inr (.inl (by simp))
  | cons after back =>
    rcases List.eq_nil_or_concat front with rfl | ⟨front, before, rfl⟩
    · exact .inl rfl
    · exact .inr (.inr ⟨before, after, front, back, by simp⟩)

/-- A path that visits no node twice goes on from a node to one other. -/
theorem next_unique (hn : nodes.Nodup) (h : [node, a] <:+: nodes) (h' : [node, b] <:+: nodes) :
    a = b := by
  induction nodes with
  | nil => simp at h
  | cons first rest ih =>
    obtain ⟨hfirst, hrest⟩ := List.nodup_cons.mp hn
    have hnot {c : NodeId} (hc : [node, c] <:+: rest) : node ≠ first := by
      rintro rfl
      exact hfirst (List.IsInfix.subset hc (by simp))
    rw [List.infix_cons_iff, List.cons_prefix_cons] at h h'
    rcases h with ⟨hnode, hnext⟩ | h
    · rcases h' with ⟨-, hnext'⟩ | h'
      · cases rest with
        | nil => simp at hnext
        | cons second rest =>
          simp only [List.cons_prefix_cons, List.nil_prefix, and_true] at hnext hnext'
          exact hnext.trans hnext'.symm
      · exact absurd hnode (hnot h')
    · rcases h' with ⟨hnode, -⟩ | h'
      · exact absurd hnode (hnot h)
      · exact ih hrest h h'

/-- It comes to a node from one other. -/
theorem previous_unique (hn : nodes.Nodup) (h : [a, node] <:+: nodes) (h' : [b, node] <:+: nodes) :
    a = b :=
  next_unique (List.nodup_reverse.mpr hn) (List.reverse_infix.mpr h) (List.reverse_infix.mpr h')

theorem RunsThrough.arrives (h : RunsThrough nodes before node after) : [before, node] <:+: nodes :=
  List.IsInfix.trans ⟨[], [after], rfl⟩ h

theorem RunsThrough.leaves (h : RunsThrough nodes before node after) : [node, after] <:+: nodes :=
  List.IsInfix.trans ⟨[before], [], rfl⟩ h

end Neighbours

/-! ## States and links along a path -/

namespace Layout

variable {l : Layout} {g : Graph} {nodes : List NodeId}

/-- The states that a path needs are those of the turnouts that it runs through. -/
theorem mem_settingsAlong_iff {x : Setting} :
    x ∈ l.settingsAlong nodes ↔
      ∃ before after, RunsThrough nodes before x.turnout after ∧
        l.settingFor before x.turnout after = some x := by
  fun_induction settingsAlong l nodes with
  | case1 before node after rest ih =>
    rw [List.mem_append, Option.mem_toList, ih]
    simp only [runsThrough_cons_iff]
    constructor
    · rintro (hx | ⟨b, a, hthrough, hx⟩)
      · obtain rfl := turnout_of_settingFor hx
        exact ⟨before, after, .inl ⟨rfl, rfl, rfl⟩, hx⟩
      · exact ⟨b, a, .inr hthrough, hx⟩
    · rintro ⟨b, a, ⟨rfl, hnode, rfl⟩ | hthrough, hx⟩
      · exact .inl (hnode ▸ hx)
      · exact .inr ⟨b, a, hthrough, hx⟩
  | case2 nodes hshort =>
    simp only [List.not_mem_nil, false_iff, not_exists, not_and]
    intro b a hthrough
    -- A path that runs through a node has three nodes.
    obtain ⟨front, back, rfl⟩ := hthrough
    cases front with
    | nil => exact absurd rfl (hshort b x.turnout a back)
    | cons first front =>
      cases front with
      | nil => exact absurd rfl (hshort first b x.turnout (a :: back))
      | cons second front =>
        cases front with
        | nil => exact absurd rfl (hshort first second b (x.turnout :: a :: back))
        | cons third front => exact absurd rfl (hshort first second third _)

/-- The links of a path join its neighbours. -/
theorem mem_linksAlong_iff {k : Link} :
    k ∈ l.linksAlong g nodes ↔
      ∃ a b, [a, b] <:+: nodes ∧ ((g.edge? a b).bind fun e => l.links.get? e.link) = some k := by
  fun_induction linksAlong l g nodes with
  | case1 a b rest ih =>
    rw [List.mem_append, Option.mem_toList, ih]
    simp only [List.infix_cons_iff (a := a), List.cons_prefix_cons, List.nil_prefix, and_true]
    constructor
    · rintro (hk | ⟨c, d, hnext, hk⟩)
      · exact ⟨a, b, .inl ⟨rfl, rfl⟩, hk⟩
      · exact ⟨c, d, .inr hnext, hk⟩
    · rintro ⟨c, d, ⟨rfl, rfl⟩ | hnext, hk⟩
      · exact .inl hk
      · exact .inr ⟨c, d, hnext, hk⟩
  | case2 nodes hshort =>
    simp only [List.not_mem_nil, false_iff, not_exists, not_and]
    intro a b hnext
    obtain ⟨front, back, rfl⟩ := hnext
    cases front with
    | nil => exact absurd rfl (hshort a b back)
    | cons first front =>
      cases front with
      | nil => exact absurd rfl (hshort first a (b :: back))
      | cons second front => exact absurd rfl (hshort first second _)

theorem isSome_of_endOf {id : NodeId} {d : Destination} (h : l.endOf id = .ok d) :
    (l.destinations.get? id).isSome = true := by
  unfold endOf at h
  split at h
  · rename_i hget
    simp [hget]
  · simp at h

end Layout

/-! ## Routes that are laid along their paths -/

/-- A route is laid along the nodes of a path through a layout. -/
structure Route.LaidAlong (r : Route) (l : Layout) (nodes : List NodeId) : Prop where
  start : nodes.head? = some r.start.id
  finish : nodes.getLast? = some r.finish.id
  known : (l.destinations.get? r.start.id).isSome = true ∧
    (l.destinations.get? r.finish.id).isSome = true
  settings : r.settings = l.settingsAlong nodes
  links : r.links = l.linksAlong l.graph nodes
  once : nodes.Nodup

/-- A route is laid along the path that is found between its ends. -/
def Route.IsLaid (r : Route) (l : Layout) : Prop :=
  ∃ p, l.graph.findPath r.start.id r.finish.id = .ok p ∧ r.LaidAlong l p.nodes

namespace Interlocking

variable {l : Layout} {s : Interlocking}

/-- A route that is found is laid along its path. -/
theorem Sound.laid_of_findRoute (h : Sound l s) (hl : l.Keyed) (hvaries : l.Varies s.layout)
    {start finish : NodeId} {r : Route} (hr : s.findRoute start finish = .ok r) :
    r.start.id = start ∧ r.finish.id = finish ∧
      ∃ p, l.graph.findPath start finish = .ok p ∧ r.LaidAlong l p.nodes := by
  obtain ⟨p, hpath, hroute⟩ := Steps.bind_eq_ok.mp hr
  rw [h.base.graph] at hpath hroute
  obtain ⟨es, hlegal, hnodes, -⟩ := Graph.legal_of_findPath l.graph_sound hpath
  have hkeyed := (hl.varies hvaries).destinations
  have hends : (start :: es.map (·.vertex)).getLast? = some finish := by
    cases hlast : es.getLast? with
    | none =>
      rw [List.getLast?_eq_none_iff] at hlast
      subst hlast
      exact congrArg some hlegal.walk
    | some e => simp [List.getLast?_cons, hlast, hlegal.walk.vertex_last hlast]
  have honce := hlegal.once
  rw [← hnodes, Graph.walkNodes] at hroute
  obtain ⟨first, last, hfirst, hlast, rfl⟩ := Layout.exists_ends_of_routeAlong hroute
  have hstart := Layout.id_of_endOf hkeyed hfirst
  have hfinish := Layout.id_of_endOf hkeyed hlast
  rw [List.getLast?_cons, Option.some.injEq] at hends
  rw [List.getLastD_eq_getLast?, hends] at hfinish
  have hknown {id : NodeId} {d : Destination} (hd : s.layout.endOf id = .ok d) :
      (l.destinations.get? d.id).isSome = true := by
    rw [Layout.id_of_endOf hkeyed hd, ← hvaries.isSome_destination]
    exact Layout.isSome_of_endOf hd
  refine ⟨hstart, hfinish, p, hpath, ?_, ?_, ⟨hknown hfirst, hknown hlast⟩, ?_, ?_,
    hnodes ▸ honce⟩
  · rw [← hnodes, hstart]
    rfl
  · rw [← hnodes, Graph.walkNodes, List.getLast?_cons, hends, hfinish]
  · rw [hvaries.settingsAlong, ← hnodes, Graph.walkNodes]
  · rw [hvaries.linksAlong, ← hnodes, Graph.walkNodes]

/-- A route that is set after a call was set before it, or is the one that the call found. -/
theorem route_after {call : Call} {id : RouteId} {r : Route}
    (hr : (s.after call).routes.get? id = some r) :
    s.routes.get? id = some r ∨ ∃ start finish, s.findRoute start finish = .ok r := by
  have hreleased {ids : List RouteId} (hr : (s.release ids).2.routes.get? id = some r) :
      s.routes.get? id = some r := by
    rw [get?_routes_release] at hr
    split at hr
    · simp at hr
    · exact hr
  cases call with
  | setRoute start finish =>
    simp only [after] at hr
    split at hr
    · rename_i o ho
      have hsets := sets_of_setRoute ho
      rw [hsets.routes, Table.get?_insert] at hr
      split at hr
      · obtain rfl := Option.some.inj hr
        exact .inr ⟨start, finish, hsets.found⟩
      · exact .inl (hreleased hr)
    · exact .inl hr
  | setTurnout id' state =>
    simp only [after, setTurnout] at hr
    split at hr
    · rename_i hs
      split at hs
      · obtain ⟨-, rfl⟩ := Prod.mk.inj (Except.ok.inj hs)
        exact .inl (hreleased hr)
      · simp at hs
    · exact .inl hr
  | clearRoute id' =>
    simp only [after, clearRoute] at hr
    split at hr
    · rename_i hs
      split at hs
      · rw [Except.ok.injEq] at hs
        exact .inl (hreleased (by rw [hs]; exact hr))
      · simp at hs
    · exact .inl hr
  | moveNode id' c =>
    simp only [after, moveNode] at hr
    split at hr
    · rename_i hs
      split at hs
      · obtain rfl := Except.ok.inj hs
        exact .inl hr
      · split at hs
        · obtain rfl := Except.ok.inj hs
          exact .inl hr
        · simp at hs
    · exact .inl hr

/-- After any calls, each route that is set is laid along the path between its ends. -/
theorem isLaid_of_afterAll (hl : l.Keyed) (calls : List Call) {id : RouteId} {r : Route}
    (hr : ((ofLayout l).afterAll calls).routes.get? id = some r) : r.IsLaid l := by
  suffices h : ∀ s : Interlocking, Sound l s → l.Varies s.layout →
      (∀ id r, s.routes.get? id = some r → r.IsLaid l) →
      ∀ id r, (s.afterAll calls).routes.get? id = some r → r.IsLaid l by
    refine h _ (sound_ofLayout l) .refl (fun id r hr => ?_) id r hr
    simp [ofLayout, Table.get?_empty] at hr
  clear hr
  induction calls with
  | nil => exact fun s _ _ h => h
  | cons call calls ih =>
    intro s hs hvaries hlaid
    refine ih _ (hs.after call) (hvaries.trans (s.varies_after call)) fun id r hr => ?_
    rcases route_after hr with hr | ⟨start, finish, hfound⟩
    · exact hlaid id r hr
    · obtain ⟨rfl, rfl, hpath⟩ := hs.laid_of_findRoute hl hvaries hfound
      exact hpath

end Interlocking

end Signalbox
