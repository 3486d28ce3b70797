import Signalbox.Proofs.Layout.Interlocking

/-
  Signalbox/Proofs/Layout/Variation.lean --- what calls make of a layout.

  A call puts turnouts into other states and nodes into other places.  After some writes
  a turnout has the state of the last one that is about it, or the one it had.  The track stays
  as it is: the same nodes under the same ids, each turnout with the same legs, and the
  same links.  So what a path needs of the layout is the same after any calls.
-/

set_option autoImplicit false

namespace Signalbox

/-! ## Turnouts that are put into states -/

/-- The state of a turnout after some writes. -/
def written (writes : List Setting) (id : NodeId) (before : Option TurnoutState) :
    Option TurnoutState :=
  writes.foldl (fun state s => if s.turnout = id then some s.state else state) before

section Written

variable {writes : List Setting} {id : NodeId} {before : Option TurnoutState}

theorem written_cons (s : Setting) (writes : List Setting) (id : NodeId)
    (before : Option TurnoutState) : written (s :: writes) id before =
      written writes id (if s.turnout = id then some s.state else before) := rfl

theorem written_append (left right : List Setting) (id : NodeId) (before : Option TurnoutState) :
    written (left ++ right) id before = written right id (written left id before) :=
  List.foldl_append

/-- Writes about other turnouts change nothing. -/
theorem written_of_not_mem (h : id ∉ writes.map (·.turnout)) :
    written writes id before = before := by
  induction writes generalizing before with
  | nil => rfl
  | cons s writes ih =>
    rw [List.map_cons, List.mem_cons, not_or] at h
    rw [written_cons, if_neg (Ne.symm h.1), ih h.2]

/-- Writes of one state leave that state if there is one, or if it was the state before. -/
theorem written_of_forall {state : TurnoutState}
    (hall : ∀ s ∈ writes, s.turnout = id → s.state = state)
    (hsome : id ∈ writes.map (·.turnout) ∨ before = some state) :
    written writes id before = some state := by
  induction writes generalizing before with
  | nil => exact hsome.resolve_left (by simp)
  | cons s writes ih =>
    rw [written_cons]
    refine ih (fun s' hs' => hall s' (List.mem_cons_of_mem _ hs')) ?_
    split
    · rename_i hid
      exact .inr (congrArg some (hall s List.mem_cons_self hid))
    · rename_i hid
      rcases hsome with hmem | hbefore
      · exact .inl ((List.mem_cons.mp hmem).resolve_left (Ne.symm hid))
      · exact .inr hbefore

/-- With one write for each turnout, each has the state of its write. -/
theorem written_of_mem {s : Setting} (honce : (writes.map (·.turnout)).Nodup) (hs : s ∈ writes) :
    written writes s.turnout before = some s.state := by
  apply written_of_forall
  · intro s' hs' hid
    rw [List.inj_on_of_nodup_map honce hs' hs hid]
  · exact .inl (List.mem_map_of_mem hs)

end Written

namespace Interlocking

theorem turnoutState?_moveTurnout (s : Interlocking) (id id' : NodeId) (state : TurnoutState) :
    (s.moveTurnout id state).turnoutState? id' =
      if id = id' then (s.turnoutState? id').map fun _ => state else s.turnoutState? id' := by
  simp only [turnoutState?, moveTurnout, Table.get?_modify]
  split
  · rw [Option.map_map, Option.map_map]
    rfl
  · rfl

/-- A route writes its settings to the turnouts that there are. -/
theorem turnoutState?_applySettings {s : Interlocking} {id : NodeId}
    (hknown : (s.turnoutState? id).isSome = true) (settings : List Setting) :
    (s.applySettings settings).2.turnoutState? id = written settings id (s.turnoutState? id) := by
  induction settings generalizing s with
  | nil => rfl
  | cons wanted rest ih =>
    rw [written_cons]
    unfold applySettings
    split
    · rename_i hnone
      rw [if_neg, ih hknown]
      rintro rfl
      simp [hnone] at hknown
    · rename_i state hstate
      split
      · rename_i hsame
        rw [ih hknown]
        split
        · rename_i hid
          rw [← hid, hstate, hsame]
        · rfl
      · have hmoved := s.turnoutState?_moveTurnout wanted.turnout id wanted.state
        split at hmoved
        · rename_i hid
          subst hid
          rw [hstate, Option.map_some] at hmoved
          rw [ih (by rw [hmoved]; rfl), hmoved, if_pos rfl]
        · rename_i hid
          rw [ih (by rwa [hmoved]), hmoved, if_neg hid]

end Interlocking

/-! ## Layouts that keep their track -/

/-- The tables of turnouts and destinations are in order. -/
structure Layout.InOrder (l : Layout) : Prop where
  turnouts : l.turnouts.Ascending
  destinations : l.destinations.Ascending

theorem Layout.inOrder_ofParts (nodes : List Node) (links : List Link) :
    (Layout.ofParts nodes links).InOrder :=
  ⟨(Layout.keyed_ofParts nodes links).turnouts.ascending,
    (Layout.keyed_ofParts nodes links).destinations.ascending⟩

/-- What changes of turnouts and of destinations make of a layout.  A change leaves a turnout
its id and its legs, and a destination its id. -/
inductive Layout.Varies (l : Layout) : Layout → Prop
  | refl : Varies l l
  | turnout {l' : Layout} (h : Varies l l') (id : NodeId) (change : Turnout → Turnout)
      (same : ∀ t, (change t).vertex = t.vertex) :
      Varies l { l' with turnouts := l'.turnouts.modify id change }
  | destination {l' : Layout} (h : Varies l l') (id : NodeId)
      (change : Destination → Destination) (same : ∀ d, (change d).vertex = d.vertex) :
      Varies l { l' with destinations := l'.destinations.modify id change }

namespace Layout

variable {l l' l'' : Layout}

theorem Varies.trans (h : l.Varies l') (h' : l'.Varies l'') : l.Varies l'' := by
  induction h' with
  | refl => exact h
  | turnout _ id change same ih => exact ih.turnout id change same
  | destination _ id change same ih => exact ih.destination id change same

theorem InOrder.varies (h : l.InOrder) (varies : l.Varies l') : l'.InOrder := by
  induction varies with
  | refl => exact h
  | turnout _ id change _ ih => exact ⟨ih.turnouts.modify id change, ih.destinations⟩
  | destination _ id change _ ih => exact ⟨ih.turnouts, ih.destinations.modify id change⟩

/-- Parts stay under their own ids. -/
theorem Keyed.varies (h : l.Keyed) (varies : l.Varies l') : l'.Keyed := by
  induction varies with
  | refl => exact h
  | turnout _ id change same ih =>
    exact ⟨ih.turnouts.modify id change fun t => congrArg Vertex.id (same t), ih.destinations,
      ih.links⟩
  | destination _ id change same ih =>
    exact ⟨ih.turnouts, ih.destinations.modify id change fun d => congrArg Vertex.id (same d),
      ih.links⟩

theorem Varies.links (h : l.Varies l') : l'.links = l.links := by
  induction h with
  | refl => rfl
  | turnout _ _ _ _ ih => exact ih
  | destination _ _ _ _ ih => exact ih

/-- A turnout keeps its legs. -/
theorem Varies.vertex_turnout (h : l.Varies l') (id : NodeId) :
    (l'.turnouts.get? id).map Turnout.vertex = (l.turnouts.get? id).map Turnout.vertex := by
  induction h with
  | refl => rfl
  | turnout _ id' change same ih =>
    rw [← ih, Table.get?_modify]
    split
    · rw [Option.map_map]
      exact Option.map_congr fun t _ => same t
    · rfl
  | destination _ _ _ _ ih => exact ih

/-- A destination keeps its id. -/
theorem Varies.vertex_destination (h : l.Varies l') (id : NodeId) :
    (l'.destinations.get? id).map Destination.vertex =
      (l.destinations.get? id).map Destination.vertex := by
  induction h with
  | refl => rfl
  | turnout _ _ _ _ ih => exact ih
  | destination _ id' change same ih =>
    rw [← ih, Table.get?_modify]
    split
    · rw [Option.map_map]
      exact Option.map_congr fun d _ => same d
    · rfl

/-- A layout keeps its turnouts. -/
theorem Varies.isSome_turnout (h : l.Varies l') (id : NodeId) :
    (l'.turnouts.get? id).isSome = (l.turnouts.get? id).isSome := by
  have hvertex := congrArg Option.isSome (h.vertex_turnout id)
  simpa using hvertex

/-- A layout keeps its destinations. -/
theorem Varies.isSome_destination (h : l.Varies l') (id : NodeId) :
    (l'.destinations.get? id).isSome = (l.destinations.get? id).isSome := by
  have hvertex := congrArg Option.isSome (h.vertex_destination id)
  simpa using hvertex

/-- A path needs the same state of a turnout between the same nodes. -/
theorem Varies.settingFor (h : l.Varies l') (before node after : NodeId) :
    l'.settingFor before node after = l.settingFor before node after := by
  have hvertex := h.vertex_turnout node
  simp only [Layout.settingFor, Option.bind_eq_bind]
  rw [h.links]
  cases ht : l.turnouts.get? node with
  | none =>
    rw [ht, Option.map_none, Option.map_eq_none_iff] at hvertex
    rw [hvertex]
  | some t =>
    rw [ht, Option.map_some, Option.map_eq_some_iff] at hvertex
    obtain ⟨t', ht', hsame⟩ := hvertex
    simp only [Turnout.vertex, Vertex.mk.injEq, Option.some.injEq, Legs.mk.injEq] at hsame
    obtain ⟨-, hprimary, hsecondary⟩ := hsame
    simp only [ht', Option.bind_some, hprimary, hsecondary]

theorem Varies.settingsAlong (h : l.Varies l') (nodes : List NodeId) :
    l'.settingsAlong nodes = l.settingsAlong nodes := by
  fun_induction Layout.settingsAlong l nodes with
  | case1 before node after rest ih => rw [Layout.settingsAlong, h.settingFor, ih]
  | case2 nodes hshort => rw [Layout.settingsAlong.eq_2 _ _ hshort]

theorem Varies.linksAlong (h : l.Varies l') (g : Graph) (nodes : List NodeId) :
    l'.linksAlong g nodes = l.linksAlong g nodes := by
  fun_induction Layout.linksAlong l g nodes with
  | case1 a b rest ih => rw [Layout.linksAlong, h.links, ih]
  | case2 nodes hshort => rw [Layout.linksAlong.eq_2 _ _ _ hshort]

/-- The graph is built from the same pieces. -/
theorem Varies.pieces (h : l.Varies l') : l'.pieces = l.pieces := by
  induction h with
  | refl => rfl
  | @turnout l' _ id change same ih =>
    have hsame := l'.turnouts.map_values_modify id (f := fun t => Graph.Piece.vertex t.vertex)
      fun t => congrArg Graph.Piece.vertex (same t)
    rw [← ih, Layout.pieces, Layout.pieces, hsame]
  | @destination l' _ id change same ih =>
    have hsame := l'.destinations.map_values_modify id (f := fun d => Graph.Piece.vertex d.vertex)
      fun d => congrArg Graph.Piece.vertex (same d)
    rw [← ih, Layout.pieces, Layout.pieces, hsame]

/-- A layout keeps its graph. -/
theorem Varies.graph (h : l.Varies l') : l'.graph = l.graph := by
  rw [graph_eq_ofPieces, graph_eq_ofPieces, h.pieces]

end Layout

namespace Interlocking

variable {s s' : Interlocking}

theorem varies_moveTurnout (s : Interlocking) (id : NodeId) (state : TurnoutState) :
    s.layout.Varies (s.moveTurnout id state).layout := .turnout .refl _ _ fun _ => rfl

theorem varies_release (s : Interlocking) (ids : List RouteId) :
    s.layout.Varies (s.release ids).2.layout := by
  rw [layout_release]
  exact .refl

theorem varies_applySettings (s : Interlocking) (settings : List Setting) :
    s.layout.Varies (s.applySettings settings).2.layout := by
  induction settings generalizing s with
  | nil => exact .refl
  | cons wanted rest ih =>
    unfold applySettings
    split
    · exact ih s
    · split
      · exact ih s
      · exact (varies_moveTurnout s wanted.turnout wanted.state).trans (ih _)

theorem varies_setTurnout {id : NodeId} {state : TurnoutState} {released : Components}
    (hset : s.setTurnout id state = .ok (released, s')) : s.layout.Varies s'.layout := by
  unfold setTurnout at hset
  split at hset
  · obtain ⟨-, rfl⟩ := Prod.mk.inj (Except.ok.inj hset)
    exact (varies_release s _).trans (varies_moveTurnout _ id state)
  · simp at hset

/-- What setting a route does, from the interlocking before it. -/
structure Sets (s : Interlocking) (start finish : NodeId) (o : RouteOutcome) : Prop where
  found : s.findRoute start finish = .ok o.route
  released : o.released = (s.release (s.holdersOf o.route.components)).1
  changes : o.changes =
    ((s.release (s.holdersOf o.route.components)).2.applySettings o.route.settings).1
  layout : o.after.layout =
    ((s.release (s.holdersOf o.route.components)).2.applySettings o.route.settings).2.layout
  routes : o.after.routes =
    (s.release (s.holdersOf o.route.components)).2.routes.insert o.id o.route
  number : o.id = (s.release (s.holdersOf o.route.components)).2.ids.allocate.1

theorem sets_of_setRoute {start finish : NodeId} {o : RouteOutcome}
    (hset : s.setRoute start finish = .ok o) : s.Sets start finish o := by
  obtain ⟨r, hr, ho⟩ := Steps.bind_eq_ok.mp hset
  obtain ⟨turnouts, hsettings⟩ := exists_turnouts_applySettings
    (s.release (s.holdersOf r.components)).2 r.settings
  have hnumber := congrArg (fun after : Interlocking => after.ids.allocate.1) hsettings
  obtain rfl := Except.ok.inj ho
  refine ⟨hr, rfl, rfl, rfl, ?_, hnumber⟩
  simp only [claim, hsettings]

theorem varies_setRoute {start finish : NodeId} {o : RouteOutcome}
    (hset : s.setRoute start finish = .ok o) : s.layout.Varies o.after.layout := by
  rw [(sets_of_setRoute hset).layout]
  exact (varies_release s _).trans (varies_applySettings _ o.route.settings)

theorem varies_clearRoute {id : RouteId} {released : Components}
    (hclear : s.clearRoute id = .ok (released, s')) : s.layout.Varies s'.layout := by
  unfold clearRoute at hclear
  split at hclear
  · have hrelease := varies_release s [id]
    rwa [Except.ok.inj hclear] at hrelease
  · simp at hclear

theorem varies_moveNode {id : NodeId} {place : Coordinate}
    (hmove : s.moveNode id place = .ok s') : s.layout.Varies s'.layout := by
  unfold moveNode at hmove
  simp only at hmove
  split at hmove
  · obtain rfl := Except.ok.inj hmove
    exact .turnout .refl _ _ fun _ => rfl
  · split at hmove
    · obtain rfl := Except.ok.inj hmove
      exact .destination .refl _ _ fun _ => rfl
    · simp at hmove

/-- Every call leaves the track as it is. -/
theorem varies_after (s : Interlocking) (call : Call) : s.layout.Varies (s.after call).layout := by
  cases call with
  | setRoute start finish =>
    simp only [after]
    split
    · rename_i ho
      exact varies_setRoute ho
    · exact .refl
  | setTurnout id state =>
    simp only [after]
    split
    · rename_i hs
      exact varies_setTurnout hs
    · exact .refl
  | clearRoute id =>
    simp only [after]
    split
    · rename_i hs
      exact varies_clearRoute hs
    · exact .refl
  | moveNode id c =>
    simp only [after]
    split
    · rename_i hs
      exact varies_moveNode hs
    · exact .refl

theorem varies_afterAll (s : Interlocking) (calls : List Call) :
    s.layout.Varies (s.afterAll calls).layout := by
  induction calls generalizing s with
  | nil => exact .refl
  | cons call calls ih => exact (s.varies_after call).trans (ih _)

end Interlocking

end Signalbox
