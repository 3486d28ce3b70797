import Signalbox.Proofs.Layout.Lengths

/-
  Signalbox/Proofs/Layout/Adjacency.lean --- the graph of a layout, exit by exit.

  The links of a layout have different ids.  So a link is put into the graph unless
  one of its ends is no vertex, and the exits of a node are those of the links that
  were put in, in their order.  The two ends of a link are treated alike, hence the
  exits from one node to another and those back are the same links in the same
  order, and the first of the shortest ones is the same link either way.
-/

set_option autoImplicit false

namespace Signalbox

instance (k : Link) (a b : NodeId) : Decidable (k.Joins a b) := inferInstanceAs (Decidable (_ ∨ _))

theorem Link.Joins.symm {k : Link} {a b : NodeId} (h : k.Joins a b) : k.Joins b a :=
  h.elim (fun h => .inr h.symm) fun h => .inl h.symm

/-- The exit that leads to a node, else the same. -/
def Exit.towards (id : NodeId) (e : Exit) : Exit := { e with vertex := id }

namespace Graph

/-! ## The exits of a link -/

/-- The exits that a link makes at a node: towards its end where it starts, towards its start
where it ends, and both if it leads from the node to itself. -/
def exitsAt (id : NodeId) (k : Link) : List Exit :=
  (if k.start = id then [⟨k.finish, k.id, k.length⟩] else []) ++
    (if k.finish = id then [⟨k.start, k.id, k.length⟩] else [])

/-- Whether both ends of a link are vertices. -/
def spans (g : Graph) (k : Link) : Bool := g.hasVertex k.start && g.hasVertex k.finish

theorem spans_iff {g : Graph} {k : Link} :
    g.spans k = true ↔ k.start ∈ g.vertices.keys ∧ k.finish ∈ g.vertices.keys := by
  rw [spans, Bool.and_eq_true, Table.mem_keys_iff, Table.mem_keys_iff]
  exact Iff.rfl

/-- Of two links between the same nodes, both or neither span vertices. -/
theorem spans_eq_of_joins {k k' : Link} {a b : NodeId} (g : Graph) (h : k.Joins a b)
    (h' : k'.Joins a b) : g.spans k = g.spans k' := by
  unfold spans
  rcases h with ⟨rfl, rfl⟩ | ⟨rfl, rfl⟩ <;> rcases h' with ⟨h, h'⟩ | ⟨h, h'⟩
  · rw [h, h']
  · rw [h, h', Bool.and_comm]
  · rw [h, h', Bool.and_comm]
  · rw [h, h']

theorem mem_exitsAt {id : NodeId} {k : Link} {e : Exit} :
    e ∈ exitsAt id k ↔ (k.start = id ∧ e = ⟨k.finish, k.id, k.length⟩) ∨
      (k.finish = id ∧ e = ⟨k.start, k.id, k.length⟩) := by
  unfold exitsAt
  rw [List.mem_append]
  split <;> split <;> simp_all

/-- An exit of a link is of its length and leads to the other end. -/
theorem of_mem_exitsAt {id : NodeId} {k : Link} {e : Exit} (h : e ∈ exitsAt id k) :
    e.link = k.id ∧ e.length = k.length ∧ k.Joins id e.vertex := by
  rcases mem_exitsAt.mp h with ⟨hs, rfl⟩ | ⟨hf, rfl⟩
  · exact ⟨rfl, rfl, .inl ⟨hs, rfl⟩⟩
  · exact ⟨rfl, rfl, .inr ⟨hf, rfl⟩⟩

theorem mem_exitsAt_of_joins {k : Link} {a b : NodeId} (h : k.Joins a b) :
    ⟨b, k.id, k.length⟩ ∈ exitsAt a k := by
  rw [mem_exitsAt]
  rcases h with ⟨hs, rfl⟩ | ⟨hf, rfl⟩
  · exact .inl ⟨hs, rfl⟩
  · exact .inr ⟨hf, rfl⟩

theorem filter_link_exitsAt (id : NodeId) (k : Link) (link : LinkId) :
    (exitsAt id k).filter (·.link = link) = if k.id = link then exitsAt id k else [] := by
  split
  · rename_i hlink
    rw [List.filter_eq_self]
    intro e he
    rw [(of_mem_exitsAt he).1, decide_eq_true hlink]
  · rename_i hlink
    rw [List.filter_eq_nil_iff]
    intro e he
    rw [(of_mem_exitsAt he).1, decide_eq_true_iff]
    exact hlink

/-! ## Adding links -/

theorem exitsOf_addExit (g : Graph) (a id : NodeId) (e : Exit) :
    (g.addExit a e).exitsOf id = g.exitsOf id ++ if a = id then [e] else [] := by
  simp only [addExit, exitsOf, Table.get?_insert]
  split
  · rename_i h
    rw [h, Option.getD_some]
  · rw [List.append_nil]

theorem exitsOf_addLink (g : Graph) (k : Link) (id : NodeId) :
    (g.addLink k).exitsOf id = g.exitsOf id ++ if g.accepts k then exitsAt id k else [] := by
  unfold addLink
  split
  · change ((g.addExit k.start ⟨k.finish, k.id, k.length⟩).addExit k.finish
      ⟨k.start, k.id, k.length⟩).exitsOf id = _
    rw [exitsOf_addExit, exitsOf_addExit, List.append_assoc, exitsAt]
  · rw [List.append_nil]

theorem edgeCount_addLink (g : Graph) (k : Link) :
    (g.addLink k).edgeCount = g.edgeCount + if g.accepts k then 1 else 0 := by
  unfold addLink addExit
  split <;> rfl

/-- Adding a link leaves which links span vertices. -/
theorem spans_addLink (g : Graph) (k : Link) : (g.addLink k).spans = g.spans := by
  funext k'
  simp only [spans, hasVertex, vertices_addLink]

/-- A link whose id is new is accepted if it spans vertices. -/
theorem accepts_eq_spans {g : Graph} {k : Link}
    (hnew : ∀ e ∈ g.exitsOf k.start, e.link ≠ k.id) : g.accepts k = g.spans k := by
  have hnone : (g.exitsOf k.start).any (·.link == k.id) = false := by
    rw [List.any_eq_false]
    intro e he
    simpa using hnew e he
  rw [accepts, spans, hnone, Bool.not_false, Bool.and_true]

/-- A graph with links put in: those that span vertices have made their exits and are counted. -/
structure HasTaken (g : Graph) (links : List Link) (g' : Graph) : Prop where
  vertices : g'.vertices = g.vertices
  exits : ∀ id, g'.exitsOf id = g.exitsOf id ++ (links.filter g.spans).flatMap (exitsAt id)
  count : g'.edgeCount = g.edgeCount + (links.filter g.spans).length

/-- A link with a new id goes in front of those that are put in after it. -/
theorem HasTaken.cons {g g' : Graph} {k : Link} {links : List Link}
    (hnew : ∀ e ∈ g.exitsOf k.start, e.link ≠ k.id) (h : (g.addLink k).HasTaken links g') :
    g.HasTaken (k :: links) g' := by
  obtain ⟨hvertices, hexits, hcount⟩ := h
  rw [spans_addLink] at hexits hcount
  refine ⟨hvertices.trans (vertices_addLink g k), fun id => ?_, ?_⟩
  · rw [hexits, exitsOf_addLink, accepts_eq_spans hnew, List.append_assoc, List.filter_cons]
    split
    · rw [List.flatMap_cons]
    · rw [List.nil_append]
  · rw [hcount, edgeCount_addLink, accepts_eq_spans hnew, List.filter_cons]
    split
    · rw [List.length_cons]
      omega
    · rfl

/-- Links with different ids that are new to the graph are put in one after the other. -/
theorem hasTaken_foldl {links : List Link} {g : Graph} (hdiffer : (links.map (·.id)).Nodup)
    (hnew : ∀ k ∈ links, ∀ id, ∀ e ∈ g.exitsOf id, e.link ≠ k.id) :
    g.HasTaken links (links.foldl addLink g) := by
  induction links generalizing g with
  | nil => exact ⟨rfl, fun id => (List.append_nil _).symm, rfl⟩
  | cons k links ih =>
    obtain ⟨hk, hdiffer⟩ := List.nodup_cons.mp hdiffer
    refine HasTaken.cons (hnew k List.mem_cons_self k.start) (ih hdiffer ?_)
    intro k' hk' id e he
    rw [exitsOf_addLink, List.mem_append] at he
    rcases he with he | he
    · exact hnew k' (List.mem_cons_of_mem _ hk') id e he
    · -- The exits that are new have the id of the link before, which no later link has.
      split at he
      · rw [(of_mem_exitsAt he).1]
        intro hid
        exact hk (List.mem_map.mpr ⟨k', hk', hid.symm⟩)
      · simp at he

/-! ## There and back -/

theorem shorter_map {f : Exit → Exit} (hf : ∀ e, (f e).length = e.length) (e e' : Exit) :
    shorter (f e) (f e') = f (shorter e e') := by
  unfold shorter
  rw [hf, hf, apply_ite f]

/-- Which exit is the shortest depends on the lengths and the order only. -/
theorem shortestOf_map {f : Exit → Exit} (hf : ∀ e, (f e).length = e.length) (es : List Exit) :
    shortestOf (es.map f) = (shortestOf es).map f := by
  cases es with
  | nil => rfl
  | cons first rest =>
    simp only [List.map_cons, shortestOf, Option.map_some, Option.some.injEq]
    induction rest generalizing first with
    | nil => rfl
    | cons next rest ih => rw [List.map_cons, List.foldl_cons, shorter_map hf, ih, List.foldl_cons]

/-- Between two different nodes a link makes one exit at either of them. -/
theorem filter_vertex_exitsAt {a b : NodeId} (hne : a ≠ b) (k : Link) :
    (exitsAt a k).filter (·.vertex == b) =
      if k.Joins a b then [⟨b, k.id, k.length⟩] else [] := by
  split
  · rename_i h
    rcases h with ⟨rfl, rfl⟩ | ⟨rfl, rfl⟩
    · simp [exitsAt, Ne.symm hne]
    · simp [exitsAt, Ne.symm hne]
  · rename_i h
    rw [List.filter_eq_nil_iff]
    intro e he hvertex
    apply h
    rw [← eq_of_beq hvertex]
    exact (of_mem_exitsAt he).2.2

/-- The exits back are those there with the other node at their end. -/
theorem filter_vertex_exitsAt_swap (a b : NodeId) (k : Link) :
    (exitsAt b k).filter (·.vertex == a) =
      ((exitsAt a k).filter (·.vertex == b)).map (Exit.towards a) := by
  by_cases hab : a = b
  · subst hab
    -- What leads back to the node has it at its end already.
    have hsame : ∀ e ∈ (exitsAt a k).filter (·.vertex == a), Exit.towards a e = id e := by
      intro e he
      rw [Exit.towards, ← eq_of_beq (List.mem_filter.mp he).2, id_eq]
    rw [List.map_congr_left hsame, List.map_id]
  · rw [filter_vertex_exitsAt hab, filter_vertex_exitsAt (Ne.symm hab)]
    by_cases hjoins : k.Joins a b
    · rw [if_pos hjoins, if_pos hjoins.symm]
      rfl
    · rw [if_neg hjoins, if_neg (fun h => hjoins h.symm)]
      rfl

end Graph

/-! ## The graph of a layout -/

namespace Layout

open Signalbox.Graph

/-- The graph of the nodes of a layout, without its links. -/
def nodeGraph (l : Layout) : Graph :=
  l.destinations.values.foldl (fun g d => g.addVertex d.vertex)
    (l.turnouts.values.foldl (fun g t => g.addVertex t.vertex) Graph.empty)

theorem graph_eq_foldl (l : Layout) : l.graph = l.links.values.foldl addLink l.nodeGraph := rfl

/-! ### Nodes -/

section Vertices

variable {α : Type} (vertexOf : α → Vertex) (parts : List α)

/-- Vertices make no exits. -/
theorem exitsOf_foldl_addVertex (g : Graph) (id : NodeId) :
    (parts.foldl (fun g a => g.addVertex (vertexOf a)) g).exitsOf id = g.exitsOf id := by
  induction parts generalizing g with
  | nil => rfl
  | cons a parts ih => rw [List.foldl_cons, ih, exitsOf_addVertex]

theorem edgeCount_foldl_addVertex (g : Graph) :
    (parts.foldl (fun g a => g.addVertex (vertexOf a)) g).edgeCount = g.edgeCount := by
  induction parts generalizing g with
  | nil => rfl
  | cons a parts ih => rw [List.foldl_cons, ih, addVertex]

theorem keyed_foldl_addVertex {g : Graph} (h : g.vertices.KeyedBy Vertex.id) :
    (parts.foldl (fun g a => g.addVertex (vertexOf a)) g).vertices.KeyedBy Vertex.id := by
  induction parts generalizing g with
  | nil => exact h
  | cons a parts ih => exact ih (h.insert (vertexOf a))

theorem hasVertex_foldl_addVertex (g : Graph) (id : NodeId) :
    (parts.foldl (fun g a => g.addVertex (vertexOf a)) g).hasVertex id = true ↔
      g.hasVertex id = true ∨ ∃ a ∈ parts, (vertexOf a).id = id := by
  induction parts generalizing g with
  | nil => simp
  | cons a parts ih =>
    rw [List.foldl_cons, ih, hasVertex_addVertex, List.exists_mem_cons_iff]
    tauto

end Vertices

theorem exitsOf_nodeGraph (l : Layout) (id : NodeId) : l.nodeGraph.exitsOf id = [] := by
  rw [nodeGraph, exitsOf_foldl_addVertex, exitsOf_foldl_addVertex, exitsOf, Graph.empty,
    Table.get?_empty, Option.getD_none]

theorem edgeCount_nodeGraph (l : Layout) : l.nodeGraph.edgeCount = 0 := by
  rw [nodeGraph, edgeCount_foldl_addVertex, edgeCount_foldl_addVertex, Graph.empty]

theorem keyed_nodeGraph (l : Layout) : l.nodeGraph.vertices.KeyedBy Vertex.id := by
  apply keyed_foldl_addVertex
  apply keyed_foldl_addVertex
  exact Table.keyedBy_empty _

/-! ### Links -/

theorem Keyed.nodup_link_ids {l : Layout} (h : l.Keyed) : (l.links.values.map (·.id)).Nodup := by
  have hids : l.links.keys = l.links.values.map (·.id) := by
    rw [Table.keys, h.links.rows_eq, List.map_map]
    rfl
  rw [← hids]
  exact h.links.ascending.nodup

/-- Every link of a layout whose parts are under their ids is put into its graph. -/
theorem Keyed.hasTaken_graph {l : Layout} (h : l.Keyed) :
    l.nodeGraph.HasTaken l.links.values l.graph := by
  rw [graph_eq_foldl]
  apply hasTaken_foldl h.nodup_link_ids
  intro k _ id e he
  simp [exitsOf_nodeGraph] at he

theorem Keyed.spans_graph {l : Layout} (h : l.Keyed) : l.graph.spans = l.nodeGraph.spans := by
  funext k
  simp only [spans, hasVertex, h.hasTaken_graph.vertices]

/-- The links in the graph of a layout, those with a vertex at either end. -/
def graphLinks (l : Layout) : List Link := l.links.values.filter l.graph.spans

theorem Keyed.exitsOf_graph {l : Layout} (h : l.Keyed) (id : NodeId) :
    l.graph.exitsOf id = l.graphLinks.flatMap (exitsAt id) := by
  rw [h.hasTaken_graph.exits, exitsOf_nodeGraph, List.nil_append, graphLinks, h.spans_graph]

theorem Keyed.edgeCount_graph {l : Layout} (h : l.Keyed) :
    l.graph.edgeCount = l.graphLinks.length := by
  rw [h.hasTaken_graph.count, edgeCount_nodeGraph, Nat.zero_add, graphLinks, h.spans_graph]

/-- The vertices of the graph are the nodes of the layout. -/
theorem Keyed.mem_vertices_graph {l : Layout} (h : l.Keyed) (id : NodeId) :
    id ∈ l.graph.vertices.keys ↔ id ∈ l.turnouts.keys ∨ id ∈ l.destinations.keys := by
  have hlisted {α : Type} {idOf : α → NodeId} {t : Table NodeId α} (ht : t.KeyedBy idOf) :
      id ∈ t.keys ↔ ∃ a ∈ t.values, idOf a = id := by
    rw [Table.keys, ht.rows_eq, List.map_map, List.mem_map]
    rfl
  rw [h.hasTaken_graph.vertices, Table.mem_keys_iff]
  change l.nodeGraph.hasVertex id = true ↔ _
  rw [nodeGraph, hasVertex_foldl_addVertex, hasVertex_foldl_addVertex, hlisted h.turnouts,
    hlisted h.destinations]
  simp [hasVertex, Graph.empty, Table.contains, Table.get?_empty, Turnout.vertex,
    Destination.vertex]

/-- The exits of one link at a node are those that it makes there. -/
theorem Keyed.filter_link_exitsOf {l : Layout} (h : l.Keyed) {k : Link} (hk : k ∈ l.graphLinks)
    (id : NodeId) : (l.graph.exitsOf id).filter (·.link = k.id) = exitsAt id k := by
  rw [h.exitsOf_graph, List.filter_flatMap]
  have hdiffer : (l.graphLinks.map (·.id)).Nodup :=
    h.nodup_link_ids.sublist (List.filter_sublist.map _)
  generalize l.graphLinks = ks at hk hdiffer
  induction ks with
  | nil => simp at hk
  | cons k' ks ih =>
    obtain ⟨hk', hdiffer⟩ := List.nodup_cons.mp hdiffer
    rw [List.flatMap_cons, filter_link_exitsAt]
    rcases List.mem_cons.mp hk with rfl | hk
    · have hrest : ks.flatMap (fun k' => (exitsAt id k').filter (·.link = k.id)) = [] := by
        rw [List.flatMap_eq_nil_iff]
        intro k' hmem
        rw [filter_link_exitsAt, if_neg]
        intro hid
        exact hk' (List.mem_map.mpr ⟨k', hmem, hid⟩)
      rw [if_pos rfl, hrest, List.append_nil]
    · rw [if_neg (fun hid => hk' (List.mem_map.mpr ⟨k, hk, hid.symm⟩)), List.nil_append]
      exact ih hk hdiffer

theorem Keyed.mem_exitsOf_graph {l : Layout} (h : l.Keyed) {id : NodeId} {e : Exit} :
    e ∈ l.graph.exitsOf id ↔ ∃ k ∈ l.graphLinks, e ∈ exitsAt id k := by
  rw [h.exitsOf_graph, List.mem_flatMap]

/-! ### Edges -/

/-- The exits from one node to another and those back are the same links in one order. -/
theorem Keyed.filter_vertex_exitsOf_swap {l : Layout} (h : l.Keyed) (a b : NodeId) :
    (l.graph.exitsOf b).filter (·.vertex == a) =
      ((l.graph.exitsOf a).filter (·.vertex == b)).map (Exit.towards a) := by
  rw [h.exitsOf_graph, h.exitsOf_graph, List.filter_flatMap, List.filter_flatMap, List.map_flatMap]
  simp only [filter_vertex_exitsAt_swap a b]

/-- The edge back is the edge there with the other node at its end. -/
theorem Keyed.edge?_swap {l : Layout} (h : l.Keyed) (a b : NodeId) :
    l.graph.edge? b a = (l.graph.edge? a b).map (Exit.towards a) := by
  rw [edge?, edge?, h.filter_vertex_exitsOf_swap, shortestOf_map]
  intro e
  rfl

/-- A link in the graph makes an edge between its ends, which is as long as the shortest of
all links between them. -/
theorem Keyed.exists_edge? {l : Layout} (h : l.Keyed) {k : Link} {a b : NodeId}
    (hk : k ∈ l.graphLinks) (hjoins : k.Joins a b) :
    ∃ e, l.graph.edge? a b = some e ∧
      (∃ k' ∈ l.graphLinks, k'.Joins a b ∧ e.link = k'.id ∧ e.length = k'.length) ∧
      ∀ k' ∈ l.links.values, k'.Joins a b → e.length ≤ k'.length := by
  have hexit : ∀ k' ∈ l.graphLinks, k'.Joins a b → ⟨b, k'.id, k'.length⟩ ∈ l.graph.exitsOf a :=
    fun k' hk' hj => h.mem_exitsOf_graph.mpr ⟨k', hk', mem_exitsAt_of_joins hj⟩
  obtain ⟨e, hedge, hmem, hvertex, hleast⟩ := Graph.exists_edge? (hexit k hk hjoins)
  obtain ⟨k', hk', he⟩ := h.mem_exitsOf_graph.mp hmem
  obtain ⟨hlink, hlength, hends⟩ := of_mem_exitsAt he
  rw [hvertex] at hends
  refine ⟨e, hedge, ⟨k', hk', hends, hlink, hlength⟩, ?_⟩
  intro k'' hvalues hj
  -- Both ends are vertices already, so that this link is in the graph as well.
  have hspans : l.graph.spans k'' = true := by
    rw [spans_eq_of_joins _ hj hjoins]
    exact (List.mem_filter.mp hk).2
  exact hleast _ (hexit k'' (List.mem_filter.mpr ⟨hvalues, hspans⟩) hj) rfl

/-- A node without a link to another in the graph has no edge to it. -/
theorem Keyed.edge?_eq_none {l : Layout} (h : l.Keyed) {a b : NodeId}
    (hnone : ∀ k ∈ l.graphLinks, ¬k.Joins a b) : l.graph.edge? a b = none := by
  rw [Option.eq_none_iff_forall_ne_some]
  intro e he
  obtain ⟨hmem, hvertex⟩ := mem_of_edge? he
  obtain ⟨k, hk, hk'⟩ := h.mem_exitsOf_graph.mp hmem
  apply hnone k hk
  rw [← hvertex]
  exact (of_mem_exitsAt hk').2.2

/-- The edges between two nodes, one from each end: none if no link in the graph joins the
nodes, else the same link, as long as the shortest that joins them. -/
def EdgesAgree (l : Layout) (a b : NodeId) : Prop :=
  (l.graph.edge? a b = none ∧ l.graph.edge? b a = none ∧ ∀ k ∈ l.graphLinks, ¬k.Joins a b) ∨
    ∃ there back, l.graph.edge? a b = some there ∧ l.graph.edge? b a = some back ∧
      there.link = back.link ∧ there.length = back.length ∧
      (∃ k ∈ l.graphLinks, k.Joins a b ∧ there.link = k.id ∧ there.length = k.length) ∧
      ∀ k ∈ l.links.values, k.Joins a b → there.length ≤ k.length

theorem Keyed.edgesAgree {l : Layout} (h : l.Keyed) (a b : NodeId) : l.EdgesAgree a b := by
  by_cases hjoined : ∃ k ∈ l.graphLinks, k.Joins a b
  · obtain ⟨k, hk, hjoins⟩ := hjoined
    obtain ⟨e, hedge, hlink, hleast⟩ := h.exists_edge? hk hjoins
    refine .inr ⟨e, Exit.towards a e, hedge, ?_, rfl, rfl, hlink, hleast⟩
    rw [h.edge?_swap a b, hedge, Option.map_some]
  · have hnone : ∀ k ∈ l.graphLinks, ¬k.Joins a b :=
      fun k hk hjoins => hjoined ⟨k, hk, hjoins⟩
    exact .inl ⟨h.edge?_eq_none hnone,
      h.edge?_eq_none (fun k hk hjoins => hnone k hk hjoins.symm), hnone⟩

/-! ### The whole graph -/

/-- What there is in the graph of a layout: a vertex for each node, and for each link with a
vertex at either end its own exits and nothing else. -/
structure HasOwnGraph (l : Layout) : Prop where
  keyed : l.graph.vertices.KeyedBy Vertex.id
  vertices : ∀ id, id ∈ l.graph.vertices.keys ↔ id ∈ l.turnouts.keys ∨ id ∈ l.destinations.keys
  entries : ∀ k ∈ l.links.values, k.start ∈ l.graph.vertices.keys →
    k.finish ∈ l.graph.vertices.keys →
      ∀ id, (l.graph.exitsOf id).filter (·.link = k.id) = exitsAt id k
  sole : ∀ id, ∀ e ∈ l.graph.exitsOf id, ∃ k ∈ l.links.values,
    k.start ∈ l.graph.vertices.keys ∧ k.finish ∈ l.graph.vertices.keys ∧ e ∈ exitsAt id k
  count : l.graph.edgeCount = l.graphLinks.length
  edges : ∀ a b, l.EdgesAgree a b

/-- A layout that is made of parts, whatever they are, has its own graph. -/
theorem hasOwnGraph_ofParts (nodes : List Node) (links : List Link) :
    (ofParts nodes links).HasOwnGraph := by
  have h := keyed_ofParts nodes links
  generalize ofParts nodes links = l at h
  refine ⟨?_, h.mem_vertices_graph, ?_, ?_, h.edgeCount_graph, h.edgesAgree⟩
  · rw [h.hasTaken_graph.vertices]
    exact l.keyed_nodeGraph
  · intro k hk hstart hfinish id
    apply h.filter_link_exitsOf
    rw [graphLinks, List.mem_filter, spans_iff]
    exact ⟨hk, hstart, hfinish⟩
  · intro id e he
    obtain ⟨k, hk, hexit⟩ := h.mem_exitsOf_graph.mp he
    rw [graphLinks, List.mem_filter, spans_iff] at hk
    exact ⟨k, hk.1, hk.2.1, hk.2.2, hexit⟩

end Layout

end Signalbox
