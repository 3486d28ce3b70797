import Signalbox.Layout.Graph
import Signalbox.Proofs.Table

/-
  Signalbox/Proofs/Layout/Graph.lean --- what the exits of a graph are.

  A graph is built from pieces, vertices and links, one after the other.  However
  it is built, its exits lead from vertices to vertices, and each is one of the two
  directions of a link among the pieces.  Nothing here asks that ids are used once.
-/

set_option autoImplicit false

namespace Signalbox

namespace Graph

/-! ## Building -/

/-- What a graph is built from. -/
inductive Piece where
  | vertex (v : Vertex)
  | link (l : Link)
  deriving DecidableEq, Repr

/-- The graph with a piece put in. -/
def put (g : Graph) : Piece → Graph
  | .vertex v => g.addVertex v
  | .link l => g.addLink l

/-- The graph of pieces, put in one after the other. -/
def ofPieces (pieces : List Piece) : Graph := pieces.foldl put empty

/-- What holds of the graph without vertices and is kept by every piece holds of every
graph that is built. -/
theorem ofPieces_induction {P : Graph → Prop} (pieces : List Piece) (base : P empty)
    (step : ∀ g, ∀ p ∈ pieces, P g → P (g.put p)) : P (ofPieces pieces) := by
  suffices h : ∀ g, P g → P (pieces.foldl put g) from h _ base
  induction pieces with
  | nil => exact fun _ h => h
  | cons p rest ih =>
    intro g hg
    exact ih (fun g q hq => step g q (List.mem_cons_of_mem _ hq)) _
      (step g p List.mem_cons_self hg)

/-! ## Vertices and exits after a change -/

theorem hasVertex_iff {g : Graph} {id : NodeId} :
    g.hasVertex id = true ↔ ∃ v, g.vertices.get? id = some v := Table.contains_iff

@[simp] theorem hasVertex_addVertex (g : Graph) (v : Vertex) (id : NodeId) :
    (g.addVertex v).hasVertex id = true ↔ v.id = id ∨ g.hasVertex id = true := by
  simp only [hasVertex, addVertex, Table.contains, Table.get?_insert]
  split <;> simp_all

@[simp] theorem exitsOf_addVertex (g : Graph) (v : Vertex) (id : NodeId) :
    (g.addVertex v).exitsOf id = g.exitsOf id := by
  simp only [exitsOf, addVertex]
  split
  · rfl
  · rename_i h
    rw [Table.get?_insert]
    split
    · rename_i hid
      subst hid
      simp only [Table.contains, Bool.not_eq_true, Option.isSome_eq_false_iff,
        Option.isNone_iff_eq_none] at h
      simp [h]
    · rfl

theorem mem_exitsOf_addExit {g : Graph} {a id : NodeId} {e f : Exit} :
    f ∈ (g.addExit a e).exitsOf id ↔ f ∈ g.exitsOf id ∨ (a = id ∧ f = e) := by
  simp only [addExit, exitsOf, Table.get?_insert]
  split
  · rename_i h
    simp [h]
  · rename_i h
    simp [h]

@[simp] theorem vertices_addLink (g : Graph) (l : Link) : (g.addLink l).vertices = g.vertices := by
  unfold addLink addExit
  split <;> rfl

/-- The exits after a link has been added are those before it and, if the link was
accepted, one at either end. -/
theorem mem_exitsOf_addLink {g : Graph} {l : Link} {id : NodeId} {e : Exit} :
    e ∈ (g.addLink l).exitsOf id ↔
      e ∈ g.exitsOf id ∨ (g.accepts l = true ∧
        ((l.start = id ∧ e = ⟨l.finish, l.id, l.length⟩) ∨
          (l.finish = id ∧ e = ⟨l.start, l.id, l.length⟩))) := by
  unfold addLink
  split
  · rename_i h
    change e ∈ ((g.addExit l.start ⟨l.finish, l.id, l.length⟩).addExit l.finish
      ⟨l.start, l.id, l.length⟩).exitsOf id ↔ _
    rw [mem_exitsOf_addExit, mem_exitsOf_addExit]
    simp only [h, true_and, or_assoc]
  · rename_i h
    simp [h]

/-! ## Soundness of what is built -/

/-- The vertices are listed in order, and exits lead from vertices to vertices. -/
structure Sound (g : Graph) : Prop where
  ascending : g.vertices.Ascending
  leads : ∀ id, ∀ e ∈ g.exitsOf id, g.hasVertex id = true ∧ g.hasVertex e.vertex = true

theorem Sound.addVertex {g : Graph} (h : g.Sound) (v : Vertex) : (g.addVertex v).Sound := by
  refine ⟨h.ascending.insert _ _, ?_⟩
  intro id e he
  rw [exitsOf_addVertex] at he
  obtain ⟨hid, hv⟩ := h.leads id e he
  exact ⟨(hasVertex_addVertex ..).mpr (.inr hid), (hasVertex_addVertex ..).mpr (.inr hv)⟩

theorem Sound.addLink {g : Graph} (h : g.Sound) (l : Link) : (g.addLink l).Sound := by
  refine ⟨by rw [vertices_addLink]; exact h.ascending, ?_⟩
  intro id e he
  simp only [hasVertex, vertices_addLink] at *
  rcases mem_exitsOf_addLink.mp he with he | ⟨hacc, hends⟩
  · exact h.leads id e he
  · simp only [accepts, hasVertex, Bool.and_eq_true] at hacc
    rcases hends with ⟨rfl, rfl⟩ | ⟨rfl, rfl⟩
    · exact hacc.1
    · exact hacc.1.symm

theorem sound_ofPieces (pieces : List Piece) : (ofPieces pieces).Sound := by
  refine ofPieces_induction pieces ⟨Table.ascending_empty, ?_⟩ ?_
  · intro id e he
    simp [exitsOf, empty, Table.get?_empty] at he
  · intro g p _ h
    cases p with
    | vertex v => exact h.addVertex v
    | link l => exact h.addLink l

/-- An exit is one of the two directions of a link. -/
def Follows (e : Exit) (id : NodeId) (l : Link) : Prop :=
  e.link = l.id ∧ e.length = l.length ∧
    ((l.start = id ∧ l.finish = e.vertex) ∨ (l.finish = id ∧ l.start = e.vertex))

/-- Every exit of a graph follows one of the links that it was built from. -/
theorem exists_link_of_mem_exitsOf {pieces : List Piece} {id : NodeId} {e : Exit}
    (he : e ∈ (ofPieces pieces).exitsOf id) : ∃ l, Piece.link l ∈ pieces ∧ Follows e id l := by
  revert id e
  refine ofPieces_induction (P := fun g => ∀ {id e}, e ∈ g.exitsOf id →
    ∃ l, Piece.link l ∈ pieces ∧ Follows e id l) pieces ?_ ?_
  · intro id e he
    simp [exitsOf, empty, Table.get?_empty] at he
  · intro g p hp ih id e he
    cases p with
    | vertex v => exact ih (by rwa [put, exitsOf_addVertex] at he)
    | link l =>
      rcases mem_exitsOf_addLink.mp he with he | ⟨-, ⟨hs, rfl⟩ | ⟨hf, rfl⟩⟩
      · exact ih he
      · exact ⟨l, hp, rfl, rfl, .inl ⟨hs, rfl⟩⟩
      · exact ⟨l, hp, rfl, rfl, .inr ⟨hf, rfl⟩⟩

/-! ## Edges -/

theorem shortestOf_mem {es : List Exit} {e : Exit} (h : shortestOf es = some e) : e ∈ es := by
  cases es with
  | nil => simp [shortestOf] at h
  | cons first rest =>
    simp only [shortestOf, Option.some.injEq] at h
    subst h
    induction rest generalizing first with
    | nil => simp
    | cons f rest ih =>
      rw [List.foldl_cons]
      rcases List.mem_cons.mp (ih (shorter first f)) with h | h
      · rw [h]
        unfold shorter
        split <;> simp
      · simp [h]

theorem foldl_shorter_le (first : Exit) (rest : List Exit) :
    ∀ f ∈ first :: rest, (rest.foldl shorter first).length ≤ f.length := by
  induction rest generalizing first with
  | nil => simp
  | cons next rest ih =>
    -- The shorter of the first two stands for both.
    have hboth : (shorter first next).length ≤ first.length ∧
        (shorter first next).length ≤ next.length := by
      unfold shorter
      split <;> omega
    have hfirst := ih (shorter first next) _ List.mem_cons_self
    intro f hf
    rw [List.foldl_cons]
    rcases List.mem_cons.mp hf with rfl | hf
    · exact Nat.le_trans hfirst hboth.1
    · rcases List.mem_cons.mp hf with rfl | hf
      · exact Nat.le_trans hfirst hboth.2
      · exact ih (shorter first next) f (List.mem_cons_of_mem _ hf)

/-- An edge is an exit that leads straight to the other vertex. -/
theorem mem_of_edge? {g : Graph} {a b : NodeId} {e : Exit} (h : g.edge? a b = some e) :
    e ∈ g.exitsOf a ∧ e.vertex = b := by
  have hmem := shortestOf_mem h
  simpa [List.mem_filter] using hmem

/-- Two vertices that an exit joins have an edge, and no exit straight from one to the other
is shorter. -/
theorem exists_edge? {g : Graph} {a : NodeId} {e : Exit} (he : e ∈ g.exitsOf a) :
    ∃ m, g.edge? a e.vertex = some m ∧ m ∈ g.exitsOf a ∧ m.vertex = e.vertex ∧
      ∀ f ∈ g.exitsOf a, f.vertex = e.vertex → m.length ≤ f.length := by
  cases hstraight : (g.exitsOf a).filter (·.vertex == e.vertex) with
  | nil =>
    have hmem : e ∈ (g.exitsOf a).filter (·.vertex == e.vertex) := by simp [he]
    simp [hstraight] at hmem
  | cons first rest =>
    have hedge : g.edge? a e.vertex = some (rest.foldl shorter first) := by
      rw [edge?, hstraight, shortestOf]
    obtain ⟨hmem, hvertex⟩ := mem_of_edge? hedge
    refine ⟨_, hedge, hmem, hvertex, ?_⟩
    intro f hf hfv
    apply foldl_shorter_le
    rw [← hstraight]
    simp [hf, hfv]

end Graph

/-! ## The graph of a layout -/

/-- The pieces of a layout, in the order in which its graph is built. -/
def Layout.pieces (l : Layout) : List Graph.Piece :=
  l.turnouts.values.map (fun t => .vertex t.vertex) ++
    l.destinations.values.map (fun d => .vertex d.vertex) ++ l.links.values.map .link

theorem Layout.graph_eq_ofPieces (l : Layout) : l.graph = Graph.ofPieces l.pieces := by
  simp only [graph, Graph.ofPieces, pieces, List.foldl_append, List.foldl_map, Graph.put]

theorem Layout.graph_sound (l : Layout) : l.graph.Sound := by
  rw [graph_eq_ofPieces]
  exact Graph.sound_ofPieces _

/-- Every exit of the graph of a layout follows one of its links. -/
theorem Layout.exists_link_of_mem_exitsOf {l : Layout} {id : NodeId} {e : Exit}
    (he : e ∈ l.graph.exitsOf id) : ∃ k ∈ l.links.values, Graph.Follows e id k := by
  rw [graph_eq_ofPieces] at he
  obtain ⟨k, hk, hf⟩ := Graph.exists_link_of_mem_exitsOf he
  refine ⟨k, ?_, hf⟩
  simpa [pieces] using hk

end Signalbox
