import Signalbox.Layout.Basic

/-
  Signalbox/Layout/Graph.lean --- the layout as a graph.

  The graph has a vertex for each node and, at each vertex, the ways out of it in
  the order in which the links were added.  It knows which links are the legs of a
  turnout but not how the turnout stands, and nothing is ever taken out of it.
-/

set_option autoImplicit false

namespace Signalbox

/-- The two legs of a turnout, the links of its directions. -/
structure Legs where
  primary : LinkId
  secondary : LinkId
  deriving DecidableEq, Repr

/-- A vertex; a destination has no legs. -/
structure Vertex where
  id : NodeId
  legs : Option Legs
  deriving DecidableEq, Repr

/-- Which leg a link is. -/
inductive Leg where
  | primary
  | secondary
  deriving DecidableEq, Repr

/-- The leg of the vertex that a link is, if it is one. -/
def Vertex.leg? (v : Vertex) (link : LinkId) : Option Leg :=
  match v.legs with
  | some legs =>
    if legs.primary = link then some .primary
    else if legs.secondary = link then some .secondary
    else none
  | none => none

/-- A way out of a vertex: where it leads, over which link, and how long the link is. -/
structure Exit where
  vertex : NodeId
  link : LinkId
  length : Nat
  deriving DecidableEq, Repr

/-- Vertices, and the exits of each. -/
structure Graph where
  vertices : Table NodeId Vertex
  exits : Table NodeId (List Exit)
  edgeCount : Nat
  deriving DecidableEq, Repr

namespace Graph

/-- The graph without vertices. -/
def empty : Graph := ⟨Table.empty, Table.empty, 0⟩

/-- The exits of a vertex, none for a node that is no vertex. -/
def exitsOf (g : Graph) (id : NodeId) : List Exit := (g.exits.get? id).getD []

/-- Whether there is a vertex with an id. -/
def hasVertex (g : Graph) (id : NodeId) : Bool := g.vertices.contains id

/-! ## Building -/

/-- The graph with a vertex; one with the same id is replaced and its exits stay. -/
def addVertex (g : Graph) (v : Vertex) : Graph :=
  { g with
    vertices := g.vertices.insert v.id v
    exits := if g.exits.contains v.id then g.exits else g.exits.insert v.id [] }

/-- The graph with an exit more at a vertex. -/
def addExit (g : Graph) (id : NodeId) (e : Exit) : Graph :=
  { g with exits := g.exits.insert id (g.exitsOf id ++ [e]) }

/-- Whether a link can be added: both ends are vertices and the link is not there yet. -/
def accepts (g : Graph) (l : Link) : Bool :=
  g.hasVertex l.start && g.hasVertex l.finish && !(g.exitsOf l.start).any (·.link == l.id)

/-- The graph with a link, which is an exit at either end; or the same graph. -/
def addLink (g : Graph) (l : Link) : Graph :=
  if g.accepts l then
    let g := g.addExit l.start ⟨l.finish, l.id, l.length⟩
    let g := g.addExit l.finish ⟨l.start, l.id, l.length⟩
    { g with edgeCount := g.edgeCount + 1 }
  else g

/-! ## Edges -/

/-- The shorter of two exits, the first when they are equally long. -/
def shorter (e f : Exit) : Exit := if f.length < e.length then f else e

/-- The shortest of a list of exits, the first of several. -/
def shortestOf : List Exit → Option Exit
  | [] => none
  | e :: rest => some (rest.foldl shorter e)

/-- The shortest exit from one vertex straight to another. -/
def edge? (g : Graph) (a b : NodeId) : Option Exit :=
  shortestOf ((g.exitsOf a).filter (·.vertex == b))

end Graph

/-! ## The graph of a layout -/

/-- The vertex of a turnout. -/
def Turnout.vertex (t : Turnout) : Vertex := ⟨t.id, some ⟨t.primary, t.secondary⟩⟩

/-- The vertex of a destination. -/
def Destination.vertex (d : Destination) : Vertex := ⟨d.id, none⟩

/-- The graph of a layout: turnouts, then destinations, then links, each by id.  Links
with an end that is no node are left out. -/
def Layout.graph (l : Layout) : Graph :=
  let g := l.turnouts.values.foldl (fun g t => g.addVertex t.vertex) Graph.empty
  let g := l.destinations.values.foldl (fun g d => g.addVertex d.vertex) g
  l.links.values.foldl Graph.addLink g

end Signalbox
