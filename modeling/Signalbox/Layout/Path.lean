import Signalbox.Layout.Graph
import Signalbox.Layout.Error

/-
  Signalbox/Layout/Path.lean --- the shortest legal path between two nodes.

  The search labels vertices with the shortest distance found so far and the exit
  that led there.  It settles the unsettled vertex with the least distance, the
  one with the lesser id among equals, and then relaxes its exits in order.  A
  label gives way only to a shorter one.

  A path that enters a turnout on one of its legs may not leave on a leg, unless
  the turnout has no other links at all: then the two legs are plain track.
-/

set_option autoImplicit false

namespace Signalbox

/-- A path: its nodes from start to end, and the sum of the link lengths. -/
structure Path where
  nodes : List NodeId
  length : Nat
  deriving DecidableEq, Repr

/-- How a vertex was reached: the vertex before it, and the link from there. -/
structure Arrival where
  vertex : NodeId
  link : LinkId
  deriving DecidableEq, Repr

/-- What the search knows of a vertex. -/
structure Label where
  distance : Nat
  arrival : Option Arrival
  deriving DecidableEq, Repr

/-- The state of the search. -/
structure Search where
  labels : Table NodeId Label
  settled : List NodeId
  deriving DecidableEq, Repr

namespace Search

/-- The search from a node before its first step. -/
def start (node : NodeId) : Search := ⟨Table.empty.insert node ⟨0, none⟩, []⟩

/-! ## Choosing a vertex -/

/-- The nearer of two labelled vertices, the first when they are equally near. -/
def nearer (a b : NodeId × Label) : NodeId × Label :=
  if b.2.distance < a.2.distance then b else a

/-- The labelled vertices that are not settled, by id. -/
def frontier (s : Search) : List (NodeId × Label) :=
  s.labels.rows.filter fun row => !s.settled.contains row.1

/-- The vertex to settle next. -/
def next? (s : Search) : Option (NodeId × Label) :=
  match s.frontier with
  | [] => none
  | row :: rest => some (rest.foldl nearer row)

/-! ## Relaxing its exits -/

/-- Whether a path that arrived over a link has to leave a vertex by its toe: the link is
a leg, and there are links that are none. -/
def mustLeaveByToe (v : Vertex) (exits : List Exit) (arrival : Option Arrival) : Bool :=
  (arrival.any fun a => (v.leg? a.link).isSome) && exits.any fun e => (v.leg? e.link).isNone

/-- Whether a path may leave a vertex by an exit. -/
def mayLeave (v : Vertex) (toeOnly : Bool) (e : Exit) : Bool :=
  !(toeOnly && (v.leg? e.link).isSome)

/-- Labels the vertex that an exit leads to, if that is shorter. -/
def relax (id : NodeId) (distance : Nat) (s : Search) (e : Exit) : Search :=
  let candidate := distance + e.length
  let improves := match s.labels.get? e.vertex with
    | some known => candidate < known.distance
    | none => true
  if !s.settled.contains e.vertex && improves then
    { s with labels := s.labels.insert e.vertex ⟨candidate, some ⟨id, e.link⟩⟩ }
  else s

/-- Settles a vertex and relaxes the exits by which a path may leave it. -/
def settle (g : Graph) (s : Search) (id : NodeId) (label : Label) : Search :=
  let s := { s with settled := id :: s.settled }
  match g.vertices.get? id with
  | none => s
  | some v =>
    let exits := g.exitsOf id
    let toeOnly := mustLeaveByToe v exits label.arrival
    (exits.filter (mayLeave v toeOnly)).foldl (relax id label.distance) s

/-! ## The whole search -/

/-- Settles vertices until the end is settled or none is left. -/
def run (g : Graph) (finish : NodeId) : Nat → Search → Search
  | 0, s => s
  | fuel + 1, s =>
    match s.next? with
    | none => s
    | some (id, label) =>
      if id = finish then { s with settled := id :: s.settled }
      else run g finish fuel (s.settle g id label)

theorem run_zero (g : Graph) (finish : NodeId) (s : Search) : run g finish 0 s = s := rfl

/-- The nodes from the start to a labelled vertex, put before those after it. -/
def trace (labels : Table NodeId Label) (start : NodeId) :
    Nat → NodeId → List NodeId → Option (List NodeId)
  | 0, _, _ => none
  | fuel + 1, id, after =>
    if id = start then some (id :: after)
    else
      match (labels.get? id).bind (·.arrival) with
      | some arrival => trace labels start fuel arrival.vertex (id :: after)
      | none => none

end Search

/-- The shortest legal path between two nodes of the graph. -/
def Graph.findPath (g : Graph) (start finish : NodeId) : Except LayoutError Path :=
  if !g.hasVertex start then .error (.unknownNode start)
  else if !g.hasVertex finish then .error (.unknownNode finish)
  else if start = finish then .error .sameEnds
  else
    let s := Search.run g finish (g.vertices.size + 1) (Search.start start)
    match s.labels.get? finish with
    | none => .error .noPath
    | some label =>
      match Search.trace s.labels start (s.labels.size + 1) finish [] with
      | some nodes => .ok ⟨nodes, label.distance⟩
      | none => .error .noPath

end Signalbox
