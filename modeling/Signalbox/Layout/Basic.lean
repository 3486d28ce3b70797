import Signalbox.Layout.TurnoutState
import Signalbox.Number.Binary64
import Signalbox.Table

/-
  Signalbox/Layout/Basic.lean --- the parts of a track layout.

  Nodes are turnouts and destinations; links are the pieces of track between them.
  A turnout names the two links of its directions: the primary one, for which it
  is closed, and the secondary one, for which it is thrown.  Destinations are the
  places that routes lead between.
-/

set_option autoImplicit false

namespace Signalbox

/-- The id of a turnout or a destination. -/
abbrev NodeId := Int

/-- The id of a link. -/
abbrev LinkId := Int

/-- A place on the track diagram. -/
structure Coordinate where
  x : Binary64
  y : Binary64
  deriving DecidableEq, Repr

/-- The place of a node that has not been moved. -/
def Coordinate.origin : Coordinate := ⟨.zero, .zero⟩

/-- A turnout. -/
structure Turnout where
  id : NodeId
  name : String
  coordinate : Coordinate
  state : TurnoutState
  primary : LinkId
  secondary : LinkId
  deriving DecidableEq, Repr

/-- A place that routes lead to. -/
structure Destination where
  id : NodeId
  name : String
  description : String
  coordinate : Coordinate
  deriving DecidableEq, Repr

/-- A node of the layout. -/
inductive Node where
  | turnout (t : Turnout)
  | destination (d : Destination)
  deriving DecidableEq, Repr

/-- A piece of track between two nodes. -/
structure Link where
  id : LinkId
  length : Nat
  start : NodeId
  finish : NodeId
  points : List Coordinate
  deriving DecidableEq, Repr

/-- The id of a node. -/
def Node.id : Node → NodeId
  | turnout t => t.id
  | destination d => d.id

/-- The place of a node. -/
def Node.coordinate : Node → Coordinate
  | turnout t => t.coordinate
  | destination d => d.coordinate

/-- Whether a node is one of the ends of the link. -/
def Link.touches (l : Link) (node : NodeId) : Bool := l.start == node || l.finish == node

/-! ## The tables -/

/-- A layout, each kind of part under its id. -/
structure Layout where
  turnouts : Table NodeId Turnout
  destinations : Table NodeId Destination
  links : Table LinkId Link
  deriving DecidableEq, Repr

namespace Layout

/-- The layout without any part. -/
def empty : Layout := ⟨Table.empty, Table.empty, Table.empty⟩

/-- The layout with a node put in. -/
def addNode (l : Layout) : Node → Layout
  | .turnout t => { l with turnouts := l.turnouts.insert t.id t }
  | .destination d => { l with destinations := l.destinations.insert d.id d }

/-- The layout of nodes and links; of several parts with one id the last stays. -/
def ofParts (nodes : List Node) (links : List Link) : Layout :=
  { nodes.foldl addNode empty with links := Table.ofList (links.map fun l => (l.id, l)) }

end Layout

end Signalbox
