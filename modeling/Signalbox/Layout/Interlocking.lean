import Signalbox.Allocator
import Signalbox.Layout.Route

/-
  Signalbox/Layout/Interlocking.lean --- routes that are set, and what they hold.

  A route that is set holds its components, and a component is held by one route at
  most.  The holders of turnouts, links and ends are kept in tables beside the
  routes, so that a route that is about to be set finds the routes in its way by
  looking up its own components.

  Setting a route takes down the routes in its way; operating a turnout by hand
  takes down the route that holds it.
-/

set_option autoImplicit false

namespace Signalbox

/-- The number of a route that is set. -/
abbrev RouteId := Nat

/-- A layout with its graph, the routes that are set, and who holds what. -/
structure Interlocking where
  layout : Layout
  graph : Graph
  turnoutHolders : Table NodeId RouteId
  linkHolders : Table LinkId RouteId
  endHolders : Table NodeId RouteId
  routes : Table RouteId Route
  ids : Allocator
  deriving DecidableEq, Repr

/-- What setting a route does: the route under its number, the components released and
the turnouts changed on the way, and the interlocking afterwards. -/
structure RouteOutcome where
  id : RouteId
  route : Route
  released : Components
  changes : List Setting
  after : Interlocking
  deriving DecidableEq, Repr

/-- What clients are shown of a layout. -/
structure LayoutView where
  turnouts : List Turnout
  destinations : List Destination
  links : List Link
  locked : Components
  deriving DecidableEq, Repr

namespace Interlocking

/-- A layout with no route set.  Routes are numbered from one. -/
def ofLayout (l : Layout) : Interlocking :=
  { layout := l
    graph := l.graph
    turnoutHolders := Table.empty
    linkHolders := Table.empty
    endHolders := Table.empty
    routes := Table.empty
    ids := .startingAt 1 }

/-! ## Holding and releasing -/

/-- The table without the rows under some keys. -/
def eraseAll {α : Type} (t : Table Int α) (keys : List Int) : Table Int α :=
  keys.foldl Table.erase t

/-- The table with the same value under some keys. -/
def insertAll {α : Type} (t : Table Int α) (value : α) (keys : List Int) : Table Int α :=
  keys.foldl (fun t key => t.insert key value) t

/-- The numbers in ascending order, each once. -/
def ascending (ids : List RouteId) : List RouteId :=
  (Table.ofList (ids.map fun id => (id, ()))).keys

/-- The routes that hold any of the components, in ascending order. -/
def holdersOf (s : Interlocking) (c : Components) : List RouteId :=
  ascending (c.turnouts.filterMap s.turnoutHolders.get? ++ c.links.filterMap s.linkHolders.get?
    ++ c.destinations.filterMap s.endHolders.get?)

/-- Takes a route down: what it held, which no route holds now. -/
def releaseOne (s : Interlocking) (id : RouteId) : Components × Interlocking :=
  match s.routes.get? id with
  | none => (.empty, s)
  | some r =>
    let c := r.components
    (c, { s with
          turnoutHolders := eraseAll s.turnoutHolders c.turnouts
          linkHolders := eraseAll s.linkHolders c.links
          endHolders := eraseAll s.endHolders c.destinations
          routes := s.routes.erase id
          ids := s.ids.release id })

/-- Takes routes down, one after the other. -/
def release (s : Interlocking) : List RouteId → Components × Interlocking
  | [] => (.empty, s)
  | id :: rest =>
    let (first, s) := s.releaseOne id
    let (others, s) := release s rest
    (first.append others, s)

/-- Gives a route its number, and everything that it needs to hold. -/
def claim (s : Interlocking) (id : RouteId) (r : Route) : Interlocking :=
  let c := r.components
  { s with
    turnoutHolders := insertAll s.turnoutHolders id c.turnouts
    linkHolders := insertAll s.linkHolders id c.links
    endHolders := insertAll s.endHolders id c.destinations
    routes := s.routes.insert id r }

/-- Everything that is held, route by route. -/
def locked (s : Interlocking) : Components :=
  s.routes.values.foldl (fun held r => held.append r.components) .empty

/-! ## Turnouts -/

/-- The state of a turnout, if there is one with this id. -/
def turnoutState? (s : Interlocking) (id : NodeId) : Option TurnoutState :=
  (s.layout.turnouts.get? id).map (·.state)

/-- Puts a turnout of the layout into a state. -/
def moveTurnout (s : Interlocking) (id : NodeId) (state : TurnoutState) : Interlocking :=
  { s with layout :=
      { s.layout with turnouts := s.layout.turnouts.modify id fun t => { t with state := state } } }

/-- Operates a turnout by hand: what is released by that, and the interlocking
afterwards. -/
def setTurnout (s : Interlocking) (id : NodeId) (state : TurnoutState) :
    Except LayoutError (Components × Interlocking) :=
  if s.layout.turnouts.contains id then
    let (released, s) := s.release (s.turnoutHolders.get? id).toList
    .ok (released, s.moveTurnout id state)
  else .error (.unknownTurnout id)

/-! ## Routes -/

/-- Puts the turnouts of a route into their states: those that were in another state, and
the interlocking afterwards. -/
def applySettings (s : Interlocking) : List Setting → List Setting × Interlocking
  | [] => ([], s)
  | wanted :: rest =>
    match s.turnoutState? wanted.turnout with
    | none => applySettings s rest
    | some state =>
      if state = wanted.state then applySettings s rest
      else
        let (changes, s) := applySettings (s.moveTurnout wanted.turnout wanted.state) rest
        (wanted :: changes, s)

/-- The route that joins two destinations by the shortest legal path. -/
def findRoute (s : Interlocking) (start finish : NodeId) : Except LayoutError Route := do
  let path ← s.graph.findPath start finish
  s.layout.routeAlong s.graph path.nodes

/-- Sets the route between two destinations. -/
def setRoute (s : Interlocking) (start finish : NodeId) : Except LayoutError RouteOutcome := do
  let route ← s.findRoute start finish
  let (released, s) := s.release (s.holdersOf route.components)
  let (changes, s) := s.applySettings route.settings
  let (id, ids) := s.ids.allocate
  return ⟨id, route, released, changes, claim { s with ids := ids } id route⟩

/-- Takes a route down by its number. -/
def clearRoute (s : Interlocking) (id : RouteId) : Except LayoutError (Components × Interlocking) :=
  if s.routes.contains id then .ok (s.release [id]) else .error (.unknownRoute id)

/-! ## The diagram -/

/-- Moves a node on the diagram; a turnout is looked for before a destination. -/
def moveNode (s : Interlocking) (id : NodeId) (c : Coordinate) : Except LayoutError Interlocking :=
  let l := s.layout
  if l.turnouts.contains id then
    .ok { s with layout :=
            { l with turnouts := l.turnouts.modify id fun t => { t with coordinate := c } } }
  else if l.destinations.contains id then
    .ok { s with layout :=
            { l with
              destinations := l.destinations.modify id fun d => { d with coordinate := c } } }
  else .error (.unknownNode id)

/-- What clients are shown. -/
def view (s : Interlocking) : LayoutView :=
  ⟨s.layout.turnouts.values, s.layout.destinations.values, s.layout.links.values, s.locked⟩

end Interlocking

end Signalbox
