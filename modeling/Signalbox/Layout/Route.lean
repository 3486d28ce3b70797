import Signalbox.Layout.Path

/-
  Signalbox/Layout/Route.lean --- what a path needs of the layout.

  A route joins two destinations.  It needs the turnouts inside its path in certain
  states and holds its links; a turnout that has neither of its legs at a
  neighbour on the path needs no state.  The components of a route are what no
  other route may hold at the same time: its turnouts, its links and its two ends.
-/

set_option autoImplicit false

namespace Signalbox

/-- A turnout and the state it has to be in. -/
structure Setting where
  turnout : NodeId
  state : TurnoutState
  deriving DecidableEq, Repr

/-- A route between two destinations. -/
structure Route where
  start : Destination
  finish : Destination
  settings : List Setting
  links : List Link
  deriving DecidableEq, Repr

/-- Components of routes, by kind. -/
structure Components where
  destinations : List NodeId
  turnouts : List NodeId
  links : List LinkId
  deriving DecidableEq, Repr

namespace Components

/-- No component. -/
def empty : Components := ⟨[], [], []⟩

/-- The components of both lists, in order. -/
def append (a b : Components) : Components :=
  ⟨a.destinations ++ b.destinations, a.turnouts ++ b.turnouts, a.links ++ b.links⟩

/-- Whether there is none. -/
def isEmpty (c : Components) : Bool :=
  c.destinations.isEmpty && c.turnouts.isEmpty && c.links.isEmpty

end Components

/-- The components that a route holds. -/
def Route.components (r : Route) : Components :=
  ⟨[r.start.id, r.finish.id], r.settings.map (·.turnout), r.links.map (·.id)⟩

namespace Layout

/-- The state that a turnout between two nodes of a path needs, if it needs one: closed
when its primary link touches either, else thrown when its secondary link does. -/
def settingFor (l : Layout) (before node after : NodeId) : Option Setting := do
  let t ← l.turnouts.get? node
  let primary ← l.links.get? t.primary
  let secondary ← l.links.get? t.secondary
  if primary.touches before || primary.touches after then some ⟨node, .closed⟩
  else if secondary.touches before || secondary.touches after then some ⟨node, .thrown⟩
  else none

/-- The states that the turnouts inside a path need, in its order. -/
def settingsAlong (l : Layout) : List NodeId → List Setting
  | before :: node :: after :: rest =>
    (l.settingFor before node after).toList ++ settingsAlong l (node :: after :: rest)
  | _ => []

/-- The links between the nodes of a path, in its order. -/
def linksAlong (l : Layout) (g : Graph) : List NodeId → List Link
  | a :: b :: rest =>
    ((g.edge? a b).bind fun e => l.links.get? e.link).toList ++ linksAlong l g (b :: rest)
  | _ => []

/-- The destination at an end of a path. -/
def endOf (l : Layout) (id : NodeId) : Except LayoutError Destination :=
  match l.destinations.get? id with
  | some d => .ok d
  | none => .error (.notADestination id)

/-- The route along the nodes of a path. -/
def routeAlong (l : Layout) (g : Graph) (nodes : List NodeId) : Except LayoutError Route :=
  match nodes with
  | [] => .error .sameEnds
  | first :: rest => do
    let start ← l.endOf first
    let finish ← l.endOf (rest.getLastD first)
    return ⟨start, finish, l.settingsAlong nodes, l.linksAlong g nodes⟩

end Layout

end Signalbox
