import Signalbox.Control.Runs

/-
  Signalbox/Control/Turnouts.lean --- operating turnouts and setting routes.

  A turnout that changes is saved, its handler is run, and the hardware is told, in
  this order; that the store or the hardware refuses is no reason to stop.  A route
  changes its turnouts in the layout all at once and then does this for one after
  the other.
-/

set_option autoImplicit false

namespace Signalbox

namespace Controller

/-- The event for released components, if there are any. -/
def releasedEvents (released : Components) : List Event :=
  if released.isEmpty then [] else [.released released]

/-- Saves the state of a turnout and runs the handler for it. -/
def noteTurnout (c : Controller) (id : NodeId) (state : TurnoutState) : Controller :=
  ((c.saveAnyway (.saveState id state)).handle ⟨id, state⟩).2

/-- The job that tells the hardware about a turnout. -/
def turnoutJob (id : NodeId) (state : TurnoutState) : Job := .send (.turnout id state) .ignore

/-- Operates a turnout by hand. -/
def setTurnout (c : Controller) (id : NodeId) (state : TurnoutState) :
    Except LayoutError (Controller × List Job) :=
  match c.interlocking.setTurnout id state with
  | .error e => .error e
  | .ok (released, s) =>
    let c := tellAll { c with interlocking := s } (releasedEvents released ++ [.turnout id state])
    .ok (c.noteTurnout id state, [turnoutJob id state])

/-- Sees to the first of the turnouts that a route has changed, with the rest to follow. -/
def nextSetting (c : Controller) : List Setting → Controller × List Job
  | [] => (c, [])
  | s :: rest =>
    (c.noteTurnout s.turnout s.state, [turnoutJob s.turnout s.state, .settings rest])

/-- The events of setting a route, in order. -/
def routeEvents (o : RouteOutcome) : List Event :=
  releasedEvents o.released ++ o.changes.map (fun s => Event.turnout s.turnout s.state)
    ++ [.held o.route.components, .route o.route]

/-- Sets a route. -/
def setRoute (c : Controller) (start finish : NodeId) : Outcome :=
  match c.interlocking.setRoute start finish with
  | .error e => .fails c (.layout e)
  | .ok o =>
    let c := tellAll { c with interlocking := o.after } (routeEvents o)
    let (c, next) := c.nextSetting o.changes
    .done c next (some (.route o.id o.route))

/-- Takes a route down. -/
def clearRoute (c : Controller) (id : RouteId) : Outcome :=
  match c.interlocking.clearRoute id with
  | .error e => .fails c (.layout e)
  | .ok (released, s) =>
    .answers (tell { c with interlocking := s } (.released released)) (.components released)

/-- Moves a node on the diagram, first in the layout and then in the store. -/
def moveNode (c : Controller) (id : NodeId) (coordinate : Coordinate) : Outcome :=
  match c.interlocking.moveNode id coordinate with
  | .error e => .fails c (.layout e)
  | .ok s =>
    match save { c with interlocking := s } (.saveCoordinate id coordinate) with
    | (.error e, c) => .fails c (.layout (.notSaved e.message))
    | (.ok (), c) => .finished (c.tell (.moved id coordinate))

end Controller

end Signalbox
