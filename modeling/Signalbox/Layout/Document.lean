import Signalbox.Layout.Route
import Signalbox.Json.Decode

/-
  Signalbox/Layout/Document.lean --- layout parts as JSON.

  A node names its kind in the field `type`.  A description may be missing and is
  then empty, a place may be missing and is then the origin, a turnout without a
  state is closed, and a link without points is straight.  The parts of the graph
  are arrays.
-/

set_option autoImplicit false

namespace Signalbox

/-! ## Places -/

/-- A place as a record. -/
def Coordinate.toJson (c : Coordinate) : Json :=
  .object [("x", .ofBinary64 c.x), ("y", .ofBinary64 c.y)]

/-- What is read of a place. -/
def Coordinate.form : Json.Form := .flat ["x", "y"]

/-- A place from a record. -/
def Coordinate.ofJson? (j : Json) : Option Coordinate := do
  let r ← j.asFields Coordinate.form.names
  let x ← r.required "x" Json.asBinary64
  let y ← r.required "y" Json.asBinary64
  some ⟨x, y⟩

/-- The state of a turnout by name. -/
def TurnoutState.toJson (s : TurnoutState) : Json := .string s.name

/-- The state of a turnout from its name. -/
def TurnoutState.ofJson? (j : Json) : Option TurnoutState := j.asName TurnoutState.ofName?

/-- The state of a turnout from its name inside a node. -/
def TurnoutState.ofTagged? (j : Json) : Option TurnoutState := j.asTaggedName TurnoutState.ofName?

/-! ## Nodes -/

namespace Turnout

/-- The fields of a turnout. -/
def fields (t : Turnout) : List (String × Json) :=
  [("id", .ofInt t.id), ("name", .string t.name), ("coordinate", t.coordinate.toJson),
   ("state", t.state.toJson), ("primaryDirection", .ofInt t.primary),
   ("secondaryDirection", .ofInt t.secondary)]

/-- A turnout as a record. -/
def toJson (t : Turnout) : Json := .object t.fields

/-- A turnout from a record, by how its state is read. -/
def ofRecord? (stateOf : Json → Option TurnoutState) (j : Json) : Option Turnout := do
  let r ← j.asFields ["id", "name", "coordinate", "state", "primaryDirection", "secondaryDirection"]
  let id ← r.required "id" Json.asInt64
  let name ← r.required "name" Json.asString
  let coordinate ← r.withDefault "coordinate" .origin Coordinate.ofJson?
  let state ← r.withDefault "state" .closed stateOf
  let primary ← r.required "primaryDirection" Json.asInt64
  let secondary ← r.required "secondaryDirection" Json.asInt64
  some ⟨id, name, coordinate, state, primary, secondary⟩

/-- A turnout from a record. -/
def ofJson? (j : Json) : Option Turnout := ofRecord? TurnoutState.ofJson? j

end Turnout

namespace Destination

/-- The fields of a destination. -/
def fields (d : Destination) : List (String × Json) :=
  [("id", .ofInt d.id), ("name", .string d.name), ("description", .string d.description),
   ("coordinate", d.coordinate.toJson)]

/-- A destination as a record. -/
def toJson (d : Destination) : Json := .object d.fields

/-- A destination from a record. -/
def ofJson? (j : Json) : Option Destination := do
  let r ← j.asFields ["id", "name", "description", "coordinate"]
  let id ← r.required "id" Json.asInt64
  let name ← r.required "name" Json.asString
  let description ← r.withDefault "description" "" Json.asString
  let coordinate ← r.withDefault "coordinate" .origin Coordinate.ofJson?
  some ⟨id, name, description, coordinate⟩

end Destination

namespace Node

/-- A node as a record that begins with its kind. -/
def toJson : Node → Json
  | turnout t => .object (("type", .string "turnout") :: t.fields)
  | destination d => .object (("type", .string "destination") :: d.fields)

/-- A node from a record with its kind. -/
def ofJson? (j : Json) : Option Node := do
  let (kind, record) ← j.splitTag "type"
  if kind = "turnout" then (Turnout.ofRecord? TurnoutState.ofTagged? record).map turnout
  else if kind = "destination" then (Destination.ofJson? record).map destination
  else none

end Node

/-! ## Links and routes -/

namespace Link

/-- A link as a record. -/
def toJson (l : Link) : Json :=
  .object [("id", .ofInt l.id), ("length", .ofNat l.length), ("start", .ofInt l.start),
    ("end", .ofInt l.finish), ("points", .ofList Coordinate.toJson l.points)]

/-- What is read of a link. -/
def form : Json.Form :=
  .record [("id", .whole), ("length", .whole), ("start", .whole), ("end", .whole),
    ("points", .list Coordinate.form)]

/-- A link from a record. -/
def ofJson? (j : Json) : Option Link := do
  let r ← j.asFields form.names
  let id ← r.required "id" Json.asInt64
  let length ← r.required "length" (Json.asWord maxWord32)
  let start ← r.required "start" Json.asInt64
  let finish ← r.required "end" Json.asInt64
  let points ← r.withDefault "points" [] (Json.asList Coordinate.ofJson?)
  some ⟨id, length, start, finish, points⟩

end Link

/-- A turnout and its wanted state as a record. -/
def Setting.toJson (s : Setting) : Json :=
  .object [("id", .ofInt s.turnout), ("state", s.state.toJson)]

/-- A route as a record. -/
def Route.toJson (r : Route) : Json :=
  .object [("start", r.start.toJson), ("end", r.finish.toJson),
    ("turnouts", .ofList Setting.toJson r.settings), ("links", .ofList Link.toJson r.links)]

/-- Components as a record. -/
def Components.toJson (c : Components) : Json :=
  .object [("destinations", .ofList Json.ofInt c.destinations),
    ("turnouts", .ofList Json.ofInt c.turnouts), ("links", .ofList Json.ofInt c.links)]

/-! ## The graph -/

/-- The name of a leg. -/
def Leg.name : Leg → String
  | primary => "primary"
  | secondary => "secondary"

/-- An exit as an array. -/
def Exit.toJson (e : Exit) : Json := .array [.ofInt e.vertex, .ofInt e.link, .ofNat e.length]

/-- A vertex as an array: its id, whether it has legs, and the legs. -/
def Vertex.toJson (v : Vertex) : Json :=
  match v.legs with
  | some legs => .array [.ofInt v.id, .bool true, .ofInt legs.primary, .ofInt legs.secondary]
  | none => .array [.ofInt v.id, .bool false]

/-- The fields of a path. -/
def Path.fields (p : Path) : List (String × Json) :=
  [("nodes", .ofList Json.ofInt p.nodes), ("length", .ofNat p.length)]

end Signalbox
