import Signalbox.Json.Decode
import Signalbox.Script.Compile

/-
  Signalbox/Script/Document.lean --- symbols, commands and scripts as JSON.

  A command is an array: its keyword, its argument if it has one, and for a test the
  array of the commands that it guards.
-/

set_option autoImplicit false

namespace Signalbox

/-- A symbol as a record, with its display. -/
def Symbol.toJson (s : Symbol) : Json :=
  .object [("name", .string s.name), ("args", .ofList Json.string s.args),
    ("display", .string s.display)]

/-- A symbol from a record. -/
def Symbol.ofJson? (j : Json) : Option Symbol := do
  let r ← j.asFields ["name", "args"]
  let name ← r.required "name" Json.asString
  let args ← r.required "args" (Json.asList Json.asString)
  some ⟨name, args⟩

namespace Command

mutual

/-- A command as an array. -/
def toJson : Command → Json
  | .act a => .array (.string a.keyword :: (a.argument?.map Json.ofInt).toList)
  | .test wanted turnout body =>
    .array [.string (keyword (.test wanted turnout [])), .ofInt turnout, .array (bodyJson body)]

/-- The commands of a body as arrays. -/
def bodyJson : List Command → List Json
  | [] => []
  | c :: rest => toJson c :: bodyJson rest

end

mutual

/-- A command from an array. -/
def ofJson? : Json → Option Command
  | .array [.string name] => ((Opcode.ofName? name).bind (·.action? 0)).map .act
  | .array [.string name, .number n] => do
    let argument ← n.int64?
    let action ← (Opcode.ofName? name).bind (·.action? argument)
    some (.act action)
  | .array [.string name, .number n, .array items] => do
    let turnout ← n.int64?
    let body ← ofBody? items
    match Opcode.ofName? name with
    | some (.test wanted) => some (.test wanted turnout body)
    | _ => none
  | _ => none

/-- The commands of a body from arrays. -/
def ofBody? : List Json → Option (List Command)
  | [] => some []
  | item :: rest => do
    let c ← ofJson? item
    let cs ← ofBody? rest
    some (c :: cs)

end

end Command

/-- The event that starts a handler, as an array. -/
def TurnoutEvent.toJson (e : TurnoutEvent) : Json :=
  .array [.ofInt e.turnout, .string e.state.name]

/-- The fields of a script. -/
def Script.fields (s : Script) : List (String × Json) :=
  [("id", .ofInt s.id), ("name", .string s.name), ("description", .string s.description),
   ("kind", .string s.kind.name), ("trigger", .ofOption TurnoutEvent.toJson s.trigger),
   ("children", .array (Command.bodyJson s.children)), ("source", .string s.source),
   ("label", .string s.label), ("keyword", .string s.keyword), ("bindsLoco", .bool s.bindsLoco),
   ("eventHandlerType", .string s.handlerType)]

end Signalbox
