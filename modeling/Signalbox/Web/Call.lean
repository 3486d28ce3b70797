import Signalbox.Control.Operation
import Signalbox.Layout.Document
import Signalbox.Web.Body
import Signalbox.Web.Endpoint

/-
  Signalbox/Web/Call.lean --- what a request asks of the controller.

  A request asks for a view or for an operation, or it is turned away.  The path is
  looked at first, then the method, the parameter, the type of the body, and last
  the body itself.
-/

set_option autoImplicit false

namespace Signalbox

/-- Why a request is turned away. -/
inductive Rejection where
  | unknownPath
  | wrongMethod
  | wrongParameter
  | wrongType
  | wrongBody (fault : BodyFault)
  | wrongPid (text : String)
  deriving DecidableEq, Repr

/-- A view of the controller. -/
inductive View where
  | state
  | layout
  | routes
  | locos
  | scripts
  | runs
  | hardware
  deriving DecidableEq, Repr

/-- What a request asks for. -/
inductive WebCall where
  | look (v : View)
  | operate (op : Operation)

/-! ## Bodies -/

namespace WebRequest

/-- The record in the body. -/
def record {α : Type} (r : WebRequest) (form : List BodyField) (decode : Json → Option α) :
    Except Rejection α :=
  if r.claimsJson then
    match Body.read form r.body with
    | .error fault => .error (.wrongBody fault)
    | .ok v =>
      match decode v with
      | some a => .ok a
      | none => .error (.wrongBody .misshapen)
  else .error .wrongType

/-- A record of one field. -/
def single {α : Type} (r : WebRequest) (name : String) (decode : Json → Option α) :
    Except Rejection α :=
  r.record [.scalar name decode] fun v => v.fieldAs? name decode

/-- A record of one field with one of some names. -/
def named {α : Type} (r : WebRequest) (name : String) (named : String → Option α) :
    Except Rejection α :=
  r.record [.choice name named] fun v => v.fieldAs? name (Json.asName named)

/-- A record of two fields. -/
def pair {α β : Type} (r : WebRequest) (first second : String) (decodeFirst : Json → Option α)
    (decodeSecond : Json → Option β) : Except Rejection (α × β) :=
  r.record [.scalar first decodeFirst, .scalar second decodeSecond] fun v => do
    let a ← v.fieldAs? first decodeFirst
    let b ← v.fieldAs? second decodeSecond
    some (a, b)

/-- The loco that a body names for a run; a body that cannot be read names none. -/
def locoForRun (r : WebRequest) : Option LocoId :=
  let form : List BodyField := [.optional "loco" LocoId.ofJson?]
  match r.record form fun v => some (v.fieldAs? "loco" LocoId.ofJson?) with
  | .ok loco => loco
  | .error _ => none

end WebRequest

/-! ## Calls -/

namespace WebCall

/-- A parameter that is a number. -/
def number {α : Type} (decode : List Char → Option α) (parameter : List Char) :
    Except Rejection α :=
  match decode parameter with
  | some n => .ok n
  | none => .error .wrongParameter

/-- A parameter that is the name of a run. -/
def pid (parameter : List Char) : Except Rejection Pid :=
  let text := String.ofList parameter
  match Pid.ofText? text with
  | some p => .ok p
  | none => .error (.wrongPid text)

/-- An operation on the loco that a parameter means. -/
def onLoco (parameter : List Char) (op : LocoId → Operation) : Operation :=
  op (LocoId.ofText (String.ofList parameter))

/-- The operation that a request asks for, by its endpoint and parameter.  Where an
endpoint has several methods, all but one of them are told apart here. -/
def operation (r : WebRequest) (method : WebMethod) (parameter : List Char) :
    Endpoint → Except Rejection Operation
  | .turnout => do
    let id ← number Text.int64? parameter
    let state ← r.named "state" TurnoutState.ofName?
    return .setTurnout id state
  | .routes => do
    let (start, finish) ← r.pair "start" "end" Json.asInt64 Json.asInt64
    return .setRoute start finish
  | .route => do
    let id ← number (Text.word? maxWord32) parameter
    return .clearRoute id
  | .coordinate => do
    let id ← number Text.int64? parameter
    let c ← r.record [.scalar "x" Json.asBinary64, .scalar "y" Json.asBinary64] Coordinate.ofJson?
    return .moveNode id c
  | .locos => do
    let (name, address) ← r.pair "name" "address" Json.asString (Json.asWord maxWord16)
    return .addLoco name address
  | .loco =>
    if method = .delete then .ok (onLoco parameter .deleteLoco)
    else do
      let word := Json.asWord maxWord16
      let (name, address) ← r.record [.optional "name" Json.asString, .optional "address" word]
        fun v => some (v.fieldAs? "name" Json.asString, v.fieldAs? "address" word)
      return onLoco parameter fun id => .editLoco id name address
  | .speed => do
    let speed ← r.single "speed" (Json.asWord maxWord8)
    return onLoco parameter fun id => .setSpeed id speed
  | .direction => do
    let d ← r.named "direction" Direction.ofName?
    return onLoco parameter fun id => .setDirection id d
  | .toggle => .ok (onLoco parameter .toggleDirection)
  | .function => do
    let (n, on) ← r.pair "function" "state" (Json.asWord maxWord8) Json.asBool
    return onLoco parameter fun id => .setFunction id n on
  | .power => do
    let on ← r.single "state" Json.asBool
    return .setPower on
  | .scripts => do
    let text ← r.single "script" Json.asString
    return .upload text
  | .script => do
    let id ← number Text.int64? parameter
    return .deleteScript id
  | .description => do
    let id ← number Text.int64? parameter
    let text ← r.single "description" Json.asString
    return .describe id text
  | .run => do
    let id ← number Text.int64? parameter
    return .runScript id r.locoForRun
  | .pause => (pid parameter).map .pause
  | .resume => (pid parameter).map .resume
  | .stop => (pid parameter).map .stop
  | .driver => do
    let form : List BodyField := [.scalar "driver" Json.asString, .optional "address" Json.asString]
    let (name, address) ← r.record form fun v => do
      let name ← v.fieldAs? "driver" Json.asString
      some (name, v.fieldAs? "address" Json.asString)
    return .selectDriver name address
  | .device => do
    let form : List BodyField :=
      [.scalar "name" Json.asString, .scalar "driver" Json.asString,
       .optional "address" Json.asString]
    let d ← r.record form Device.ofJson?
    return .selectDevice d
  | .state | .layout | .runs | .hardware => .error .wrongMethod

/-- The view that an endpoint shows, if it shows one. -/
def view? : Endpoint → Option View
  | .state => some .state
  | .layout => some .layout
  | .routes => some .routes
  | .locos => some .locos
  | .scripts => some .scripts
  | .runs => some .runs
  | .hardware => some .hardware
  | _ => none

/-- Whether a method only looks. -/
def looks (method : WebMethod) : Bool := method = .get || method = .head

/-- What a request asks for. -/
def ofRequest (r : WebRequest) : Except Rejection WebCall :=
  match r.segments.bind Endpoint.ofSegments? with
  | none => .error .unknownPath
  | some (endpoint, written) =>
    let method := WebMethod.ofName r.method
    if !endpoint.methods.contains method then .error .wrongMethod
    else
      match WebRequest.segmentText? written with
      | none => .error .wrongParameter
      | some parameter =>
        match (view? endpoint).filter fun _ => looks method with
        | some v => .ok (.look v)
        | none => (operation r method parameter endpoint).map .operate

end WebCall

end Signalbox
