import Signalbox.Hardware.Adapter
import Signalbox.Layout.Interlocking
import Signalbox.Run.Basic
import Signalbox.Run.Error

/-
  Signalbox/Control/Operation.lean --- what a controller is asked to do.

  An operation asks for a change and has one reply.  What only asks a question is no
  operation: it is answered from the state of the controller as it is.
-/

set_option autoImplicit false

namespace Signalbox

/-- What is done to a loco through a handle. -/
inductive LocoAct where
  | speed (speed : Nat)
  | direction (d : Direction)
  | drive (d : Direction) (speed : Nat)
  | emergencyStop
  | function (number : Nat) (on : Bool)
  deriving DecidableEq, Repr

/-- A request for a change. -/
inductive Operation where
  -- Layout.
  | setTurnout (id : NodeId) (state : TurnoutState)
  | setRoute (start finish : NodeId)
  | clearRoute (id : RouteId)
  | moveNode (id : NodeId) (coordinate : Coordinate)
  -- Locos.
  | addLoco (name : String) (address : Nat)
  | editLoco (id : LocoId) (name : Option String) (address : Option Nat)
  | deleteLoco (id : LocoId)
  | loadLocos
  | setSpeed (id : LocoId) (speed : Nat)
  | setDirection (id : LocoId) (d : Direction)
  | toggleDirection (id : LocoId)
  | setFunction (id : LocoId) (number : Nat) (on : Bool)
  | syncLoco (address : Nat) (level : SyncLevel)
  | actOn (handle : LocoHandle) (act : LocoAct)
  | setPower (on : Bool)
  -- Scripts.
  | upload (text : String)
  | loadScripts
  | deleteScript (id : Int)
  | describe (id : Int) (text : String)
  -- Runs.
  | runScript (id : Int) (loco : Option LocoId)
  | trigger (event : String)
  | pause (pid : Pid)
  | resume (pid : Pid)
  | stop (pid : Pid)
  -- Hardware.
  | request (r : Request)
  | selectDriver (name : String) (address : Option String)
  | selectDevice (d : Device)
  | switchTo (d : Device) (attempt : Attempt)

/-- Why an operation fails. -/
inductive Failure where
  | layout (e : LayoutError)
  | loco (e : LocoError)
  | run (e : RunError)
  | driver (e : DriverError)
  deriving DecidableEq, Repr

/-- The wording of the failure. -/
def Failure.message : Failure → String
  | layout e => e.message
  | loco e => e.message
  | run e => e.message
  | driver e => e.message

/-- The reply to an operation. -/
inductive Reply where
  | done
  | route (id : RouteId) (r : Route)
  | components (c : Components)
  | loco (l : Loco)
  | direction (d : Direction)
  | power (on : Bool)
  | count (n : Nat)
  | ids (scripts : List Int)
  | started (pid : Option Pid)
  /-- A replay has ended, or there was none. -/
  | replayed (text : Option String)
  /-- A command was let start or not, and the log of its run after that. -/
  | began (started : Bool) (current : List String)
  | failed (f : Failure)
  deriving DecidableEq, Repr

end Signalbox
