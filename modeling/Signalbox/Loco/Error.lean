import Signalbox.Hardware.Request
import Signalbox.Loco.Basic
import Signalbox.Store.Rows

/-
  Signalbox/Loco/Error.lean --- why a request about a loco is refused.
-/

set_option autoImplicit false

namespace Signalbox

/-- A reason to refuse a request about a loco. -/
inductive LocoError where
  | notFound
  | blankName
  | nameTaken (name : String)
  | addressRange (address : Nat)
  | addressTaken (address : Nat)
  | functionRange (number : Nat)
  | storage (e : StorageError)
  | hardware (e : DriverError)
  deriving DecidableEq, Repr

/-- The wording of the error. -/
def LocoError.message : LocoError → String
  | notFound => "Loco not found in store"
  | blankName => "Loco name must not be empty"
  | nameTaken name => "A loco named \"" ++ name ++ "\" already exists"
  | addressRange address =>
    "Address " ++ Text.ofNat address ++ " is outside 1-" ++ Text.ofNat maxAddress
  | addressTaken address => "Address " ++ Text.ofNat address ++ " is already in use"
  | functionRange number =>
    "Function " ++ Text.ofNat number ++ " is outside 0-" ++ Text.ofNat maxFunction
  | storage e => e.message
  | hardware e => e.message

end Signalbox
