import Signalbox.Text.Integer

/-
  Signalbox/Layout/Error.lean --- why a request to the layout is refused.
-/

set_option autoImplicit false

namespace Signalbox

/-- A reason to refuse a route, a turnout change or a move on the diagram. -/
inductive LayoutError where
  /-- No legal path joins the two nodes. -/
  | noPath
  /-- The two ends of the route are the same. -/
  | sameEnds
  | unknownNode (id : Int)
  | notADestination (id : Int)
  | unknownTurnout (id : Int)
  | unknownRoute (id : Nat)
  /-- The change could not be saved, for the reason that the text gives. -/
  | notSaved (reason : String)
  deriving DecidableEq, Repr

/-- The wording of the error. -/
def LayoutError.message : LayoutError → String
  | noPath => "Bad route"
  | sameEnds => "Not possible"
  | unknownNode id => "Unknown node " ++ Text.ofInt id
  | notADestination id => "Node " ++ Text.ofInt id ++ " is not a destination"
  | unknownTurnout id => "Unknown turnout " ++ Text.ofInt id
  | unknownRoute id => "Unknown route " ++ Text.ofNat id
  | notSaved reason => "Storage error: " ++ reason

end Signalbox
