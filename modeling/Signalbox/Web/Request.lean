import Signalbox.Json.Decode
import Signalbox.Text.Parts
import Signalbox.Text.Utf8
import Signalbox.Web.MediaType

/-
  Signalbox/Web/Request.lean --- requests and responses of the web interface.

  A request has a method, a target, perhaps a content type, and a body, which may be
  empty.  A target is a path, or a whole address: a scheme, a host and then the path,
  where only the path matters.  The path ends before a question mark or a hash sign;
  bytes in its segments may be written as a percent sign and two digits.
-/

set_option autoImplicit false

namespace Signalbox

/-- A request. -/
structure WebRequest where
  method : String
  target : String
  contentType : Option String
  body : String
  deriving DecidableEq, Repr

/-- A response: its status, its body if that is JSON, and the origin that may read it. -/
structure WebResponse where
  status : Nat
  body : Option Json
  allowOrigin : Option String
  deriving Repr

namespace WebRequest

/-! ## Paths -/

/-- Whether a character ends the path. -/
def endsPath (c : Char) : Bool := c == '?' || c == '#'

/-- Whether a character may stand in a scheme. -/
def isSchemeChar (c : Char) : Bool := c.isAlphanum || ['+', '-', '.', '~'].contains c

/-- What follows the scheme of an address, if the target is one. -/
def afterScheme? (target : List Char) : Option (List Char) :=
  Json.after? "://".toList (target.dropWhile isSchemeChar)

/-- The path of a target; that of an address without one is the root. -/
def pathOf (target : List Char) : List Char :=
  match afterScheme? target with
  | some rest =>
    match (rest.dropWhile fun c => c != '/' && !endsPath c).takeWhile fun c => !endsPath c with
    | [] => ['/']
    | path => path
  | none => target.takeWhile fun c => !endsPath c

/-- The segments of the path, after the slash that it begins with. -/
def segments (r : WebRequest) : Option (List (List Char)) :=
  match pathOf r.target.toList with
  | '/' :: path => some (Text.parts '/' path)
  | _ => none

/-- The bytes of a segment, with escapes resolved; what is no escape stays as it is. -/
def unescape : List Char → List UInt8
  | '%' :: a :: b :: cs =>
    match Json.hexValue? a, Json.hexValue? b with
    | some high, some low => UInt8.ofNat (16 * high + low) :: unescape cs
    | _, _ => 37 :: unescape (a :: b :: cs)
  | c :: cs => String.utf8EncodeChar c ++ unescape cs
  | [] => []

/-- The text of a segment, if its bytes are one. -/
def segmentText? (segment : List Char) : Option (List Char) := Text.ofUtf8? (unescape segment)

/-! ## Bodies -/

/-- Whether the body claims to be JSON. -/
def claimsJson (r : WebRequest) : Bool :=
  (r.contentType.bind MediaType.ofText?).any (·.isJson)

end WebRequest

end Signalbox
