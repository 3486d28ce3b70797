import Signalbox.Hardware.Request
import Signalbox.Text.Blank
import Signalbox.Text.Utf8

/-
  Signalbox/Hardware/Packet.lean --- the packets of a command station.

  A packet is a text in angle brackets.  Requests are written as packets; what the
  station sends is a stream of bytes in which packets are found: whatever stands
  outside brackets is passed over, and a packet ends at the first closing bracket
  after its opening one.

  The reader of the stream keeps the bytes that it has not used yet.  The bytes may
  arrive in pieces of any size: a piece is added at the end, and packets are taken
  from the front.
-/

set_option autoImplicit false

namespace Signalbox

/-! ## Writing -/

/-- One for on and nought for off. -/
def onOff (on : Bool) : String := if on then "1" else "0"

namespace Request

/-- The packet that stops a loco at once. -/
def stopPacket (address : Nat) : String := "<t 1 " ++ Text.ofNat address ++ " -1 1>"

/-- The packet of a request.  A speed in the direction stopped stops the loco at once. -/
def packet : Request → String
  | speed address _ .stopped => stopPacket address
  | speed address step direction =>
    "<t 1 " ++ Text.ofNat address ++ " " ++ Text.ofNat step ++ " " ++ Text.ofInt direction.code
      ++ ">"
  | emergencyStop address => stopPacket address
  | power on => "<" ++ onOff on ++ ">"
  | turnout id state => "<T " ++ Text.ofInt id ++ " " ++ Text.ofNat state.code ++ ">"
  | function address number on =>
    "<F " ++ Text.ofNat address ++ " " ++ Text.ofNat number ++ " " ++ onOff on ++ ">"

end Request

/-- The packet that asks a station for its status. -/
def statusPacket : String := "<s>"

/-! ## Reading -/

namespace PacketStream

/-- The bytes of the two brackets. -/
def openByte : UInt8 := 60
def closeByte : UInt8 := 62

/-- The bytes up to and with the first closing bracket, and those after it. -/
def upToClose : List UInt8 → Option (List UInt8 × List UInt8)
  | [] => none
  | b :: bs =>
    if b = closeByte then some ([b], bs)
    else (upToClose bs).map fun (packet, rest) => (b :: packet, rest)

/-- The first packet of the bytes kept, and the bytes to keep.  Without an opening
bracket nothing needs to be kept; with an open packet everything is. -/
def take (kept : List UInt8) : Option String × List UInt8 :=
  match kept.dropWhile (· != openByte) with
  | [] => (none, [])
  | begun =>
    match upToClose begun with
    | some (packet, rest) => (some (String.ofList (Text.ofUtf8 packet)), rest)
    | none => (none, kept)

/-- All packets of the bytes kept, and the bytes to keep. -/
def takeAll : Nat → List UInt8 → List String × List UInt8
  | 0, kept => ([], kept)
  | fuel + 1, kept =>
    match take kept with
    | (some packet, rest) =>
      let (packets, rest) := takeAll fuel rest
      (packet :: packets, rest)
    | (none, rest) => ([], rest)

/-- The packets that are complete when a piece has arrived, and the bytes to keep. -/
def feed (kept piece : List UInt8) : List String × List UInt8 :=
  takeAll ((kept ++ piece).length + 1) (kept ++ piece)

/-- The packets that the pieces of a stream complete, one after another. -/
def packetsOf (kept : List UInt8) : List (List UInt8) → List String
  | [] => []
  | piece :: rest =>
    let (packets, kept) := feed kept piece
    packets ++ packetsOf kept rest

end PacketStream

/-! ## Announcements -/

/-- Whether a packet is the station announcing itself. -/
def isBanner (packet : String) : Bool :=
  match packet.toList with
  | '<' :: 'i' :: _ => true
  | _ => false

/-- A text without the openings that it begins with. -/
def dropOpenings : List Char → List Char
  | '<' :: 'i' :: cs => dropOpenings cs
  | cs => cs

/-- What a station says of itself: its announcement without brackets and blanks. -/
def bannerText (packet : String) : String :=
  let inner := dropOpenings packet.toList
  String.ofList (Text.trim (inner.reverse.dropWhile (· == '>')).reverse)

end Signalbox
