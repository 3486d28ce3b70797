import Signalbox.Proofs.Hardware.Packets
import Signalbox.Proofs.Json.Bytes
import Signalbox.Proofs.Text

/-
  Signalbox/Proofs/Hardware/Wire.lean --- a packet says which request it is.

  A packet is a letter, if it has one, and numbers, with a space between any two and
  brackets around all.  Letter and numbers are read off the packet again, and they
  make up the request, but for one thing: a loco that is sent in the direction stopped
  is told no more than one that is stopped at once.

  Packets one behind the other are taken apart at the brackets, since no packet has
  one inside.
-/

set_option autoImplicit false

namespace Signalbox

/-! ## Words and bytes -/

namespace Text

/-- Words with one space between are the words of the text that they make up. -/
theorem words_intercalate {ws : List (List Char)}
    (h : ∀ w ∈ ws, w ≠ [] ∧ ∀ c ∈ w, isBlank c = false) : words ([' '].intercalate ws) = ws := by
  induction ws with
  | nil => rfl
  | cons w ws ih =>
    obtain ⟨hne, hw⟩ := h w List.mem_cons_self
    have hws := ih fun v hv => h v (List.mem_cons_of_mem w hv)
    cases ws with
    | nil => rw [List.intercalate_singleton, words_eq_self hne hw]
    | cons v ws =>
      rw [List.intercalate_cons_cons, List.append_assoc, List.singleton_append,
        words_append_blank hw hne (by decide), hws]

/-- A byte of a character is the character itself, or it is none below 128. -/
theorem toNat_of_mem_utf8EncodeChar {b : UInt8} {c : Char} (h : b ∈ String.utf8EncodeChar c) :
    b.toNat = c.toNat ∨ 128 ≤ b.toNat := by
  have hvalid : c.toNat < 0xD800 ∨ (0xDFFF < c.toNat ∧ c.toNat < 0x110000) := c.valid
  have hval : c.val.toNat = c.toNat := rfl
  unfold String.utf8EncodeChar at h
  simp only [hval] at h
  generalize c.toNat = v at *
  split at h
  · rw [List.mem_singleton.mp h]
    exact .inl (toNat_ofNat (by omega))
  · -- Every byte of a longer character has its highest bit set.
    right
    split at h
    · simp only [List.mem_cons, List.not_mem_nil, or_false] at h
      rcases h with rfl | rfl <;> rw [toNat_ofNat (by omega)] <;> omega
    · split at h
      · simp only [List.mem_cons, List.not_mem_nil, or_false] at h
        rcases h with rfl | rfl | rfl <;> rw [toNat_ofNat (by omega)] <;> omega
      · simp only [List.mem_cons, List.not_mem_nil, or_false] at h
        rcases h with rfl | rfl | rfl | rfl <;> rw [toNat_ofNat (by omega)] <;> omega

/-- The byte of a character below 128 stands in a text only for that character. -/
theorem mem_of_mem_utf8 {cs : List Char} {c : Char} (hc : c.toNat < 128)
    (h : UInt8.ofNat c.toNat ∈ utf8 cs) : c ∈ cs := by
  obtain ⟨d, hd, hmem⟩ := List.mem_flatMap.mp h
  have hbyte : (UInt8.ofNat c.toNat).toNat = c.toNat := toNat_ofNat (by omega)
  have hsame : d.toNat = c.toNat := by
    have := toNat_of_mem_utf8EncodeChar hmem
    omega
  rwa [← Char.ofNat_toNat c, ← hsame, Char.ofNat_toNat]

end Text

namespace Request

open PacketStream

/-! ## Letter and numbers -/

/-- The request that the packet says: to send a loco in the direction stopped is to stop it at
once. -/
def understood : Request → Request
  | speed address _ .stopped => emergencyStop address
  | r => r

/-- The letter of the packet; that of a power request has none. -/
def letter? : Request → Option Char
  | speed _ _ _ => some 't'
  | emergencyStop _ => some 't'
  | power _ => none
  | turnout _ _ => some 'T'
  | function _ _ _ => some 'F'

/-- One for on and nought for off, as a number. -/
def switch (on : Bool) : Int := if on then 1 else 0

/-- The numbers of the packet. -/
def numbers : Request → List Int
  | speed address _ .stopped => [1, address, -1, 1]
  | speed address step direction => [1, address, step, direction.code]
  | emergencyStop address => [1, address, -1, 1]
  | power on => [switch on]
  | turnout id state => [id, state.code]
  | function address number on => [address, number, switch on]

/-- What stands between the brackets, word by word. -/
def fields (r : Request) : List (List Char) :=
  r.letter?.toList.map ([·]) ++ r.numbers.map fun n => (Text.ofInt n).toList

theorem toList_onOff (on : Bool) : (onOff on).toList = (Text.ofInt (switch on)).toList := by
  cases on <;> rfl

theorem toList_packet (r : Request) :
    r.packet.toList = '<' :: ([' '].intercalate r.fields ++ ['>']) := by
  have hone : (Text.ofInt 1).toList = ['1'] := rfl
  have hminus : (Text.ofInt (-1)).toList = ['-', '1'] := rfl
  have hnat (n : Nat) : (Text.ofInt n).toList = (Text.ofNat n).toList := rfl
  cases r with
  | speed address step direction =>
    cases direction <;>
      simp [packet, stopPacket, fields, letter?, numbers, List.intercalate_cons_cons, hone, hnat,
        hminus]
  | emergencyStop address =>
    simp [packet, stopPacket, fields, letter?, numbers, List.intercalate_cons_cons, hone, hnat,
      hminus]
  | power on => simp [packet, fields, letter?, numbers, toList_onOff]
  | turnout id state =>
    simp [packet, fields, letter?, numbers, List.intercalate_cons_cons, hnat]
  | function address number on =>
    simp [packet, fields, letter?, numbers, List.intercalate_cons_cons, hnat, toList_onOff]

/-! ## Reading the fields -/

/-- A letter is no number, and none of the characters that part the fields. -/
theorem of_letter? {r : Request} {c : Char} (h : r.letter? = some c) :
    Text.integer? [c] = none ∧ Text.isBlank c = false ∧ c ≠ '>' := by
  cases r <;> simp only [letter?, Option.some.injEq, reduceCtorEq] at h <;> subst h <;> decide

theorem mem_fields {r : Request} {w : List Char} (h : w ∈ r.fields) :
    (∃ c, r.letter? = some c ∧ w = [c]) ∨ ∃ n, w = (Text.ofInt n).toList := by
  rcases List.mem_append.mp h with h | h
  · obtain ⟨c, hc, rfl⟩ := List.mem_map.mp h
    exact .inl ⟨c, Option.mem_toList.mp hc, rfl⟩
  · obtain ⟨n, -, rfl⟩ := List.mem_map.mp h
    exact .inr ⟨n, rfl⟩

/-- The fields are words. -/
theorem isWord_of_mem_fields {r : Request} {w : List Char} (h : w ∈ r.fields) :
    w ≠ [] ∧ ∀ c ∈ w, Text.isBlank c = false := by
  rcases mem_fields h with ⟨c, hc, rfl⟩ | ⟨n, rfl⟩
  · simpa using (of_letter? hc).2.1
  · exact ⟨Text.ofInt_ne_nil n, fun c hc =>
      Text.isBlank_of_isNumeric (Text.isNumeric_of_mem_ofInt hc)⟩

/-- No bracket closes inside a packet. -/
theorem not_mem_intercalate_fields (r : Request) : '>' ∉ [' '].intercalate r.fields := by
  intro h
  rcases Text.mem_intercalate h with h | ⟨w, hw, h⟩
  · simp at h
  · rcases mem_fields hw with ⟨c, hc, rfl⟩ | ⟨n, rfl⟩
    · exact (of_letter? hc).2.2 (List.mem_singleton.mp h).symm
    · exact Text.ne_of_isNumeric (Text.isNumeric_of_mem_ofInt h) (by decide) rfl

/-- The numbers of a packet are the fields that are read as numbers. -/
theorem filterMap_fields (r : Request) : r.fields.filterMap Text.integer? = r.numbers := by
  have hletter : (r.letter?.toList.map ([·])).filterMap Text.integer? = [] := by
    rw [List.filterMap_eq_nil_iff]
    intro w hw
    obtain ⟨c, hc, rfl⟩ := List.mem_map.mp hw
    exact (of_letter? (Option.mem_toList.mp hc)).1
  rw [fields, List.filterMap_append, hletter, List.nil_append, List.filterMap_map]
  simp [Text.integer?_ofInt]

/-- The letter is the field that is not. -/
theorem head?_fields (r : Request) :
    (r.fields.filter fun w => (Text.integer? w).isNone).flatten.head? = r.letter? := by
  have hletter : (r.letter?.toList.map ([·])).filter (fun w => (Text.integer? w).isNone) =
      r.letter?.toList.map ([·]) := by
    rw [List.filter_eq_self]
    intro w hw
    obtain ⟨c, hc, rfl⟩ := List.mem_map.mp hw
    simp [(of_letter? (Option.mem_toList.mp hc)).1]
  have hnumbers : (r.numbers.map fun n => (Text.ofInt n).toList).filter
      (fun w => (Text.integer? w).isNone) = [] := by
    rw [List.filter_eq_nil_iff]
    intro w hw
    obtain ⟨n, -, rfl⟩ := List.mem_map.mp hw
    simp [Text.integer?_ofInt]
  rw [fields, List.filter_append, hletter, hnumbers, List.append_nil]
  cases r.letter? <;> rfl

/-! ## One packet -/

theorem packet_understood (r : Request) : r.understood.packet = r.packet := by
  cases r with
  | speed address step direction => cases direction <;> rfl
  | _ => rfl

/-- The request that a letter and numbers make up; a speed below nought is an emergency stop. -/
def ofParts? : Option Char → List Int → Option Request
  | some 't', [_, address, step, code] =>
    if step < 0 then some (emergencyStop address.toNat)
    else some (speed address.toNat step.toNat (if code = 1 then .forward else .reverse))
  | none, [on] => some (power (on = 1))
  | some 'T', [id, state] => some (turnout id (if state = 1 then .thrown else .closed))
  | some 'F', [address, number, on] => some (function address.toNat number.toNat (on = 1))
  | _, _ => none

theorem ofParts?_numbers (r : Request) : ofParts? r.letter? r.numbers = some r.understood := by
  have hon (on : Bool) : decide (switch on = 1) = on := by cases on <;> rfl
  cases r with
  | speed address step direction =>
    have hstep : ¬ (step : Int) < 0 := by omega
    cases direction <;> simp [letter?, numbers, understood, ofParts?, Direction.code, hstep]
  | emergencyStop address => simp [letter?, numbers, understood, ofParts?]
  | power on => simp [letter?, numbers, understood, ofParts?, hon]
  | turnout id state =>
    cases state <;> simp [letter?, numbers, understood, ofParts?, TurnoutState.code]
  | function address number on => simp [letter?, numbers, understood, ofParts?, hon]

/-- A packet says its request. -/
theorem packet_eq_packet_iff {r r' : Request} :
    r.packet = r'.packet ↔ r.understood = r'.understood := by
  constructor
  · intro h
    have hchars := congrArg String.toList h
    rw [toList_packet, toList_packet] at hchars
    have hinner := List.append_cancel_right (List.cons.inj hchars).2
    have hfields : r.fields = r'.fields := by
      rw [← Text.words_intercalate fun w hw => isWord_of_mem_fields (r := r) hw, hinner,
        Text.words_intercalate fun w hw => isWord_of_mem_fields (r := r') hw]
    have hletter : r.letter? = r'.letter? := by
      rw [← head?_fields, hfields, head?_fields]
    have hnumbers : r.numbers = r'.numbers := by
      rw [← filterMap_fields, hfields, filterMap_fields]
    apply Option.some.inj
    rw [← ofParts?_numbers, hletter, hnumbers, ofParts?_numbers]
  · intro h
    rw [← packet_understood, h, packet_understood]

/-! ## Packets one behind the other -/

/-- The bytes of the packet. -/
def bytes (r : Request) : List UInt8 := Text.utf8 r.packet.toList

theorem packetText_bytes (r : Request) : packetText r.bytes = r.packet := by
  rw [packetText, bytes, Text.ofUtf8, Text.pieces_utf8, List.map_map]
  simp [Function.comp_def]

theorem bytes_eq (r : Request) :
    r.bytes = openByte :: (Text.utf8 ([' '].intercalate r.fields) ++ [closeByte]) := by
  rw [bytes, toList_packet]
  simp only [Text.utf8, List.flatMap_cons, List.flatMap_append, List.flatMap_nil, List.append_nil]
  rfl

/-- The packets of the bytes that are written for requests are those of the requests. -/
theorem hasPackets_bytes (requests : List Request) :
    HasPackets (requests.flatMap bytes) (requests.map bytes) := by
  induction requests with
  | nil => exact .rest isIncomplete_nil
  | cons r requests ih =>
    have hclose : closeByte ∉ Text.utf8 ([' '].intercalate r.fields) := fun h =>
      r.not_mem_intercalate_fields (Text.mem_of_mem_utf8 (c := '>') (by decide) h)
    have hpackets := HasPackets.packet List.not_mem_nil hclose ih
    rw [List.flatMap_cons, List.map_cons, bytes_eq]
    simpa using hpackets

/-- Whatever the pieces in which the packets of some requests arrive, the reader finds these
packets in their order.  And a packet says its request: two requests have the same packet exactly
if they are the same, a loco sent in the direction stopped being one that is stopped at once. -/
theorem packetsOf_requests (requests : List Request) (pieces : List (List UInt8))
    (h : pieces.flatten = requests.flatMap bytes) :
    packetsOf [] pieces = requests.map packet ∧
      ∀ r r' : Request, r.packet = r'.packet ↔ r.understood = r'.understood := by
  refine ⟨?_, fun r r' => packet_eq_packet_iff⟩
  obtain ⟨packets, hpackets, htexts⟩ := packetsOf_hasPackets isIncomplete_nil pieces
  rw [List.nil_append, h] at hpackets
  rw [htexts, hpackets.unique (hasPackets_bytes requests), List.map_map]
  exact List.map_congr_left fun r _ => packetText_bytes r

/-- A turnout with a negative number and a speed in reverse, in pieces that part the first
packet; a loco sent in the direction stopped is stopped at once. -/
theorem packetsOf_requests_parted :
    packetsOf [] [Text.utf8 "<T -1".toList, Text.utf8 "2 1><t 1 3 40 0>".toList] =
        ["<T -12 1>", "<t 1 3 40 0>"] ∧
      (speed 3 40 .stopped).packet = (emergencyStop 3).packet := by
  obtain ⟨hpackets, hsame⟩ := packetsOf_requests [turnout (-12) .thrown, speed 3 40 .reverse]
    [Text.utf8 "<T -1".toList, Text.utf8 "2 1><t 1 3 40 0>".toList]
    (by decide +kernel)
  exact ⟨hpackets.trans (by decide +kernel), (hsame _ _).mpr rfl⟩

end Request

end Signalbox
