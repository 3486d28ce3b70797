/-
  Signalbox/Text/Utf8.lean --- texts as bytes.

  Three things a byte stream needs: the bytes of a text, the text of bytes that
  may not be well formed, and the longest leading part of a text that fits a
  number of bytes.  Bytes are cut into pieces, each a character or a maximal run
  that could still have begun one; a reader that wants text at any price puts a
  replacement character in the place of such a run.
-/

set_option autoImplicit false

namespace Signalbox.Text

/-! ## Encoding -/

/-- The bytes of a text. -/
def utf8 (cs : List Char) : List UInt8 := cs.flatMap String.utf8EncodeChar

/-- The number of bytes of a text. -/
def utf8Size (cs : List Char) : Nat := cs.foldl (fun size c => size + c.utf8Size) 0

/-- The longest leading part of a text that has at most `capacity` bytes. -/
def fitting (capacity : Nat) : List Char → List Char
  | [] => []
  | c :: cs => if c.utf8Size ≤ capacity then c :: fitting (capacity - c.utf8Size) cs else []

theorem fitting_nil (capacity : Nat) : fitting capacity [] = [] := rfl

/-! ## Decoding -/

/-- The character that stands for bytes that are not UTF-8. -/
def replacement : Char := Char.ofNat 0xFFFD

/-- Whether a byte is one of the bytes `low` to `high`. -/
def byteIn (low high b : UInt8) : Bool := low ≤ b && b ≤ high

/-- Whether a byte continues a character. -/
def isTail (b : UInt8) : Bool := byteIn 0x80 0xBF b

/-- The second bytes that may follow a first byte of a longer character. -/
def secondRange (first : UInt8) : UInt8 × UInt8 :=
  if first == 0xE0 then (0xA0, 0xBF)
  else if first == 0xED then (0x80, 0x9F)
  else if first == 0xF0 then (0x90, 0xBF)
  else if first == 0xF4 then (0x80, 0x8F)
  else (0x80, 0xBF)

/-- How many bytes a character has that begins with this byte; 0 for none. -/
def lengthOf (first : UInt8) : Nat :=
  if first < 0x80 then 1
  else if byteIn 0xC2 0xDF first then 2
  else if byteIn 0xE0 0xEF first then 3
  else if byteIn 0xF0 0xF4 first then 4
  else 0

/-- The low six bits of a byte that continues a character. -/
def tailBits (b : UInt8) : Nat := b.toNat % 64

/-- The character that the bytes open with, and how many bytes it takes after the
first; where there is none, how many bytes could have belonged to it. -/
def decodeHead (first : UInt8) (rest : List UInt8) : Option Char × Nat :=
  let second := secondRange first
  match lengthOf first, rest with
  | 1, _ => (some (Char.ofNat first.toNat), 0)
  | 2, b :: _ =>
    if isTail b then (some (Char.ofNat ((first.toNat % 32) * 64 + tailBits b)), 1)
    else (none, 0)
  | 3, b :: c :: _ =>
    if byteIn second.1 second.2 b then
      if isTail c then
        (some (Char.ofNat ((first.toNat % 16) * 4096 + tailBits b * 64 + tailBits c)), 2)
      else (none, 1)
    else (none, 0)
  | 3, [b] => (none, if byteIn second.1 second.2 b then 1 else 0)
  | 4, b :: c :: d :: _ =>
    if byteIn second.1 second.2 b then
      if isTail c then
        if isTail d then
          (some (Char.ofNat ((first.toNat % 8) * 262144 + tailBits b * 4096 + tailBits c * 64
            + tailBits d)), 3)
        else (none, 2)
      else (none, 1)
    else (none, 0)
  | 4, [b, c] =>
    (none, if byteIn second.1 second.2 b then if isTail c then 2 else 1 else 0)
  | 4, [b] => (none, if byteIn second.1 second.2 b then 1 else 0)
  | _, _ => (none, 0)

/-- The characters of the bytes, with none for each piece that is not UTF-8. -/
def pieces : List UInt8 → List (Option Char)
  | [] => []
  | first :: rest =>
    let head := decodeHead first rest
    head.1 :: pieces (rest.drop head.2)
termination_by bytes => bytes.length
decreasing_by simp only [List.length_drop, List.length_cons]; omega

theorem pieces_nil : pieces [] = [] := by rw [pieces]

/-- The text of the bytes, with a replacement character for each piece that is not
UTF-8. -/
def ofUtf8 (bytes : List UInt8) : List Char := (pieces bytes).map (·.getD replacement)

/-- The text of bytes that are UTF-8 throughout. -/
def ofUtf8? (bytes : List UInt8) : Option (List Char) := (pieces bytes).mapM id

end Signalbox.Text
