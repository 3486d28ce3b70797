import Signalbox.Json.Bytes

/-
  Signalbox/Proofs/Json/Bytes.lean --- the bytes of a text are read as the text.

  The pieces of the bytes that are written for a text are its characters, so that a
  document that was written is read as the same text, whatever characters it has.
-/

set_option autoImplicit false

namespace Signalbox.Text

/-! ## One character -/

theorem byteIn_ofNat (low high : UInt8) {n : Nat} (hn : n < 256) :
    byteIn low high (UInt8.ofNat n) = (decide (low.toNat ≤ n) && decide (n ≤ high.toNat)) := by
  simp [byteIn, UInt8.le_iff_toNat_le, UInt8.toNat_ofNat', Nat.mod_eq_of_lt hn]

theorem toNat_ofNat {n : Nat} (hn : n < 256) : (UInt8.ofNat n).toNat = n := by
  simp [UInt8.toNat_ofNat', Nat.mod_eq_of_lt hn]

theorem isTail_ofNat {n : Nat} (low : 128 ≤ n) (high : n ≤ 191) :
    isTail (UInt8.ofNat n) = true := by
  simp [isTail, byteIn_ofNat, show n < 256 by omega, low, high]

theorem lengthOf_ofNat {n : Nat} (hn : n < 256) : lengthOf (UInt8.ofNat n) =
    if n < 128 then 1 else if 194 ≤ n ∧ n ≤ 223 then 2 else if 224 ≤ n ∧ n ≤ 239 then 3
    else if 240 ≤ n ∧ n ≤ 244 then 4 else 0 := by
  simp [lengthOf, byteIn_ofNat _ _ hn, UInt8.lt_iff_toNat_lt, toNat_ofNat hn]

/-- The second byte of a longer character, by the first. -/
theorem secondRange_ofNat {n : Nat} (hn : n < 256) : secondRange (UInt8.ofNat n) =
    if n = 224 then (160, 191) else if n = 237 then (128, 159) else if n = 240 then (144, 191)
    else if n = 244 then (128, 143) else (128, 191) := by
  simp [secondRange, ← UInt8.toNat_inj, toNat_ofNat hn]

theorem tailBits_ofNat {n : Nat} (hn : n < 64) : tailBits (UInt8.ofNat (n + 128)) = n := by
  rw [tailBits, toNat_ofNat (by omega)]
  omega

theorem decodeHead_one {n : Nat} (hn : n < 128) (rest : List UInt8) :
    decodeHead (UInt8.ofNat n) rest = (some (Char.ofNat n), 0) := by
  have hlength : lengthOf (UInt8.ofNat n) = 1 := by
    rw [lengthOf_ofNat (by omega), if_pos hn]
  simp only [decodeHead, hlength, toNat_ofNat (show n < 256 by omega)]

theorem decodeHead_two {a b : Nat} (low : 2 ≤ a) (ha : a < 32) (hb : b < 64) (rest : List UInt8) :
    decodeHead (UInt8.ofNat (a + 192)) (UInt8.ofNat (b + 128) :: rest) =
      (some (Char.ofNat (a * 64 + b)), 1) := by
  have hlength : lengthOf (UInt8.ofNat (a + 192)) = 2 := by
    rw [lengthOf_ofNat (by omega), if_neg (by omega), if_pos (by omega)]
  have htail : isTail (UInt8.ofNat (b + 128)) = true := isTail_ofNat (by omega) (by omega)
  simp only [decodeHead, hlength, htail, if_true, tailBits_ofNat hb,
    toNat_ofNat (show a + 192 < 256 by omega)]
  rw [show (a + 192) % 32 = a by omega]

/-- Three bytes neither write what fits fewer nor half of a surrogate pair. -/
theorem decodeHead_three {a b c : Nat} (ha : a < 16) (hb : b < 64) (hc : c < 64)
    (low : a = 0 → 32 ≤ b) (surrogate : a = 13 → b < 32) (rest : List UInt8) :
    decodeHead (UInt8.ofNat (a + 224)) (UInt8.ofNat (b + 128) :: UInt8.ofNat (c + 128) :: rest) =
      (some (Char.ofNat (a * 4096 + b * 64 + c)), 2) := by
  have hlength : lengthOf (UInt8.ofNat (a + 224)) = 3 := by
    rw [lengthOf_ofNat (by omega), if_neg (by omega), if_neg (by omega), if_pos (by omega)]
  have hsecond : byteIn (secondRange (UInt8.ofNat (a + 224))).1
      (secondRange (UInt8.ofNat (a + 224))).2 (UInt8.ofNat (b + 128)) = true := by
    rw [secondRange_ofNat (by omega), byteIn_ofNat _ _ (by omega)]
    split
    · simp; omega
    · split
      · simp; omega
      · rw [if_neg (by omega), if_neg (by omega)]
        simp; omega
  have htail : isTail (UInt8.ofNat (c + 128)) = true := isTail_ofNat (by omega) (by omega)
  simp only [decodeHead, hlength, hsecond, htail, if_true, tailBits_ofNat hb, tailBits_ofNat hc,
    toNat_ofNat (show a + 224 < 256 by omega)]
  rw [show (a + 224) % 16 = a by omega]

/-- Four bytes neither write what fits fewer nor anything beyond the last character. -/
theorem decodeHead_four {a b c d : Nat} (ha : a ≤ 4) (hb : b < 64) (hc : c < 64) (hd : d < 64)
    (low : a = 0 → 16 ≤ b) (high : a = 4 → b < 16) (rest : List UInt8) :
    decodeHead (UInt8.ofNat (a + 240))
        (UInt8.ofNat (b + 128) :: UInt8.ofNat (c + 128) :: UInt8.ofNat (d + 128) :: rest) =
      (some (Char.ofNat (a * 262144 + b * 4096 + c * 64 + d)), 3) := by
  have hlength : lengthOf (UInt8.ofNat (a + 240)) = 4 := by
    rw [lengthOf_ofNat (by omega), if_neg (by omega), if_neg (by omega), if_neg (by omega),
      if_pos (by omega)]
  have hsecond : byteIn (secondRange (UInt8.ofNat (a + 240))).1
      (secondRange (UInt8.ofNat (a + 240))).2 (UInt8.ofNat (b + 128)) = true := by
    rw [secondRange_ofNat (by omega), byteIn_ofNat _ _ (by omega), if_neg (by omega),
      if_neg (by omega)]
    split
    · simp; omega
    · split <;> (simp; omega)
  have hthird : isTail (UInt8.ofNat (c + 128)) = true := isTail_ofNat (by omega) (by omega)
  have hfourth : isTail (UInt8.ofNat (d + 128)) = true := isTail_ofNat (by omega) (by omega)
  simp only [decodeHead, hlength, hsecond, hthird, hfourth, if_true, tailBits_ofNat hb,
    tailBits_ofNat hc, tailBits_ofNat hd, toNat_ofNat (show a + 240 < 256 by omega)]
  rw [show (a + 240) % 8 = a by omega]

/-- A character is decoded from its bytes, with any others after them. -/
theorem pieces_utf8EncodeChar (c : Char) (rest : List UInt8) :
    pieces (String.utf8EncodeChar c ++ rest) = some c :: pieces rest := by
  have hvalid : c.toNat < 0xD800 ∨ (0xDFFF < c.toNat ∧ c.toNat < 0x110000) := c.valid
  have hchar {n : Nat} (hn : n = c.toNat) : Char.ofNat n = c := by rw [hn, Char.ofNat_toNat]
  have hval : c.val.toNat = c.toNat := rfl
  unfold String.utf8EncodeChar
  simp only [hval]
  generalize c.toNat = v at *
  split
  · rw [List.cons_append, List.nil_append, pieces, decodeHead_one (by omega), hchar rfl]
    rfl
  · split
    · simp only [List.cons_append, List.nil_append]
      rw [pieces, decodeHead_two (by omega) (by omega) (by omega), hchar (by omega)]
      rfl
    · split
      · simp only [List.cons_append, List.nil_append]
        rw [pieces, decodeHead_three (by omega) (by omega) (by omega) (by omega) (by omega),
          hchar (by omega)]
        rfl
      · simp only [List.cons_append, List.nil_append]
        rw [pieces, decodeHead_four (by omega) (by omega) (by omega) (by omega) (by omega)
          (by omega), hchar (by omega)]
        rfl

/-! ## Texts -/

theorem pieces_utf8 (cs : List Char) : pieces (utf8 cs) = cs.map some := by
  induction cs with
  | nil => rw [utf8, List.flatMap_nil, pieces_nil, List.map_nil]
  | cons c cs ih =>
    rw [utf8, List.flatMap_cons, pieces_utf8EncodeChar, List.map_cons, ← utf8, ih]

end Signalbox.Text

namespace Signalbox.Json

theorem textFrom?_some (place : Place) (cs : List Char) :
    textFrom? place (cs.map some) = some cs := by
  induction cs generalizing place with
  | nil => rfl
  | cons c cs ih => rw [List.map_cons, textFrom?, ih, Option.map_some]

/-- The bytes of a text are read as the text. -/
theorem textOf?_utf8 (text : String) : textOf? (Text.utf8 text.toList) = some text := by
  rw [textOf?, Text.pieces_utf8, textFrom?_some, Option.map_some, String.ofList_toList]

end Signalbox.Json
