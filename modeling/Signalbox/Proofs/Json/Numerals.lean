import Signalbox.Json.Decode
import Signalbox.Proofs.Number.Whole
import Signalbox.Proofs.Text

/-
  Signalbox/Proofs/Json/Numerals.lean --- numbers are read as they were written.

  A written number ends before anything that no number has, and is read as the same
  numeral.  What its reader makes of it is another matter: an integer is the integer,
  and a whole coordinate is what is left of ten times the number when it is divided
  by ten.
-/

set_option autoImplicit false

namespace Signalbox.Json

/-! ## Digits -/

/-- Digits may end before the text. -/
def EndsDigits (rest : List Char) : Prop := ∀ c, rest.head? = some c → Text.isDigit c = false

/-- A number may end before the text. -/
def EndsNumber (rest : List Char) : Prop :=
  ∀ c, rest.head? = some c → Text.isDigit c = false ∧ c ≠ '.' ∧ c ≠ 'e' ∧ c ≠ 'E'

variable {rest : List Char}

theorem EndsNumber.digits (h : EndsNumber rest) : EndsDigits rest := fun c hc => (h c hc).1

theorem endsNumber_nil : EndsNumber [] := by simp [EndsNumber]

theorem endsDigits_cons {c : Char} (hc : Text.isDigit c = false) (rest : List Char) :
    EndsDigits (c :: rest) := by
  rintro d hd
  rw [← Option.some.inj hd]
  exact hc

theorem digits_append {cs : List Char} (hcs : ∀ c ∈ cs, Text.isDigit c = true)
    (hrest : EndsDigits rest) : digits (cs ++ rest) = (cs.map fun c => c.toNat - 48, rest) := by
  have hend : rest.takeWhile Text.isDigit = [] ∧ rest.dropWhile Text.isDigit = rest := by
    cases rest with
    | nil => exact ⟨rfl, rfl⟩
    | cons c rest => simp [hrest c rfl]
  rw [digits, List.takeWhile_append_of_pos hcs, List.dropWhile_append_of_pos hcs, hend.1, hend.2,
    List.append_nil]

theorem isDigit_of_mem_toDigits {n : Nat} {c : Char} (h : c ∈ Nat.toDigits 10 n) :
    Text.isDigit c = true := by
  rw [Text.isDigit, Text.digit?_of_isDigit (Nat.isDigit_of_mem_toDigits (by decide) (by decide) h)]
  rfl

/-- The digits of a natural number are read off a text. -/
theorem digits_toDigits (n : Nat) (hrest : EndsDigits rest) :
    digits (Nat.toDigits 10 n ++ rest) = (Numeral.digitsOf n, rest) :=
  digits_append (fun _ => isDigit_of_mem_toDigits) hrest

theorem digitsOf_ne_nil (n : Nat) : Numeral.digitsOf n ≠ [] := by
  simp [Numeral.digitsOf, Nat.toDigits_ne_nil]

theorem ofDigits_digitsOf (n : Nat) : ofDigits (Numeral.digitsOf n) = n := by
  rw [ofDigits, Numeral.digitsOf, List.foldl_map]
  exact Nat.ofDigitChars_eq_foldl.symm.trans Nat.ofDigitChars_ten_toDigits

theorem digitsOf_of_lt {n : Nat} (hn : n < 10) : Numeral.digitsOf n = [n] := by
  rw [Numeral.digitsOf, Nat.toDigits_of_lt_base hn, List.map_singleton,
    Nat.toNat_digitChar_sub_48_of_lt_ten hn]

theorem digitsOf_of_le {n : Nat} (hn : 10 ≤ n) :
    Numeral.digitsOf n = Numeral.digitsOf (n / 10) ++ [n % 10] := by
  rw [← digitsOf_of_lt (Nat.mod_lt n (by decide))]
  unfold Numeral.digitsOf
  rw [Nat.toDigits_of_base_le (by decide) hn, List.map_append,
    Nat.toDigits_of_lt_base (Nat.mod_lt n (by decide))]

/-- No zero leads other digits. -/
theorem head?_digitsOf {n : Nat} (hn : 0 < n) : (Numeral.digitsOf n).head? ≠ some 0 := by
  induction n using Nat.strongRecOn with
  | ind n ih =>
    by_cases hlt : n < 10
    · rw [digitsOf_of_lt hlt, List.head?_cons]
      simp
      omega
    · rw [digitsOf_of_le (by omega), List.head?_append_of_ne_nil _ (digitsOf_ne_nil _)]
      exact ih (n / 10) (by omega) (by omega)

theorem digit_text {d : Nat} (hd : d < 10) :
    Text.isDigit (Char.ofNat (48 + d)) = true ∧ (Char.ofNat (48 + d)).toNat - 48 = d := by
  have hall : ∀ d < 10, Text.isDigit (Char.ofNat (48 + d)) = true ∧
      (Char.ofNat (48 + d)).toNat - 48 = d := by decide
  exact hall d hd

theorem digits_map {ds : List Nat} (hds : ∀ d ∈ ds, d < 10) (hrest : EndsDigits rest) :
    digits ((ds.map fun d => Char.ofNat (48 + d)) ++ rest) = (ds, rest) := by
  have hdigit : ∀ c ∈ ds.map fun d => Char.ofNat (48 + d), Text.isDigit c = true := by
    intro c hc
    obtain ⟨d, hd, rfl⟩ := List.mem_map.mp hc
    exact (digit_text (hds d hd)).1
  have hvalue : ds.map (fun d => (Char.ofNat (48 + d)).toNat - 48) = ds := by
    conv_rhs => rw [← List.map_id ds]
    exact List.map_congr_left fun d hd => (digit_text (hds d hd)).2
  rw [digits_append hdigit hrest, List.map_map]
  exact congrArg (·, rest) hvalue

/-! ## Numerals -/

namespace Numeral

/-- What stands after the point are digits. -/
def IsProper (n : Numeral) : Prop := ∀ d ∈ n.fraction, d < 10

/-- The point and the digits after it, if there are any. -/
def fractionText (ds : List Nat) : List Char :=
  if ds.isEmpty then [] else '.' :: ds.map fun d => Char.ofNat (48 + d)

/-- The exponent with its letter, if there is one. -/
def exponentText (e : Option Int) : List Char :=
  e.elim [] fun e => 'e' :: signedText e

theorem write_eq (n : Numeral) : n.write = (if n.negative then ['-'] else []) ++
    (Nat.toDigits 10 n.whole ++ (fractionText n.fraction ++ exponentText n.exponent)) := by
  obtain ⟨negative, whole, fraction, exponent⟩ := n
  cases exponent <;> simp [write, fractionText, exponentText]

theorem signedText_eq (e : Int) :
    signedText e = (if e < 0 then '-' else '+') :: Nat.toDigits 10 e.natAbs := by
  unfold signedText
  cases e with
  | ofNat k =>
    rw [if_neg (by simp), if_neg (by simp)]
    simp [Text.ofInt]
  | negSucc k =>
    rw [if_pos (Int.negSucc_lt_zero k), if_pos (Int.negSucc_lt_zero k)]
    simp [Text.ofInt]

end Numeral

open Numeral

theorem fraction?_append {ds : List Nat} (hds : ∀ d ∈ ds, d < 10)
    (hrest : ∀ c, rest.head? = some c → Text.isDigit c = false ∧ c ≠ '.') :
    fraction? (fractionText ds ++ rest) = some (ds, rest) := by
  cases ds with
  | nil =>
    rw [fractionText, List.isEmpty_nil, if_pos rfl, List.nil_append]
    unfold fraction?
    split
    · exact absurd rfl (hrest '.' rfl).2
    · rfl
  | cons d ds =>
    have hends : EndsDigits rest := fun c hc => (hrest c hc).1
    rw [fractionText, List.isEmpty_cons, if_neg Bool.false_ne_true, List.cons_append, fraction?,
      digits_map hds hends]
    rfl

theorem exponentDigits?_toDigits (negative : Bool) (k : Nat) (hrest : EndsDigits rest) :
    exponentDigits? negative (Nat.toDigits 10 k ++ rest) =
      some (some (if negative then -(k : Int) else k), rest) := by
  have hne : (digitsOf k).isEmpty = false := by
    simpa using digitsOf_ne_nil k
  simp only [exponentDigits?, digits_toDigits k hrest, hne, ofDigits_digitsOf, Bool.false_eq_true,
    if_false]

theorem exponent?_append (e : Option Int) (hrest : EndsNumber rest) :
    exponent? (exponentText e ++ rest) = some (e, rest) := by
  cases e with
  | none =>
    rw [exponentText, Option.elim_none, List.nil_append]
    unfold exponent?
    split
    · exact absurd rfl (hrest 'e' rfl).2.2.1
    · exact absurd rfl (hrest 'E' rfl).2.2.2
    · rfl
  | some e =>
    simp only [exponentText, Option.elim_some, signedText_eq, List.cons_append, exponent?]
    split_ifs with he
    · rw [exponent?.signed, exponentDigits?_toDigits true _ hrest.digits, if_pos rfl,
        show -((e.natAbs : Nat) : Int) = e by omega]
    · rw [exponent?.signed, exponentDigits?_toDigits false _ hrest.digits,
        if_neg Bool.false_ne_true, show ((e.natAbs : Nat) : Int) = e by omega]

/-- The digits after the point end before an exponent. -/
theorem ends_exponentText (e : Option Int) (hrest : EndsNumber rest) : ∀ c,
    (exponentText e ++ rest).head? = some c → Text.isDigit c = false ∧ c ≠ '.' := by
  intro c hc
  cases e with
  | none =>
    obtain ⟨hdigit, hpoint, -⟩ := hrest c hc
    exact ⟨hdigit, hpoint⟩
  | some e =>
    obtain rfl := Option.some.inj hc
    exact ⟨by decide, by decide⟩

/-- The digits before the point end with it, or before an exponent. -/
theorem endsDigits_fractionText (ds : List Nat) (e : Option Int) (hrest : EndsNumber rest) :
    EndsDigits (fractionText ds ++ (exponentText e ++ rest)) := by
  cases ds with
  | nil => exact fun c hc => (ends_exponentText e hrest c hc).1
  | cons d ds => exact endsDigits_cons (by decide) _

theorem unsigned?_append {n : Numeral} (h : n.IsProper) (hrest : EndsNumber rest) :
    unsigned? n.negative (Nat.toDigits 10 n.whole ++
      (fractionText n.fraction ++ (exponentText n.exponent ++ rest))) = some (n, rest) := by
  have hleading : ((digitsOf n.whole).isEmpty || ((digitsOf n.whole).head? == some 0 &&
      (digitsOf n.whole).length != 1)) = false := by
    have hne : (digitsOf n.whole).isEmpty = false := by simpa using digitsOf_ne_nil n.whole
    rw [hne, Bool.false_or]
    obtain hzero | hpos := Nat.eq_zero_or_pos n.whole
    · rw [hzero]
      decide
    · rw [beq_false_of_ne (head?_digitsOf hpos), Bool.false_and]
  rw [unsigned?, digits_toDigits _ (endsDigits_fractionText _ _ hrest)]
  simp only [hleading, Bool.false_eq_true, if_false]
  rw [fraction?_append h (ends_exponentText _ hrest)]
  simp only [Option.bind_eq_bind, Option.bind_some, exponent?_append _ hrest, ofDigits_digitsOf]

/-- A number is read off a text as it was written. -/
theorem number?_write {n : Numeral} (h : n.IsProper) (hrest : EndsNumber rest) :
    number? (n.write ++ rest) = some (n, rest) := by
  have hunsigned := unsigned?_append h hrest
  rw [write_eq, List.append_assoc, List.append_assoc, List.append_assoc]
  cases hnegative : n.negative with
  | true =>
    rw [hnegative] at hunsigned
    exact hunsigned
  | false =>
    rw [hnegative] at hunsigned
    rw [if_neg Bool.false_ne_true, List.nil_append]
    unfold number?
    split
    · rename_i htext
      have hdigit : Text.isDigit '-' = true := by
        refine isDigit_of_mem_toDigits (n := n.whole) ?_
        cases hdigits : Nat.toDigits 10 n.whole with
        | nil => exact absurd hdigits Nat.toDigits_ne_nil
        | cons c cs =>
          rw [hdigits, List.cons_append] at htext
          rw [(List.cons.inj htext).1]
          exact List.mem_cons_self
      exact absurd hdigit (by decide)
    · exact hunsigned

/-! ## Integers -/

namespace Numeral

theorem write_ofInt (n : Int) : (ofInt n).write = (Text.ofInt n).toList := by
  rw [write_eq]
  cases n with
  | ofNat k => simp [ofInt, fractionText, exponentText, Text.ofInt]
  | negSucc k => simp [ofInt, fractionText, exponentText, Text.ofInt]

theorem isProper_ofInt (n : Int) : (ofInt n).IsProper := by simp [IsProper, ofInt]

theorem int64?_ofInt {n : Int} (h : inInt64 n = true) : (ofInt n).int64? = some n := by
  rw [int64?, integer?_ofInt, Option.filter_some_pos h]

theorem word?_ofInt {n max : Nat} (h : n ≤ max) : (ofInt n).word? max = some n := by
  rw [word?, integer?_ofInt, Option.bind_some, if_pos (by simpa using h)]
  rfl

/-! ## Binary numbers -/

theorem le_foldl_digits (ds : List Nat) (n : Nat) : n ≤ ds.foldl (fun n d => 10 * n + d) n := by
  induction ds generalizing n with
  | nil => exact Nat.le_refl n
  | cons d ds ih => exact (by omega : n ≤ 10 * n + d).trans (ih _)

/-- Digits that fit a word are all taken. -/
theorem accumulate_eq {ds : List Nat} {n : Nat}
    (h : ds.foldl (fun n d => 10 * n + d) n ≤ maxWord64) :
    accumulate n ds = (ds.foldl (fun n d => 10 * n + d) n, 0) := by
  induction ds generalizing n with
  | nil => rfl
  | cons d ds ih =>
    rw [accumulate]
    simp only [if_pos ((le_foldl_digits ds _).trans h)]
    exact ih h

theorem accumulate_digitsOf {n : Nat} (h : n ≤ maxWord64) :
    accumulate 0 (digitsOf n) = (n, 0) := by
  have hvalue : (digitsOf n).foldl (fun n d => 10 * n + d) 0 = n := ofDigits_digitsOf n
  rw [accumulate_eq (by rwa [hvalue]), hvalue]

theorem tenTo_zero : tenTo 0 = ⟨false, 4503599627370496, -52⟩ := by
  have hone : Binary64.ofNat? (Nat.pow 10 0) = some ⟨false, 4503599627370496, -52⟩ :=
    Binary64.ofNat?_exact (k := 0) (by decide) (by decide) (by decide)
  rw [tenTo, hone]
  rfl

theorem tenTo_one : tenTo 1 = Binary64.ten := by
  have hten : Binary64.ofNat? (Nat.pow 10 1) = some Binary64.ten := Binary64.ofNat?_ten
  rw [tenTo, hten]
  rfl

theorem scale_zero (x : Binary64) : scale 8 x 0 = x.mulMagnitude (tenTo 0) := by
  rw [scale, if_pos (Int.le_refl 0), if_pos (by decide), Int.toNat_zero]

theorem scale_tenth (x : Binary64) : scale 8 x (-1) = x.divMagnitude Binary64.ten := by
  rw [scale, if_neg (by decide), if_pos (by decide), ← tenTo_one]
  rfl

/-- What has no more bits than a word can be multiplied by one. -/
theorem isSome_mulMagnitude_one {x : Binary64} (hmantissa : x.mantissa ≤ 2 ^ 53)
    (hexponent : x.exponent ≤ 104) : (x.mulMagnitude (tenTo 0)).isSome := by
  have hpower : Binary64.powerUp (x.exponent + -52) ≤ 2 ^ 52 :=
    Nat.pow_le_pow_right (by decide) (by omega)
  rw [tenTo_zero, Binary64.mulMagnitude]
  refine Binary64.isSome_ofRatio (k := 158) (Binary64.powerUp_pos _) ?_ (by decide)
  calc x.mantissa * 4503599627370496 * Binary64.powerUp (x.exponent + -52)
      ≤ 2 ^ 53 * 2 ^ 52 * 2 ^ 52 := by gcongr; decide
    _ < 2 ^ 158 := by decide

theorem toBinary64_of_exponent_none {n : Numeral} {digits : Nat} {power : Int}
    (hsignificand : n.significand = (digits, power)) (hexponent : n.exponent = none) :
    n.toBinary64 = ((Binary64.ofNat? digits).bind fun x => scale 8 x power).map
      (·.withSign n.negative) := by
  rw [toBinary64, hsignificand, hexponent]

theorem significand_ofInt {n : Int} (h : n.natAbs ≤ maxWord64) :
    (ofInt n).significand = (n.natAbs, 0) := by
  have htaken := accumulate_digitsOf h
  simp only [significand, ofInt, htaken, accumulate]
  simp

theorem toBinary64_ofInt {n : Int} (h : n.natAbs ≤ maxWord64) {x : Binary64}
    (hx : Binary64.ofNat? n.natAbs = some x) :
    (ofInt n).toBinary64 = (x.mulMagnitude (tenTo 0)).map (·.withSign (ofInt n).negative) := by
  rw [toBinary64_of_exponent_none (significand_ofInt h) rfl, hx, Option.bind_some, scale_zero]

theorem lt_of_le_maxWord64 {n : Nat} (h : n ≤ maxWord64) : n < 2 ^ 64 :=
  Nat.lt_of_le_of_lt h (by decide)

/-- An integer of some word is not too large for a binary number. -/
theorem isSome_toBinary64_ofInt {n : Int} (h : n.natAbs ≤ maxWord64) :
    (ofInt n).toBinary64.isSome := by
  have hlt := lt_of_le_maxWord64 h
  obtain ⟨x, hx⟩ := Option.isSome_iff_exists.mp
    (Binary64.isSome_ofRatio Nat.one_pos hlt (by decide))
  obtain ⟨hmantissa, hexponent⟩ := Binary64.bounds_ofRatio Nat.one_pos hlt hx
  rw [toBinary64_ofInt h hx, Option.isSome_map]
  exact isSome_mulMagnitude_one hmantissa (by omega)

/-- A number is as long as its leading digits and the zeros after them. -/
theorem length_digitsOf_add_le {c p k : Nat} (hc : 0 < c) (h : c * 10 ^ p < 10 ^ k) :
    (digitsOf c).length + p ≤ k := by
  have hp : p < k := (Nat.pow_lt_pow_iff_right (by decide)).mp
    ((Nat.le_mul_of_pos_left (10 ^ p) hc).trans_lt h)
  have hlead : c < 10 ^ (k - p) := by
    refine Nat.lt_of_mul_lt_mul_right (a := 10 ^ p) ?_
    rwa [← Nat.pow_add, Nat.sub_add_cancel hp.le]
  have hlength := (Nat.length_toDigits_le_iff (b := 10) (by decide) (by omega)).mpr hlead
  rw [digitsOf, List.length_map]
  omega

/-- A whole number is written with a zero after the point. -/
theorem ofBinary64_whole {x : Binary64} {n : Nat} (h : x.IsWhole n) :
    ofBinary64 x = ⟨x.negative, n, [0], none⟩ := by
  obtain rfl | hn := Nat.eq_zero_or_pos n
  · rw [h.eq_signedZero]
    rfl
  obtain ⟨hlog, hx⟩ := h.eq_wholeAt hn
  have hlength : (Nat.toDigits 10 n).length ≤ 16 := by
    rw [Nat.length_toDigits_le_iff (by decide) (by decide)]
    exact h.1.trans (by decide)
  obtain ⟨c, p, hshortest, hvalue⟩ := Binary64.shortest_wholeAt x.negative hn hlog (by omega)
  have hmantissa : (x.mantissa == 0) = false := by
    rw [hx]
    exact beq_false_of_ne (Nat.mul_ne_zero (by omega) (Nat.two_pow_pos _).ne')
  rw [← hx] at hshortest
  have hpoint : ((digitsOf c).length : Int) + p ≤ 16 := by
    have hlt : c * 10 ^ p < 10 ^ 16 := hvalue.trans_lt (h.1.trans (by decide))
    have := length_digitsOf_add_le (Nat.pos_of_mul_pos_right (hvalue ▸ hn)) hlt
    omega
  have hpositional : (decide (0 ≤ (p : Int)) && decide (((digitsOf c).length : Int) + p ≤ 16)) =
      true := by
    rw [Bool.and_eq_true, decide_eq_true_eq, decide_eq_true_eq]
    exact ⟨by omega, hpoint⟩
  simp only [ofBinary64, hmantissa, hshortest, hpositional, Bool.false_eq_true, if_false, if_true,
    Binary64.powerOfTen_natCast, hvalue]

/-- The reader takes ten times a whole number and divides by ten. -/
theorem toBinary64_tenth {n : Nat} (hn : n < 2 ^ 53) (negative : Bool) {y : Binary64}
    (h : Binary64.Tenfold n y) : toBinary64 ⟨negative, n, [0], none⟩ =
      (y.divMagnitude Binary64.ten).map (·.withSign negative) := by
  have hfits : 10 * n ≤ maxWord64 := by
    simp only [maxWord64]
    omega
  have hsignificand : significand ⟨negative, n, [0], none⟩ = (10 * n, -1) := by
    simp only [significand, accumulate_digitsOf (show n ≤ maxWord64 by omega), accumulate,
      Nat.add_zero, if_pos hfits]
    rfl
  rw [toBinary64_of_exponent_none hsignificand rfl, h.tenfold, Option.bind_some, scale_tenth]

/-- What is read of a binary number as it is written. -/
def reread (x : Binary64) : Binary64 := (ofBinary64 x).toBinary64.getD x

/-- A whole number is read as some number, which is the same one unless it is among those that
ten times themselves do not lead back to. -/
theorem toBinary64_whole {x : Binary64} {n : Nat} (h : x.IsWhole n) :
    (ofBinary64 x).toBinary64 = some (reread x) ∧ (reread x = x ↔ ¬ Binary64.IsMisread n) := by
  obtain ⟨y, hy⟩ := Binary64.exists_tenfold h.1
  obtain ⟨z, hz⟩ := Option.isSome_iff_exists.mp hy.isSome
  have hread : (ofBinary64 x).toBinary64 = some (z.withSign x.negative) := by
    rw [ofBinary64_whole h, toBinary64_tenth h.1 x.negative hy, hz]
    rfl
  have hreread : reread x = z.withSign x.negative := by
    rw [reread, hread]
    rfl
  refine ⟨hread.trans (congrArg some hreread.symm), ?_⟩
  rw [hreread, ← hy.reads, hz, h.2, Option.some.injEq]
  have hpositive : z.negative = false := Binary64.negative_ofRatio hz
  obtain ⟨negative, mantissa, exponent⟩ := x
  obtain ⟨negative', mantissa', exponent'⟩ := z
  obtain rfl : negative' = false := hpositive
  simp [Binary64.withSign]

end Numeral

/-- The key of a row is read as it was written. -/
theorem asKey_ofInt (n : Int) : asKey (Text.ofInt n) = some (.ofInt n) := by
  have hread := number?_write (isProper_ofInt n) endsNumber_nil
  rw [List.append_nil, write_ofInt] at hread
  rw [asKey, hread]
  rfl

end Signalbox.Json
