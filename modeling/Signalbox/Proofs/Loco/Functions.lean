import Mathlib.Data.Nat.Bitwise
import Signalbox.Loco.Basic

/-
  Signalbox/Proofs/Loco/Functions.lean --- the functions of a loco as bits of a word.

  A function is read and switched at its own bit, which lies within the word because
  the number is looked at first: a shift never goes as far as the word is long.  A
  switch leaves the other bits as they are, so none beyond the highest function is
  ever set.
-/

set_option autoImplicit false

namespace Signalbox

namespace Loco

variable {l : Loco} {n : Nat}

/-! ## Shifts -/

/-- The word with one bit, unless a word cannot be shifted so far. -/
def bit? (n : Nat) : Option UInt32 := if n < 32 then some (bit n) else none

/-- Whether a function is on, unless a shift goes too far to tell. -/
def function? (l : Loco) (n : Nat) : Option Bool :=
  if n ≤ maxFunction then (bit? n).map fun b => l.functions &&& b != 0 else some false

/-- The loco with a function switched, unless a shift goes too far for that. -/
def setFunction? (l : Loco) (n : Nat) (on : Bool) : Option Loco :=
  if n ≤ maxFunction then
    (bit? n).map fun b =>
      { l with functions := if on then l.functions ||| b else l.functions &&& ~~~b }
  else some l

theorem bit?_eq_some (hn : n ≤ maxFunction) : bit? n = some (bit n) := by
  have hmax : maxFunction = 28 := rfl
  exact if_pos (by omega)

/-- No function is read by a shift that goes too far. -/
theorem function?_eq_some (l : Loco) (n : Nat) : l.function? n = some (l.function n) := by
  unfold function? function
  split
  · rename_i hn
    simp [bit?_eq_some hn, hn]
  · rename_i hn
    simp [hn]

/-- No function is switched by a shift that goes too far. -/
theorem setFunction?_eq_some (l : Loco) (n : Nat) (on : Bool) :
    l.setFunction? n on = some (l.setFunction n on) := by
  unfold setFunction? setFunction
  split
  · rename_i hn
    rw [bit?_eq_some hn, Option.map_some]
  · rfl

/-! ## Bits -/

theorem toBitVec_bit (hn : n ≤ maxFunction) : (bit n).toBitVec = BitVec.twoPow 32 n := by
  have hmax : maxFunction = 28 := rfl
  have hword : n % 32 = n := Nat.mod_eq_of_lt (by omega)
  simp [bit, BitVec.twoPow, hword]

theorem toNat_bit (hn : n ≤ maxFunction) : (bit n).toNat = 2 ^ n := by
  have hmax : maxFunction = 28 := rfl
  have hpow : 2 ^ n < 2 ^ 32 := Nat.pow_lt_pow_right (by decide) (by omega)
  rw [← UInt32.toNat_toBitVec, toBitVec_bit hn, BitVec.toNat_twoPow, Nat.mod_eq_of_lt hpow]

/-- A function is on if its bit is set. -/
theorem function_eq_getLsbD (l : Loco) (hn : n ≤ maxFunction) :
    l.function n = l.functions.toBitVec.getLsbD n := by
  have hand : (l.functions &&& bit n).toBitVec =
      if l.functions.toBitVec.getLsbD n then BitVec.twoPow 32 n else 0#32 := by
    rw [UInt32.toBitVec_and, toBitVec_bit hn, BitVec.and_twoPow]
  rw [function, decide_eq_true hn, Bool.true_and]
  cases hbit : l.functions.toBitVec.getLsbD n with
  | false =>
    rw [hbit, if_neg Bool.false_ne_true] at hand
    have hzero : l.functions &&& bit n = 0 := UInt32.toBitVec_inj.mp hand
    simp [hzero]
  | true =>
    rw [hbit, if_pos rfl, ← toBitVec_bit hn] at hand
    have hset : l.functions &&& bit n = bit n := UInt32.toBitVec_inj.mp hand
    rw [hset, bne_iff_ne]
    intro hzero
    have hpow : 2 ^ n = 0 := by rw [← toNat_bit hn, hzero]; rfl
    exact absurd hpow (Nat.two_pow_pos n).ne'

theorem getLsbD_bit (hn : n ≤ maxFunction) (m : Nat) :
    (bit n).toBitVec.getLsbD m = decide (n = m) := by
  have hmax : maxFunction = 28 := rfl
  have hword : n < 32 := by omega
  rw [toBitVec_bit hn, BitVec.getLsbD_twoPow, decide_eq_true hword, Bool.true_and]

/-- A switch of a function sets or clears its bit, and leaves the other bits alone. -/
theorem getLsbD_setFunction (l : Loco) (hn : n ≤ maxFunction) (on : Bool) (m : Nat) :
    (l.setFunction n on).functions.toBitVec.getLsbD m =
      if n = m then on else l.functions.toBitVec.getLsbD m := by
  rw [setFunction, if_pos hn]
  cases on with
  | false =>
    have hbits : (l.functions &&& ~~~(bit n)).toBitVec.getLsbD m =
        (l.functions.toBitVec.getLsbD m && (decide (m < 32) && !decide (n = m))) := by
      rw [UInt32.toBitVec_and, UInt32.toBitVec_not, BitVec.getLsbD_and, BitVec.getLsbD_not,
        getLsbD_bit hn]
    refine hbits.trans ?_
    by_cases hm : m < 32
    · by_cases hsame : n = m <;> simp [hsame, hm]
    · have hbeyond : l.functions.toBitVec.getLsbD m = false := BitVec.getLsbD_of_ge _ _ (by omega)
      simp [hbeyond]
  | true =>
    have hbits : (l.functions ||| bit n).toBitVec.getLsbD m =
        (l.functions.toBitVec.getLsbD m || decide (n = m)) := by
      rw [UInt32.toBitVec_or, BitVec.getLsbD_or, getLsbD_bit hn]
    refine hbits.trans ?_
    by_cases hsame : n = m <;> simp [hsame]

/-- Functions are read from nothing but their bits. -/
theorem function_congr {l l' : Loco} (h : l'.functions = l.functions) (n : Nat) :
    l'.function n = l.function n := by
  rw [function, function, h]

/-- A switch of a function is read back at its number, and other functions are as before. -/
theorem function_setFunction (l : Loco) (hn : n ≤ maxFunction) (on : Bool) (m : Nat) :
    (l.setFunction n on).function m = if n = m then on else l.function m := by
  by_cases hm : m ≤ maxFunction
  · rw [function_eq_getLsbD _ hm, getLsbD_setFunction l hn, function_eq_getLsbD l hm]
  · have hne : n ≠ m := fun h => hm (h ▸ hn)
    simp [function, hm, hne]

/-! ## Bounds -/

/-- The loco is no faster than the highest speed step, and has no bit set beyond the highest
function. -/
structure IsWithin (l : Loco) : Prop where
  speed : l.speed ≤ maxSpeed
  functions : l.functions.toNat < 2 ^ (maxFunction + 1)

theorem isWithin_standing (name : String) (address : Nat) : (standing name address).IsWithin :=
  ⟨Nat.zero_le _, Nat.two_pow_pos _⟩

theorem IsWithin.withSpeed (h : l.IsWithin) (speed : Nat) : (l.withSpeed speed).IsWithin :=
  ⟨Nat.min_le_right _ _, h.functions⟩

theorem IsWithin.withDirection (h : l.IsWithin) (d : Direction) : (l.withDirection d).IsWithin :=
  ⟨h.speed, h.functions⟩

theorem IsWithin.setFunction (h : l.IsWithin) (n : Nat) (on : Bool) :
    (l.setFunction n on).IsWithin := by
  unfold Loco.setFunction
  split
  · rename_i hn
    refine ⟨h.speed, ?_⟩
    cases on with
    | false =>
      change (l.functions &&& ~~~(bit n)).toNat < _
      rw [UInt32.toNat_and]
      exact Nat.and_le_left.trans_lt h.functions
    | true =>
      have hbit : (bit n).toNat < 2 ^ (maxFunction + 1) := by
        rw [toNat_bit hn]
        exact Nat.pow_lt_pow_right (by decide) (Nat.lt_succ_of_le hn)
      change (l.functions ||| bit n).toNat < _
      rw [UInt32.toNat_or]
      exact Nat.or_lt_two_pow h.functions hbit
  · exact h

end Loco

end Signalbox
