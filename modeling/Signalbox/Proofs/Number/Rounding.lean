import Mathlib.Algebra.Order.Field.Power
import Mathlib.Data.Nat.Log
import Mathlib.Data.Rat.Cast.Order
import Mathlib.Tactic.FieldSimp
import Mathlib.Tactic.Linarith
import Mathlib.Tactic.Positivity
import Mathlib.Tactic.Ring
import Signalbox.Number.Binary64

/-
  Signalbox/Proofs/Number/Rounding.lean --- what a fraction is rounded to.

  Between two powers of two the binary numbers lie on a grid, and a fraction is
  rounded to the nearest point of the grid that it lies on.  The grid is fixed by
  the exponent, which is computed from a guess at the two lengths; here it is shown
  to be the only exponent at which the fraction has a mantissa of 53 bits.
-/

set_option autoImplicit false

namespace Signalbox.Binary64

/-! ## Quotients -/

/-- A quotient is rounded to the number that is nearest, and of two to the even one. -/
theorem roundDiv_eq_iff {a b q : Nat} (hb : 0 < b) : roundDiv a b = q ↔
    (2 * a < (2 * q + 1) * b ∨ 2 * a = (2 * q + 1) * b ∧ q % 2 = 0) ∧
      (2 * q * b < 2 * a + b ∨ 2 * q * b = 2 * a + b ∧ q % 2 = 0) := by
  have hdiv := Nat.div_add_mod a b
  have hmod := Nat.mod_lt a hb
  unfold roundDiv
  generalize a / b = d at *
  generalize a % b = r at *
  simp only [beq_iff_eq]
  constructor
  · intro h
    split at h
    · subst h
      constructor <;> left <;> nlinarith
    · split at h
      · rcases Nat.mod_two_eq_zero_or_one d with hd | hd
        · rw [hd, Nat.add_zero] at h
          subst h
          constructor
          · right
            exact ⟨by nlinarith, hd⟩
          · left
            nlinarith
        · rw [hd] at h
          subst h
          constructor
          · left
            nlinarith
          · right
            exact ⟨by nlinarith, by omega⟩
      · have hr : b < 2 * r := by omega
        subst h
        constructor <;> left <;> nlinarith
  · rintro ⟨hlow, hhigh⟩
    have hge : d ≤ q := by
      by_contra hlt
      have : (q + 1) * b ≤ d * b := Nat.mul_le_mul_right b (by omega)
      rcases hlow with h | ⟨h, -⟩ <;> nlinarith
    have hle : q ≤ d + 1 := by
      by_contra hlt
      have : (d + 2) * b ≤ q * b := Nat.mul_le_mul_right b (by omega)
      rcases hhigh with h | ⟨h, -⟩ <;> nlinarith
    obtain rfl | rfl : q = d ∨ q = d + 1 := by omega
    · have hr : 2 * r < b ∨ (2 * r = b ∧ q % 2 = 0) := by
        rcases hlow with h | ⟨h, hq⟩
        · left; nlinarith
        · right; exact ⟨by nlinarith, hq⟩
      split
      · rfl
      · rw [if_pos (by omega)]
        omega
    · have hr : b < 2 * r ∨ (2 * r = b ∧ (d + 1) % 2 = 0) := by
        rcases hhigh with h | ⟨h, hq⟩
        · left; nlinarith
        · right; exact ⟨by nlinarith, hq⟩
      rw [if_neg (by omega)]
      split
      · omega
      · rfl

theorem roundDiv_le {a b q : Nat} (hb : 0 < b) (h : a ≤ q * b) : roundDiv a b ≤ q := by
  obtain ⟨-, hhigh⟩ := (roundDiv_eq_iff hb).mp (Eq.refl (roundDiv a b))
  by_contra hlt
  have : (q + 1) * b ≤ roundDiv a b * b := Nat.mul_le_mul_right b (by omega)
  rcases hhigh with hhigh | ⟨hhigh, -⟩ <;> nlinarith

/-- A common factor does not matter. -/
theorem roundDiv_mul_right (a b : Nat) {c : Nat} (hc : 0 < c) :
    roundDiv (a * c) (b * c) = roundDiv a b := by
  have hlt : 2 * (a % b * c) < b * c ↔ 2 * (a % b) < b := by
    rw [← Nat.mul_assoc]
    exact Nat.mul_lt_mul_right hc
  have heq : 2 * (a % b * c) = b * c ↔ 2 * (a % b) = b := by
    rw [← Nat.mul_assoc]
    exact Nat.mul_left_inj (by omega)
  simp only [roundDiv, Nat.mul_div_mul_right a b hc, Nat.mul_mod_mul_right, beq_iff_eq, hlt, heq]

theorem roundDiv_one (a : Nat) : roundDiv a 1 = a := by
  simp [roundDiv, Nat.mod_one]

/-! ## The exponent -/

theorem powerUp_pos (e : Int) : 0 < powerUp e := Nat.pow_pos (by decide)

theorem powerUp_of_nonpos {e : Int} (he : e ≤ 0) : powerUp e = 1 := by
  simp [powerUp, Int.toNat_of_nonpos he]

theorem powerUp_natCast (k : Nat) : powerUp k = 2 ^ k := rfl

/-- The two powers that stand for a power of two and its inverse. -/
theorem powerUp_eq (e : Int) : (powerUp e : ℚ) = 2 ^ e * powerUp (-e) := by
  obtain ⟨k, rfl | rfl⟩ := e.eq_nat_or_neg
  · rw [powerUp_of_nonpos (by omega : -(k : Int) ≤ 0), powerUp_natCast]
    push_cast
    rw [mul_one, zpow_natCast]
  · rw [powerUp_of_nonpos (by omega : -(k : Int) ≤ 0), neg_neg, powerUp_natCast]
    push_cast
    rw [zpow_neg, zpow_natCast]
    field_simp

/-- The fraction has a mantissa of 53 bits at an exponent. -/
def InBinade (num den : Nat) (e : Int) : Prop :=
  (2 : ℚ) ^ (e + 52) * den ≤ num ∧ (num : ℚ) < 2 ^ (e + 53) * den

variable {num den m : Nat} {e e' : Int}

theorem InBinade.num_pos (h : InBinade num den e) (hden : 0 < den) : 0 < num := by
  have hpos : (0 : ℚ) < 2 ^ (e + 52) * den := by positivity
  exact_mod_cast hpos.trans_le h.1

theorem InBinade.unique (hden : 0 < den) (h : InBinade num den e) (h' : InBinade num den e') :
    e = e' := by
  have hpos : (0 : ℚ) < den := by exact_mod_cast hden
  have hle : e + 52 < e' + 53 := (zpow_lt_zpow_iff_right₀ (by norm_num : (1 : ℚ) < 2)).mp
    (lt_of_mul_lt_mul_right (h.1.trans_lt h'.2) hpos.le)
  have hge : e' + 52 < e + 53 := (zpow_lt_zpow_iff_right₀ (by norm_num : (1 : ℚ) < 2)).mp
    (lt_of_mul_lt_mul_right (h'.1.trans_lt h.2) hpos.le)
  omega

/-- A fraction in units of a grid, as a comparison of fractions. -/
theorem scaled_lt_iff (num den : Nat) (e : Int) (k : Nat) :
    num * powerUp (-e) < 2 ^ k * (den * powerUp e) ↔ (num : ℚ) < 2 ^ (e + k) * den := by
  have hpos : (0 : ℚ) < powerUp (-e) := by exact_mod_cast powerUp_pos (-e)
  have hcast : num * powerUp (-e) < 2 ^ k * (den * powerUp e) ↔
      (num : ℚ) * powerUp (-e) < (2 : ℚ) ^ k * (den * powerUp e) := by exact_mod_cast Iff.rfl
  have hscale : (2 : ℚ) ^ k * (den * powerUp e) = 2 ^ (e + k) * den * powerUp (-e) := by
    rw [powerUp_eq e, zpow_add₀ (by norm_num), zpow_natCast]
    ring
  rw [hcast, hscale, mul_lt_mul_iff_left₀ hpos]

/-- The test of the guess. -/
theorem below_iff (num den : Nat) (e : Int) :
    num * powerUp (-e) < hiddenBit * (den * powerUp e) ↔ (num : ℚ) < 2 ^ (e + 52) * den :=
  scaled_lt_iff num den e 52

/-- The guess is right or one too high. -/
theorem exists_inBinade (hnum : 0 < num) (hden : 0 < den) :
    ∃ e, InBinade num den e ∧ exponentOf num den = max e minExponent := by
  have hnumLow : ((2 : ℚ) ^ (Nat.log2 num : Int)) ≤ num := by
    rw [zpow_natCast]
    exact_mod_cast Nat.log2_self_le (by omega)
  have hnumHigh : (num : ℚ) < 2 ^ ((Nat.log2 num : Int) + 1) := by
    have : num < 2 ^ (Nat.log2 num + 1) := Nat.lt_log2_self
    exact_mod_cast this
  have hdenLow : ((2 : ℚ) ^ (Nat.log2 den : Int)) ≤ den := by
    rw [zpow_natCast]
    exact_mod_cast Nat.log2_self_le (by omega)
  have hdenHigh : (den : ℚ) < 2 ^ ((Nat.log2 den : Int) + 1) := by
    have : den < 2 ^ (Nat.log2 den + 1) := Nat.lt_log2_self
    exact_mod_cast this
  unfold exponentOf
  simp only [below_iff]
  generalize (Nat.log2 num : Int) = a at *
  generalize (Nat.log2 den : Int) = b at *
  split
  · rename_i hlow
    refine ⟨a - b - 52 - 1, ⟨?_, ?_⟩, rfl⟩
    · calc (2 : ℚ) ^ (a - b - 52 - 1 + 52) * den
          ≤ 2 ^ (a - b - 52 - 1 + 52) * 2 ^ (b + 1) := by gcongr
        _ = 2 ^ a := by rw [← zpow_add₀ (by norm_num)]; congr 1; ring
        _ ≤ num := hnumLow
    · rwa [show a - b - 52 - 1 + 53 = a - b - 52 + 52 by ring]
  · rename_i hlow
    refine ⟨a - b - 52, ⟨not_lt.mp hlow, ?_⟩, rfl⟩
    calc (num : ℚ) < 2 ^ (a + 1) := hnumHigh
      _ = 2 ^ (a - b - 52 + 53) * 2 ^ b := by rw [← zpow_add₀ (by norm_num)]; congr 1; ring
      _ ≤ 2 ^ (a - b - 52 + 53) * den := by gcongr

theorem exponentOf_eq (hden : 0 < den) (h : InBinade num den e) (he : minExponent ≤ e) :
    exponentOf num den = e := by
  obtain ⟨e', h', hexponent⟩ := exists_inBinade (h.num_pos hden) hden
  rw [hexponent, h'.unique hden h, max_eq_left he]

/-! ## Fractions -/

/-- On the grid of its exponent a fraction is rounded to one point or the other. -/
theorem ofRatio_eq_some_iff (hden : 0 < den) (h : InBinade num den e) (hmin : minExponent ≤ e)
    (hmax : e ≤ maxExponent) (hm : m < 2 * hiddenBit) : ofRatio num den = some ⟨false, m, e⟩ ↔
      roundDiv (num * powerUp (-e)) (den * powerUp e) = m := by
  have hnum : (num == 0) = false := beq_false_of_ne (by have := h.num_pos hden; omega)
  simp only [ofRatio, hnum, Bool.false_eq_true, if_false, exponentOf_eq hden h hmin]
  generalize roundDiv (num * powerUp (-e)) (den * powerUp e) = r
  by_cases hr : r = 2 * hiddenBit
  · subst hr
    simp only [beq_self_eq_true, if_true]
    constructor
    · intro hsome
      split at hsome
      · simp at hsome
      · have hexponent := congrArg Binary64.exponent (Option.some.inj hsome)
        simp only at hexponent
        omega
    · omega
  · simp only [beq_false_of_ne hr, Bool.false_eq_true, if_false, not_lt.mpr hmax]
    simp

theorem InBinade.lt (h : InBinade num den e) (hden : 0 < den) {k : Nat} (hnum : num < 2 ^ k) :
    e + 52 < k := by
  have hone : (1 : ℚ) ≤ den := by exact_mod_cast hden
  refine (zpow_lt_zpow_iff_right₀ (by norm_num : (1 : ℚ) < 2)).mp ?_
  calc (2 : ℚ) ^ (e + 52) ≤ 2 ^ (e + 52) * den := le_mul_of_one_le_right (by positivity) hone
    _ ≤ num := h.1
    _ < 2 ^ (k : Int) := by exact_mod_cast hnum

/-- A fraction that is not too large is rounded to some number. -/
theorem isSome_ofRatio {k : Nat} (hden : 0 < den) (hnum : num < 2 ^ k) (hk : k ≤ 1000) :
    (ofRatio num den).isSome := by
  unfold ofRatio
  split
  · rfl
  · rename_i hne
    have hpos : 0 < num := by simp only [beq_iff_eq] at hne; omega
    obtain ⟨e, h, hexponent⟩ := exists_inBinade hpos hden
    have he := h.lt hden hnum
    have hcarried : ¬ (if (roundDiv (num * powerUp (-exponentOf num den))
        (den * powerUp (exponentOf num den)) == 2 * hiddenBit) = true
        then exponentOf num den + 1 else exponentOf num den) > maxExponent := by
      rw [hexponent]
      split <;> simp only [maxExponent, minExponent] <;> omega
    simp only [if_neg hcarried, Option.isSome_some]

/-- The mantissa has at most one bit more than fit, and the exponent is bounded by the
numerator. -/
theorem bounds_ofRatio {k : Nat} {x : Binary64} (hden : 0 < den) (hnum : num < 2 ^ k)
    (h : ofRatio num den = some x) : x.mantissa ≤ 2 ^ 53 ∧ x.exponent ≤ k := by
  unfold ofRatio at h
  split at h
  · obtain rfl := Option.some.inj h
    refine ⟨Nat.zero_le _, ?_⟩
    simp only [zero, signedZero, minExponent]
    omega
  · rename_i hne
    have hpos : 0 < num := by simp only [beq_iff_eq] at hne; omega
    obtain ⟨e, hbinade, hexponent⟩ := exists_inBinade hpos hden
    have he := hbinade.lt hden hnum
    have hscaled : num * powerUp (-exponentOf num den) <
        2 ^ 53 * (den * powerUp (exponentOf num den)) := by
      rw [scaled_lt_iff, hexponent]
      refine hbinade.2.trans_le (mul_le_mul_of_nonneg_right ?_ (by positivity))
      exact zpow_le_zpow_right₀ (by norm_num) (by omega)
    have hround := roundDiv_le (Nat.mul_pos hden (powerUp_pos _)) hscaled.le
    have hlast : max e minExponent + 1 ≤ k := by simp only [minExponent]; omega
    simp only [Option.ite_none_left_eq_some, Option.some.injEq] at h
    obtain ⟨-, rfl⟩ := h
    rw [hexponent] at hround ⊢
    constructor
    · simp only
      split_ifs
      · decide
      · exact hround
    · simp only
      split_ifs <;> omega

/-- A fraction is rounded to a number without a sign. -/
theorem negative_ofRatio {x : Binary64} (h : ofRatio num den = some x) : x.negative = false := by
  unfold ofRatio at h
  split at h
  · obtain rfl := Option.some.inj h
    rfl
  · simp only [Option.ite_none_left_eq_some, Option.some.injEq] at h
    obtain ⟨-, rfl⟩ := h
    rfl

/-! ## Natural numbers -/

theorem inBinade_one {n k : Nat} (low : 2 ^ k ≤ n) (high : n < 2 ^ (k + 1)) :
    InBinade n 1 (k - 52) := by
  constructor
  · rw [show (k : Int) - 52 + 52 = (k : Int) by ring, zpow_natCast, Nat.cast_one, mul_one]
    exact_mod_cast low
  · rw [show (k : Int) - 52 + 53 = ((k + 1 : Nat) : Int) by omega, zpow_natCast,
      Nat.cast_one, mul_one]
    exact_mod_cast high

/-- A natural number with no more bits than a mantissa is a binary number. -/
theorem ofNat?_exact {n k : Nat} (low : 2 ^ k ≤ n) (high : n < 2 ^ (k + 1)) (hk : k ≤ 52) :
    ofNat? n = some ⟨false, n * 2 ^ (52 - k), k - 52⟩ := by
  have hpow : 2 ^ (k + 1) * 2 ^ (52 - k) = 2 * hiddenBit := by
    rw [← Nat.pow_add, show k + 1 + (52 - k) = 53 by omega]
    rfl
  have hm : n * 2 ^ (52 - k) < 2 * hiddenBit :=
    hpow ▸ Nat.mul_lt_mul_of_pos_right high (Nat.two_pow_pos _)
  refine (ofRatio_eq_some_iff Nat.one_pos (inBinade_one low high) (by unfold minExponent; omega)
    (by unfold maxExponent; omega) hm).mpr ?_
  rw [powerUp_of_nonpos (by omega : (k : Int) - 52 ≤ 0), Nat.mul_one, roundDiv_one,
    show -((k : Int) - 52) = ((52 - k : Nat) : Int) by omega, powerUp_natCast]

/-- A natural number with more bits is rounded. -/
theorem ofNat?_rounded {n k q : Nat} (low : 2 ^ (k + 52) ≤ n) (high : n < 2 ^ (k + 53))
    (hk : k ≤ 900) (hq : roundDiv n (2 ^ k) = q) (hfits : q < 2 * hiddenBit) :
    ofNat? n = some ⟨false, q, k⟩ := by
  have h : InBinade n 1 k := by
    have h := inBinade_one low high
    rwa [show ((k + 52 : Nat) : Int) - 52 = k by omega] at h
  refine (ofRatio_eq_some_iff Nat.one_pos h (by unfold minExponent; omega)
    (by unfold maxExponent; omega) hfits).mpr ?_
  rw [powerUp_of_nonpos (by omega : -(k : Int) ≤ 0), powerUp_natCast, Nat.mul_one, Nat.one_mul, hq]

end Signalbox.Binary64
