import Signalbox.Number.Shortest
import Signalbox.Proofs.Number.Rounding

/-
  Signalbox/Proofs/Number/Whole.lean --- whole numbers, their digits and their tenfold.

  A whole number with no more bits than a mantissa is written with all its digits,
  since no other whole number is as near to it as the ends of its interval.  A
  reader that takes the digits with a zero after the point reads ten times the
  number and divides by ten, and rounds both times.  The first rounding is off
  when the tenfold has more bits than fit and does not end in zeros enough, and
  the second one mends that unless it is off by more than half a step.
-/

set_option autoImplicit false

namespace Signalbox.Binary64

/-- The number ten. -/
def ten : Binary64 := ⟨false, 5629499534213120, -49⟩

theorem ofNat?_ten : ofNat? 10 = some ten :=
  ofNat?_exact (k := 3) (by decide) (by decide) (by decide)

theorem zero_divMagnitude (y : Binary64) : zero.divMagnitude y = some zero := by
  simp [divMagnitude, zero, signedZero, ofRatio]

theorem divMagnitude_ten {y : Binary64} {V : Nat} (hexp : -49 ≤ y.exponent)
    (hvalue : y.mantissa * powerUp (y.exponent + 49) = V * 2 ^ 49) :
    y.divMagnitude ten = ofRatio (V * 2 ^ 49) (10 * 2 ^ 49) := by
  simp only [divMagnitude, ten, sub_neg_eq_add, hvalue]
  rw [powerUp_of_nonpos (by omega : -(y.exponent + 49) ≤ 0)]
  rfl

/-- A number near ten times a whole number is divided by ten. -/
theorem divMagnitude_ten_iff {y : Binary64} {V k m : Nat} (hexp : -49 ≤ y.exponent)
    (hvalue : y.mantissa * powerUp (y.exponent + 49) = V * 2 ^ 49) (low : 10 * 2 ^ k ≤ V)
    (high : V < 10 * 2 ^ (k + 1)) (hk : k ≤ 52) (hm : m < 2 * hiddenBit) :
    y.divMagnitude ten = some ⟨false, m, k - 52⟩ ↔ roundDiv (V * 2 ^ (52 - k)) 10 = m := by
  have hbinade : InBinade (V * 2 ^ 49) (10 * 2 ^ 49) (k - 52) := by
    constructor
    · rw [show (k : Int) - 52 + 52 = (k : Int) by ring, zpow_natCast]
      have : 2 ^ k * (10 * 2 ^ 49) ≤ V * 2 ^ 49 := by
        calc 2 ^ k * (10 * 2 ^ 49) = 10 * 2 ^ k * 2 ^ 49 := by ring
          _ ≤ V * 2 ^ 49 := Nat.mul_le_mul_right _ low
      exact_mod_cast this
    · rw [show (k : Int) - 52 + 53 = ((k + 1 : Nat) : Int) by omega, zpow_natCast]
      have : V * 2 ^ 49 < 2 ^ (k + 1) * (10 * 2 ^ 49) := by
        calc V * 2 ^ 49 < 10 * 2 ^ (k + 1) * 2 ^ 49 :=
              Nat.mul_lt_mul_of_pos_right high (by decide)
          _ = 2 ^ (k + 1) * (10 * 2 ^ 49) := by ring
      exact_mod_cast this
  have hscale : V * 2 ^ 49 * 2 ^ (52 - k) = V * 2 ^ (52 - k) * 2 ^ 49 := by ring
  have hmin : minExponent ≤ (k : Int) - 52 := by unfold minExponent; omega
  have hmax : (k : Int) - 52 ≤ maxExponent := by unfold maxExponent; omega
  rw [divMagnitude_ten hexp hvalue, ofRatio_eq_some_iff (by decide) hbinade hmin hmax hm,
    powerUp_of_nonpos (by omega : (k : Int) - 52 ≤ 0),
    show -((k : Int) - 52) = ((52 - k : Nat) : Int) by omega, powerUp_natCast, hscale, Nat.mul_one,
    roundDiv_mul_right _ _ (by decide)]

/-- The magnitude of the number is a whole number with no more bits than a mantissa. -/
def IsWhole (x : Binary64) (n : Nat) : Prop := n < 2 ^ 53 ∧ ofNat? n = some (x.withSign false)

/-! ## Digits -/

section Digits

variable {n k : Nat}

theorem powerOfTen_natCast (p : Nat) : powerOfTen p = 10 ^ p := rfl

theorem powerOfTen_of_nonpos {e : Int} (he : e ≤ 0) : powerOfTen e = 1 := by
  simp [powerOfTen, Int.toNat_of_nonpos he]

/-- A whole number as a binary number. -/
def wholeAt (negative : Bool) (n k : Nat) : Binary64 := ⟨negative, n * 2 ^ (52 - k), k - 52⟩

/-- The interval of a whole number reaches no further than half a unit. -/
theorem interval_wholeAt (negative : Bool) (n : Nat) (hk : k ≤ 52) : ∃ below closed,
    (below = 1 ∨ below = 2) ∧ interval (wholeAt negative n k) =
      ⟨4 * (n * 2 ^ (52 - k)) - below, 4 * (n * 2 ^ (52 - k)), 4 * (n * 2 ^ (52 - k)) + 2,
        4 * 2 ^ (52 - k), closed⟩ := by
  refine ⟨if (wholeAt negative n k).mantissa == hiddenBit &&
    (wholeAt negative n k).exponent > minExponent then 1 else 2,
    (wholeAt negative n k).mantissa % 2 == 0, ?_, ?_⟩
  · split_ifs <;> simp
  · simp only [interval, wholeAt, powerUp_of_nonpos (by omega : (k : Int) - 52 ≤ 0),
      show -((k : Int) - 52) = ((52 - k : Nat) : Int) by omega, powerUp_natCast, Nat.mul_one]

/-- The only whole number in the interval of a whole number is the number. -/
theorem holds_wholeAt_iff (negative : Bool) (hn : 0 < n) (hk : k ≤ 52) (c p : Nat) :
    (interval (wholeAt negative n k)).holds ⟨c, p⟩ = true ↔ c * 10 ^ p = n := by
  obtain ⟨below, closed, hbelow, hinterval⟩ := interval_wholeAt negative n hk
  have hsame : c * 10 ^ p * 2 ^ (52 - k) = n * 2 ^ (52 - k) ↔ c * 10 ^ p = n :=
    Nat.mul_left_inj (Nat.two_pow_pos _).ne'
  have hpoint : c * 10 ^ p * (4 * 2 ^ (52 - k)) = 4 * (c * 10 ^ p * 2 ^ (52 - k)) := by ring
  have hclosed (point mantissa : Nat) : 4 * mantissa - below ≤ 4 * point ∧
      4 * point ≤ 4 * mantissa + 2 ↔ point = mantissa := by omega
  have hopen (point mantissa : Nat) (hpos : 0 < mantissa) : 4 * mantissa - below < 4 * point ∧
      4 * point < 4 * mantissa + 2 ↔ point = mantissa := by omega
  rw [hinterval, ← hsame, Interval.holds]
  simp only [powerOfTen_natCast, powerOfTen_of_nonpos (by omega : -(p : Int) ≤ 0), hpoint,
    Nat.mul_one]
  cases closed with
  | true =>
    rw [if_pos rfl, Bool.and_eq_true, decide_eq_true_eq, decide_eq_true_eq, hclosed]
  | false =>
    rw [if_neg Bool.false_ne_true, Bool.and_eq_true, decide_eq_true_eq, decide_eq_true_eq,
      hopen _ _ (by positivity)]

theorem magnitudeOf_wholeAt (negative : Bool) (hn : 0 < n) (hk : k ≤ 52) :
    magnitudeOf (interval (wholeAt negative n k)).value (interval (wholeAt negative n k)).den =
      (Nat.toDigits 10 n).length := by
  obtain ⟨below, closed, -, hinterval⟩ := interval_wholeAt negative n hk
  have hvalue : 4 * (n * 2 ^ (52 - k)) = n * (4 * 2 ^ (52 - k)) := by ring
  rw [hinterval, hvalue, magnitudeOf, if_pos (Nat.le_mul_of_pos_left _ hn),
    Nat.mul_div_cancel _ (by positivity)]

/-- A grid has the number exactly if the number ends in so many zeros. -/
theorem onGrid_wholeAt (negative : Bool) (hn : 0 < n) (hk : k ≤ 52) {count p : Nat}
    (hcount : count + p = (Nat.toDigits 10 n).length) :
    onGrid (interval (wholeAt negative n k)) count =
      if n / 10 ^ p * 10 ^ p = n then some ⟨n / 10 ^ p, p⟩ else none := by
  have hpower : magnitudeOf (interval (wholeAt negative n k)).value
      (interval (wholeAt negative n k)).den - (count : Int) = (p : Int) := by
    rw [magnitudeOf_wholeAt negative hn hk]
    omega
  have hquotient : (interval (wholeAt negative n k)).value /
      ((interval (wholeAt negative n k)).den * 10 ^ p) = n / 10 ^ p := by
    obtain ⟨below, closed, -, hinterval⟩ := interval_wholeAt negative n hk
    have hvalue : 4 * (n * 2 ^ (52 - k)) = n * (4 * 2 ^ (52 - k)) := by ring
    rw [hinterval, hvalue, ← Nat.div_div_eq_div_mul, Nat.mul_div_cancel _ (by positivity)]
  have hhigh : (interval (wholeAt negative n k)).holds ⟨n / 10 ^ p + 1, p⟩ = false := by
    rw [← Bool.not_eq_true, holds_wholeAt_iff negative hn hk]
    have := Nat.lt_div_mul_add (a := n) (b := 10 ^ p) (by positivity)
    rw [Nat.add_mul, Nat.one_mul]
    omega
  simp only [onGrid, hpower, powerOfTen_natCast, powerOfTen_of_nonpos (by omega : -(p : Int) ≤ 0),
    Nat.mul_one, hquotient, hhigh]
  by_cases hends : n / 10 ^ p * 10 ^ p = n
  · rw [if_pos hends, (holds_wholeAt_iff negative hn hk _ _).mpr hends]
  · rw [if_neg hends, Bool.eq_false_iff.mpr (mt (holds_wholeAt_iff negative hn hk _ _).mp hends)]

/-- The number is on some grid without a fraction. -/
theorem searchGrids_wholeAt (negative : Bool) (hn : 0 < n) (hk : k ≤ 52) (fuel : Nat)
    {count : Nat} (hcount : count ≤ (Nat.toDigits 10 n).length)
    (hfuel : (Nat.toDigits 10 n).length < count + fuel) :
    ∃ c p : Nat, searchGrids (interval (wholeAt negative n k)) fuel count = some ⟨c, p⟩ ∧
      c * 10 ^ p = n := by
  induction fuel generalizing count with
  | zero => omega
  | succ fuel ih =>
    obtain ⟨p, hp⟩ := Nat.exists_eq_add_of_le hcount
    rw [searchGrids, onGrid_wholeAt negative hn hk hp.symm]
    split_ifs with hends
    · exact ⟨_, p, rfl, hends⟩
    · refine ih ?_ (by omega)
      by_contra hlast
      obtain rfl : p = 0 := by omega
      simp at hends

theorem stripZeros_natCast (fuel c p : Nat) :
    ∃ c' p' : Nat, stripZeros fuel ⟨c, p⟩ = ⟨c', p'⟩ ∧ c' * 10 ^ p' = c * 10 ^ p := by
  induction fuel generalizing c p with
  | zero => exact ⟨c, p, rfl, rfl⟩
  | succ fuel ih =>
    rw [stripZeros]
    split
    · rename_i hends
      obtain ⟨c', p', hstrip, hvalue⟩ := ih (c / 10) (p + 1)
      refine ⟨c', p', by rw [← hstrip]; push_cast; rfl, hvalue.trans ?_⟩
      simp only [Bool.and_eq_true, beq_iff_eq] at hends
      rw [Nat.pow_succ', ← Nat.mul_assoc, Nat.div_mul_cancel (Nat.dvd_of_mod_eq_zero hends.2)]
    · exact ⟨c, p, rfl, rfl⟩

/-- The digits of a whole number are those of its decimal numeral, but for zeros at the end. -/
theorem shortest_wholeAt (negative : Bool) (hn : 0 < n) (hk : k ≤ 52)
    (hlength : (Nat.toDigits 10 n).length ≤ 17) :
    ∃ c p : Nat, (wholeAt negative n k).shortest = ⟨c, p⟩ ∧ c * 10 ^ p = n := by
  have hmantissa : (n * 2 ^ (52 - k) == 0) = false :=
    beq_false_of_ne (Nat.mul_ne_zero (by omega) (Nat.two_pow_pos _).ne')
  have hcount : 1 ≤ (Nat.toDigits 10 n).length := Nat.length_toDigits_pos
  obtain ⟨c, p, hsearch, hvalue⟩ := searchGrids_wholeAt negative hn hk 17 hcount (by omega)
  obtain ⟨c', p', hstrip, hvalue'⟩ := stripZeros_natCast 20 c p
  refine ⟨c', p', ?_, hvalue'.trans hvalue⟩
  rw [shortest, hsearch]
  simp only [wholeAt, hmantissa, Bool.false_eq_true, if_false, Option.getD_some, hstrip]

end Digits

theorem IsWhole.eq_signedZero {x : Binary64} (h : x.IsWhole 0) : x = signedZero x.negative := by
  have hzero : x.withSign false = zero := Option.some.inj h.2.symm
  obtain ⟨negative, mantissa, exponent⟩ := x
  obtain ⟨-, rfl, rfl⟩ := Binary64.mk.inj hzero
  rfl

theorem IsWhole.eq_wholeAt {x : Binary64} {n : Nat} (h : x.IsWhole n) (hn : 0 < n) :
    Nat.log2 n ≤ 52 ∧ x = wholeAt x.negative n (Nat.log2 n) := by
  have hlow : 2 ^ Nat.log2 n ≤ n := Nat.log2_self_le (by omega)
  have hlog : Nat.log2 n ≤ 52 := by
    have hpow : 2 ^ Nat.log2 n < 2 ^ 53 := hlow.trans_lt h.1
    have := (Nat.pow_lt_pow_iff_right (by decide)).mp hpow
    omega
  have hexact := Option.some.inj ((ofNat?_exact hlow Nat.lt_log2_self hlog).symm.trans h.2)
  obtain ⟨negative, mantissa, exponent⟩ := x
  obtain ⟨-, rfl, rfl⟩ := Binary64.mk.inj hexact
  exact ⟨hlog, rfl⟩

/-! ## Tenfold and back -/

/-- The whole numbers that are not what is left when ten times themselves is divided by ten, each
rounded. -/
def IsMisread (n : Nat) : Prop :=
  2 ^ 53 ≤ 5 * n ∧ n < 2 ^ 51 ∧ n % 2 = 1 ∨ 2 ^ 54 ≤ 5 * n ∧ n < 2 ^ 52 ∧ n % 4 = 2 ∨
    2 ^ 55 ≤ 5 * n ∧ (n % 8 = 1 ∨ n % 8 = 4 ∨ n % 8 = 7)

instance (n : Nat) : Decidable (IsMisread n) := inferInstanceAs (Decidable (_ ∨ _))

/-- What is left of ten times a whole number, and whether it is the number. -/
structure Tenfold (n : Nat) (y : Binary64) : Prop where
  tenfold : ofNat? (10 * n) = some y
  isSome : (y.divMagnitude ten).isSome
  reads : y.divMagnitude ten = ofNat? n ↔ ¬ IsMisread n

variable {n k V : Nat} {y : Binary64}

theorem tenfold_of_binade (hy : ofNat? (10 * n) = some y) (hexp : -49 ≤ y.exponent)
    (hvalue : y.mantissa * powerUp (y.exponent + 49) = V * 2 ^ 49) (low : 2 ^ k ≤ n)
    (high : n < 2 ^ (k + 1)) (hk : k ≤ 52) (hlow : 10 * 2 ^ k ≤ V) (hhigh : V < 10 * 2 ^ (k + 1))
    (hreads : roundDiv (V * 2 ^ (52 - k)) 10 = n * 2 ^ (52 - k) ↔ ¬ IsMisread n) :
    Tenfold n y := by
  have hV : V * 2 ^ 49 < 2 ^ 106 := by
    calc V * 2 ^ 49 < 10 * 2 ^ (k + 1) * 2 ^ 49 := Nat.mul_lt_mul_of_pos_right hhigh (by decide)
      _ ≤ 2 ^ 4 * 2 ^ 53 * 2 ^ 49 := by gcongr <;> omega
      _ = 2 ^ 106 := by rw [← Nat.pow_add, ← Nat.pow_add]
  have hm : n * 2 ^ (52 - k) < 2 * hiddenBit := by
    calc n * 2 ^ (52 - k) < 2 ^ (k + 1) * 2 ^ (52 - k) :=
          Nat.mul_lt_mul_of_pos_right high (Nat.two_pow_pos _)
      _ = 2 * hiddenBit := by rw [← Nat.pow_add, show k + 1 + (52 - k) = 53 by omega]; rfl
  refine ⟨hy, divMagnitude_ten hexp hvalue ▸ isSome_ofRatio (by decide) hV (by decide), ?_⟩
  rw [ofNat?_exact low high hk, divMagnitude_ten_iff hexp hvalue hlow hhigh hk hm, hreads]

/-- Ten times the number fits a mantissa. -/
theorem exists_tenfold_exact (hn : 0 < n) (hfits : 5 * n < 2 ^ 53) : ∃ y, Tenfold n y := by
  have hlow : 2 ^ Nat.log2 n ≤ n := Nat.log2_self_le (by omega)
  have hhigh : n < 2 ^ (Nat.log2 n + 1) := Nat.lt_log2_self
  have hlog : Nat.log2 n ≤ 52 := by
    have : 2 ^ Nat.log2 n < 2 ^ 53 := by omega
    have := (Nat.pow_lt_pow_iff_right (by decide)).mp this
    omega
  have hreads : roundDiv (10 * n * 2 ^ (52 - Nat.log2 n)) 10 = n * 2 ^ (52 - Nat.log2 n) ↔
      ¬ IsMisread n := by
    refine iff_of_true ?_ (by unfold IsMisread; omega)
    rw [show 10 * n * 2 ^ (52 - Nat.log2 n) = n * 2 ^ (52 - Nat.log2 n) * 10 by ring]
    exact (roundDiv_mul_right _ 1 (by decide)).trans (roundDiv_one _)
  have hbinade {y : Binary64} (hy : ofNat? (10 * n) = some y) (hexp : -49 ≤ y.exponent)
      (hvalue : y.mantissa * powerUp (y.exponent + 49) = 10 * n * 2 ^ 49) : Tenfold n y :=
    tenfold_of_binade hy hexp hvalue hlow hhigh hlog (by omega) (by omega) hreads
  by_cases hten : 10 * n < 2 ^ 53
  · have hlow' : 2 ^ Nat.log2 (10 * n) ≤ 10 * n := Nat.log2_self_le (by omega)
    have hhigh' : 10 * n < 2 ^ (Nat.log2 (10 * n) + 1) := Nat.lt_log2_self
    generalize Nat.log2 (10 * n) = K at hlow' hhigh'
    have hK : K ≤ 52 := by
      have : 2 ^ K < 2 ^ 53 := by omega
      have := (Nat.pow_lt_pow_iff_right (by decide)).mp this
      omega
    have hK' : 3 ≤ K := by
      have : 2 ^ 3 < 2 ^ (K + 1) := by omega
      have := (Nat.pow_lt_pow_iff_right (by decide)).mp this
      omega
    refine ⟨_, hbinade (ofNat?_exact hlow' hhigh' hK) (by simp only; omega) ?_⟩
    simp only
    rw [show (K : Int) - 52 + 49 = ((K - 3 : Nat) : Int) by omega, powerUp_natCast, Nat.mul_assoc,
      ← Nat.pow_add, show 52 - K + (K - 3) = 49 by omega]
  · have hhalf : roundDiv (10 * n) (2 ^ 1) = 5 * n := by
      rw [show 10 * n = 5 * n * 2 by ring]
      exact (roundDiv_mul_right _ 1 (by decide)).trans (roundDiv_one _)
    have hy := ofNat?_rounded (k := 1) (by omega) (by omega) (by decide) hhalf
      (show 5 * n < 2 * hiddenBit from hfits)
    refine ⟨_, hbinade hy (by simp only; omega) ?_⟩
    change 5 * n * 2 ^ 50 = 10 * n * 2 ^ 49
    ring

/-- Ten times the number has `j` bits too many. -/
theorem tenfold_rounded {j q : Nat} (low : 2 ^ (j + 52) ≤ 10 * n) (high : 10 * n < 2 ^ (j + 53))
    (hj : j ≤ 4) (hq : roundDiv (10 * n) (2 ^ j) = q) (hfits : q < 2 * hiddenBit) (hlow : 2 ^ k ≤ n)
    (hhigh : n < 2 ^ (k + 1)) (hk : k ≤ 52) (hV : 10 * 2 ^ k ≤ q * 2 ^ j)
    (hV' : q * 2 ^ j < 10 * 2 ^ (k + 1))
    (hreads : roundDiv (q * 2 ^ j * 2 ^ (52 - k)) 10 = n * 2 ^ (52 - k) ↔ ¬ IsMisread n) :
    Tenfold n ⟨false, q, j⟩ := by
  refine tenfold_of_binade (ofNat?_rounded low high (by omega) hq hfits) (by simp only; omega) ?_
    hlow hhigh hk hV hV' hreads
  simp only
  rw [show (j : Int) + 49 = ((j + 49 : Nat) : Int) by omega, powerUp_natCast, Nat.pow_add,
    Nat.mul_assoc]

theorem exists_tenfold (hn : n < 2 ^ 53) : ∃ y, Tenfold n y := by
  obtain rfl | hpos := Nat.eq_zero_or_pos n
  · have hzero := zero_divMagnitude ten
    exact ⟨zero, rfl, hzero ▸ rfl, iff_of_true hzero (by decide)⟩
  by_cases h53 : 5 * n < 2 ^ 53
  · exact exists_tenfold_exact hpos h53
  by_cases h54 : 5 * n < 2 ^ 54
  · have hq := (roundDiv_eq_iff (a := 10 * n) (b := 2 ^ 2) (by decide)).mp rfl
    generalize hround : roundDiv (10 * n) (2 ^ 2) = q at hq
    by_cases h51 : n < 2 ^ 51
    · refine ⟨_, tenfold_rounded (k := 50) (by omega) (by omega) (by decide) hround
        (by unfold hiddenBit; omega) (by omega) (by omega) (by decide) (by omega) (by omega) ?_⟩
      rw [roundDiv_eq_iff (by decide), IsMisread]
      omega
    · refine ⟨_, tenfold_rounded (k := 51) (by omega) (by omega) (by decide) hround
        (by unfold hiddenBit; omega) (by omega) (by omega) (by decide) (by omega) (by omega) ?_⟩
      rw [roundDiv_eq_iff (by decide), IsMisread]
      omega
  by_cases h55 : 5 * n < 2 ^ 55
  · have hq := (roundDiv_eq_iff (a := 10 * n) (b := 2 ^ 3) (by decide)).mp rfl
    generalize hround : roundDiv (10 * n) (2 ^ 3) = q at hq
    by_cases h52 : n < 2 ^ 52
    · refine ⟨_, tenfold_rounded (k := 51) (by omega) (by omega) (by decide) hround
        (by unfold hiddenBit; omega) (by omega) (by omega) (by decide) (by omega) (by omega) ?_⟩
      rw [roundDiv_eq_iff (by decide), IsMisread]
      omega
    · refine ⟨_, tenfold_rounded (k := 52) (by omega) (by omega) (by decide) hround
        (by unfold hiddenBit; omega) (by omega) (by omega) (by decide) (by omega) (by omega) ?_⟩
      rw [roundDiv_eq_iff (by decide), IsMisread]
      omega
  · have hq := (roundDiv_eq_iff (a := 10 * n) (b := 2 ^ 4) (by decide)).mp rfl
    generalize hround : roundDiv (10 * n) (2 ^ 4) = q at hq
    refine ⟨_, tenfold_rounded (k := 52) (by omega) (by omega) (by decide) hround
      (by unfold hiddenBit; omega) (by omega) (by omega) (by decide) (by omega) (by omega) ?_⟩
    rw [roundDiv_eq_iff (by decide), IsMisread]
    omega

end Signalbox.Binary64
