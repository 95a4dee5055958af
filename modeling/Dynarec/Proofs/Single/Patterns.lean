/-
Patterns and the numbers they stand for.

A finite pattern stands for a rational number (`value`), read off its fields in the usual way.
Without the sign, patterns are numbered from zero on and their numbers grow with them
(`strictMono_units`), the step from one exponent to the next included, so patterns that are not NaNs
are ordered like their numbers (`lt_iff`, `le_iff`). An integer with at most 24 bits is the number
of a pattern (`value_ofScaled`).
-/
import Mathlib.Algebra.Order.Field.Basic
import Mathlib.Algebra.Order.Field.Rat
import Mathlib.Algebra.Order.Group.Int
import Mathlib.Data.Nat.Bitwise
import Mathlib.Data.Int.ConditionallyCompleteOrder
import Mathlib.Data.Nat.Log
import Mathlib.Order.Monotone.Odd
import Mathlib.Tactic.NormNum
import Mathlib.Tactic.Ring
import Dynarec.Single.Convert

set_option autoImplicit false

namespace Dynarec.Single

variable {a b w : Word} {m n : ℕ}

/-! ## Fields -/

theorem toNat_isNegative (w : Word) : (isNegative w).toNat = w.toNat / 2 ^ 31 := by
  have hbit : (w &&& 0x80000000).toNat = (w.toNat.testBit 31).toNat * 2 ^ 31 :=
    (UInt32.toNat_and w 0x80000000).trans (Nat.and_two_pow w.toNat 31)
  have hnegative : isNegative w = w.toNat.testBit 31 := by
    rw [isNegative, Bool.eq_iff_iff, bne_iff_ne, Ne, ← UInt32.toNat_inj, hbit]
    cases w.toNat.testBit 31 <;> decide
  rw [hnegative, Nat.toNat_testBit]
  have hlt := w.toNat_lt
  omega

theorem fraction_eq (w : Word) : fraction w = w.toNat % 2 ^ 23 :=
  (UInt32.toNat_and w 0x7fffff).trans (Nat.and_two_pow_sub_one_eq_mod w.toNat 23)

theorem exponentField_eq (w : Word) : exponentField w = w.toNat / 2 ^ 23 % 2 ^ 8 := by
  have hshift : (w >>> 23).toNat = w.toNat / 2 ^ 23 :=
    (UInt32.toNat_shiftRight w 23).trans (Nat.shiftRight_eq_div_pow w.toNat 23)
  rw [← hshift]
  exact (UInt32.toNat_and (w >>> 23) 0xff).trans (Nat.and_two_pow_sub_one_eq_mod _ 8)

theorem toNat_eq_fields (w : Word) :
    w.toNat = fraction w + 2 ^ 23 * exponentField w + 2 ^ 31 * (isNegative w).toNat := by
  rw [fraction_eq, exponentField_eq, toNat_isNegative]
  have hlt := w.toNat_lt
  omega

theorem isInfinite_iff :
    isInfinite w = true ↔ exponentField w = 255 ∧ fraction w = 0 := by
  rw [isInfinite, Bool.and_eq_true, beq_iff_eq, beq_iff_eq]

theorem fraction_of_isNaN (h : isNaN w = true) : fraction w ≠ 0 := by
  rw [isNaN, Bool.and_eq_true, bne_iff_ne] at h
  exact h.2

theorem not_isNaN_of_finite (h : exponentField w ≠ 255) : isNaN w = false := by
  rw [isNaN, beq_eq_false_iff_ne.mpr h, Bool.false_and]

theorem not_isInfinite_of_finite (h : exponentField w ≠ 255) : isInfinite w = false := by
  rw [isInfinite, beq_eq_false_iff_ne.mpr h, Bool.false_and]

theorem toNat_magnitude (w : Word) : (magnitude w).toNat = w.toNat % 2 ^ 31 :=
  (UInt32.toNat_and w 0x7fffffff).trans (Nat.and_two_pow_sub_one_eq_mod w.toNat 31)

/-- A magnitude is the exponent bits above the fraction bits. -/
theorem magnitude_fields (w : Word) :
    (magnitude w).toNat / 2 ^ 23 = exponentField w ∧
      (magnitude w).toNat % 2 ^ 23 = fraction w := by
  rw [toNat_magnitude, exponentField_eq, fraction_eq]
  omega

/-! ## Numbers -/

/-- The number that a finite pattern stands for. A subnormal one has the least exponent and no
hidden bit. -/
def value (w : Word) : ℚ :=
  (if isNegative w then -1 else 1) *
    if exponentField w = 0 then (fraction w : ℚ) / 2 ^ 23 * 2 ^ (-126 : ℤ)
    else (1 + (fraction w : ℚ) / 2 ^ 23) * 2 ^ ((exponentField w : ℤ) - 127)

theorem cast_twoTo (k : ℕ) : ((twoTo k : ℤ) : ℚ) = 2 ^ (k : ℤ) := by
  have htwo : twoTo k = 2 ^ k := rfl
  rw [htwo, Int.cast_natCast, Nat.cast_pow, Nat.cast_ofNat, zpow_natCast]

/-- The significand counts units of the last place, so its exponent is lower by the 23 places of the
fraction. -/
theorem value_eq (w : Word) : value w = (signedSignificand w : ℚ) * 2 ^ exponent w := by
  have hsub : (2 : ℚ) ^ (-126 : ℤ) = 2 ^ 23 * 2 ^ (-149 : ℤ) := by
    rw [← zpow_natCast, ← zpow_add₀ two_ne_zero]
    rfl
  have hnormal : (2 : ℚ) ^ ((exponentField w : ℤ) - 127) =
      2 ^ 23 * 2 ^ ((exponentField w : ℤ) - 150) := by
    rw [← zpow_natCast, ← zpow_add₀ two_ne_zero]
    congr 1
    omega
  have hunsigned : (if exponentField w = 0 then (fraction w : ℚ) / 2 ^ 23 * 2 ^ (-126 : ℤ)
      else (1 + (fraction w : ℚ) / 2 ^ 23) * 2 ^ ((exponentField w : ℤ) - 127)) =
        (significand w : ℚ) * 2 ^ exponent w := by
    rw [significand, exponent]
    split
    · rw [hsub, ← mul_assoc, div_mul_cancel₀ _ (pow_ne_zero 23 two_ne_zero)]
    · rw [hnormal, ← mul_assoc, add_mul, div_mul_cancel₀ _ (pow_ne_zero 23 two_ne_zero), one_mul,
        add_comm, Nat.cast_add]
      rfl
  rw [value, hunsigned, signedSignificand, ← mul_assoc]
  split
  · rw [neg_one_mul, Int.cast_neg, Int.cast_natCast]
  · rw [one_mul, Int.cast_natCast]

/-! ## The order of magnitudes -/

/-- What the pattern with the magnitude `n` counts of the least subnormal number. -/
def units (n : ℕ) : ℕ :=
  (if n / 2 ^ 23 = 0 then n % 2 ^ 23 else n % 2 ^ 23 + 2 ^ 23) * 2 ^ (n / 2 ^ 23 - 1)

/-- **The numbers grow with the magnitudes.** Within one exponent a unit of the last place is added;
from one exponent to the next the greatest significand becomes the least one of twice the unit. -/
theorem strictMono_units : StrictMono units := by
  refine strictMono_nat_of_lt_succ fun n => ?_
  by_cases hcarry : (n + 1) % 2 ^ 23 = 0
  · have hexp : (n + 1) / 2 ^ 23 = n / 2 ^ 23 + 1 := by omega
    have hfrac : n % 2 ^ 23 = 2 ^ 23 - 1 := by omega
    rw [units, units, hexp, hfrac, hcarry, if_neg (Nat.succ_ne_zero _), Nat.add_sub_cancel]
    cases n / 2 ^ 23 with
    | zero => decide
    | succ e =>
      have hunit := Nat.two_pow_pos e
      rw [if_neg (Nat.succ_ne_zero e), Nat.add_sub_cancel, Nat.pow_succ]
      omega
  · have hexp : (n + 1) / 2 ^ 23 = n / 2 ^ 23 := by omega
    have hfrac : (n + 1) % 2 ^ 23 = n % 2 ^ 23 + 1 := by omega
    rw [units, units, hexp, hfrac]
    refine Nat.mul_lt_mul_of_pos_right ?_ (Nat.two_pow_pos _)
    split <;> omega

/-- The units that a pattern counts, with its sign, by the integer that orders it. -/
def signedUnits (k : ℤ) : ℤ := k.sign * units k.natAbs

theorem signedUnits_neg (k : ℤ) : signedUnits (-k) = -signedUnits k := by
  rw [signedUnits, signedUnits, Int.sign_neg, Int.natAbs_neg, neg_mul]

theorem signedUnits_natCast (n : ℕ) : signedUnits n = units n := by
  cases n with
  | zero => rfl
  | succ n =>
    rw [signedUnits, Int.sign_natCast_of_ne_zero n.succ_ne_zero, one_mul, Int.natAbs_natCast]

theorem strictMono_signedUnits : StrictMono signedUnits := by
  refine strictMono_of_odd_strictMonoOn_nonneg signedUnits_neg fun j hj k hk hlt => ?_
  lift j to ℕ using hj
  lift k to ℕ using hk
  rw [signedUnits_natCast, signedUnits_natCast, Int.ofNat_lt]
  exact strictMono_units (Int.ofNat_lt.mp hlt)

theorem units_magnitude (w : Word) :
    units (magnitude w).toNat = significand w * 2 ^ (exponentField w - 1) := by
  obtain ⟨hexp, hfrac⟩ := magnitude_fields w
  rw [units, hexp, hfrac]
  rfl

theorem value_eq_units (w : Word) :
    value w = (if isNegative w then -1 else 1) * (units (magnitude w).toNat * 2 ^ (-149 : ℤ)) := by
  have hexp : exponent w = (exponentField w - 1 : ℕ) + (-149) := by
    rw [exponent]
    split <;> omega
  rw [value_eq, hexp, zpow_add₀ two_ne_zero, zpow_natCast, units_magnitude, signedSignificand]
  split <;> push_cast <;> ring

theorem value_eq_signedUnits (w : Word) :
    value w = signedUnits (orderKey w) * 2 ^ (-149 : ℤ) := by
  rw [value_eq_units, orderKey]
  split
  · rw [signedUnits_neg, signedUnits_natCast]
    push_cast
    ring
  · rw [signedUnits_natCast, one_mul, Int.cast_natCast]

/-! ## The order of patterns -/

theorem value_lt_value_iff : value a < value b ↔ orderKey a < orderKey b := by
  rw [value_eq_signedUnits, value_eq_signedUnits,
    mul_lt_mul_iff_left₀ (zpow_pos zero_lt_two (-149 : ℤ)), Int.cast_lt,
    strictMono_signedUnits.lt_iff_lt]

/-- **Finite patterns are ordered like their numbers.** -/
theorem lt_iff (ha : exponentField a ≠ 255) (hb : exponentField b ≠ 255) :
    lt a b = true ↔ value a < value b := by
  rw [lt, unordered, not_isNaN_of_finite ha, not_isNaN_of_finite hb, value_lt_value_iff]
  exact decide_eq_true_iff

theorem le_iff (ha : exponentField a ≠ 255) (hb : exponentField b ≠ 255) :
    le a b = true ↔ value a ≤ value b := by
  rw [le, unordered, not_isNaN_of_finite ha, not_isNaN_of_finite hb,
    ← not_lt (a := value b), value_lt_value_iff, not_lt]
  exact decide_eq_true_iff

/-! ## Patterns of integers -/

/-- The sign stands above the magnitude. -/
theorem toNat_withSign (hn : n < 2 ^ 31) (negative : Bool) :
    (zero negative ||| UInt32.ofNat n).toNat = 2 ^ 31 * negative.toNat + n := by
  have hofNat : (UInt32.ofNat n).toNat = n := UInt32.toNat_ofNat_of_lt' (hn.trans (by decide))
  rw [UInt32.toNat_or, hofNat]
  cases negative with
  | false => exact (Nat.zero_or n).trans (Nat.zero_add n).symm
  | true => exact (Nat.two_pow_add_eq_or_of_lt hn 1).symm

/-- **An integer with at most 24 bits** is moved to the left until it fills the significand, and the
exponent counts the places. -/
theorem units_magnitudeOfScaled (hm : m < 2 ^ 24) :
    magnitudeOfScaled m 0 < 255 * 2 ^ 23 ∧ units (magnitudeOfScaled m 0) = m * 2 ^ 149 := by
  by_cases hzero : m = 0
  · subst hzero
    decide
  have hlog : m.log2 ≤ 23 := Nat.le_of_lt_succ ((Nat.log2_lt hzero).mpr hm)
  have hunit : unitExponent m 0 = (m.log2 : ℤ) - 23 := by
    rw [unitExponent]
    omega
  obtain ⟨s, hs⟩ : ∃ s, s = m * 2 ^ (23 - m.log2) := ⟨_, rfl⟩
  have hunits : unitsOf m 0 (unitExponent m 0) = s := by
    rw [unitsOf, hunit, if_pos (by omega), hs]
    congr 2
    omega
  have hsplit : (2 : ℕ) ^ 23 = 2 ^ m.log2 * 2 ^ (23 - m.log2) := by
    rw [← Nat.pow_add, Nat.add_sub_cancel' hlog]
  have hle : 2 ^ 23 ≤ s := by
    rw [hs, hsplit]
    exact Nat.mul_le_mul_right _ (Nat.log2_self_le hzero)
  have hlt : s < 2 ^ 24 := by
    rw [hs, Nat.pow_succ, hsplit, Nat.mul_right_comm, ← Nat.pow_succ]
    exact Nat.mul_lt_mul_of_pos_right (Nat.lt_log2_self) (Nat.two_pow_pos _)
  have hmagnitude : magnitudeOfScaled m 0 = (m.log2 + 127) * 2 ^ 23 + (s - 2 ^ 23) := by
    have hplaces : (unitExponent m 0 + 149).toNat = m.log2 + 126 := by omega
    have htwo : twoTo 23 = 2 ^ 23 := rfl
    rw [magnitudeOfScaled, if_neg hzero]
    dsimp only
    rw [hunits, hplaces, htwo, Nat.min_eq_left (by omega)]
    omega
  have hexp : magnitudeOfScaled m 0 / 2 ^ 23 = m.log2 + 127 := by omega
  have hfrac : magnitudeOfScaled m 0 % 2 ^ 23 = s - 2 ^ 23 := by omega
  have hpow : (2 : ℕ) ^ (23 - m.log2) * 2 ^ (m.log2 + 126) = 2 ^ 149 := by
    rw [← Nat.pow_add]
    congr 1
    omega
  refine ⟨by omega, ?_⟩
  rw [units, hexp, hfrac, if_neg (by omega), Nat.sub_add_cancel hle, Nat.add_succ_sub_one, hs,
    Nat.mul_assoc, hpow]

theorem value_ofScaled (hm : m < 2 ^ 24) (negative : Bool) :
    exponentField (ofScaled negative m 0) ≠ 255 ∧
      value (ofScaled negative m 0) = (if negative then -1 else 1) * m := by
  obtain ⟨hfinite, hunits⟩ := units_magnitudeOfScaled hm
  have hword : (ofScaled negative m 0).toNat = 2 ^ 31 * negative.toNat + magnitudeOfScaled m 0 :=
    toNat_withSign (hfinite.trans (by decide)) negative
  have hmagnitude : (magnitude (ofScaled negative m 0)).toNat = magnitudeOfScaled m 0 := by
    rw [toNat_magnitude, hword]
    omega
  have hnegative : isNegative (ofScaled negative m 0) = negative := by
    have hsign := toNat_isNegative (ofScaled negative m 0)
    rw [hword] at hsign
    rw [Nat.mul_add_div (by decide), Nat.div_eq_of_lt (hfinite.trans (by decide))] at hsign
    generalize isNegative (ofScaled negative m 0) = sign at hsign
    cases sign <;> cases negative <;> first | rfl | cases hsign
  constructor
  · rw [← (magnitude_fields _).1, hmagnitude]
    omega
  · rw [value_eq_units, hnegative, hmagnitude, hunits, Nat.cast_mul, Nat.cast_pow, mul_assoc,
      ← zpow_natCast, Nat.cast_ofNat, ← zpow_add₀ two_ne_zero]
    norm_num

end Dynarec.Single
