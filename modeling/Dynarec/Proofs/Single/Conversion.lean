/-
Conversions to integers round exactly.

Rounding is a relation between rational numbers and integers (`Direction.Rounds`); it goes by no
integer that the number has not passed (`Rounds.le`, `Rounds.ge`). The conversions compute on scaled
integers instead: with an exponent of at least zero the number is an integer already, and otherwise
it is a quotient by a power of two, whose floor and remainder decide (`rounds_roundQuotient`). The
rounded number is a pattern again (`value_integral`), so that the comparisons in single precision
that decide whether it is taken as a word are comparisons of integers (`signed_toWord`). Truncation
tells a number that is too large from the least word by the sign of the pattern (`Converts`).
-/
import Dynarec.Proofs.Guest.Accesses
import Dynarec.Proofs.Single.Patterns
import Mathlib.Algebra.Order.Round
import Mathlib.Data.Rat.Floor
import Mathlib.Tactic.Linarith
import Mathlib.Tactic.NormNum
import Mathlib.Tactic.Ring

set_option autoImplicit false
set_option maxRecDepth 2048

namespace Dynarec.Single

variable {dir : Direction} {q : ℚ} {w : Word} {z z' d : ℤ}

/-! ## Numbers and rounding -/

/-- The integer `z` is the number `q` rounded in the given direction. -/
def Direction.Rounds (dir : Direction) (q : ℚ) (z : ℤ) : Prop :=
  match dir with
  | .down => z = ⌊q⌋
  | .up => z = ⌈q⌉
  | .towardZero => z = if 0 ≤ q then ⌊q⌋ else ⌈q⌉
  | .nearestEven => |q - z| ≤ 1 / 2 ∧ (|q - z| = 1 / 2 → Even z)

theorem rounds_of_close (h : |q - z| < 1 / 2) : Direction.nearestEven.Rounds q z :=
  ⟨h.le, fun heq => absurd heq h.ne⟩

theorem rounds_of_tie (h : |q - z| = 1 / 2) (hz : Even z) : Direction.nearestEven.Rounds q z :=
  ⟨h.le, fun _ => hz⟩

/-- Of two integers next to each other only one is even. -/
theorem not_lt_of_rounds (h : Direction.nearestEven.Rounds q z)
    (h' : Direction.nearestEven.Rounds q z') : ¬z < z' := by
  intro hlt
  obtain ⟨-, hle⟩ := abs_le.mp h.1
  obtain ⟨hle', -⟩ := abs_le.mp h'.1
  have hclose : (z' : ℚ) ≤ z + 1 := by linarith
  obtain rfl : z' = z + 1 := le_antisymm (by exact_mod_cast hclose) hlt
  rw [Int.cast_add, Int.cast_one] at hle'
  have htie : q = z + 1 / 2 := by linarith
  have heven : Even z := h.2 (by rw [htie, add_sub_cancel_left, abs_of_pos one_half_pos])
  have heven' : Even (z + 1) := h'.2 (by
    rw [htie, Int.cast_add, Int.cast_one, abs_sub_comm, abs_of_pos (by linarith)]
    ring)
  exact Int.even_add_one.mp heven' heven

/-- A number is rounded to one integer only. -/
theorem Direction.Rounds.unique (h : dir.Rounds q z) (h' : dir.Rounds q z') : z = z' := by
  cases dir with
  | down | up | towardZero => exact Eq.trans h (Eq.symm h')
  | nearestEven =>
    exact le_antisymm (not_lt.mp (not_lt_of_rounds h' h)) (not_lt.mp (not_lt_of_rounds h h'))

/-- **Rounding passes no integer.** -/
theorem Direction.Rounds.le (h : dir.Rounds q z) (hq : q ≤ z') : z ≤ z' := by
  cases dir with
  | down => exact h.trans_le (by exact_mod_cast (Int.floor_le q).trans hq)
  | up => exact h.trans_le (Int.ceil_le.mpr hq)
  | towardZero =>
    rw [Direction.Rounds] at h
    split at h
    · exact h.trans_le (by exact_mod_cast (Int.floor_le q).trans hq)
    · exact h.trans_le (Int.ceil_le.mpr hq)
  | nearestEven =>
    obtain ⟨hle, -⟩ := abs_le.mp h.1
    have hlt : (z : ℚ) < z' + 1 := by linarith
    exact Int.lt_add_one_iff.mp (by exact_mod_cast hlt)

theorem Direction.Rounds.ge (h : dir.Rounds q z) (hq : z' ≤ q) : z' ≤ z := by
  cases dir with
  | down => exact (Int.le_floor.mpr hq).trans_eq (Eq.symm h)
  | up => exact le_of_le_of_eq (by exact_mod_cast hq.trans (Int.le_ceil q)) (Eq.symm h)
  | towardZero =>
    rw [Direction.Rounds] at h
    split at h
    · exact (Int.le_floor.mpr hq).trans_eq h.symm
    · exact le_of_le_of_eq (by exact_mod_cast hq.trans (Int.le_ceil q)) h.symm
  | nearestEven =>
    obtain ⟨-, hle⟩ := abs_le.mp h.1
    have hlt : (z' : ℚ) < z + 1 := by linarith
    exact Int.lt_add_one_iff.mp (by exact_mod_cast hlt)

theorem rounds_intCast (dir : Direction) (z : ℤ) : dir.Rounds z z := by
  cases dir with
  | down => exact (Int.floor_intCast z).symm
  | up => exact (Int.ceil_intCast z).symm
  | towardZero =>
    rw [Direction.Rounds, Int.floor_intCast, Int.ceil_intCast, ite_self]
  | nearestEven =>
    refine rounds_of_close ?_
    rw [sub_self, abs_zero]
    exact one_half_pos

/-! ## Quotients -/

/-- A quotient is its floor and a rest below one. -/
theorem quotient_eq (z : ℤ) (hd : 0 < d) :
    (z : ℚ) / d = (z / d : ℤ) + (z % d : ℤ) / d ∧
      (0 : ℚ) ≤ (z % d : ℤ) ∧ ((z % d : ℤ) : ℚ) < d := by
  have hd' : (d : ℚ) ≠ 0 := Int.cast_ne_zero.mpr hd.ne'
  have hsum : ((z % d : ℤ) : ℚ) + d * (z / d : ℤ) = z := by exact_mod_cast Int.emod_add_mul_ediv z d
  refine ⟨?_, by exact_mod_cast Int.emod_nonneg z hd.ne', by exact_mod_cast Int.emod_lt_of_pos z hd⟩
  rw [← hsum, add_div, mul_div_cancel_left₀ _ hd', add_comm]

theorem floor_quotient (hd : 0 < d) : ⌊(z : ℚ) / d⌋ = z / d := by
  have hd' : (0 : ℚ) < d := Int.cast_pos.mpr hd
  obtain ⟨hq, hnonneg, hlt⟩ := quotient_eq z hd
  rw [hq, Int.floor_intCast_add, add_eq_left, Int.floor_eq_zero_iff]
  exact ⟨div_nonneg hnonneg hd'.le, (div_lt_one hd').mpr hlt⟩

theorem ceil_quotient (hd : 0 < d) :
    ⌈(z : ℚ) / d⌉ = if z % d = 0 then z / d else z / d + 1 := by
  have hd' : (0 : ℚ) < d := Int.cast_pos.mpr hd
  obtain ⟨hq, hnonneg, hlt⟩ := quotient_eq z hd
  rw [hq, Int.ceil_intCast_add]
  split
  · next hzero => rw [hzero, Int.cast_zero, zero_div, Int.ceil_zero, add_zero]
  · next hrest =>
    have hpos : (0 : ℚ) < (z % d : ℤ) :=
      hnonneg.lt_of_ne fun h => hrest (Int.cast_eq_zero.mp h.symm)
    rw [add_right_inj, Int.ceil_eq_iff, Int.cast_one, sub_self]
    exact ⟨div_pos hpos hd', ((div_lt_one hd').mpr hlt).le⟩

/-- The distance of a quotient from its floor. -/
theorem abs_sub_floor (z : ℤ) (hd : 0 < d) : |(z : ℚ) / d - (z / d : ℤ)| = (z % d : ℤ) / d := by
  obtain ⟨hq, hnonneg, -⟩ := quotient_eq z hd
  rw [hq, add_sub_cancel_left, abs_of_nonneg (div_nonneg hnonneg (Int.cast_pos.mpr hd).le)]

/-- The distance of a quotient from the integer above its floor. -/
theorem abs_sub_next (z : ℤ) (hd : 0 < d) :
    |(z : ℚ) / d - (z / d + 1 : ℤ)| = 1 - (z % d : ℤ) / d := by
  obtain ⟨hq, -, hlt⟩ := quotient_eq z hd
  rw [hq, Int.cast_add, Int.cast_one, abs_sub_comm, add_sub_add_left_eq_sub,
    abs_of_pos (sub_pos.mpr ((div_lt_one (Int.cast_pos.mpr hd)).mpr hlt))]

/-- Twice the remainder is below, above or at the divisor: the quotient is nearer to its floor,
nearer to the next integer, or halfway between the two. -/
theorem rounds_nearest (hd : 0 < d) :
    Direction.nearestEven.Rounds ((z : ℚ) / d) (roundQuotient .nearestEven z d) := by
  have hd' : (0 : ℚ) < d := Int.cast_pos.mpr hd
  rw [roundQuotient]
  split
  · next hlow =>
    have hlow' : 2 * ((z % d : ℤ) : ℚ) < d := by exact_mod_cast hlow
    refine rounds_of_close ?_
    rw [abs_sub_floor z hd, div_lt_iff₀ hd']
    linarith
  · next hhigh =>
    split
    · next habove =>
      have habove' : (d : ℚ) < 2 * (z % d : ℤ) := by exact_mod_cast habove
      refine rounds_of_close ?_
      rw [abs_sub_next z hd, sub_lt_comm, lt_div_iff₀ hd']
      linarith
    · next hnot =>
      have htwice : 2 * (z % d) = d := le_antisymm (not_lt.mp hnot) (not_lt.mp hhigh)
      have htwice' : 2 * ((z % d : ℤ) : ℚ) = d := by exact_mod_cast htwice
      have hhalf : ((z % d : ℤ) : ℚ) / d = 1 / 2 := by
        rw [div_eq_iff hd'.ne']
        linarith
      split
      · next heven =>
        exact rounds_of_tie ((abs_sub_floor z hd).trans hhalf) (Int.even_iff.mpr heven)
      · next hodd =>
        refine rounds_of_tie ?_ (Int.even_add_one.mpr fun h => hodd (Int.even_iff.mp h))
        rw [abs_sub_next z hd, hhalf]
        ring

theorem rounds_roundQuotient (dir : Direction) (hd : 0 < d) :
    dir.Rounds ((z : ℚ) / d) (roundQuotient dir z d) := by
  cases dir with
  | down => exact (floor_quotient hd).symm
  | up => exact (ceil_quotient hd).symm
  | towardZero =>
    have hsign : 0 ≤ (z : ℚ) / d ↔ 0 ≤ z := by
      rw [le_div_iff₀ (Int.cast_pos.mpr hd), zero_mul, Int.cast_nonneg_iff]
    rw [Direction.Rounds, floor_quotient hd, ceil_quotient hd, roundQuotient, Int.tdiv_eq_ediv,
      Int.sign_eq_one_of_pos hd]
    simp only [hsign, Int.dvd_iff_emod_eq_zero]
    by_cases hz : 0 ≤ z <;> by_cases hrest : z % d = 0 <;> simp [hz, hrest]
  | nearestEven => exact rounds_nearest hd

/-! ## Patterns -/

theorem value_of_exponent_nonneg (dir : Direction) (h : 0 ≤ exponent w) :
    value w = toInteger dir w := by
  rw [value_eq, toInteger, if_pos h, Int.cast_mul, cast_twoTo, Int.toNat_of_nonneg h]

/-- **A finite pattern is rounded exactly.** -/
theorem rounds_toInteger (dir : Direction) (w : Word) : dir.Rounds (value w) (toInteger dir w) := by
  by_cases hexp : 0 ≤ exponent w
  · rw [value_of_exponent_nonneg dir hexp]
    exact rounds_intCast dir _
  · have hvalue : value w = (signedSignificand w : ℚ) / (twoTo (-exponent w).toNat : ℤ) := by
      rw [value_eq, cast_twoTo, Int.toNat_of_nonneg (by omega), zpow_neg, div_inv_eq_mul]
    rw [hvalue, toInteger, if_neg hexp]
    exact rounds_roundQuotient dir (Int.natCast_pos.mpr (Nat.two_pow_pos _))

/-- The number has the sign of its pattern. -/
theorem value_sign (w : Word) : if isNegative w then value w ≤ 0 else 0 ≤ value w := by
  have hpos : (0 : ℚ) < 2 ^ exponent w := zpow_pos two_pos _
  rw [value_eq, signedSignificand]
  split
  · rw [Int.cast_neg, neg_mul]
    exact neg_nonpos.mpr (mul_nonneg (Nat.cast_nonneg _) hpos.le)
  · exact mul_nonneg (Nat.cast_nonneg _) hpos.le

/-- With places after the point the number is at most its significand. -/
theorem abs_value_le (h : exponent w ≤ 0) : |value w| ≤ significand w := by
  have hone : |(2 : ℚ) ^ exponent w| ≤ 1 := by
    rw [abs_of_pos (zpow_pos two_pos _)]
    exact zpow_le_one_of_nonpos₀ one_le_two h
  have hsign : |(signedSignificand w : ℚ)| = significand w := by
    rw [signedSignificand]
    split
    · rw [Int.cast_neg, abs_neg, Int.cast_natCast, Nat.abs_cast]
    · rw [Int.cast_natCast, Nat.abs_cast]
  rw [value_eq, abs_mul, hsign]
  exact mul_le_of_le_one_right (Nat.cast_nonneg _) hone

theorem significand_lt (w : Word) : significand w < 2 ^ 24 := by
  have hfrac : fraction w < 2 ^ 23 := fraction_eq w ▸ Nat.mod_lt _ (Nat.two_pow_pos 23)
  have htwo : twoTo 23 = 2 ^ 23 := rfl
  rw [significand, htwo]
  split <;> omega

/-- A rounded pattern is the pattern of the rounded number. -/
theorem value_integral (dir : Direction) (hfinite : exponentField w ≠ 255) :
    exponentField (integral dir w) ≠ 255 ∧ value (integral dir w) = toInteger dir w := by
  rw [integral]
  split
  · next hexp => exact ⟨hfinite, value_of_exponent_nonneg dir hexp⟩
  · next hexp =>
    have hrounds := rounds_toInteger dir w
    obtain ⟨hlow, hhigh⟩ := abs_le.mp (abs_value_le (w := w) (by omega))
    have hle : toInteger dir w ≤ significand w := hrounds.le (by exact_mod_cast hhigh)
    have hge : -(significand w : ℤ) ≤ toInteger dir w := hrounds.ge (by push_cast; exact hlow)
    have hlt := significand_lt w
    obtain ⟨hpattern, hvalue⟩ := value_ofScaled
      (m := (toInteger dir w).natAbs) (by omega) (isNegative w)
    refine ⟨hpattern, hvalue.trans ?_⟩
    have hsign := value_sign w
    rw [Nat.cast_natAbs]
    split at hsign
    · next hnegative =>
      have hnonpos : toInteger dir w ≤ 0 := hrounds.le (by exact_mod_cast hsign)
      rw [if_pos hnegative, abs_of_nonpos hnonpos, Int.cast_neg, neg_one_mul, neg_neg]
    · next hpositive =>
      have hnonneg : 0 ≤ toInteger dir w := hrounds.ge (by exact_mod_cast hsign)
      rw [if_neg hpositive, abs_of_nonneg hnonneg, one_mul]

/-! ## Words -/

theorem signed_leastWord : Word.signed leastWord = -2 ^ 31 := by decide

theorem signed_greatestWord : Word.signed greatestWord = 2 ^ 31 - 1 := by decide

theorem signed_ofInt (hlow : -2 ^ 31 ≤ z) (hhigh : z < 2 ^ 31) :
    Word.signed (UInt32.ofInt z) = z := by
  have hword : Word.signed (UInt32.ofInt z) = ((z % 2 ^ 32).toNat : ℤ).bmod (2 ^ 32) :=
    Int32.toInt_ofNat'
  rw [hword, Int.toNat_of_nonneg (Int.emod_nonneg z (by decide))]
  exact (Int.emod_bmod z (2 ^ 32)).trans (Int.bmod_eq_of_le_mul_two (by omega) (by omega))

theorem signed_inj {a b : Word} : Word.signed a = Word.signed b ↔ a = b :=
  Int32.toInt_inj.trans ⟨fun h => by simpa using congrArg Int32.toUInt32 h, congrArg _⟩

theorem value_leastPattern : value leastPattern = (-2 ^ 31 : ℤ) := by
  have hnegative : isNegative leastPattern = true := by decide
  have hexponent : exponentField leastPattern = 158 := by decide
  have hfraction : fraction leastPattern = 0 := by decide
  rw [value, hnegative, hexponent, hfraction]
  norm_num

theorem value_limitPattern : value limitPattern = (2 ^ 31 : ℤ) := by
  have hnegative : isNegative limitPattern = false := by decide
  have hexponent : exponentField limitPattern = 158 := by decide
  have hfraction : fraction limitPattern = 0 := by decide
  rw [value, hnegative, hexponent, hfraction]
  norm_num

/-- **The range of the words.** The pattern of an integer becomes the word with that number, or the
least word; the comparisons with the two ends of the range are exact. -/
theorem signed_toWord (hfinite : exponentField w ≠ 255) (hvalue : value w = z) :
    Word.signed (toWord w) = if -2 ^ 31 ≤ z ∧ z < 2 ^ 31 then z else -2 ^ 31 := by
  have hlow : le leastPattern w = true ↔ -2 ^ 31 ≤ z := by
    rw [le_iff (by decide) hfinite, value_leastPattern, hvalue, Int.cast_le]
  have hhigh : lt w limitPattern = true ↔ z < 2 ^ 31 := by
    rw [lt_iff hfinite (by decide), value_limitPattern, hvalue, Int.cast_lt]
  simp only [toWord, Bool.and_eq_true, hlow, hhigh]
  split
  · next hrange =>
    have hinteger : toInteger .towardZero w = z :=
      (rounds_toInteger .towardZero w).unique (hvalue ▸ rounds_intCast .towardZero z)
    have hbound : (twoTo 31 : ℤ) = 2 ^ 31 := rfl
    have hclamp : max (-(2 ^ 31 : ℤ)) (min z (2 ^ 31 - 1)) = z := by omega
    rw [asWord, not_isNaN_of_finite hfinite, not_isInfinite_of_finite hfinite, hinteger, hbound]
    simp only [Bool.false_eq_true, if_false]
    rw [hclamp]
    exact signed_ofInt hrange.1 hrange.2
  · exact signed_leastWord

/-! ## Conversions -/

/-- What becomes of an integer that is to be a signed word: the least one stands for all that do
not fit, except that `large` stands for those that are too large. -/
def saturate (large z : ℤ) : ℤ :=
  if z < -2 ^ 31 then -2 ^ 31 else if z < 2 ^ 31 then z else large

/-- The word `r` is the pattern `w` converted to an integer in the given direction: a NaN and
positive infinity are the greatest word, negative infinity is the least, and a finite pattern is
its number rounded, `large` standing for an integer that is too large. -/
structure Converts (dir : Direction) (large : ℤ) (w r : Word) : Prop where
  nan : exponentField w = 255 → fraction w ≠ 0 → Word.signed r = 2 ^ 31 - 1
  infinite : exponentField w = 255 → fraction w = 0 →
    Word.signed r = if isNegative w then -2 ^ 31 else 2 ^ 31 - 1
  /-- There is one integer that the number is rounded to. -/
  finite : exponentField w ≠ 255 →
    ∃ z, dir.Rounds (value w) z ∧ (∀ z', dir.Rounds (value w) z' → z' = z) ∧
      Word.signed r = saturate large z

theorem specialWord_of_nan (h : exponentField w = 255) (hf : fraction w ≠ 0) :
    specialWord w = some greatestWord := by
  simp [specialWord, isNaN, isInfinite, h, hf]

theorem specialWord_of_infinite (h : exponentField w = 255) (hf : fraction w = 0) :
    specialWord w = some (if isNegative w then leastWord else greatestWord) := by
  have hinfinite : isInfinite w = true := isInfinite_iff.mpr ⟨h, hf⟩
  have hordered : unordered w (zero false) = false := by
    have hnan : isNaN w = false := by rw [isNaN, hf, bne_self_eq_false, Bool.and_false]
    have hzero : isNaN (zero false) = false := by decide
    rw [unordered, hnan, hzero, Bool.or_false]
  have hpos : 0 < (magnitude w).toNat := by
    have hfields := magnitude_fields w
    omega
  have hlt : lt w (zero false) = isNegative w := by
    have hkey : orderKey (zero false) = 0 := by decide
    rw [lt, hordered, hkey, orderKey]
    cases isNegative w with
    | false => simp
    | true => simpa using hpos
  rw [specialWord, hinfinite, hlt, Bool.or_true, Bool.true_and]
  rfl

theorem specialWord_of_finite (h : exponentField w ≠ 255) : specialWord w = none := by
  rw [specialWord, not_isNaN_of_finite h, not_isInfinite_of_finite h]
  rfl

/-- A conversion answers special patterns before it rounds. -/
theorem converts_getD {large : ℤ} {rounded : Word} (h : exponentField w ≠ 255 →
    Word.signed rounded = saturate large (toInteger dir w)) :
    Converts dir large w ((specialWord w).getD rounded) where
  nan hexp hfrac := by
    rw [specialWord_of_nan hexp hfrac]
    exact signed_greatestWord
  infinite hexp hfrac := by
    rw [specialWord_of_infinite hexp hfrac, Option.getD_some]
    split
    · exact signed_leastWord
    · exact signed_greatestWord
  finite hexp := by
    rw [specialWord_of_finite hexp]
    exact ⟨toInteger dir w, rounds_toInteger dir w,
      fun z' hz' => hz'.unique (rounds_toInteger dir w), h hexp⟩

/-- The rounded pattern as a word. -/
theorem signed_toWord_integral (dir : Direction) (hfinite : exponentField w ≠ 255) :
    Word.signed (toWord (integral dir w)) = saturate (-2 ^ 31) (toInteger dir w) := by
  obtain ⟨hpattern, hvalue⟩ := value_integral dir hfinite
  rw [signed_toWord hpattern hvalue, saturate]
  split <;> split <;> omega

theorem converts_convert (dir : Direction) (w : Word) :
    Converts dir (-2 ^ 31) w (convert dir w) :=
  converts_getD fun hfinite => signed_toWord_integral dir hfinite

/-- The part of truncation that is left when the special patterns are answered. -/
theorem truncate_eq (w : Word) :
    truncate w = (specialWord w).getD
      (if le (zero false) w then
        if toWord (integral .down w) = leastWord then greatestWord else toWord (integral .down w)
      else toWord (integral .up w)) := by
  rw [truncate]
  cases specialWord w <;> rfl

/-- **The least word is put right.** Rounding down takes a number that is not negative to an integer
that is not negative, so the least word stands there for a number that is too large and for nothing
else. -/
theorem converts_truncate (w : Word) : Converts .towardZero (2 ^ 31 - 1) w (truncate w) := by
  rw [truncate_eq]
  refine converts_getD fun hfinite => ?_
  have hzero : value (zero false) = 0 := by
    have hsignificand : signedSignificand (zero false) = 0 := by decide
    rw [value_eq, hsignificand, Int.cast_zero, zero_mul]
  have hle : le (zero false) w = true ↔ 0 ≤ value w := by
    rw [le_iff (by decide) hfinite, hzero]
  have htoward := rounds_toInteger .towardZero w
  rw [Direction.Rounds] at htoward
  simp only [hle]
  split
  · next hnonneg =>
    have hdown : toInteger .towardZero w = toInteger .down w :=
      (htoward.trans (if_pos hnonneg)).trans (rounds_toInteger .down w).symm
    have hpos : 0 ≤ toInteger .down w :=
      (rounds_toInteger .down w).ge (by exact_mod_cast hnonneg)
    have hword := signed_toWord_integral .down hfinite
    have hleast : toWord (integral .down w) = leastWord ↔ 2 ^ 31 ≤ toInteger .down w := by
      rw [← signed_inj, hword, signed_leastWord, saturate]
      split
      · omega
      · split <;> omega
    simp only [hdown, hleast]
    split
    · next hlarge =>
      rw [signed_greatestWord, saturate, if_neg (by omega), if_neg (by omega)]
    · next hfits =>
      rw [hword, saturate, saturate, if_pos (not_le.mp hfits), if_pos (not_le.mp hfits)]
  · next hneg =>
    have hup : toInteger .towardZero w = toInteger .up w :=
      (htoward.trans (if_neg hneg)).trans (rounds_toInteger .up w).symm
    have hnonpos : toInteger .up w ≤ 0 :=
      (rounds_toInteger .up w).le (by exact_mod_cast (not_le.mp hneg).le)
    rw [hup, signed_toWord_integral .up hfinite, saturate, saturate]
    split
    · rfl
    · rw [if_pos (by omega), if_pos (by omega)]

end Dynarec.Single

namespace Dynarec

open Dynarec.Single (Direction Converts value)

/-- The direction in which a conversion rounds; one of them takes it from the two low bits of the
float control register. -/
def Opcode.rounding? (op : Opcode) (control : Word) : Option Direction :=
  match op with
  | .fFloor => some .down
  | .fCeil => some .up
  | .fTrunc => some .towardZero
  | .fRound => some .nearestEven
  | .fCvtWS =>
    some <|
      if control.toNat % 4 = 3 then .down
      else if control.toNat % 4 = 2 then .up
      else if control.toNat % 4 = 1 then .towardZero
      else .nearestEven
  | _ => none

/-- What a conversion answers to an integer that is too large. -/
def Opcode.answerToLarge (op : Opcode) : ℤ := if op = .fTrunc then 2 ^ 31 - 1 else -2 ^ 31

theorem Single.controlDirection_eq (control : Word) :
    controlDirection control =
      if control.toNat % 4 = 3 then .down
      else if control.toNat % 4 = 2 then .up
      else if control.toNat % 4 = 1 then .towardZero
      else .nearestEven := by
  have hbits : (control &&& 3).toNat = control.toNat % 4 :=
    (UInt32.toNat_and control 3).trans (Nat.and_two_pow_sub_one_eq_mod control.toNat 2)
  rw [controlDirection, hbits]
  have hcases : control.toNat % 4 = 0 ∨ control.toNat % 4 = 1 ∨ control.toNat % 4 = 2 ∨
      control.toNat % 4 = 3 := by omega
  rcases hcases with h | h | h | h <;> rw [h] <;> rfl

namespace Guest

variable {i : Inst} {c : Word} {m : Machine} {f : Word → Word}

/-- A float operation on one register, with both operands in the register file. -/
theorem step_floatUnary (heffect : effect i c m = floatUnary i m.state f)
    (hsrc : Slot.ofFloat i.src1 < 256) (hdest : Slot.ofFloat i.dest < 256) :
    step i c m = (.ok none, m.setFloat i.dest (f (m.state.slot (Slot.ofFloat i.src1)))) := by
  refine step_float hdest ?_
  rw [heffect, floatUnary, State.float_eq hsrc]
  rfl

/-- A conversion is a float operation on one register. -/
theorem effect_conversion {dir : Direction}
    (hop : i.op.rounding? (m.state.slot Slot.fcr31) = some dir) :
    ∃ f, effect i c m = floatUnary i m.state f ∧
      i.op.signature.dest = .fpr ∧ i.op.signature.src1 = .fpr ∧
      ∀ w, Converts dir i.op.answerToLarge w (f w) := by
  obtain ⟨op, dest, src1, src2⟩ := i
  cases op
  case fFloor | fCeil | fRound =>
    cases hop
    exact ⟨_, rfl, rfl, rfl, fun w => Single.converts_convert _ w⟩
  case fTrunc =>
    cases hop
    exact ⟨_, rfl, rfl, rfl, Single.converts_truncate⟩
  case fCvtWS =>
    cases (congrArg some (Single.controlDirection_eq (m.state.slot Slot.fcr31))).trans hop
    exact ⟨_, rfl, rfl, rfl, fun w => Single.converts_convert _ w⟩
  all_goals cases hop

/-- **Conversions are exact.** An instruction that converts a single to an integer, with its
operands in the register file, changes nothing but its destination. That holds the pattern of the
source converted: the number rounded in the direction of the instruction if it fits, and otherwise
the least word, which truncation alone reserves for numbers that are too small. NaN and positive
infinity give the greatest word and negative infinity the least. -/
theorem conversion_exact (i : Inst) (c : Word) (m : Machine) (dir : Direction)
    (hop : i.op.rounding? (m.state.slot Slot.fcr31) = some dir)
    (hslots : ∀ k ∈ i.readSlots ++ i.writeSlots, k < Slot.count) :
    ∃ r, step i c m = (.ok none, m.setFloat i.dest r) ∧
      Converts dir i.op.answerToLarge (m.state.slot (Slot.ofFloat i.src1)) r := by
  obtain ⟨f, heffect, hdest, hsrc, hconverts⟩ := effect_conversion hop
  obtain ⟨hdests, hsrcs, -⟩ := operand_slots hslots
  rw [hdest] at hdests
  rw [hsrc] at hsrcs
  exact ⟨_, step_floatUnary heffect (hsrcs _ List.mem_cons_self) (hdests _ List.mem_cons_self),
    hconverts _⟩

/-- The number `-2.5` lies between two integers, and the even one is taken. -/
theorem conversion_exact_tie :
    let i : Inst := { op := .fRound, dest := 1, src1 := 0 }
    let m : Machine :=
      { state := ({} : State).setSlot (Slot.ofFloat 0) 0xc0200000, memory := Memory.zeroed 0 }
    i.op.rounding? (m.state.slot Slot.fcr31) = some .nearestEven ∧
      (∀ k ∈ i.readSlots ++ i.writeSlots, k < Slot.count) ∧
      ∃ r, step i 0 m = (.ok none, m.setFloat 1 r) ∧ Word.signed r = -2 := by
  intro i m
  have hslots : ∀ k ∈ i.readSlots ++ i.writeSlots, k < Slot.count := by decide
  have hsource : m.state.slot (Slot.ofFloat i.src1) = 0xc0200000 := by decide
  have hvalue : value 0xc0200000 = -2 - 1 / 2 := by
    have hnegative : Single.isNegative 0xc0200000 = true := by decide
    have hexponent : Single.exponentField 0xc0200000 = 128 := by decide
    have hfraction : Single.fraction 0xc0200000 = 2 ^ 21 := by decide
    rw [value, hnegative, hexponent, hfraction]
    norm_num
  obtain ⟨r, hstep, hconverts⟩ := conversion_exact i 0 m .nearestEven rfl hslots
  rw [hsource] at hconverts
  obtain ⟨z, hz, hunique, hr⟩ := hconverts.finite (by decide)
  have htwo : Direction.nearestEven.Rounds (value 0xc0200000) (-2) := by
    rw [hvalue]
    refine Single.rounds_of_tie ?_ (by decide)
    rw [Int.cast_neg, Int.cast_ofNat, sub_sub_cancel_left, abs_neg, abs_of_pos one_half_pos]
  cases hunique _ htwo
  exact ⟨rfl, hslots, r, hstep, hr.trans (by decide)⟩

end Guest

end Dynarec
