/-
The fields of a bitmask are found from its first run of ones.

Take a double word whose lowest bit is clear. Its first one bit is `i`, the run of ones that begins
there ends below bit `j`, and the next one bit after the run, if there is one, is `k`. The kernel
`lowestBit` finds all three: it gives `2^i` for the value itself, adding `2^i` turns the run into
the single bit `2^j`, and clearing that bit leaves what stands above the run. From there on
everything is arithmetic with three small numbers. The copies of the run at distance `k - i` are the
only candidate, so a value that is not equal to it has no fields (`ofEven?_eq_some_iff`), and a
search never fails (`ofEven?_ok`).
-/
import Dynarec.Proofs.Aarch64.Runs
import Mathlib.Order.Nat
import Mathlib.Tactic.Ring

set_option autoImplicit false

namespace Dynarec.Aarch64.Mask

/-! ## The lowest one bit -/

/-- Bit `t` is the lowest one bit. -/
structure IsLowest (x t : Nat) : Prop where
  set : x.testBit t = true
  clear : ∀ p < t, x.testBit p = false

theorem exists_isLowest {x : Nat} (h : x ≠ 0) : ∃ t, IsLowest x t := by
  have hex : ∃ t, x.testBit t = true := Nat.exists_testBit_of_ne_zero h
  refine ⟨Nat.find hex, Nat.find_spec hex, fun p hp => ?_⟩
  simpa using Nat.find_min hex hp

theorem IsLowest.lt {v : UInt64} {t : Nat} (h : IsLowest v.toNat t) : t < 64 := by
  by_contra hge
  have hbig : v.toNat < 2 ^ t :=
    lt_of_lt_of_le v.toNat_lt (Nat.pow_le_pow_right (by decide) (by omega))
  have hset := h.set
  rw [Nat.testBit_lt_two_pow hbig] at hset
  cases hset

/-- Above its lowest bit a number is a multiple of the next power of two. -/
theorem IsLowest.eq_add {x t : Nat} (h : IsLowest x t) :
    x = 2 ^ (t + 1) * (x / 2 ^ (t + 1)) + 2 ^ t := by
  have hlow : x % 2 ^ (t + 1) = 2 ^ t := by
    apply Nat.eq_of_testBit_eq
    intro p
    rw [Nat.testBit_mod_two_pow, Nat.testBit_two_pow]
    rcases lt_trichotomy p t with hlt | rfl | hgt
    · simp [h.clear p hlt, Nat.ne_of_gt hlt]
    · simp [h.set]
    · simp [Nat.not_lt.mpr (Nat.succ_le_of_lt hgt), Nat.ne_of_lt hgt]
  calc x = 2 ^ (t + 1) * (x / 2 ^ (t + 1)) + x % 2 ^ (t + 1) := (Nat.div_add_mod _ _).symm
    _ = _ := by rw [hlow]

/-- **A number and its negative share exactly their lowest bit.** The negative has the complement
above that bit. -/
theorem toNat_lowestBit {v : UInt64} {t : Nat} (h : IsLowest v.toNat t) :
    (lowestBit v).toNat = 2 ^ t := by
  have ht := h.lt
  have hsplit : 2 ^ (t + 1) * 2 ^ (63 - t) = 2 ^ 64 := by
    rw [← Nat.pow_add]
    congr 1
    omega
  obtain ⟨Q, hQ⟩ : ∃ Q, v.toNat = 2 ^ (t + 1) * Q + 2 ^ t := ⟨_, h.eq_add⟩
  have hbound : Q < 2 ^ (63 - t) := by
    have hlt := v.toNat_lt
    apply Nat.lt_of_mul_lt_mul_left (a := 2 ^ (t + 1))
    rw [hsplit]
    exact lt_of_le_of_lt (Nat.le_add_right _ _) (hQ ▸ hlt)
  have hpow : 2 ^ (t + 1) = 2 * 2 ^ t := by rw [Nat.pow_succ, Nat.mul_comm]
  have hsmall : 2 ^ t < 2 ^ (t + 1) := by have := Nat.two_pow_pos t; omega
  have hneg : (0 - v).toNat = 2 ^ (t + 1) * (2 ^ (63 - t) - (Q + 1)) + 2 ^ t := by
    have hpos := Nat.two_pow_pos t
    have hzero : (0 : UInt64).toNat = 0 := rfl
    have hmul : 2 ^ (t + 1) * (2 ^ (63 - t) - (Q + 1))
        = 2 ^ 64 - (2 ^ (t + 1) * Q + 2 ^ (t + 1)) := by
      rw [Nat.mul_sub, hsplit, Nat.mul_add, Nat.mul_one]
    have hle : 2 ^ (t + 1) * Q + 2 ^ (t + 1) ≤ 2 ^ 64 := by
      rw [← hsplit, ← Nat.mul_succ]
      exact Nat.mul_le_mul_left _ hbound
    rw [UInt64.toNat_sub, hzero, hQ]
    omega
  rw [lowestBit, UInt64.toNat_and, hneg, hQ]
  apply Nat.eq_of_testBit_eq
  intro p
  rw [Nat.testBit_and, Nat.testBit_two_pow_mul_add _ hsmall, Nat.testBit_two_pow_mul_add _ hsmall]
  split
  · exact Bool.and_self _
  · rename_i hge
    rw [Nat.testBit_two_pow_sub_succ hbound, Nat.testBit_two_pow]
    have hne : ¬ t = p := by omega
    simp only [hne, decide_false]
    cases Q.testBit (p - (t + 1)) <;> simp

@[simp] theorem lowestBit_zero : lowestBit 0 = 0 := rfl

/-! ## The first run -/

/-- The first one bit of `x` is bit `i`, and the run of ones that begins there ends below bit `j`.
-/
structure FirstRun (x i j : Nat) : Prop where
  lt : i < j
  bit : ∀ p ≤ j, x.testBit p = decide (i ≤ p ∧ p < j)

theorem FirstRun.isLowest {x i j : Nat} (h : FirstRun x i j) : IsLowest x i where
  set := by
    have hlt := h.lt
    rw [h.bit i (by omega)]
    simpa using hlt
  clear p hp := by
    have hlt := h.lt
    have hout : ¬ (i ≤ p ∧ p < j) := by omega
    rw [h.bit p (by omega), decide_eq_false hout]

theorem exists_firstRun {x : Nat} (h : x ≠ 0) : ∃ i j, FirstRun x i j := by
  obtain ⟨i, hi⟩ := exists_isLowest h
  have hex : ∃ j, i < j ∧ x.testBit j = false := by
    refine ⟨max x (i + 1), by omega, Nat.testBit_lt_two_pow ?_⟩
    exact lt_of_le_of_lt (le_max_left x (i + 1)) Nat.lt_two_pow_self
  have hspec := Nat.find_spec hex
  refine ⟨i, Nat.find hex, hspec.1, fun p hp => ?_⟩
  rcases lt_trichotomy p i with hlt | rfl | hgt
  · have hout : ¬ (i ≤ p ∧ p < Nat.find hex) := by omega
    rw [hi.clear p hlt, decide_eq_false hout]
  · rw [hi.set, decide_eq_true ⟨le_rfl, hspec.1⟩]
  · rcases Nat.lt_or_eq_of_le hp with hlt | rfl
    · have hset := Nat.find_min hex hlt
      rw [decide_eq_true ⟨hgt.le, hlt⟩]
      simpa [hgt] using hset
    · rw [hspec.2]
      simp

/-- What stands above bit `j`. -/
def above (x j : Nat) : Nat := 2 ^ (j + 1) * (x / 2 ^ (j + 1))

theorem testBit_above (x j p : Nat) : (above x j).testBit p = (decide (j < p) && x.testBit p) := by
  rw [above, Nat.testBit_two_pow_mul]
  by_cases hp : j < p
  · have hge : p ≥ j + 1 := hp
    simp [hp, hge, Nat.testBit_div_two_pow, Nat.sub_add_cancel hge]
  · have hnot : ¬ p ≥ j + 1 := by omega
    simp [hp, hnot]

theorem FirstRun.eq_add {x i j : Nat} (h : FirstRun x i j) : x = above x j + (2 ^ j - 2 ^ i) := by
  have hlow : x % 2 ^ (j + 1) = 2 ^ j - 2 ^ i := by
    have hle : 2 ^ i ≤ 2 ^ j := Nat.pow_le_pow_right (by decide) h.lt.le
    have hsub : 2 ^ j - 2 ^ i = (2 ^ (j - i) - 1) <<< i := by
      rw [Nat.shiftLeft_eq, Nat.sub_mul, ← Nat.pow_add, Nat.sub_add_cancel h.lt.le, Nat.one_mul]
    rw [hsub]
    apply Nat.eq_of_testBit_eq
    intro p
    have hlt := h.lt
    rw [Nat.testBit_mod_two_pow, Nat.testBit_shiftLeft, Nat.testBit_two_pow_sub_one]
    by_cases hp : p ≤ j
    · rw [h.bit p hp]
      have hin : p < j + 1 := by omega
      simp only [hin, decide_true, Bool.true_and, ← Bool.decide_and]
      congr 1
      apply propext
      omega
    · have hin : ¬ p < j + 1 := by omega
      have hout : ¬ p - i < j - i := by omega
      simp [hin, hout]
  calc x = 2 ^ (j + 1) * (x / 2 ^ (j + 1)) + x % 2 ^ (j + 1) := (Nat.div_add_mod _ _).symm
    _ = _ := by rw [hlow, above]

section

variable {v : UInt64} {i j k : Nat}

theorem FirstRun.le (h : FirstRun v.toNat i j) : j ≤ 64 := by
  by_contra hgt
  have hset : v.toNat.testBit 64 = true := by
    rw [h.bit 64 (by omega), decide_eq_true_eq]
    exact ⟨by have := h.isLowest.lt; omega, by omega⟩
  rw [Nat.testBit_lt_two_pow v.toNat_lt] at hset
  cases hset

/-- Adding the first bit of a run turns the run into the bit above it. -/
theorem FirstRun.toNat_add (h : FirstRun v.toNat i j) :
    (v + lowestBit v).toNat = if j < 64 then above v.toNat j + 2 ^ j else 0 := by
  have hle := h.le
  have hsum := h.eq_add
  have hpow : 2 ^ i ≤ 2 ^ j := Nat.pow_le_pow_right (by decide) h.lt.le
  have hlt := v.toNat_lt
  rw [UInt64.toNat_add, toNat_lowestBit h.isLowest]
  split
  · rename_i hj
    -- There is room for the bit: what stands above is a multiple of the next power of two.
    have hsplit : 2 ^ (j + 1) * 2 ^ (63 - j) = 2 ^ 64 := by
      rw [← Nat.pow_add]
      congr 1
      omega
    have hbound : v.toNat / 2 ^ (j + 1) < 2 ^ (63 - j) := by
      apply Nat.div_lt_of_lt_mul
      omega
    have hroom : above v.toNat j + 2 ^ (j + 1) ≤ 2 ^ 64 := by
      rw [above, ← hsplit, ← Nat.mul_succ]
      exact Nat.mul_le_mul_left _ hbound
    have hdouble : 2 ^ (j + 1) = 2 * 2 ^ j := by rw [Nat.pow_succ, Nat.mul_comm]
    have hpos := Nat.two_pow_pos j
    rw [Nat.mod_eq_of_lt] <;> omega
  · obtain rfl : j = 64 := by omega
    have hzero : above v.toNat 64 = 0 := by
      rw [above, Nat.div_eq_of_lt (lt_trans hlt (by decide)), Nat.mul_zero]
    omega

/-- The bit above the run. -/
theorem FirstRun.toNat_lowestBit_add (h : FirstRun v.toNat i j) :
    (lowestBit (v + lowestBit v)).toNat = if j < 64 then 2 ^ j else 0 := by
  have hadd := h.toNat_add
  split at hadd
  · rename_i hj
    rw [if_pos hj]
    apply toNat_lowestBit
    rw [hadd]
    have hsmall : 2 ^ j < 2 ^ (j + 1) := Nat.pow_lt_pow_right (by decide) (by omega)
    constructor
    · rw [above, Nat.testBit_two_pow_mul_add _ hsmall, if_pos (by omega), Nat.testBit_two_pow_self]
    · intro p hp
      rw [above, Nat.testBit_two_pow_mul_add _ hsmall, if_pos (by omega), Nat.testBit_two_pow]
      simp [Nat.ne_of_gt hp]
  · rename_i hj
    have hzero : v + lowestBit v = 0 := UInt64.toNat_inj.mp hadd
    rw [if_neg hj, hzero]
    rfl

/-- With that bit cleared only what stands above the run is left. -/
theorem FirstRun.toNat_rest (h : FirstRun v.toNat i j) :
    (v + lowestBit v - lowestBit (v + lowestBit v)).toNat = above v.toNat j := by
  have hadd := h.toNat_add
  have hbit := h.toNat_lowestBit_add
  have hlt := v.toNat_lt
  have hsum := h.eq_add
  rw [UInt64.toNat_sub, hadd, hbit]
  split
  · rename_i hj
    have hpow : 2 ^ j < 2 ^ 64 := Nat.pow_lt_pow_right (by decide) hj
    omega
  · rename_i hj
    have hbig : v.toNat < 2 ^ (j + 1) :=
      lt_of_lt_of_le hlt (Nat.pow_le_pow_right (by decide) (by omega))
    rw [above, Nat.div_eq_of_lt hbig, Nat.mul_zero]

/-- The run as a number. -/
theorem FirstRun.toNat_run (h : FirstRun v.toNat i j) :
    (lowestBit (v + lowestBit v) - lowestBit v).toNat = 2 ^ j - 2 ^ i := by
  have hle := h.le
  have hpow : 2 ^ i < 2 ^ j := Nat.pow_lt_pow_right (by decide) h.lt
  have hfits : 2 ^ j ≤ 2 ^ 64 := Nat.pow_le_pow_right (by decide) hle
  have habove : (if j < 64 then 2 ^ j else 0) = 2 ^ j % 2 ^ 64 := by
    split
    · exact (Nat.mod_eq_of_lt (Nat.pow_lt_pow_right (by decide) ‹_›)).symm
    · obtain rfl : j = 64 := by omega
      rfl
  rw [UInt64.toNat_sub, h.toNat_lowestBit_add, toNat_lowestBit h.isLowest, habove, Nat.add_mod_mod,
    ← Nat.sub_add_comm (le_trans hpow.le hfits), Nat.add_sub_assoc hpow.le, Nat.add_mod_left]
  exact Nat.mod_eq_of_lt (lt_of_lt_of_le (Nat.sub_lt (Nat.two_pow_pos j) (Nat.two_pow_pos i)) hfits)

end

/-! ## Copies of the first run -/

/-- Copies of an element are its product with the copies of one. -/
theorem repeated_eq_mul {size x : Nat} (hx : x < 2 ^ size) (hsize : 0 < size) (count : Nat) :
    repeated size x count = x * repeated size 1 count := by
  have hone : 1 < 2 ^ size := Nat.one_lt_two_pow (by omega)
  induction count with
  | zero => rfl
  | succ count ih =>
    rw [repeated, repeated, ← Nat.shiftLeft_add_eq_or_of_lt (repeated_lt hx hsize count),
      ← Nat.shiftLeft_add_eq_or_of_lt (repeated_lt hone hsize count), ih, Nat.shiftLeft_eq,
      Nat.shiftLeft_eq, Nat.mul_add, Nat.one_mul]

/-- A run that ends below bit `j` needs `j` bits. -/
theorem run_lt_iff {i j size : Nat} (h : i < j) : 2 ^ j - 2 ^ i < 2 ^ size ↔ j ≤ size := by
  constructor
  · intro hlt
    by_contra hgt
    have hsize : 2 ^ size ≤ 2 ^ (j - 1) := Nat.pow_le_pow_right (by decide) (by omega)
    have hfirst : 2 ^ i ≤ 2 ^ (j - 1) := Nat.pow_le_pow_right (by decide) (by omega)
    have hdouble : 2 ^ j = 2 ^ (j - 1) * 2 := by
      rw [← Nat.pow_succ]
      congr 1
      omega
    omega
  · intro hle
    have hpow : 2 ^ j ≤ 2 ^ size := Nat.pow_le_pow_right (by decide) hle
    exact lt_of_lt_of_le (Nat.sub_lt (Nat.two_pow_pos j) (Nat.two_pow_pos i)) hpow

/-- A rotation of `64 - i` moves bit `i` to the bottom. -/
theorem rotate_mod {size i p : Nat} (hsize : size ∈ sizes) (hi : i < size) :
    (p + (64 - i) % size) % size = (p + (size - i)) % size := by
  obtain ⟨copies, hcopies⟩ := dvd_of_mem_sizes hsize
  have hpos : 0 < copies := Nat.pos_of_ne_zero (by rintro rfl; omega)
  obtain ⟨more, rfl⟩ := Nat.exists_eq_succ_of_ne_zero (Nat.ne_of_gt hpos)
  have hsplit : p + (64 - i) = p + (size - i) + size * more := by
    rw [hcopies, Nat.mul_succ]
    omega
  rw [Nat.add_mod_mod, hsplit, Nat.add_mul_mod_self_left]

/-- Copies of the bits from `i` up to `j` are a rotated run. -/
theorem isRun_copies {size i j : Nat} (hsize : size ∈ sizes) (hij : i < j) (hj : j ≤ size) :
    IsRun 64 size (j - i) ((64 - i) % size) (repeated size (2 ^ j - 2 ^ i) (64 / size)) := by
  have hpos := pos_of_mem_sizes hsize
  have hfill : 64 / size * size = 64 := Nat.div_mul_cancel (dvd_of_mem_sizes hsize)
  have hsub : 2 ^ j - 2 ^ i = (2 ^ (j - i) - 1) <<< i := by
    rw [Nat.shiftLeft_eq, Nat.sub_mul, ← Nat.pow_add, Nat.sub_add_cancel hij.le, Nat.one_mul]
  intro p hp
  have hmod : p % size < size := Nat.mod_lt p hpos
  have hshift : (p + (64 - i) % size) % size =
      if p % size < i then p % size + (size - i) else p % size - i := by
    rw [rotate_mod hsize (by omega), ← Nat.mod_add_mod, mod_of_lt_double (by omega)]
    split <;> split <;> omega
  rw [testBit_repeated ((run_lt_iff hij).2 hj) hpos, hfill, decide_eq_true hp, Bool.true_and, hsub,
    Nat.testBit_shiftLeft, Nat.testBit_two_pow_sub_one, hshift, ← Bool.decide_and]
  congr 1
  apply propext
  split <;> omega

/-! ## The search -/

/-- The fields that the search gives for copies of the bits from `i` up to `j`. -/
def copiesFields (negated : Bool) (size i j : Nat) : Mask :=
  if negated then ofElement size (size - (j - i)) ((64 - j) % size)
  else ofElement size (j - i) ((64 - i) % size)

theorem leadingZeros_of_toNat {v : UInt64} {t : Nat} (h : v.toNat = 2 ^ t) :
    leadingZeros v = 63 - t := by
  have hne : v ≠ 0 := by
    rintro rfl
    exact absurd h.symm (Nat.ne_of_gt (Nat.two_pow_pos t))
  rw [leadingZeros, if_neg hne, h, Nat.log2_two_pow]

/-- The zeros above bit `t`, as a number that makes sense for bit 64, too. -/
theorem zeros_eq {t : Nat} (h : t < 64) : Int32.ofNat (63 - t) = Int32.ofNat (64 - t) - 1 := by
  rw [show (1 : Int32) = Int32.ofNat 1 from rfl, ← Int32.ofNat_sub _ _ (by omega)]
  congr 1
  omega

theorem zeros_sub {i j : Nat} (hij : i ≤ j) (hj : j ≤ 64) :
    (Int32.ofNat (64 - i) - 1) - (Int32.ofNat (64 - j) - 1) = Int32.ofNat (j - i) := by
  have hcancel : ∀ x y : Int32, (x - 1) - (y - 1) = x - y := by
    intro x y
    grind
  rw [hcancel, ← Int32.ofNat_sub _ _ (by omega)]
  congr 1
  omega

/-- **Fields from distances.** Size and length share a field, and the rotation is taken modulo the
size. -/
theorem ofRun_eq {negated : Bool} {size i j : Nat} (hsize : size ∈ sizes) (hi : 0 < i)
    (hij : i < j) (hj : j ≤ size) :
    ofRun negated (if size = 64 then 1 else 0) (Int32.ofNat size) (Int32.ofNat (64 - i) - 1)
      (Int32.ofNat (64 - j) - 1) = copiesFields negated size i j := by
  have hle := le_of_mem_sizes hsize
  -- There are 120 pairs of a size and a length, and less than 65 rotations for each size.
  have hlength : ∀ size ∈ sizes, ∀ ones < size, 0 < ones →
      (((-Int32.ofNat size) <<< 1) ||| (Int32.ofNat ones - 1)).toInt8.toUInt8 &&& 0x3f =
        UInt8.ofNat ((128 - 2 * size % 128 + (ones - 1)) % 64) := by decide
  have hrotation : ∀ size ∈ sizes, ∀ r < 65,
      ((Int32.ofNat r) &&& (Int32.ofNat size - 1)).toInt8.toUInt8 = UInt8.ofNat (r % size) := by
    decide
  have hones : Int32.ofNat size - Int32.ofNat (j - i) = Int32.ofNat (size - (j - i)) :=
    (Int32.ofNat_sub _ _ (by omega)).symm
  rw [ofRun, zeros_sub hij.le (by omega), copiesFields]
  cases negated
  · simp only [Bool.false_eq_true, if_false, Int32.sub_add_cancel, ofElement,
      hlength size hsize (j - i) (by omega) (by omega), hrotation size hsize (64 - i) (by omega)]
  · simp only [if_true, hones, Int32.sub_add_cancel, ofElement,
      hlength size hsize (size - (j - i)) (by omega) (by omega),
      hrotation size hsize (64 - j) (by omega)]

theorem oneAt_ofNat {n : Nat} (h : n < 64) :
    oneAt (Int32.ofNat n) = .ok (UInt64.ofNat (2 ^ n)) := by
  have hall : ∀ n < 64, oneAt (Int32.ofNat n) = .ok (UInt64.ofNat (2 ^ n)) := by decide
  exact hall n h

theorem isPowerOfTwo_iff {n : Nat} (hn : 2 ≤ n) (h : n < 65) :
    isPowerOfTwo (Int32.ofNat n).toUInt32 = true ↔ n ∈ sizes := by
  have hall : ∀ n < 65, 2 ≤ n → (isPowerOfTwo (Int32.ofNat n).toUInt32 = true ↔ n ∈ sizes) := by
    decide
  exact hall n h hn

theorem multiplier_ofNat {size : Nat} (h : size ∈ sizes) :
    multiplier (Int32.ofNat size) = .ok (UInt64.ofNat (repeated size 1 (64 / size))) := by
  revert h
  revert size
  decide

/-- Nothing of a number lies outside a mask of `d` bits exactly if it is below `2^d`. -/
theorem and_not_mask_eq_zero_iff {x : UInt64} {d : Nat} (hd : d < 64) :
    x &&& ~~~(UInt64.ofNat (2 ^ d) - 1) = 0 ↔ x.toNat < 2 ^ d := by
  have hpow : 2 ^ d < 2 ^ 64 := Nat.pow_lt_pow_right (by decide) hd
  have hpos := Nat.two_pow_pos d
  have hmask : (UInt64.ofNat (2 ^ d) - 1).toNat = 2 ^ d - 1 := by
    have hone : (1 : UInt64) ≤ UInt64.ofNat (2 ^ d) := by
      rw [UInt64.le_iff_toNat_le, UInt64.toNat_ofNat_of_lt' hpow]
      exact hpos
    rw [UInt64.toNat_sub_of_le _ _ hone, UInt64.toNat_ofNat_of_lt' hpow]
    rfl
  have hbits : ∀ p, (x &&& ~~~(UInt64.ofNat (2 ^ d) - 1)).toNat.testBit p =
      (x.toNat.testBit p && decide (d ≤ p)) := by
    intro p
    rw [UInt64.toNat_and, UInt64.toNat_not, hmask, Nat.testBit_and]
    by_cases hp : p < 64
    · have hnot : UInt64.size - 1 - (2 ^ d - 1) = 2 ^ 64 - ((2 ^ d - 1) + 1) := by
        show 2 ^ 64 - 1 - (2 ^ d - 1) = _
        omega
      rw [hnot, Nat.testBit_two_pow_sub_succ (by omega), Nat.testBit_two_pow_sub_one,
        decide_eq_true hp,
        Bool.true_and, ← decide_not]
      simp only [Nat.not_lt]
    · have hbig : x.toNat < 2 ^ p :=
        lt_of_lt_of_le x.toNat_lt (Nat.pow_le_pow_right (by decide) (by omega))
      simp [Nat.testBit_lt_two_pow hbig]
  constructor
  · intro hzero
    apply Nat.lt_pow_two_of_testBit
    intro p hp
    have hbit := hbits p
    rw [hzero, decide_eq_true hp, Bool.and_true] at hbit
    exact hbit.symm.trans (Nat.zero_testBit p)
  · intro hlt
    apply UInt64.toNat_inj.mp
    apply Nat.eq_of_testBit_eq
    intro p
    rw [hbits]
    by_cases hp : d ≤ p
    · rw [Nat.testBit_lt_two_pow (lt_of_lt_of_le hlt (Nat.pow_le_pow_right (by decide) hp))]
      simp
    · simp [hp]


section

variable {negated : Bool} {v : UInt64} {i j k : Nat}

/-- The leading zeros of the bit above a run. -/
theorem FirstRun.zerosAbove_eq (h : FirstRun v.toNat i j) :
    (if lowestBit (v + lowestBit v) = 0 then -1
      else Int32.ofNat (leadingZeros (lowestBit (v + lowestBit v)))) =
      Int32.ofNat (64 - j) - 1 := by
  have hbit := h.toNat_lowestBit_add
  have hle := h.le
  split at hbit
  · rename_i hj
    have hne : lowestBit (v + lowestBit v) ≠ 0 := by
      intro hzero
      rw [hzero] at hbit
      exact absurd hbit.symm (Nat.ne_of_gt (Nat.two_pow_pos j))
    rw [if_neg hne, leadingZeros_of_toNat hbit, zeros_eq hj]
  · obtain rfl : j = 64 := by omega
    rw [if_pos (UInt64.toNat_inj.mp hbit)]
    rfl

theorem FirstRun.leadingZeros_eq (h : FirstRun v.toNat i j) :
    Int32.ofNat (leadingZeros (lowestBit v)) = Int32.ofNat (64 - i) - 1 := by
  rw [leadingZeros_of_toNat (toNat_lowestBit h.isLowest), zeros_eq h.isLowest.lt]

theorem ofEven?_zero : ofEven? negated 0 = .ok none := rfl

/-- The product with the factor is the value exactly if the value consists of copies of its first
run. -/
theorem FirstRun.eq_candidate_iff {size : Nat} (h : FirstRun v.toNat i j) (hsize : size ∈ sizes)
    (hj : j ≤ size) :
    v = (lowestBit (v + lowestBit v) - lowestBit v) *
        UInt64.ofNat (repeated size 1 (64 / size)) ↔
      v.toNat = repeated size (2 ^ j - 2 ^ i) (64 / size) := by
  have hpos := pos_of_mem_sizes hsize
  have hrun : 2 ^ j - 2 ^ i < 2 ^ size := (run_lt_iff h.lt).2 hj
  have hfill : 64 / size * size = 64 := Nat.div_mul_cancel (dvd_of_mem_sizes hsize)
  have hcopies := repeated_lt hrun hpos (64 / size)
  have hones := repeated_lt (Nat.one_lt_two_pow (by omega)) hpos (64 / size)
  rw [hfill] at hcopies hones
  rw [← UInt64.toNat_inj, UInt64.toNat_mul, h.toNat_run, UInt64.toNat_ofNat_of_lt' hones,
    ← repeated_eq_mul hrun hpos, Nat.mod_eq_of_lt hcopies]

/-- **Once the size is known.** The search accepts a value exactly if its first run fits the element
and the copies of that run are the value. -/
theorem FirstRun.ofEven?_of_period {size : Nat} {mask : UInt64} (h : FirstRun v.toNat i j)
    (hi : 0 < i) (hsize : size ∈ sizes)
    (hperiod : period (lowestBit v) (lowestBit (v + lowestBit v - lowestBit (v + lowestBit v))) =
      .ok (some (Int32.ofNat size, mask, if size = 64 then 1 else 0)))
    (hmask : (lowestBit (v + lowestBit v) - lowestBit v) &&& ~~~mask = 0 ↔ j ≤ size) :
    ofEven? negated v =
      if j ≤ size ∧ v.toNat = repeated size (2 ^ j - 2 ^ i) (64 / size) then
        .ok (some (copiesFields negated size i j))
      else .ok none := by
  have hij := h.lt
  have hpower : isPowerOfTwo (Int32.ofNat size).toUInt32 = true :=
    (isPowerOfTwo_iff (two_le_of_mem_sizes hsize)
      (Nat.lt_succ_of_le (le_of_mem_sizes hsize))).2 hsize
  simp only [ofEven?, hperiod, bind, Except.bind, pure, Except.pure, hpower, not_true, if_false]
  by_cases hj : j ≤ size
  · rw [if_neg (fun hout => hout (hmask.2 hj)), multiplier_ofNat hsize, h.zerosAbove_eq,
      h.leadingZeros_eq, ofRun_eq hsize hi h.lt hj]
    simp only [ne_eq, h.eq_candidate_iff hsize hj, hj, true_and, ite_not]
  · rw [if_pos (fun hin => hj (hmask.1 hin)), if_neg (fun hboth => hj hboth.1)]

/-- With one run of ones only, the element is the double word. -/
theorem FirstRun.ofEven?_single (negated : Bool) (h : FirstRun v.toNat i j) (hi : 0 < i)
    (hrest : above v.toNat j = 0) :
    v.toNat = repeated 64 (2 ^ j - 2 ^ i) 1 ∧
      ofEven? negated v = .ok (some (copiesFields negated 64 i j)) := by
  have hcopy : v.toNat = repeated 64 (2 ^ j - 2 ^ i) 1 := by
    have hsum := h.eq_add
    rw [hrest, Nat.zero_add] at hsum
    rw [repeated, repeated, Nat.zero_mul, Nat.shiftLeft_zero, Nat.or_zero, ← hsum]
  have hzero : v + lowestBit v - lowestBit (v + lowestBit v) = 0 :=
    UInt64.toNat_inj.mp (h.toNat_rest.trans hrest)
  have hfirst : lowestBit v ≠ 0 := by
    intro hzero
    have hbit := toNat_lowestBit h.isLowest
    rw [hzero] at hbit
    exact absurd hbit.symm (Nat.ne_of_gt (Nat.two_pow_pos i))
  have hperiod : period (lowestBit v) (lowestBit (v + lowestBit v - lowestBit (v + lowestBit v))) =
      .ok (some (Int32.ofNat 64, 0xffffffffffffffff, if 64 = 64 then 1 else 0)) := by
    rw [hzero, lowestBit_zero, period, if_neg (fun h => h rfl), if_neg hfirst]
    rfl
  refine ⟨hcopy, ?_⟩
  rw [h.ofEven?_of_period hi (by decide) hperiod ⟨fun _ => h.le, fun _ => UInt64.and_zero⟩]
  exact if_pos ⟨h.le, hcopy⟩

/-- With another one bit above the first run, the element is as long as the distance. -/
theorem FirstRun.ofEven?_next (h : FirstRun v.toNat i j) (hi : 0 < i)
    (hk : IsLowest (above v.toNat j) k) :
    ofEven? negated v =
      if k - i ∈ sizes ∧ j ≤ k - i ∧
          v.toNat = repeated (k - i) (2 ^ j - 2 ^ i) (64 / (k - i)) then
        .ok (some (copiesFields negated (k - i) i j))
      else .ok none := by
  have hset := hk.set
  rw [testBit_above, Bool.and_eq_true, decide_eq_true_eq] at hset
  have hjk : j < k := hset.1
  have hij := h.lt
  have hrest : IsLowest (v + lowestBit v - lowestBit (v + lowestBit v)).toNat k := by
    rwa [h.toNat_rest]
  have hk64 := hrest.lt
  have hnext := toNat_lowestBit hrest
  have hne : lowestBit (v + lowestBit v - lowestBit (v + lowestBit v)) ≠ 0 := by
    intro hzero
    rw [hzero] at hnext
    exact absurd hnext.symm (Nat.ne_of_gt (Nat.two_pow_pos k))
  have hperiod : period (lowestBit v) (lowestBit (v + lowestBit v - lowestBit (v + lowestBit v))) =
      .ok (some (Int32.ofNat (k - i), UInt64.ofNat (2 ^ (k - i)) - 1, 0)) := by
    have hdistance : k - i < 64 := by omega
    simp only [period, if_pos hne, h.leadingZeros_eq, leadingZeros_of_toNat hnext, zeros_eq hk64,
      zeros_sub (Nat.le_of_lt (Nat.lt_trans hij hjk)) hk64.le, oneAt_ofNat hdistance]
    rfl
  have hmask : (lowestBit (v + lowestBit v) - lowestBit v) &&&
      ~~~(UInt64.ofNat (2 ^ (k - i)) - 1) = 0 ↔ j ≤ k - i := by
    rw [and_not_mask_eq_zero_iff (by omega), h.toNat_run, run_lt_iff hij]
  by_cases hsize : k - i ∈ sizes
  · have hshort : (if k - i = 64 then (1 : UInt8) else 0) = 0 := if_neg (by omega)
    rw [h.ofEven?_of_period hi hsize (by rw [hperiod, hshort]) hmask]
    simp only [hsize, true_and]
  · have hpower : ¬ isPowerOfTwo (Int32.ofNat (k - i)).toUInt32 = true := fun hpower =>
      hsize ((isPowerOfTwo_iff (by omega) (by omega)).1 hpower)
    rw [if_neg (fun hall => hsize hall.1)]
    simp only [ofEven?, hperiod, bind, Except.bind, pure, Except.pure]
    exact if_pos hpower

end

/-! ## What the search accepts -/

section

variable {negated : Bool} {v : UInt64} {m : Mask}

theorem FirstRun.pos {x i j : Nat} (h : FirstRun x i j) (heven : x.testBit 0 = false) : 0 < i := by
  apply Nat.pos_of_ne_zero
  rintro rfl
  rw [h.isLowest.set] at heven
  cases heven

/-- **The search never fails.** -/
theorem ofEven?_ok (heven : v.toNat.testBit 0 = false) :
    ∃ found, ofEven? negated v = .ok found := by
  by_cases hv : v.toNat = 0
  · obtain rfl : v = 0 := UInt64.toNat_inj.mp hv
    exact ⟨_, ofEven?_zero⟩
  · obtain ⟨i, j, h⟩ := exists_firstRun hv
    by_cases hrest : above v.toNat j = 0
    · exact ⟨_, (h.ofEven?_single negated (h.pos heven) hrest).2⟩
    · obtain ⟨k, hk⟩ := exists_isLowest hrest
      rw [h.ofEven?_next (h.pos heven) hk]
      split <;> exact ⟨_, rfl⟩

/-- The fields that the search gives are those of copies of the first run. -/
theorem exists_copies (heven : v.toNat.testBit 0 = false)
    (hm : ofEven? negated v = .ok (some m)) :
    ∃ size ∈ sizes, ∃ i j, 0 < i ∧ i < j ∧ j ≤ size ∧
      v.toNat = repeated size (2 ^ j - 2 ^ i) (64 / size) ∧ m = copiesFields negated size i j := by
  by_cases hv : v.toNat = 0
  · obtain rfl : v = 0 := UInt64.toNat_inj.mp hv
    rw [ofEven?_zero] at hm
    cases hm
  · obtain ⟨i, j, h⟩ := exists_firstRun hv
    have hi := h.pos heven
    by_cases hrest : above v.toNat j = 0
    · obtain ⟨hcopies, hfields⟩ := h.ofEven?_single negated hi hrest
      rw [hfields] at hm
      cases hm
      exact ⟨64, by decide, i, j, hi, h.lt, h.le, hcopies, rfl⟩
    · obtain ⟨k, hk⟩ := exists_isLowest hrest
      rw [h.ofEven?_next hi hk] at hm
      split at hm
      · rename_i hcopies
        cases hm
        exact ⟨k - i, hcopies.1, i, j, hi, h.lt, hcopies.2.1, hcopies.2.2, rfl⟩
      · cases hm

/-- The first run of copies of a run, and where the second copy begins. -/
theorem IsRun.firstRun {size ones r x : Nat} (h : IsRun 64 size ones r x) (hle : size ≤ 64)
    (hx : x < 2 ^ 64) (hpos : 0 < ones) (hr : r < size) (hones : ones ≤ r) :
    FirstRun x (size - r) (size - r + ones) ∧
      (size = 64 → above x (size - r + ones) = 0) ∧
      (2 * size ≤ 64 → IsLowest (above x (size - r + ones)) (2 * size - r)) := by
  have hbit : ∀ p < 64, p + r < 2 * size →
      x.testBit p = decide (size ≤ p + r ∧ p + r < size + ones) := by
    intro p hp hlt
    rw [h p hp, mod_of_lt_double hlt]
    congr 1
    apply propext
    split <;> omega
  have hhigh : ∀ p ≥ 64, x.testBit p = false := fun p hp =>
    Nat.testBit_lt_two_pow (lt_of_lt_of_le hx (Nat.pow_le_pow_right (by decide) hp))
  -- Between the end of the run and the next copy there are no ones.
  have hgap : ∀ p, p + r < 2 * size → (above x (size - r + ones)).testBit p = false := by
    intro p hlt
    rw [testBit_above]
    by_cases hgt : size - r + ones < p
    · by_cases hp : p < 64
      · rw [hbit p hp hlt, decide_eq_true hgt, Bool.true_and]
        apply decide_eq_false
        omega
      · rw [hhigh p (by omega), Bool.and_false]
    · rw [decide_eq_false hgt, Bool.false_and]
  refine ⟨⟨by omega, fun p hp => ?_⟩, fun hsize => ?_, fun hdouble => ⟨?_, fun p hp => ?_⟩⟩
  · by_cases hp64 : p < 64
    · rw [hbit p hp64 (by omega)]
      congr 1
      apply propext
      omega
    · have hout : ¬ (size - r ≤ p ∧ p < size - r + ones) := by omega
      rw [hhigh p (by omega), decide_eq_false hout]
  · apply Nat.eq_of_testBit_eq
    intro p
    rw [Nat.zero_testBit]
    by_cases hlt : p + r < 2 * size
    · exact hgap p hlt
    · rw [testBit_above, hhigh p (by omega), Bool.and_false]
  · have hzero : (2 * size - r + r) % size = 0 := by
      rw [Nat.sub_add_cancel (by omega), Nat.mul_mod_left]
    rw [testBit_above, h _ (by omega), hzero, decide_eq_true hpos, Bool.and_true,
      decide_eq_true_eq]
    omega
  · exact hgap p (by omega)

/-- **What the search accepts.** The double words, with their lowest bit clear, that are copies of a
rotated run of ones; of an inverted value the fields are those of the complement. -/
theorem ofEven?_eq_some_iff (negated : Bool) (heven : v.toNat.testBit 0 = false) :
    ofEven? negated v = .ok (some m) ↔ ∃ size ∈ sizes, ∃ ones r, 0 < ones ∧ ones < size ∧
      r < size ∧ IsRun 64 size ones r v.toNat ∧
      m = if negated then ofElement size (size - ones) ((r + (size - ones)) % size)
        else ofElement size ones r := by
  -- The fields of copies, in terms of the length of the run and its rotation.
  have hfields : ∀ size ∈ sizes, ∀ i j, 0 < i → i < j → j ≤ size →
      copiesFields negated size i j =
        if negated then ofElement size (size - (j - i))
          (((64 - i) % size + (size - (j - i))) % size)
        else ofElement size (j - i) ((64 - i) % size) := by
    intro size hsize i j hi hij hj
    have hle := le_of_mem_sizes hsize
    have hmod : ((64 - i) % size + (size - (j - i))) % size = (64 - j) % size := by
      have hsplit : 64 - i + (size - (j - i)) = 64 - j + size := by omega
      rw [Nat.mod_add_mod, hsplit, Nat.add_mod_right]
    rw [hmod, copiesFields]
  constructor
  · intro hm
    obtain ⟨size, hsize, i, j, hi, hij, hj, hcopies, rfl⟩ := exists_copies heven hm
    refine ⟨size, hsize, j - i, (64 - i) % size, by omega, by omega,
      Nat.mod_lt _ (pos_of_mem_sizes hsize), ?_, hfields size hsize i j hi hij hj⟩
    rw [hcopies]
    exact isRun_copies hsize hij hj
  · rintro ⟨size, hsize, ones, r, hpos, hones, hr, hrun, rfl⟩
    have hle := le_of_mem_sizes hsize
    -- The lowest bit is clear, so the run is not rotated across the end.
    have hlow : ones ≤ r := by
      have hzero := hrun 0 (by decide)
      rw [heven, Nat.zero_add, Nat.mod_eq_of_lt hr] at hzero
      simpa using hzero.symm
    have hrot : (64 - (size - r)) % size = r := by
      have hmod := rotate_mod (p := 0) hsize (i := size - r) (by omega)
      rw [Nat.zero_add, Nat.zero_add, Nat.mod_mod] at hmod
      rw [hmod, Nat.sub_sub_self hr.le, Nat.mod_eq_of_lt hr]
    obtain ⟨hfirst, hsingle, hnext⟩ := hrun.firstRun hle v.toNat_lt hpos hr hlow
    have hlength : size - r + ones - (size - r) = ones := by omega
    have hcopies : v.toNat
        = repeated size (2 ^ (size - r + ones) - 2 ^ (size - r)) (64 / size) := by
      have hcopy := isRun_copies (i := size - r) (j := size - r + ones) hsize (by omega) (by omega)
      rw [hlength, hrot] at hcopy
      have hbound := repeated_lt ((run_lt_iff (i := size - r) (j := size - r + ones) (by omega)).2
        (by omega : size - r + ones ≤ size)) (pos_of_mem_sizes hsize) (64 / size)
      rw [Nat.div_mul_cancel (dvd_of_mem_sizes hsize)] at hbound
      exact hrun.unique hcopy v.toNat_lt hbound
    have hresult := hfields size hsize (size - r) (size - r + ones) (by omega) (by omega) (by omega)
    rw [hlength, hrot] at hresult
    rw [← hresult]
    by_cases h64 : size = 64
    · subst h64
      exact (hfirst.ofEven?_single negated (by omega) (hsingle rfl)).2
    · rw [hfirst.ofEven?_next (by omega) (hnext (double_le_of_mem_sizes hsize h64))]
      have hdistance : 2 * size - r - (size - r) = size := by omega
      rw [hdistance]
      exact if_pos ⟨hsize, by omega, hcopies⟩

end

end Dynarec.Aarch64.Mask
