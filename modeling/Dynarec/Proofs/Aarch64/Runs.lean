/-
Copies of a run of ones.

A bitmask stands for an element of 2, 4, 8, 16, 32 or 64 bits that is repeated to the width of the
operation, and the element is a run of ones rotated right. Bit by bit this says: bit `i` is set
exactly when `(i + r) % size` is below the length of the run. Everything about bitmasks goes through
that one sentence, `IsRun`. It determines the size of the element, since a shorter period would make
the last bit of the unrotated element, which is clear, equal to a set one; and its complement is a
run again, which begins where the other one ends.
-/
import Dynarec.Aarch64.Mask
import Mathlib.Algebra.Order.Group.Nat
import Mathlib.Data.Nat.ModEq

set_option autoImplicit false

namespace Dynarec.Aarch64.Mask

/-- The sizes that an element can have. -/
def sizes : List Nat := [2, 4, 8, 16, 32, 64]

/-- The fields for an element of `size` bits with `ones` one bits, rotated by `r`. -/
def ofElement (size ones r : Nat) : Mask where
  n := if size = 64 then 1 else 0
  s := UInt8.ofNat ((128 - 2 * size % 128 + (ones - 1)) % 64)
  r := UInt8.ofNat r

/-- The lowest `width` bits of `v` are copies of an element of `size` bits, a run of `ones` ones
rotated right by `r`. -/
def IsRun (width size ones r v : Nat) : Prop :=
  ∀ i < width, v.testBit i = decide ((i + r) % size < ones)

theorem pos_of_mem_sizes {size : Nat} (h : size ∈ sizes) : 0 < size := by
  revert size; decide

theorem two_le_of_mem_sizes {size : Nat} (h : size ∈ sizes) : 2 ≤ size := by
  revert size; decide

/-- An element of less than 64 bits fits twice. -/
theorem double_le_of_mem_sizes {size : Nat} (h : size ∈ sizes) (hne : size ≠ 64) :
    2 * size ≤ 64 := by
  revert hne; revert size; decide

theorem dvd_of_mem_sizes {size : Nat} (h : size ∈ sizes) : size ∣ 64 := by
  revert size; decide

theorem le_of_mem_sizes {size : Nat} (h : size ∈ sizes) : size ≤ 64 :=
  Nat.le_of_dvd (by decide) (dvd_of_mem_sizes h)

/-- Of two sizes the smaller divides the larger. -/
theorem dvd_of_lt_sizes {d size : Nat} (hd : d ∈ sizes) (h : size ∈ sizes) (hlt : d < size) :
    d ∣ size := by
  revert hlt; revert size; revert d; decide

/-! ## Bits of an element and of its copies -/

theorem twoTo_eq (k : Nat) : twoTo k = 2 ^ k := rfl

/-- A sum below twice the modulus wraps at most once. -/
theorem mod_of_lt_double {n size : Nat} (h : n < 2 * size) :
    n % size = if n < size then n else n - size := by
  split
  · exact Nat.mod_eq_of_lt ‹_›
  · rw [Nat.mod_eq_sub_mod (by omega), Nat.mod_eq_of_lt (by omega)]

theorem element_lt (size ones r : Nat) : element size ones r < 2 ^ size :=
  Nat.mod_lt _ (Nat.two_pow_pos size)

theorem testBit_element {size ones r i : Nat} (hr : r < size) (hones : ones ≤ size)
    (hi : i < size) :
    (element size ones r).testBit i = decide ((i + r) % size < ones) := by
  rw [mod_of_lt_double (by omega)]
  simp only [element, twoTo_eq, Nat.testBit_mod_two_pow, Nat.testBit_or, Nat.testBit_shiftRight,
    Nat.testBit_shiftLeft, Nat.testBit_two_pow_sub_one, hi, decide_true, Bool.true_and]
  -- Bit `i` comes from the part shifted down or, past the top, from the part shifted up.
  by_cases h : i + r < size
  · have hlow : ¬ i ≥ size - r := by omega
    simp [h, hlow, Nat.add_comm r i]
  · have hhigh : i ≥ size - r := by omega
    have hout : ¬ r + i < ones := by omega
    have heq : i - (size - r) = i + r - size := by omega
    simp [h, hhigh, hout, heq]

/-- Bit `i` of the copies is bit `i % size` of the element. -/
theorem testBit_repeated {size x : Nat} (hx : x < 2 ^ size) (hsize : 0 < size) (count i : Nat) :
    (repeated size x count).testBit i = (decide (i < count * size) && x.testBit (i % size)) := by
  induction count with
  | zero => simp [repeated]
  | succ count ih =>
    have hstep : (count + 1) * size = count * size + size := Nat.succ_mul count size
    rw [repeated, Nat.testBit_or, Nat.testBit_shiftLeft, ih, hstep]
    by_cases hlow : i < count * size
    · have hnot : ¬ i ≥ count * size := by omega
      have hin : i < count * size + size := by omega
      simp [hlow, hnot, hin]
    · obtain ⟨j, rfl⟩ := Nat.exists_eq_add_of_le (Nat.le_of_not_lt hlow)
      have hmod : (count * size + j) % size = j % size := by
        rw [Nat.mul_comm, Nat.mul_add_mod]
      by_cases hj : j < size
      · simp [hlow, hmod, hj, Nat.mod_eq_of_lt hj]
      · -- Past the last copy the element has no bits left.
        have hzero : x.testBit j = false :=
          Nat.testBit_lt_two_pow (lt_of_lt_of_le hx (Nat.pow_le_pow_right (by decide) (by omega)))
        simp [hlow, hj, hzero]

theorem repeated_lt {size x : Nat} (hx : x < 2 ^ size) (hsize : 0 < size) (count : Nat) :
    repeated size x count < 2 ^ (count * size) := by
  apply Nat.lt_pow_two_of_testBit
  intro i hi
  rw [testBit_repeated hx hsize]
  simp [Nat.not_lt.2 hi]

/-- **Copies of a rotated run.** The copies of an element are the run that it is a copy of. -/
theorem isRun_repeated {size ones r count : Nat} (hr : r < size) (hones : ones ≤ size) :
    IsRun (count * size) size ones r (repeated size (element size ones r) count) := by
  intro i hi
  have hsize : 0 < size := by omega
  rw [testBit_repeated (element_lt _ _ _) hsize, testBit_element hr hones (Nat.mod_lt i hsize)]
  simp [hi]

/-- Two values below `2^width` with the same run are equal. -/
theorem IsRun.unique {width size ones r v v' : Nat} (h : IsRun width size ones r v)
    (h' : IsRun width size ones r v') (hv : v < 2 ^ width) (hv' : v' < 2 ^ width) : v = v' := by
  apply Nat.eq_of_testBit_eq
  intro i
  by_cases hi : i < width
  · rw [h i hi, h' i hi]
  · have hle : 2 ^ width ≤ 2 ^ i := Nat.pow_le_pow_right (by decide) (by omega)
    rw [Nat.testBit_lt_two_pow (by omega), Nat.testBit_lt_two_pow (by omega)]

theorem IsRun.mod {width size ones r v : Nat} (h : IsRun width size ones r v) :
    IsRun width size ones r (v % 2 ^ width) := by
  intro i hi
  rw [Nat.testBit_mod_two_pow, h i hi]
  simp [hi]

/-! ## What a run determines -/

/-- The bit of the unrotated element at `j`, found in the value. -/
theorem IsRun.bit {width size ones r v : Nat} (h : IsRun width size ones r v) (hr : r < size)
    (hw : size ≤ width) {j : Nat} (hj : j < size) :
    v.testBit ((j + (size - r)) % size) = decide (j < ones) := by
  have hlt : (j + (size - r)) % size < size := Nat.mod_lt _ (by omega)
  have hback : j + (size - r) + r = j + size := by omega
  rw [h _ (by omega), Nat.mod_add_mod, hback, Nat.add_mod_right, Nat.mod_eq_of_lt hj]

/-- **No shorter period.** A run that is neither empty nor full does not repeat within its
element. -/
theorem IsRun.not_period {width size ones r v d : Nat} (h : IsRun width size ones r v)
    (hr : r < size) (hw : size ≤ width) (hpos : 0 < ones) (hones : ones < size) (hd : 0 < d)
    (hdvd : d ∣ size) (hlt : d < size) :
    ¬ ∀ i < width, v.testBit i = v.testBit (i % d) := by
  intro hper
  -- Places of the unrotated element that are congruent modulo `d` have equal bits.
  have hsame : ∀ j < size, ∀ k < size, j % d = k % d → (j < ones ↔ k < ones) := by
    intro j hj k hk hjk
    have hbit : ∀ l, v.testBit ((l + (size - r)) % size) = v.testBit ((l + (size - r)) % d) := by
      intro l
      have hl : (l + (size - r)) % size < size := Nat.mod_lt _ (by omega)
      rw [hper _ (by omega), Nat.mod_mod_of_dvd _ hdvd]
    have hmod : (j + (size - r)) % d = (k + (size - r)) % d := Nat.ModEq.add_right _ hjk
    have heq : decide (j < ones) = decide (k < ones) := by
      rw [← h.bit hr hw hj, ← h.bit hr hw hk, hbit j, hbit k, hmod]
    simpa using heq
  -- The first bit is set, so bit `d` is; the last is clear, so bit `d - 1` is.
  have hfirst : d < ones := (hsame 0 (by omega) d hlt (by simp)).1 hpos
  have hlast : (size - 1) % d = (d - 1) % d := by
    obtain ⟨c, rfl⟩ := hdvd
    obtain ⟨c, rfl⟩ : ∃ c', c = c' + 1 := ⟨c - 1, by rcases c with _ | c <;> simp at hones ⊢⟩
    have hsplit : d * (c + 1) - 1 = d * c + (d - 1) := by rw [Nat.mul_succ]; omega
    rw [hsplit, Nat.mul_add_mod]
  have hclear : ¬ d - 1 < ones := by
    rw [← hsame (size - 1) (by omega) (d - 1) (by omega) hlast]
    omega
  omega

theorem IsRun.complement {width size ones r v v' : Nat} (h : IsRun width size ones r v)
    (hr : r < size) (hones : ones ≤ size) (hv : ∀ i < width, v'.testBit i = !v.testBit i) :
    IsRun width size (size - ones) ((r + (size - ones)) % size) v' := by
  intro i hi
  rw [hv i hi, h i hi, Nat.add_mod_mod, ← decide_not, ← Nat.add_assoc]
  congr 1
  apply propext
  have hlt : (i + r) % size < size := Nat.mod_lt _ (by omega)
  have hmod : (i + r + (size - ones)) % size =
      if (i + r) % size < ones then (i + r) % size + (size - ones) else (i + r) % size - ones := by
    rw [← Nat.mod_add_mod, mod_of_lt_double (by omega)]
    split <;> split <;> omega
  rw [hmod]
  split <;> omega

/-- The complement of the complement begins where the run begins. -/
theorem complement_rotation {size ones r : Nat} (hr : r < size) (hones : ones ≤ size) :
    ((r + (size - ones)) % size + ones) % size = r := by
  rw [Nat.mod_add_mod, Nat.add_assoc, Nat.sub_add_cancel hones, Nat.add_mod_right,
    Nat.mod_eq_of_lt hr]

/-- **The complement of a run is a run.** It has the zeros of the element for ones, and begins where
the run ends. -/
theorem isRun_complement_iff {width size ones r v v' : Nat} (hr : r < size) (hones : ones ≤ size)
    (hv : ∀ i < width, v'.testBit i = !v.testBit i) :
    IsRun width size ones r v ↔
      IsRun width size (size - ones) ((r + (size - ones)) % size) v' := by
  refine ⟨fun h => h.complement hr hones hv, fun h => ?_⟩
  have hv' : ∀ i < width, v.testBit i = !v'.testBit i := fun i hi => by rw [hv i hi, Bool.not_not]
  have hback := h.complement (Nat.mod_lt _ (by omega)) (Nat.sub_le size ones) hv'
  rwa [Nat.sub_sub_self hones, complement_rotation hr hones] at hback

end Dynarec.Aarch64.Mask
