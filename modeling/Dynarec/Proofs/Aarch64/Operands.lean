/-
The operands that fields stand for.

A wide move writes one of the parts of sixteen bits; the parts of a constant come back together
(`insertParts_eq`). A bitmask is the constant that it was found for (`bitMasks?_ofValue?`), and the
twelve bits of an addition are its constant (`operand_of_arithmeticImmediate?`).

Sums are here for their flags. The flags of a difference tell how its operands compare
(`holds_addOrSub_true`). Subtracting a constant and adding its negative set the same flags, except
for zero, where no carry comes from the sum, and for the least number, whose negative overflows
(`addOrSub_neg`).
-/
import Dynarec.Proofs.Aarch64.Machine

set_option autoImplicit false

namespace Dynarec.Aarch64

/-! ## Parts of sixteen bits -/

section Parts

variable {width : Nat} {x v : BitVec width} {imm : BitVec 16} {k i : Nat}

theorem getLsbD_insertPart (hi : i < width) :
    (insertPart x imm k).getLsbD i = if i / 16 = k then imm.getLsbD (i % 16) else x.getLsbD i := by
  simp only [insertPart, BitVec.getLsbD_or, BitVec.getLsbD_and, BitVec.getLsbD_not,
    BitVec.getLsbD_shiftLeft, BitVec.getLsbD_setWidth, BitVec.getLsbD_allOnes]
  by_cases hlow : i < 16 * k
  · have hpart : i / 16 ≠ k := by omega
    simp [hi, hlow, hpart]
  · by_cases hpart : i / 16 = k
    · have hin : i - 16 * k < 16 := by omega
      have hbit : i - 16 * k = i % 16 := by omega
      have hwidth : i % 16 < width := by omega
      simp [hi, hlow, hpart, hbit, hwidth, Nat.mod_lt]
    · have hout : ¬ i - 16 * k < 16 := by omega
      have hzero : imm.getLsbD (i - 16 * k) = false := BitVec.getLsbD_of_ge _ _ (by omega)
      simp [hi, hpart, hout, hzero]

/-- The bits of a part. -/
theorem getLsbD_of_part (h : v.extractLsb' (16 * k) 16 = imm) (hi : i / 16 = k) :
    v.getLsbD i = imm.getLsbD (i % 16) := by
  rw [← h, BitVec.getLsbD_extractLsb', decide_eq_true (Nat.mod_lt i (by decide)), Bool.true_and]
  congr 1
  omega

/-- Parts of a value, one after another. -/
def insertParts (v : BitVec width) (x : BitVec width) (parts : List Nat) : BitVec width :=
  parts.foldl (fun x k => insertPart x (v.extractLsb' (16 * k) 16) k) x

theorem getLsbD_insertParts {parts : List Nat} (hi : i < width) :
    (insertParts v x parts).getLsbD i = if i / 16 ∈ parts then v.getLsbD i else x.getLsbD i := by
  induction parts generalizing x with
  | nil => exact (if_neg List.not_mem_nil).symm
  | cons k parts ih =>
    show (insertParts v (insertPart x (v.extractLsb' (16 * k) 16) k) parts).getLsbD i = _
    rw [ih, getLsbD_insertPart hi]
    by_cases hmem : i / 16 ∈ parts
    · rw [if_pos hmem, if_pos (List.mem_cons_of_mem k hmem)]
    · by_cases hpart : i / 16 = k
      · rw [if_neg hmem, if_pos hpart, if_pos (List.mem_cons.mpr (Or.inl hpart))]
        exact (getLsbD_of_part rfl hpart).symm
      · rw [if_neg hmem, if_neg hpart, if_neg fun h => (List.mem_cons.mp h).elim hpart hmem]

/-- **A value is put together from all parts that are not zero.** -/
theorem insertParts_eq {parts : List Nat}
    (h : ∀ k ∉ parts, 16 * k < width → v.extractLsb' (16 * k) 16 = 0) :
    insertParts v 0 parts = v := by
  apply BitVec.eq_of_getLsbD_eq
  intro i hi
  rw [getLsbD_insertParts hi]
  split
  · rfl
  · rename_i hmem
    rw [getLsbD_of_part (h (i / 16) hmem (by omega)) rfl]
    exact BitVec.getLsbD_zero.trans BitVec.getLsbD_zero.symm

/-- One part of a word, if the other one is clear. -/
theorem insertPart_zero_eq {v : BitVec 32} (hk : k < 2) (h : v.extractLsb' (16 * (1 - k)) 16 = 0) :
    insertPart 0 (v.extractLsb' (16 * k) 16) k = v := by
  show insertParts v 0 [k] = v
  refine insertParts_eq fun j hj hlt => ?_
  have hother : j = 1 - k := by
    rw [List.mem_singleton] at hj
    omega
  rw [hother, h]

/-- One part of a word in complement, if the other one is all ones. -/
theorem not_insertPart_eq {v : BitVec 32} (hk : k < 2)
    (h : v.extractLsb' (16 * (1 - k)) 16 = BitVec.allOnes 16) :
    ~~~insertPart 0 (~~~v.extractLsb' (16 * k) 16) k = v := by
  apply BitVec.eq_of_getLsbD_eq
  intro i hi
  have hmod : i % 16 < 16 := Nat.mod_lt i (by decide)
  rw [BitVec.getLsbD_not, getLsbD_insertPart hi, decide_eq_true hi, Bool.true_and]
  by_cases hpart : i / 16 = k
  · rw [if_pos hpart, BitVec.getLsbD_not, decide_eq_true hmod, Bool.true_and, Bool.not_not]
    exact (getLsbD_of_part rfl hpart).symm
  · rw [if_neg hpart, getLsbD_of_part h (by omega), BitVec.getLsbD_allOnes, decide_eq_true hmod]
    exact congrArg _ BitVec.getLsbD_zero

end Parts

/-! ## Masks -/

section Masks

variable {size width ones r i : Nat} {x : BitVec size}

theorem getLsbD_onesBelow :
    (onesBelow width ones).getLsbD i = (decide (i < width) && decide (i < ones)) := by
  rw [onesBelow, BitVec.getLsbD_ofNat, Nat.testBit_two_pow_sub_one]

theorem getLsbD_rotateRight (hr : r < size) (hi : i < size) :
    (x.rotateRight r).getLsbD i = x.getLsbD ((i + r) % size) := by
  rw [BitVec.getLsbD_rotateRight, Nat.mod_eq_of_lt hr, Mask.mod_of_lt_double (by omega)]
  by_cases h : i < size - r
  · rw [decide_eq_true h, cond_true, if_pos (by omega), Nat.add_comm]
  · rw [decide_eq_false h, cond_false, decide_eq_true hi, Bool.true_and, if_neg (by omega)]
    congr 1
    omega

theorem getLsbD_copies (hdvd : size ∣ width) (hi : i < width) :
    (copies width x).getLsbD i = x.getLsbD (i % size) := by
  have hfull : size * (width / size) = width := Nat.mul_div_cancel' hdvd
  rw [copies, BitVec.getLsbD_setWidth, BitVec.getLsbD_replicate, hfull, decide_eq_true hi,
    Bool.true_and, Bool.true_and]

/-- The copies of a rotated run of ones. -/
theorem getLsbD_run (hdvd : size ∣ width) (hr : r < size) (hi : i < width) :
    (copies width ((onesBelow size ones).rotateRight r)).getLsbD i
      = decide ((i + r) % size < ones) := by
  have hsize : 0 < size := by omega
  rw [getLsbD_copies hdvd hi, getLsbD_rotateRight hr (Nat.mod_lt i hsize), getLsbD_onesBelow,
    decide_eq_true (Nat.mod_lt _ hsize), Bool.true_and, Nat.mod_add_mod]

/-- One value where a mask is set, and another one where it is not. -/
theorem getLsbD_merge {mask a b : BitVec width} (hi : i < width) :
    ((a &&& ~~~mask) ||| (b &&& mask)).getLsbD i
      = if mask.getLsbD i then b.getLsbD i else a.getLsbD i := by
  rw [BitVec.getLsbD_or, BitVec.getLsbD_and, BitVec.getLsbD_and, BitVec.getLsbD_not,
    decide_eq_true hi, Bool.true_and]
  cases mask.getLsbD i <;> simp

end Masks

theorem toNat_setWidth_of_lt {n k : Nat} {x : BitVec n} (h : x.toNat < 2 ^ k) :
    (x.setWidth k).toNat = x.toNat := by
  rw [BitVec.toNat_setWidth, Nat.mod_eq_of_lt h]

/-- The size of an element is read off the fields in the same way. -/
theorem sizeOfFields_eq {mask : Mask} (hn : mask.n = 0) (hs : mask.s.toNat < 2 ^ 6) :
    sizeOfFields 0 (mask.s.toBitVec.setWidth 6) = mask.elementSize := by
  have hmod : mask.s.toNat % 64 = mask.s.toNat := Nat.mod_eq_of_lt hs
  rw [sizeOfFields, Mask.elementSize, BitVec.toNat_append, BitVec.toNat_not,
    toNat_setWidth_of_lt hs, hn, hmod]
  rfl

/-- **The mask that is found for a word is the word.** -/
theorem bitMasks?_ofValue? {c : Word} {mask : Mask}
    (h : Mask.ofValue? c.toUInt64 32 = .ok (some mask)) :
    mask.n = 0 ∧ mask.s.toNat < 2 ^ 6 ∧ mask.r.toNat < 2 ^ 6 ∧
      ∃ tmask, bitMasks? 32 0 (mask.s.toBitVec.setWidth 6) (mask.r.toBitVec.setWidth 6) true
        = some (c.toBitVec, tmask) := by
  obtain ⟨size, hsize, hle, ones, r, hpos, hones, hr, hrun, hmask⟩ :=
    (Mask.ofValue?_eq_some_iff (Or.inl rfl)).mp h
  obtain ⟨-, helement, hlength, -, hn⟩ := hmask ▸ Mask.fields_ofElement hsize hpos hones r
  have hn : mask.n = 0 := hn (by omega)
  have hs : mask.s.toNat < 2 ^ 6 := by
    have hlt : (128 - 2 * size % 128 + (ones - 1)) % 64 < 64 := Nat.mod_lt _ (by decide)
    rw [hmask, Mask.ofElement, UInt8.toNat_ofNat_of_lt' (Nat.lt_trans hlt (by decide))]
    exact hlt
  have hrotation : mask.r.toNat = r := by
    rw [hmask]
    exact UInt8.toNat_ofNat_of_lt' (Nat.lt_trans (Nat.lt_of_lt_of_le hr hle) (by decide))
  have hr' : mask.r.toNat < 2 ^ 6 := by omega
  have hsfield : (mask.s.toBitVec.setWidth 6).toNat = mask.s.toNat := toNat_setWidth_of_lt hs
  have hrfield : (mask.r.toBitVec.setWidth 6).toNat = r :=
    (toNat_setWidth_of_lt hr').trans hrotation
  have hdvd : size ∣ 32 := by
    have hall : ∀ size ∈ Mask.sizes, size ≤ 32 → size ∣ 32 := by decide
    exact hall size hsize hle
  have hvalue : copies 32 ((onesBelow size ones).rotateRight r) = c.toBitVec := by
    apply BitVec.eq_of_getLsbD_eq
    intro i hi
    rw [getLsbD_run hdvd hr hi]
    exact (hrun i hi).symm
  refine ⟨hn, hs, hr', copies 32 (onesBelow size ((mask.s.toNat % size + size - r) % size + 1)), ?_⟩
  rw [bitMasks?, sizeOfFields_eq hn hs, helement, hsfield, hrfield, Nat.mod_eq_of_lt hr, hlength,
    if_neg (by omega), hvalue]

/-! ## Sums and their flags -/

section Sums

variable {x y : BitVec 32}

theorem addOrSub_false : (addOrSub false x y).1 = x + y := by
  apply BitVec.eq_of_toNat_eq
  simp [addOrSub, addWithCarry]

theorem addOrSub_true : (addOrSub true x y).1 = x - y := by
  apply BitVec.eq_of_toNat_eq
  have hy := y.isLt
  simp only [addOrSub, addWithCarry, if_true, BitVec.toNat_ofNat, BitVec.toNat_not,
    BitVec.toNat_sub, Bool.toNat_true]
  omega

theorem toInt_not (y : BitVec 32) : (~~~y).toInt = -y.toInt - 1 := by
  have hlt := y.isLt
  rw [BitVec.toInt_eq_toNat_cond, BitVec.toInt_eq_toNat_cond, BitVec.toNat_not]
  split <;> split <;> omega

/-- **The flags of a difference** tell how the operands compare. -/
theorem holds_addOrSub_true :
    (Cond.holds (addOrSub true x y).2 .eq = true ↔ x = y) ∧
      (Cond.holds (addOrSub true x y).2 .lt = true ↔ x.toInt < y.toInt) ∧
      (Cond.holds (addOrSub true x y).2 .lo = true ↔ x.toNat < y.toNat) := by
  have hx := x.isLt
  have hy := y.isLt
  refine ⟨?_, ?_, ?_⟩
  · show ((addOrSub true x y).1 == 0) = true ↔ _
    rw [addOrSub_true, beq_iff_eq, BitVec.sub_eq_iff_eq_add]
    exact Eq.congr_right (BitVec.zero_add y)
  · -- the sign of the result is wrong exactly when the difference leaves the range
    show ((addOrSub true x y).1.msb != ((addOrSub true x y).1.toInt !=
      x.toInt + (~~~y).toInt + 1)) = true ↔ _
    have hsum : x.toInt + (~~~y).toInt + 1 = x.toInt - y.toInt := by
      rw [toInt_not]
      omega
    have hresult : (x - y).toInt = (x.toInt - y.toInt).bmod (2 ^ 32) := BitVec.toInt_sub ..
    have hrange : -(2 ^ 32) < x.toInt - y.toInt ∧ x.toInt - y.toInt < 2 ^ 32 := by
      have hx := And.intro (BitVec.le_toInt x) (BitVec.toInt_lt (x := x))
      have hy := And.intro (BitVec.le_toInt y) (BitVec.toInt_lt (x := y))
      omega
    have hless : x.toInt < y.toInt ↔ x.toInt - y.toInt < 0 := by omega
    rw [addOrSub_true, BitVec.msb_eq_toInt, hsum, hresult, hless]
    generalize x.toInt - y.toInt = d at hrange ⊢
    have hwrap : d.bmod (2 ^ 32) = d ∨ d.bmod (2 ^ 32) < 0 ∧ 0 ≤ d ∧ d.bmod (2 ^ 32) ≠ d ∨
        0 ≤ d.bmod (2 ^ 32) ∧ d < 0 ∧ d.bmod (2 ^ 32) ≠ d := by
      rw [Int.bmod_def]
      split <;> omega
    generalize d.bmod (2 ^ 32) = e at hwrap ⊢
    rcases hwrap with heq | ⟨hneg, hd, hne⟩ | ⟨hpos, hd, hne⟩
    · simp [heq]
    · simp [hneg, hd, hne]
    · simp [Int.not_lt.mpr hpos, hd, hne]
  · show (!((addOrSub true x y).1.toNat != x.toNat + (~~~y).toNat + 1)) = true ↔ _
    rw [addOrSub_true, BitVec.toNat_sub, BitVec.toNat_not]
    simp only [Bool.not_eq_true', bne_eq_false_iff_eq]
    omega

/-- Adding the negative sets the flags as subtracting does, unless there is no negative or it is
zero. -/
theorem addOrSub_neg (hzero : y ≠ 0) (hmin : y.toNat ≠ 2 ^ 31) :
    addOrSub false x (-y) = addOrSub true x y := by
  have hpos : y.toNat ≠ 0 := fun h => hzero (BitVec.eq_of_toNat_eq h)
  have hlt := y.isLt
  have hunsigned : (-y).toNat = (~~~y).toNat + 1 := by
    rw [BitVec.toNat_neg, BitVec.toNat_not]
    omega
  have hsigned : (-y).toInt = (~~~y).toInt + 1 := by
    rw [BitVec.toInt_eq_toNat_cond, BitVec.toInt_eq_toNat_cond, BitVec.toNat_neg, BitVec.toNat_not]
    split <;> split <;> omega
  simp only [addOrSub, addWithCarry, if_true, hunsigned, hsigned, Bool.toNat_false, Bool.toNat_true,
    Bool.false_eq_true, if_false, Nat.add_zero, Nat.add_assoc, Int.add_assoc]
  rfl

theorem toBitVec_zero_sub (c : Word) : (0 - c).toBitVec = -c.toBitVec :=
  UInt32.toBitVec_sub.trans (BitVec.zero_sub _)

end Sums

theorem toNat_lt_of_arithmeticImmediate? {v : UInt64} {p : Word × Bool}
    (h : arithmeticImmediate? v = some p) : v.toNat < 2 ^ 24 := by
  unfold arithmeticImmediate? at h
  split at h
  · rename_i hlt
    rw [UInt64.lt_iff_toNat_lt] at hlt
    exact Nat.lt_trans hlt (by decide)
  · split at h
    · rename_i hmask
      rw [← hmask, UInt64.toNat_and]
      exact Nat.lt_of_le_of_lt Nat.and_le_right (by decide)
    · cases h

/-- **The operand that the twelve bits stand for is the constant.** -/
theorem operand_of_arithmeticImmediate? {c bits : Word} {isShifted : Bool}
    (h : arithmeticImmediate? c.toUInt64 = some (bits, isShifted)) :
    ((bits.toBitVec.setWidth 12).setWidth 32 <<< if BitVec.ofBool isShifted = 1 then 12 else 0)
      = c.toBitVec := by
  have hbits : bits.toNat < 4096 := UInt32.lt_iff_toNat_lt.mp (lt_of_arithmeticImmediate? h)
  have hoperand : ((bits.toBitVec.setWidth 12).setWidth 32).toNat = bits.toNat := by
    rw [BitVec.toNat_setWidth, BitVec.toNat_setWidth]
    show bits.toNat % 2 ^ 12 % 2 ^ 32 = bits.toNat
    omega
  apply BitVec.eq_of_toNat_eq
  unfold arithmeticImmediate? at h
  split at h
  · cases h
    rw [if_neg (by decide), BitVec.shiftLeft_zero, hoperand, UInt32.toUInt32_toUInt64]
    rfl
  · split at h
    · rename_i hmask
      cases h
      -- the lowest twelve bits are clear
      have hlow : c.toNat % 2 ^ 12 = 0 := by
        rw [← UInt32.toNat_toUInt64, ← hmask, UInt64.toNat_and, Nat.and_mod_two_pow]
        exact Nat.and_zero _
      have hhigh : ((c.toUInt64 >>> 12).toUInt32).toNat = c.toNat / 2 ^ 12 := by
        have hlt := c.toNat_lt
        rw [UInt64.toNat_toUInt32, UInt64.toNat_shiftRight, Nat.shiftRight_eq_div_pow,
          UInt32.toNat_toUInt64]
        show c.toNat / 2 ^ 12 % 2 ^ 32 = c.toNat / 2 ^ 12
        omega
      have hlt := c.toNat_lt
      rw [if_pos (by decide), BitVec.toNat_shiftLeft, hoperand, hhigh, Nat.shiftLeft_eq]
      show c.toNat / 2 ^ 12 * 2 ^ 12 % 2 ^ 32 = c.toNat
      omega
    · cases h

end Dynarec.Aarch64
