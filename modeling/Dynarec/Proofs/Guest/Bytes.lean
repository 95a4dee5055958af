/-
Low bytes of a word.

The bytes of a word are stored from the lowest up, so a read of fewer bytes finds the low bytes of
what a read of more bytes finds at the same address. What a run of low ones keeps of a word is
computed here for the ways in which a load puts a word together: from bytes, and by extending a
half.
-/
import Mathlib.Algebra.Group.Nat.Defs
import Dynarec.Proofs.Guest.Code

set_option autoImplicit false

namespace Dynarec

/-! ## Words -/

namespace Word

theorem and_or_distrib_right (x y z : Word) : (x ||| y) &&& z = (x &&& z) ||| (y &&& z) :=
  UInt32.eq_of_toBitVec_eq BitVec.and_or_distrib_right

theorem getLsbD_shiftRight {n : Word} (hn : n.toNat < 32) (w : Word) (i : Nat) :
    (w >>> n).toBitVec.getLsbD i = w.toBitVec.getLsbD (n.toNat + i) := by
  have hmod : (n.toBitVec % 32).toNat = n.toNat := Nat.mod_eq_of_lt hn
  rw [UInt32.toBitVec_shiftRight, BitVec.ushiftRight_eq', BitVec.getLsbD_ushiftRight, hmod]

theorem getLsbD_shiftLeft {n : Word} (hn : n.toNat < 32) (w : Word) {i : Nat} (hi : i < 32) :
    (w <<< n).toBitVec.getLsbD i = (decide (n.toNat ≤ i) && w.toBitVec.getLsbD (i - n.toNat)) := by
  have hmod : (n.toBitVec % 32).toNat = n.toNat := Nat.mod_eq_of_lt hn
  rw [UInt32.toBitVec_shiftLeft, BitVec.shiftLeft_eq', BitVec.getLsbD_shiftLeft, hmod,
    decide_eq_true hi, Bool.true_and, ← decide_not, decide_eq_decide.mpr Nat.not_lt]

/-- What is shifted past a run of low ones is cleared by it. -/
theorem shiftLeft_and_low {x k low : Word} {j : Nat} (hlow : low.toNat = 2 ^ j - 1)
    (hj : j ≤ k.toNat) (hk : k.toNat < 32) : x <<< k &&& low = 0 := by
  have hdvd : 2 ^ j ∣ x.toNat * 2 ^ k.toNat :=
    Nat.dvd_trans (Nat.pow_dvd_pow 2 hj) (Nat.dvd_mul_left _ _)
  have hdvd' : 2 ^ j ∣ 2 ^ 32 := Nat.pow_dvd_pow 2 (Nat.le_trans hj (Nat.le_of_lt hk))
  refine UInt32.toNat_inj.mp ?_
  rw [UInt32.toNat_and, hlow, Nat.and_two_pow_sub_one_eq_mod, UInt32.toNat_shiftLeft,
    Nat.mod_eq_of_lt hk, Nat.shiftLeft_eq, Nat.mod_mod_of_dvd _ hdvd']
  exact Nat.mod_eq_zero_of_dvd hdvd

/-- What fits below a run of low ones is kept by it. -/
theorem and_low_of_lt {x low : Word} {j : Nat} (hlow : low.toNat = 2 ^ j - 1)
    (hx : x.toNat < 2 ^ j) : x &&& low = x := by
  refine UInt32.toNat_inj.mp ?_
  rw [UInt32.toNat_and, hlow, Nat.and_two_pow_sub_one_eq_mod, Nat.mod_eq_of_lt hx]

theorem ofBytes_and_byte (b0 b1 b2 b3 : UInt8) : ofBytes b0 b1 b2 b3 &&& 0xff = b0.toUInt32 := by
  have hlow : (0xff : Word).toNat = 2 ^ 8 - 1 := rfl
  have hlt : b0.toUInt32.toNat < 2 ^ 8 := by
    rw [UInt8.toNat_toUInt32]
    exact b0.toNat_lt
  rw [ofBytes, and_or_distrib_right, and_or_distrib_right, and_or_distrib_right,
    and_low_of_lt hlow hlt, shiftLeft_and_low hlow (by decide) (by decide),
    shiftLeft_and_low hlow (by decide) (by decide), shiftLeft_and_low hlow (by decide) (by decide),
    UInt32.or_zero, UInt32.or_zero, UInt32.or_zero]

theorem ofBytes_and_half (b0 b1 b2 b3 : UInt8) :
    ofBytes b0 b1 b2 b3 &&& 0xffff = ofBytes b0 b1 0 0 := by
  have hlow : (0xffff : Word).toNat = 2 ^ 16 - 1 := rfl
  have h0 : b0.toUInt32.toNat < 2 ^ 16 := by
    rw [UInt8.toNat_toUInt32]
    exact Nat.lt_trans b0.toNat_lt (by decide)
  have h1 : (b1.toUInt32 <<< 8).toNat < 2 ^ 16 := by
    have hlt := b1.toNat_lt
    rw [UInt32.toNat_shiftLeft, UInt8.toNat_toUInt32, Nat.shiftLeft_eq]
    simp only [UInt32.reduceToNat, Nat.reduceMod, Nat.reducePow]
    omega
  have hzero : ofBytes b0 b1 0 0 = b0.toUInt32 ||| (b1.toUInt32 <<< 8) := by
    show b0.toUInt32 ||| (b1.toUInt32 <<< 8) ||| (0 : Word) ||| (0 : Word) = _
    rw [UInt32.or_zero, UInt32.or_zero]
  rw [hzero, ofBytes, and_or_distrib_right, and_or_distrib_right, and_or_distrib_right,
    and_low_of_lt hlow h0, and_low_of_lt hlow h1,
    shiftLeft_and_low hlow (by decide) (by decide), shiftLeft_and_low hlow (by decide) (by decide),
    UInt32.or_zero, UInt32.or_zero]

theorem extend16_and_byte (x : Word) : extend16 x &&& 0xff = x &&& 0xff := by
  refine UInt32.eq_of_toBitVec_eq (BitVec.eq_of_getLsbD_eq fun i hi => ?_)
  show ((x.toBitVec.truncate 16).signExtend 32 &&& 0xff#32).getLsbD i
    = (x.toBitVec &&& 0xff#32).getLsbD i
  have hmask : ∀ k < 32, 8 ≤ k → (0xff#32).getLsbD k = false := by decide
  rw [BitVec.getLsbD_and, BitVec.getLsbD_and]
  by_cases h8 : i < 8
  · have h16 : i < 16 := Nat.lt_trans h8 (by decide)
    rw [BitVec.getLsbD_signExtend, if_pos h16, BitVec.truncate_eq_setWidth,
      BitVec.getLsbD_setWidth, decide_eq_true hi, decide_eq_true h16, Bool.true_and, Bool.true_and]
  · rw [hmask i hi (Nat.le_of_not_lt h8), Bool.and_false, Bool.and_false]

end Word

/-! ## Memory -/

namespace Guest.Memory

variable {m : Memory} {addr v : Word}

/-- Fewer bytes are inside the memory too. -/
theorem check_of_le {k l : Nat} (hkl : k ≤ l) (h : m.check addr l = .ok ()) :
    m.check addr k = .ok () := by
  have hcovers : m.covers addr l = true := by
    by_contra hn
    rw [check, if_neg hn] at h
    exact nomatch h
  have hle : addr.toNat + l ≤ m.size := of_decide_eq_true hcovers
  refine if_pos (decide_eq_true ?_)
  omega

theorem read8_of_check {k : Nat} (hk : 1 ≤ k) (h : m.check addr k = .ok ()) :
    m.read8 addr = .ok (m.byteAt addr.toNat) := by
  rw [read8, check_of_le hk h]
  rfl

theorem read8_of_read16 (h : m.read16 addr = .ok v) :
    ∃ x, m.read8 addr = .ok x ∧ x.toUInt32 = v &&& 0xff := by
  obtain ⟨_, hcheck, hv⟩ := bind_eq_ok.mp h
  cases hv
  exact ⟨_, read8_of_check (by decide) hcheck, (Word.ofBytes_and_byte _ _ _ _).symm⟩

theorem read8_of_read32 (h : m.read32 addr = .ok v) :
    ∃ x, m.read8 addr = .ok x ∧ x.toUInt32 = v &&& 0xff := by
  obtain ⟨_, hcheck, hv⟩ := bind_eq_ok.mp h
  cases hv
  exact ⟨_, read8_of_check (by decide) hcheck, (Word.ofBytes_and_byte _ _ _ _).symm⟩

theorem read16_of_read32 (h : m.read32 addr = .ok v) :
    m.read16 addr = .ok (v &&& 0xffff) := by
  obtain ⟨_, hcheck, hv⟩ := bind_eq_ok.mp h
  cases hv
  rw [read16, check_of_le (by decide) hcheck, Word.ofBytes_and_half]
  rfl

end Guest.Memory

end Dynarec
