/-
What a store leaves in memory.

A word that has been stored is read back from its address as it was, and a store changes nothing
that lies apart from it. A vector is stored as four words, one after the other; their addresses lie
apart even where the sum of address and distance wraps, so all four are read back.
-/
import Dynarec.Proofs.Guest.Code
import Dynarec.Proofs.Guest.Footprint

set_option autoImplicit false

namespace Dynarec

/-- A word is put together again from its bytes. -/
theorem Word.ofBytes_littleEndian (w : Word) :
    ofBytes w.toUInt8 (w >>> 8).toUInt8 (w >>> 16).toUInt8 (w >>> 24).toUInt8 = w := by
  refine UInt32.eq_of_toBitVec_eq (BitVec.eq_of_getLsbD_eq fun i hi => ?_)
  simp only [ofBytes, UInt32.toBitVec_or, UInt32.toBitVec_shiftLeft, UInt8.toBitVec_toUInt32,
    UInt32.toBitVec_toUInt8, UInt32.toBitVec_shiftRight, UInt32.toBitVec_ofNat,
    BitVec.ofNat_eq_ofNat, BitVec.reduceMod, BitVec.ushiftRight_eq', BitVec.toNat_ofNat,
    Nat.reducePow, Nat.reduceMod, BitVec.shiftLeft_eq', BitVec.getLsbD_or,
    BitVec.getLsbD_setWidth, BitVec.getLsbD_shiftLeft, BitVec.getLsbD_ushiftRight]
  -- each bit is in one of the four bytes
  have hbyte : i < 8 ∨ (8 ≤ i ∧ i < 16) ∨ (16 ≤ i ∧ i < 24) ∨ (24 ≤ i ∧ i < 32) := by omega
  rcases hbyte with h | h | h | h <;> grind

namespace Guest

/-! ## Bytes put down one after the other -/

namespace Memory

variable {m m' : Memory} {addr a w : Word} {data : List UInt8}

theorem size_putBytes (data : List UInt8) (bytes : Array UInt8) (pos : Nat) :
    (putBytes bytes pos data).size = bytes.size := by
  induction data generalizing bytes pos with
  | nil => rfl
  | cons b bs ih => rw [putBytes, ih, Array.size_setIfInBounds]

theorem getD_putBytes (data : List UInt8) (bytes : Array UInt8) (pos k : Nat)
    (h : pos + data.length ≤ bytes.size) :
    (putBytes bytes pos data).getD k 0
      = if pos ≤ k ∧ k < pos + data.length then data.getD (k - pos) 0 else bytes.getD k 0 := by
  induction data generalizing bytes pos with
  | nil =>
    rw [if_neg (by rw [List.length_nil]; omega)]
    rfl
  | cons b bs ih =>
    rw [List.length_cons] at h ⊢
    rw [putBytes, ih _ _ (by rw [Array.size_setIfInBounds]; omega)]
    by_cases hk : k = pos
    · subst hk
      have hlt : k < (bytes.setIfInBounds k b).size := by
        rw [Array.size_setIfInBounds]
        omega
      rw [if_neg (by omega), if_pos (by omega), Nat.sub_self, Array.getD, dif_pos hlt]
      exact Array.getElem_setIfInBounds_self ..
    · have hother : (bytes.setIfInBounds pos b).getD k 0 = bytes.getD k 0 := by
        rw [Array.getD_eq_getD_getElem?, Array.getD_eq_getD_getElem?,
          Array.getElem?_setIfInBounds_ne (Ne.symm hk)]
      rw [hother]
      by_cases hin : pos + 1 ≤ k ∧ k < pos + 1 + bs.length
      · rw [if_pos hin, if_pos (by omega), show k - pos = (k - (pos + 1)) + 1 by omega]
        rfl
      · rw [if_neg hin, if_neg (by omega)]

/-- A write that succeeds stays inside the memory and puts its bytes down there. -/
theorem write_eq_ok (h : m.write addr data = .ok m') :
    addr.toNat + data.length ≤ m.size ∧ m'.size = m.size ∧
      ∀ k, m'.byteAt k
        = if addr.toNat ≤ k ∧ k < addr.toNat + data.length then data.getD (k - addr.toNat) 0
          else m.byteAt k := by
  obtain ⟨_, hcheck, hm⟩ := bind_eq_ok.mp h
  rw [← pure_eq_ok.mp hm]
  have hle : addr.toNat + data.length ≤ m.size := by
    by_contra hn
    rw [check, covers, decide_eq_false hn] at hcheck
    exact nomatch hcheck
  exact ⟨hle, size_putBytes _ _ _, fun k => getD_putBytes data m.bytes addr.toNat k hle⟩

theorem read32_eq (m : Memory) (addr : Word) :
    m.read32 addr = if addr.toNat + 4 ≤ m.size then
        .ok (Word.ofBytes (m.byteAt addr.toNat) (m.byteAt (addr.toNat + 1))
          (m.byteAt (addr.toNat + 2)) (m.byteAt (addr.toNat + 3)))
      else .error (.memory addr 4) := by
  unfold read32 check covers
  by_cases h : addr.toNat + 4 ≤ m.size
  · rw [if_pos h, if_pos (decide_eq_true h)]
    rfl
  · rw [if_neg h, if_neg (by rw [decide_eq_true_eq]; exact h)]
    rfl

theorem read32_write_self (h : m.write addr (Word.littleEndian w) = .ok m') :
    m'.read32 addr = .ok w := by
  obtain ⟨hle, hsize, hbyte⟩ := write_eq_ok h
  have hlen : (Word.littleEndian w).length = 4 := rfl
  rw [hlen] at hle hbyte
  have hin : ∀ k < 4, m'.byteAt (addr.toNat + k) = (Word.littleEndian w).getD k 0 := by
    intro k hk
    rw [hbyte, if_pos (by omega), Nat.add_sub_cancel_left]
  rw [read32_eq, if_pos (hsize ▸ hle), hin 1 (by decide), hin 2 (by decide), hin 3 (by decide)]
  have hfirst := hin 0 (by decide)
  rw [Nat.add_zero] at hfirst
  rw [hfirst]
  exact congrArg Except.ok (Word.ofBytes_littleEndian w)

end Memory

/-! ## Stores of words -/

/-- The words at two addresses do not overlap. -/
def Apart (a b : Word) : Prop := a.toNat + 4 ≤ b.toNat ∨ b.toNat + 4 ≤ a.toNat

theorem Memory.read32_write_apart {m m' : Memory} {addr a w : Word}
    (h : m.write addr (Word.littleEndian w) = .ok m') (ha : Apart addr a) :
    m'.read32 a = m.read32 a := by
  obtain ⟨-, hsize, hbyte⟩ := write_eq_ok h
  have hlen : (Word.littleEndian w).length = 4 := rfl
  rw [hlen] at hbyte
  have hout : ∀ k < 4, m'.byteAt (a.toNat + k) = m.byteAt (a.toNat + k) := by
    intro k hk
    refine (hbyte _).trans (if_neg ?_)
    rcases ha with ha | ha <;> omega
  rw [read32_eq, read32_eq, hsize, hout 1 (by decide), hout 2 (by decide), hout 3 (by decide)]
  have hfirst := hout 0 (by decide)
  rw [Nat.add_zero] at hfirst
  rw [hfirst]

/-- Words stored at addresses. -/
def wordStores (words : List (Word × Word)) : List (Word × List UInt8) :=
  words.map fun p => (p.1, Word.littleEndian p.2)

/-- A word apart from all stores is as before. -/
theorem read32_storeAll_apart {words : List (Word × Word)} {m m' : Memory} {a : Word}
    (h : storeAll (wordStores words) m = (.ok (), m')) (ha : ∀ p ∈ words, Apart p.1 a) :
    m'.read32 a = m.read32 a := by
  induction words generalizing m with
  | nil =>
    cases h
    rfl
  | cons p words ih =>
    rw [wordStores, List.map_cons, storeAll] at h
    split at h
    · rename_i m₁ h₁
      rw [ih h fun q hq => ha q (List.mem_cons_of_mem p hq)]
      exact Memory.read32_write_apart h₁ (ha p List.mem_cons_self)
    · exact nomatch h

/-- **What was stored is read back.** -/
theorem read32_storeAll (words : List (Word × Word)) {m m' : Memory}
    (h : storeAll (wordStores words) m = (.ok (), m'))
    (hapart : words.Pairwise fun p q => Apart q.1 p.1) :
    ∀ p ∈ words, m'.read32 p.1 = .ok p.2 := by
  induction words generalizing m with
  | nil => exact fun p hp => absurd hp List.not_mem_nil
  | cons p words ih =>
    rw [wordStores, List.map_cons, storeAll] at h
    split at h
    · rename_i m₁ h₁
      obtain ⟨hp, hrest⟩ := List.pairwise_cons.mp hapart
      intro q hq
      rcases List.mem_cons.mp hq with rfl | hq
      · rw [read32_storeAll_apart h hp]
        exact Memory.read32_write_self h₁
      · exact ih h hrest q hq
    · exact nomatch h

/-- Words at different distances of up to twelve bytes lie apart if the distances do. -/
theorem apart_add (a : Word) {c d : Word} (hc : c.toNat ≤ 12) (hd : d.toNat ≤ 12)
    (h : c.toNat + 4 ≤ d.toNat) : Apart (a + d) (a + c) := by
  have ha := a.toNat_lt
  unfold Apart
  rw [UInt32.toNat_add, UInt32.toNat_add]
  omega

end Guest

end Dynarec
