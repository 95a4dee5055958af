/-
A word at any address from two accesses to aligned words.

A left access reaches the bytes of an aligned word up to its address, a right access those from its
address on. So a left access three bytes behind a right one covers, with it, the four bytes from the
address of the right one, each of them once: which of the two goes first does not matter, and no
other byte is touched (`unaligned_pair`). Addresses count modulo `2^32`, so the four bytes may lie
at both ends of memory.

The argument is about bytes. Shifting and masking by the misalignment moves and keeps whole bytes
(`byte_mergeLeft`, `byte_mergeRight`, `byte_spliceLeft`, `byte_spliceRight`); behind these four
lemmas no bit is looked at again.
-/
import Dynarec.Proofs.Guest.Accesses
import Dynarec.Proofs.Guest.Bytes

set_option autoImplicit false
set_option maxRecDepth 2048

namespace Dynarec

/-! ## Bytes of a word -/

namespace Word

/-- The byte of a word with the given number, the lowest first. -/
def byte (w : Word) (k : Nat) : UInt8 := w.littleEndian.getD k 0

variable {w w' : Word} {k i : Nat}

/-- The bits of a byte. -/
theorem getLsbD_byte (hk : k < 4) (w : Word) {i : Nat} (hi : i < 8) :
    (w.byte k).toBitVec.getLsbD i = w.toBitVec.getLsbD (8 * k + i) := by
  have hbyte : ∀ n : Word, n.toNat < 32 →
      (w >>> n).toUInt8.toBitVec.getLsbD i = w.toBitVec.getLsbD (n.toNat + i) := by
    intro n hn
    rw [UInt32.toBitVec_toUInt8, BitVec.getLsbD_setWidth, decide_eq_true hi, Bool.true_and,
      getLsbD_shiftRight hn]
  have hfirst : w.toUInt8.toBitVec.getLsbD i = w.toBitVec.getLsbD i := by
    rw [UInt32.toBitVec_toUInt8, BitVec.getLsbD_setWidth, decide_eq_true hi, Bool.true_and]
  obtain rfl | rfl | rfl | rfl : k = 0 ∨ k = 1 ∨ k = 2 ∨ k = 3 := by omega
  · rw [Nat.mul_zero, Nat.zero_add]
    exact hfirst
  · exact hbyte 8 (by decide)
  · exact hbyte 16 (by decide)
  · exact hbyte 24 (by decide)

/-- Words with the same bytes are the same. -/
theorem ext_bytes (h : ∀ k < 4, w.byte k = w'.byte k) : w = w' := by
  rw [← ofBytes_littleEndian w, ← ofBytes_littleEndian w']
  exact congr (congr (congr (congrArg ofBytes (h 0 (by decide))) (h 1 (by decide)))
    (h 2 (by decide))) (h 3 (by decide))

/-- A byte is known by its bits. -/
theorem byte_ext {b b' : UInt8} (h : ∀ i < 8, b.toBitVec.getLsbD i = b'.toBitVec.getLsbD i) :
    b = b' :=
  UInt8.eq_of_toBitVec_eq (BitVec.eq_of_getLsbD_eq h)

/-- The bytes that a word is put together from. -/
theorem byte_ofBytes (b0 b1 b2 b3 : UInt8) (hk : k < 4) :
    (ofBytes b0 b1 b2 b3).byte k = [b0, b1, b2, b3].getD k 0 := by
  refine byte_ext fun i hi => ?_
  have hpart : ∀ (b : UInt8) (n : Word), n.toNat < 32 →
      (b.toUInt32 <<< n).toBitVec.getLsbD (8 * k + i)
        = (decide (n.toNat ≤ 8 * k + i) && b.toBitVec.getLsbD (8 * k + i - n.toNat)) := by
    intro b n hn
    rw [getLsbD_shiftLeft hn _ (by omega), UInt8.toBitVec_toUInt32, BitVec.getLsbD_setWidth,
      decide_eq_true (by omega : 8 * k + i - n.toNat < 32), Bool.true_and]
  have hlow : b0.toUInt32.toBitVec.getLsbD (8 * k + i) = b0.toBitVec.getLsbD (8 * k + i) := by
    rw [UInt8.toBitVec_toUInt32, BitVec.getLsbD_setWidth,
      decide_eq_true (by omega : 8 * k + i < 32), Bool.true_and]
  have hout : ∀ (b : UInt8) (j : Nat), 8 ≤ j → b.toBitVec.getLsbD j = false :=
    fun b j hj => BitVec.getLsbD_of_ge b.toBitVec j hj
  rw [getLsbD_byte hk _ hi, ofBytes, UInt32.toBitVec_or, UInt32.toBitVec_or, UInt32.toBitVec_or,
    BitVec.getLsbD_or, BitVec.getLsbD_or, BitVec.getLsbD_or, hlow, hpart b1 8 (by decide),
    hpart b2 16 (by decide), hpart b3 24 (by decide)]
  -- of the four bytes only one reaches the place
  obtain rfl | rfl | rfl | rfl : k = 0 ∨ k = 1 ∨ k = 2 ∨ k = 3 := by omega
  all_goals
    simp only [UInt32.reduceToNat, List.getD_cons_zero, List.getD_cons_succ]
    grind

end Word

namespace Guest

/-! ## Shifting and masking by the misalignment -/

section Merge

variable {k : Nat}

theorem toNat_misalignment (a : Word) : (misalignment a).toNat = 8 * (a.toNat % 4) := by
  have hlow : (a &&& 3).toNat = a.toNat % 4 := by
    rw [UInt32.toNat_and]
    exact Nat.and_two_pow_sub_one_eq_mod a.toNat 2
  have height : (8 : Word).toNat = 8 := rfl
  rw [misalignment, UInt32.toNat_mul, hlow, height]
  omega

theorem toNat_complement (a : Word) : (24 - misalignment a).toNat = 24 - 8 * (a.toNat % 4) := by
  have hle : misalignment a ≤ 24 := by
    have hlimit : (24 : Word).toNat = 24 := rfl
    rw [UInt32.le_iff_toNat_le, toNat_misalignment, hlimit]
    omega
  rw [UInt32.toNat_sub_of_le _ _ hle, toNat_misalignment]
  rfl

theorem toNat_aligned (a : Word) : (aligned a).toNat = a.toNat - a.toNat % 4 := by
  have hbits : a.toNat &&& 0xfffffffc = 2 ^ 2 * (a.toNat / 2 ^ 2) := by
    refine Nat.eq_of_testBit_eq fun i => ?_
    rw [Nat.testBit_and, Nat.testBit_two_pow_mul, Nat.testBit_div_two_pow]
    by_cases hi : i < 32
    · have hmask : ∀ i < 32, Nat.testBit 0xfffffffc i = decide (i ≥ 2) := by decide
      rw [hmask i hi]
      by_cases h2 : 2 ≤ i
      · rw [Nat.sub_add_cancel h2, Bool.and_comm]
      · rw [decide_eq_false h2, Bool.and_false, Bool.false_and]
    · have hbig : a.toNat < 2 ^ i :=
        Nat.lt_of_lt_of_le a.toNat_lt (Nat.pow_le_pow_right (by decide) (Nat.le_of_not_lt hi))
      rw [Nat.sub_add_cancel (by omega), Nat.testBit_lt_two_pow hbig, Bool.false_and,
        Bool.and_false]
  have hmask : (0xfffffffc : Word).toNat = 0xfffffffc := rfl
  rw [aligned, UInt32.toNat_and, hmask, hbits]
  omega

/-- The mask of the three lower bytes. -/
theorem getLsbD_lowMask (i : Nat) : (0x00ffffff : Word).toBitVec.getLsbD i = decide (i < 24) := by
  by_cases hi : i < 32
  · revert i
    decide
  · rw [BitVec.getLsbD_of_ge _ i (Nat.le_of_not_lt hi), decide_eq_false (by omega)]

/-- The mask of the three upper bytes. -/
theorem getLsbD_highMask {i : Nat} (hi : i < 32) :
    (0xffffff00 : Word).toBitVec.getLsbD i = decide (8 ≤ i) := by
  revert i
  decide

/-- A left load puts the bytes up to its address on top. -/
theorem byte_mergeLeft (a reg mem : Word) (hk : k < 4) :
    (mergeLeft a reg mem).byte k =
      if k < 3 - a.toNat % 4 then reg.byte k else mem.byte (k - (3 - a.toNat % 4)) := by
  have hs := toNat_misalignment a
  have hc := toNat_complement a
  have hj : a.toNat % 4 < 4 := Nat.mod_lt _ (by decide)
  refine Word.byte_ext fun i hi => ?_
  rw [Word.getLsbD_byte hk _ hi, mergeLeft, UInt32.toBitVec_or, UInt32.toBitVec_and,
    BitVec.getLsbD_or, BitVec.getLsbD_and, Word.getLsbD_shiftRight (by omega),
    Word.getLsbD_shiftLeft (by omega) _ (by omega), getLsbD_lowMask, hs, hc]
  split
  · rw [Word.getLsbD_byte hk _ hi, decide_eq_true (by omega), decide_eq_false (by omega),
      Bool.and_true, Bool.false_and, Bool.or_false]
  · rw [Word.getLsbD_byte (by omega) _ hi, decide_eq_false (by omega), decide_eq_true (by omega),
      Bool.and_false, Bool.true_and, Bool.false_or]
    congr 1
    omega

/-- A right load puts the bytes from its address on at the bottom. -/
theorem byte_mergeRight (a reg mem : Word) (hk : k < 4) :
    (mergeRight a reg mem).byte k =
      if k < 4 - a.toNat % 4 then mem.byte (k + a.toNat % 4) else reg.byte k := by
  have hs := toNat_misalignment a
  have hc := toNat_complement a
  have hj : a.toNat % 4 < 4 := Nat.mod_lt _ (by decide)
  refine Word.byte_ext fun i hi => ?_
  rw [Word.getLsbD_byte hk _ hi, mergeRight, UInt32.toBitVec_or, UInt32.toBitVec_and,
    BitVec.getLsbD_or, BitVec.getLsbD_and, Word.getLsbD_shiftRight (by omega),
    Word.getLsbD_shiftLeft (by omega) _ (by omega), getLsbD_highMask (by omega), hs, hc]
  split
  · rw [Word.getLsbD_byte (by omega) _ hi, decide_eq_false (by omega : ¬ 8 ≤ 8 * k + i - _),
      Bool.and_false, Bool.and_false, Bool.false_or]
    congr 1
    omega
  · rw [Word.getLsbD_byte hk _ hi, decide_eq_true (by omega), decide_eq_true (by omega),
      Bool.and_true, Bool.and_true, BitVec.getLsbD_of_ge mem.toBitVec _ (by omega), Bool.or_false]

/-- A left store puts the upper bytes of the register from the start of the word up to its
address. -/
theorem byte_spliceLeft (a reg mem : Word) (hk : k < 4) :
    (spliceLeft a reg mem).byte k =
      if k ≤ a.toNat % 4 then reg.byte (k + (3 - a.toNat % 4)) else mem.byte k := by
  have hs := toNat_misalignment a
  have hc := toNat_complement a
  have hj : a.toNat % 4 < 4 := Nat.mod_lt _ (by decide)
  refine Word.byte_ext fun i hi => ?_
  rw [Word.getLsbD_byte hk _ hi, spliceLeft, UInt32.toBitVec_or, UInt32.toBitVec_and,
    BitVec.getLsbD_or, BitVec.getLsbD_and, Word.getLsbD_shiftRight (by omega),
    Word.getLsbD_shiftLeft (by omega) _ (by omega), getLsbD_highMask (by omega), hs, hc]
  split
  · rw [Word.getLsbD_byte (by omega) _ hi, decide_eq_false (by omega : ¬ 8 ≤ 8 * k + i - _),
      Bool.and_false, Bool.and_false, Bool.or_false]
    congr 1
    omega
  · rw [Word.getLsbD_byte hk _ hi, decide_eq_true (by omega), decide_eq_true (by omega),
      Bool.and_true, Bool.and_true, BitVec.getLsbD_of_ge reg.toBitVec _ (by omega), Bool.false_or]

/-- A right store puts the lower bytes of the register from its address up to the end of the
word. -/
theorem byte_spliceRight (a reg mem : Word) (hk : k < 4) :
    (spliceRight a reg mem).byte k =
      if k < a.toNat % 4 then mem.byte k else reg.byte (k - a.toNat % 4) := by
  have hs := toNat_misalignment a
  have hc := toNat_complement a
  have hj : a.toNat % 4 < 4 := Nat.mod_lt _ (by decide)
  refine Word.byte_ext fun i hi => ?_
  rw [Word.getLsbD_byte hk _ hi, spliceRight, UInt32.toBitVec_or, UInt32.toBitVec_and,
    BitVec.getLsbD_or, BitVec.getLsbD_and, Word.getLsbD_shiftRight (by omega),
    Word.getLsbD_shiftLeft (by omega) _ (by omega), getLsbD_lowMask, hs, hc]
  split
  · rw [Word.getLsbD_byte hk _ hi, decide_eq_false (by omega), decide_eq_true (by omega),
      Bool.and_true, Bool.false_and, Bool.false_or]
  · rw [Word.getLsbD_byte (by omega) _ hi, decide_eq_true (by omega), decide_eq_false (by omega),
      Bool.and_false, Bool.true_and, Bool.or_false]
    congr 1
    omega

end Merge

/-! ## The four bytes from an address on -/

/-- The word at any address: its bytes are at that address and the next three. -/
def Memory.wordAt (m : Memory) (a : Word) : Word :=
  Word.ofBytes (m.byteAt a.toNat) (m.byteAt (a + 1).toNat) (m.byteAt (a + 2).toNat)
    (m.byteAt (a + 3).toNat)

section

variable {m m' m'' : Memory} {a w mem mem' : Word} {k : Nat}

theorem byte_wordAt (m : Memory) (a : Word) (hk : k < 4) :
    (m.wordAt a).byte k = m.byteAt (a + UInt32.ofNat k).toNat := by
  rw [Memory.wordAt, Word.byte_ofBytes _ _ _ _ hk]
  obtain rfl | rfl | rfl | rfl : k = 0 ∨ k = 1 ∨ k = 2 ∨ k = 3 := by omega
  · exact congrArg (fun x => m.byteAt (UInt32.toNat x)) (UInt32.add_zero a).symm
  · rfl
  · rfl
  · rfl

theorem toNat_add_small (a : Word) (hk : k < 4) :
    (a + UInt32.ofNat k).toNat = (a.toNat + k) % 2 ^ 32 := by
  rw [UInt32.toNat_add, UInt32.toNat_ofNat_of_lt' (Nat.lt_trans hk (by decide))]

/-- The bytes that a right access reaches are in the aligned word of its address. -/
theorem place_right (a : Word) (hk : k < 4 - a.toNat % 4) :
    (a + UInt32.ofNat k).toNat = (aligned a).toNat + (k + a.toNat % 4) := by
  have ha := a.toNat_lt
  rw [toNat_add_small a (by omega), toNat_aligned]
  omega

/-- The bytes that a left access reaches are in the aligned word of its address. -/
theorem place_left (a : Word) (hk : k < 4) (h : 3 - (a + 3).toNat % 4 ≤ k) :
    (a + UInt32.ofNat k).toNat = (aligned (a + 3)).toNat + (k - (3 - (a + 3).toNat % 4)) := by
  have ha := a.toNat_lt
  have hadd : (a + 3).toNat = (a.toNat + 3) % 2 ^ 32 := UInt32.toNat_add a 3
  rw [toNat_add_small a hk, toNat_aligned]
  omega

/-- A word read from memory has the bytes that are there. -/
theorem byte_of_read32 {addr : Word} (h : m.read32 addr = .ok w) (hk : k < 4) :
    w.byte k = m.byteAt (addr.toNat + k) := by
  rw [Memory.read32_eq] at h
  split at h
  · cases h
    rw [Word.byte_ofBytes _ _ _ _ hk]
    obtain rfl | rfl | rfl | rfl : k = 0 ∨ k = 1 ∨ k = 2 ∨ k = 3 := by omega
    all_goals rfl
  · cases h

theorem exists_read32 {addr : Word} (h : addr.toNat + 4 ≤ m.size) :
    ∃ w, m.read32 addr = .ok w := by
  rw [Memory.read32_eq, if_pos h]
  exact ⟨_, rfl⟩

/-! ## Loads -/

/-- A right load takes the bytes from its address on, up to the end of the aligned word. -/
theorem byte_mergeRight_read (h : m.read32 (aligned a) = .ok mem) (w : Word) (hk : k < 4) :
    (mergeRight a w mem).byte k
      = if k < 4 - a.toNat % 4 then (m.wordAt a).byte k else w.byte k := by
  rw [byte_mergeRight a w mem hk]
  split
  · rename_i hin
    rw [byte_of_read32 h (by omega), byte_wordAt m a hk, place_right a hin]
  · rfl

/-- A left load takes the bytes up to its address, from the start of the aligned word on. -/
theorem byte_mergeLeft_read (h : m.read32 (aligned (a + 3)) = .ok mem) (w : Word) (hk : k < 4) :
    (mergeLeft (a + 3) w mem).byte k
      = if k < 3 - (a + 3).toNat % 4 then w.byte k else (m.wordAt a).byte k := by
  rw [byte_mergeLeft (a + 3) w mem hk]
  split
  · rfl
  · rename_i hout
    rw [byte_of_read32 h (by omega), byte_wordAt m a hk, place_left a hk (Nat.le_of_not_lt hout)]

/-- Between them the two loads take all four bytes. -/
theorem reach (a : Word) : 3 - (a + 3).toNat % 4 ≤ 4 - a.toNat % 4 := by
  have ha := a.toNat_lt
  have hadd : (a + 3).toNat = (a.toNat + 3) % 2 ^ 32 := UInt32.toNat_add a 3
  omega

theorem mergeLeft_mergeRight (h : m.read32 (aligned a) = .ok mem)
    (h' : m.read32 (aligned (a + 3)) = .ok mem') (w : Word) :
    mergeLeft (a + 3) (mergeRight a w mem) mem' = m.wordAt a := by
  refine Word.ext_bytes fun k hk => ?_
  rw [byte_mergeLeft_read h' _ hk, byte_mergeRight_read h _ hk]
  split
  · rw [if_pos (Nat.lt_of_lt_of_le ‹_› (reach a))]
  · rfl

theorem mergeRight_mergeLeft (h : m.read32 (aligned a) = .ok mem)
    (h' : m.read32 (aligned (a + 3)) = .ok mem') (w : Word) :
    mergeRight a (mergeLeft (a + 3) w mem') mem = m.wordAt a := by
  refine Word.ext_bytes fun k hk => ?_
  rw [byte_mergeRight_read h _ hk, byte_mergeLeft_read h' _ hk]
  split
  · rfl
  · rw [if_neg (Nat.not_lt.mpr (Nat.le_trans (reach a) (Nat.le_of_not_lt ‹_›)))]

end

/-! ## Stores -/

/-- Some of the four bytes of a word are put into memory, in their places from an address on, and
no other byte changes. -/
structure Puts (P : Nat → Prop) (a w : Word) (m m' : Memory) : Prop where
  size : m'.size = m.size
  put : ∀ k < 4, P k → m'.byteAt (a + UInt32.ofNat k).toNat = w.byte k
  kept : ∀ pos, (∀ k < 4, P k → pos ≠ (a + UInt32.ofNat k).toNat) → m'.byteAt pos = m.byteAt pos

namespace Puts

variable {P Q : Nat → Prop} {a w : Word} {m m' m'' : Memory}

/-- The four places are different. -/
theorem place_inj {k l : Nat} (hk : k < 4) (hl : l < 4)
    (h : (a + UInt32.ofNat k).toNat = (a + UInt32.ofNat l).toNat) : k = l := by
  have ha := a.toNat_lt
  rw [toNat_add_small a hk, toNat_add_small a hl] at h
  omega

theorem trans (h : Puts P a w m m') (h' : Puts Q a w m' m'') :
    Puts (fun k => P k ∨ Q k) a w m m'' := by
  refine ⟨h'.size.trans h.size, fun k hk hPQ => ?_, fun pos hpos => ?_⟩
  · by_cases hQ : Q k
    · exact h'.put k hk hQ
    · rw [h'.kept _ fun l hl hQl heq => hQ (place_inj hk hl heq ▸ hQl)]
      exact h.put k hk (hPQ.resolve_right hQ)
  · rw [h'.kept pos fun k hk hQ => hpos k hk (Or.inr hQ),
      h.kept pos fun k hk hP => hpos k hk (Or.inl hP)]

theorem mono (h : Puts P a w m m') (hPQ : ∀ k < 4, P k ↔ Q k) : Puts Q a w m m' :=
  ⟨h.size, fun k hk hQ => h.put k hk ((hPQ k hk).mpr hQ),
    fun pos hpos => h.kept pos fun k hk hP => hpos k hk ((hPQ k hk).mp hP)⟩

/-- What is put and what is kept determines the memory. -/
theorem unique (h : Puts P a w m m') (h' : Puts P a w m m'') : m' = m'' := by
  have hbyte : ∀ pos, m'.byteAt pos = m''.byteAt pos := by
    intro pos
    by_cases hpos : ∃ k < 4, P k ∧ pos = (a + UInt32.ofNat k).toNat
    · obtain ⟨k, hk, hP, rfl⟩ := hpos
      rw [h.put k hk hP, h'.put k hk hP]
    · have hout : ∀ k < 4, P k → pos ≠ (a + UInt32.ofNat k).toNat :=
        fun k hk hP heq => hpos ⟨k, hk, hP, heq⟩
      rw [h.kept pos hout, h'.kept pos hout]
  obtain ⟨bytes⟩ := m'
  obtain ⟨bytes'⟩ := m''
  have hsize : bytes.size = bytes'.size := h.size.trans h'.size.symm
  refine congrArg Memory.mk (Array.ext hsize fun pos hpos hpos' => ?_)
  have hget := hbyte pos
  rwa [Memory.byteAt, Memory.byteAt, Array.getD_eq_getD_getElem?, Array.getD_eq_getD_getElem?,
    Array.getElem?_eq_getElem hpos, Array.getElem?_eq_getElem hpos'] at hget

end Puts

section

variable {m : Memory} {a mem : Word}

/-- A word can be written where one can be read, and its bytes are there afterwards. -/
theorem write_of_read32 {addr : Word} (h : m.read32 addr = .ok mem) (w : Word) :
    ∃ m', m.write addr w.littleEndian = .ok m' ∧ m'.size = m.size ∧ ∀ pos, m'.byteAt pos =
      if addr.toNat ≤ pos ∧ pos < addr.toNat + 4 then w.byte (pos - addr.toNat)
      else m.byteAt pos := by
  have hin : addr.toNat + 4 ≤ m.size := by
    rw [Memory.read32_eq] at h
    by_contra hn
    rw [if_neg hn] at h
    cases h
  have hnone : m.refused? [(addr, 4)] = none :=
    Memory.refused?_eq_none_iff.mpr fun p hp => List.mem_singleton.mp hp ▸ hin
  obtain ⟨m', hm'⟩ := (makes_write addr w.littleEndian).admitted hnone
  obtain ⟨-, hsize, hbyte⟩ := Memory.write_eq_ok hm'
  exact ⟨m', hm', hsize, hbyte⟩

/-- A right store puts the bytes from its address on, up to the end of the aligned word. -/
theorem puts_right (h : m.read32 (aligned a) = .ok mem) (w : Word) :
    ∃ m', m.write (aligned a) (Word.littleEndian (spliceRight a w mem)) = .ok m' ∧
      Puts (fun k => k < 4 - a.toNat % 4) a w m m' := by
  obtain ⟨m', hm', hsize, hbyte⟩ := write_of_read32 h (spliceRight a w mem)
  refine ⟨m', hm', hsize, fun k hk hin => ?_, fun pos hpos => ?_⟩
  · rw [place_right a hin, hbyte, if_pos (by omega), Nat.add_sub_cancel_left,
      byte_spliceRight a w mem (by omega), if_neg (by omega), Nat.add_sub_cancel]
  · rw [hbyte]
    split
    · rename_i hword
      by_cases hlow : pos - (aligned a).toNat < a.toNat % 4
      · -- a byte of the aligned word in front of the address
        rw [byte_spliceRight a w mem (by omega), if_pos hlow, byte_of_read32 h (by omega),
          Nat.add_sub_cancel' hword.1]
      · have hin : pos - (aligned a).toNat - a.toNat % 4 < 4 - a.toNat % 4 := by omega
        have hplace := place_right a hin
        exact absurd (by omega) (hpos _ (by omega) hin)
    · rfl

/-- A left store puts the bytes up to its address, from the start of the aligned word on. -/
theorem puts_left (h : m.read32 (aligned (a + 3)) = .ok mem) (w : Word) :
    ∃ m', m.write (aligned (a + 3)) (Word.littleEndian (spliceLeft (a + 3) w mem)) = .ok m' ∧
      Puts (fun k => 3 - (a + 3).toNat % 4 ≤ k) a w m m' := by
  obtain ⟨m', hm', hsize, hbyte⟩ := write_of_read32 h (spliceLeft (a + 3) w mem)
  refine ⟨m', hm', hsize, fun k hk hin => ?_, fun pos hpos => ?_⟩
  · rw [place_left a hk hin, hbyte, if_pos (by omega), Nat.add_sub_cancel_left,
      byte_spliceLeft (a + 3) w mem (by omega), if_pos (by omega), Nat.sub_add_cancel hin]
  · rw [hbyte]
    split
    · rename_i hword
      by_cases hhigh : pos - (aligned (a + 3)).toNat ≤ (a + 3).toNat % 4
      · have hin : 3 - (a + 3).toNat % 4
            ≤ pos - (aligned (a + 3)).toNat + (3 - (a + 3).toNat % 4) := Nat.le_add_left ..
        have hlt : pos - (aligned (a + 3)).toNat + (3 - (a + 3).toNat % 4) < 4 := by omega
        have hplace := place_left a hlt hin
        exact absurd (by omega) (hpos _ hlt hin)
      · -- a byte of the aligned word behind the address
        rw [byte_spliceLeft (a + 3) w mem (by omega), if_neg hhigh, byte_of_read32 h (by omega),
          Nat.add_sub_cancel' hword.1]
    · rfl

end

/-! ## Both accesses -/

section

variable {m : Machine} {left right i : Inst} {a c c' mem mem' : Word}

theorem step_store {addr : Word} {data : List UInt8} {memory : Memory}
    (h : effect i c m = .ok (Effect.store addr data)) (hw : m.memory.write addr data = .ok memory) :
    step i c m = (.ok none, { m with memory }) := by
  rw [step, h]
  simp only [Effect.apply, Effect.store, storeAll, hw]
  rfl

theorem step_load32Left (hop : i.op = .load32Left) (ha : m.state.reg i.src1 + c = a)
    (h : m.memory.read32 (aligned a) = .ok mem) :
    step i c m = (.ok none, m.setReg i.dest (mergeLeft a (m.state.reg i.dest) mem)) := by
  obtain ⟨op, dest, src1, src2⟩ := i
  cases hop
  refine step_gpr (bind_eq_ok.mpr ⟨mem, ?_, ?_⟩)
  · rw [ha, h]
  · rw [ha]
    rfl

theorem step_load32Right (hop : i.op = .load32Right) (ha : m.state.reg i.src1 + c = a)
    (h : m.memory.read32 (aligned a) = .ok mem) :
    step i c m = (.ok none, m.setReg i.dest (mergeRight a (m.state.reg i.dest) mem)) := by
  obtain ⟨op, dest, src1, src2⟩ := i
  cases hop
  refine step_gpr (bind_eq_ok.mpr ⟨mem, ?_, ?_⟩)
  · rw [ha, h]
  · rw [ha]
    rfl

theorem step_store32Left {memory : Memory} (hop : i.op = .store32Left)
    (ha : m.state.reg i.src1 + c = a) (h : m.memory.read32 (aligned a) = .ok mem)
    (hw : m.memory.write (aligned a)
      (Word.littleEndian (spliceLeft a (m.state.reg i.dest) mem)) = .ok memory) :
    step i c m = (.ok none, { m with memory }) := by
  obtain ⟨op, dest, src1, src2⟩ := i
  cases hop
  refine step_store (bind_eq_ok.mpr ⟨mem, ?_, ?_⟩) hw
  · rw [ha, h]
  · rw [ha]
    rfl

theorem step_store32Right {memory : Memory} (hop : i.op = .store32Right)
    (ha : m.state.reg i.src1 + c = a) (h : m.memory.read32 (aligned a) = .ok mem)
    (hw : m.memory.write (aligned a)
      (Word.littleEndian (spliceRight a (m.state.reg i.dest) mem)) = .ok memory) :
    step i c m = (.ok none, { m with memory }) := by
  obtain ⟨op, dest, src1, src2⟩ := i
  cases hop
  refine step_store (bind_eq_ok.mpr ⟨mem, ?_, ?_⟩) hw
  · rw [ha, h]
  · rw [ha]
    rfl

theorem reg_setReg_self (m : Machine) (r : UInt8) (w : Word) : (m.setReg r w).state.reg r = w := by
  rw [State.reg_eq_slot, Machine.slot_setReg, if_pos rfl]

theorem reg_setReg_ne {r q : UInt8} (h : q ≠ r) (m : Machine) (w : Word) :
    (m.setReg r w).state.reg q = m.state.reg q := by
  rw [State.reg_eq_slot, Machine.slot_setReg, if_neg h, State.reg_eq_slot]

/-- Only the last word written to a slot stays. -/
theorem setReg_setReg (m : Machine) (r : UInt8) (w w' : Word) :
    (m.setReg r w).setReg r w' = m.setReg r w' := by
  have hstate : ((m.state.setSlot r.toNat w).setSlot r.toNat w') = m.state.setSlot r.toNat w' := by
    refine State.ext_slots (fun k => ?_) rfl rfl rfl
    rw [State.slot_setSlot, State.slot_setSlot, State.slot_setSlot]
    split <;> rfl
  unfold Machine.setReg
  rw [hstate]

/-- Both loads, in either order. -/
theorem runCode_loads (hleft : left.op = .load32Left) (hright : right.op = .load32Right)
    (hdest : left.dest = right.dest) (hl : left.src1 ≠ left.dest) (hr : right.src1 ≠ right.dest)
    (hal : m.state.reg left.src1 + c = a + 3) (har : m.state.reg right.src1 + c' = a)
    (h : m.memory.read32 (aligned a) = .ok mem)
    (h' : m.memory.read32 (aligned (a + 3)) = .ok mem') :
    runCode [(left, c), (right, c')] m = (.ok none, m.setReg left.dest (m.memory.wordAt a)) ∧
      runCode [(right, c'), (left, c)] m
        = (.ok none, m.setReg left.dest (m.memory.wordAt a)) := by
  -- the first load leaves the other base register alone
  have hbase : ∀ w, (m.setReg left.dest w).state.reg right.src1 + c' = a := by
    intro w
    rw [hdest, reg_setReg_ne hr]
    exact har
  have hbase' : ∀ w, (m.setReg right.dest w).state.reg left.src1 + c = a + 3 := by
    intro w
    rw [← hdest, reg_setReg_ne hl]
    exact hal
  constructor
  · rw [runCode, step_load32Left hleft hal h', Outcome.andThen_next, runCode_singleton,
      step_load32Right hright (hbase _) h, ← hdest, setReg_setReg, reg_setReg_self,
      mergeRight_mergeLeft h h']
  · rw [runCode, step_load32Right hright har h, Outcome.andThen_next, runCode_singleton,
      step_load32Left hleft (hbase' _) h', hdest, setReg_setReg, reg_setReg_self,
      mergeLeft_mergeRight h h']

/-- Both stores, in either order. -/
theorem runCode_stores (hleft : left.op = .store32Left) (hright : right.op = .store32Right)
    (hdest : left.dest = right.dest)
    (hal : m.state.reg left.src1 + c = a + 3) (har : m.state.reg right.src1 + c' = a)
    (h : (aligned a).toNat + 4 ≤ m.memory.size)
    (h' : (aligned (a + 3)).toNat + 4 ≤ m.memory.size) :
    ∃ memory, runCode [(left, c), (right, c')] m = (.ok none, { m with memory }) ∧
      runCode [(right, c'), (left, c)] m = (.ok none, { m with memory }) ∧
      Puts (fun _ => True) a (m.state.reg left.dest) m.memory memory := by
  -- the two accesses together reach every byte
  have hall : ∀ k < 4, k < 4 - a.toNat % 4 ∨ 3 - (a + 3).toNat % 4 ≤ k := by
    intro k _
    have hreach := reach a
    omega
  obtain ⟨w₁, hw₁⟩ := exists_read32 h'
  obtain ⟨m₁, hm₁, hputs₁⟩ := puts_left hw₁ (m.state.reg left.dest)
  obtain ⟨w₂, hw₂⟩ := exists_read32 (hputs₁.size ▸ h : (aligned a).toNat + 4 ≤ m₁.size)
  obtain ⟨m₂, hm₂, hputs₂⟩ := puts_right hw₂ (m.state.reg left.dest)
  obtain ⟨w₃, hw₃⟩ := exists_read32 h
  obtain ⟨m₃, hm₃, hputs₃⟩ := puts_right hw₃ (m.state.reg left.dest)
  obtain ⟨w₄, hw₄⟩ := exists_read32
    (hputs₃.size ▸ h' : (aligned (a + 3)).toNat + 4 ≤ m₃.size)
  obtain ⟨m₄, hm₄, hputs₄⟩ := puts_left hw₄ (m.state.reg left.dest)
  have hputs : Puts (fun _ => True) a (m.state.reg left.dest) m.memory m₂ :=
    (hputs₁.trans hputs₂).mono fun k hk => iff_true_intro (hall k hk).symm
  have hputs' : Puts (fun _ => True) a (m.state.reg left.dest) m.memory m₄ :=
    (hputs₃.trans hputs₄).mono fun k hk => iff_true_intro (hall k hk)
  refine ⟨m₂, ?_, ?_, hputs⟩
  · rw [runCode, step_store32Left hleft hal hw₁ hm₁, Outcome.andThen_next, runCode_singleton]
    exact step_store32Right hright har hw₂ (hdest ▸ hm₂)
  · rw [hputs.unique hputs', runCode, step_store32Right hright har hw₃ (hdest ▸ hm₃),
      Outcome.andThen_next, runCode_singleton]
    exact step_store32Left hleft hal hw₄ hm₄

end

/-- **Two unaligned accesses act as one word access.** A left access at `a + 3` and a right access
at `a`, each with its aligned word inside memory and both with the same register, in either order:
the loads put the word at `a` into the register and change nothing else, if neither takes its
address from that register; the stores put the four bytes of the register at `a` to `a + 3` and
change nothing else. Addresses count modulo `2^32`. -/
theorem unaligned_pair (m : Machine) (a : Word) (ha : (aligned a).toNat + 4 ≤ m.memory.size)
    (ha' : (aligned (a + 3)).toNat + 4 ≤ m.memory.size) (left right : Inst) (c c' : Word)
    (hdest : left.dest = right.dest) (hleft : m.state.reg left.src1 + c = a + 3)
    (hright : m.state.reg right.src1 + c' = a) :
    (left.op = .load32Left → right.op = .load32Right → left.src1 ≠ left.dest →
      right.src1 ≠ right.dest →
      runCode [(left, c), (right, c')] m = (.ok none, m.setReg left.dest (m.memory.wordAt a)) ∧
        runCode [(right, c'), (left, c)] m
          = (.ok none, m.setReg left.dest (m.memory.wordAt a))) ∧
    (left.op = .store32Left → right.op = .store32Right →
      ∃ memory, runCode [(left, c), (right, c')] m = (.ok none, { m with memory }) ∧
        runCode [(right, c'), (left, c)] m = (.ok none, { m with memory }) ∧
        memory.size = m.memory.size ∧
        (∀ k < 4, memory.byteAt (a + UInt32.ofNat k).toNat
          = (m.state.reg left.dest).littleEndian.getD k 0) ∧
        ∀ pos, (∀ k < 4, pos ≠ (a + UInt32.ofNat k).toNat) →
          memory.byteAt pos = m.memory.byteAt pos) := by
  constructor
  · intro hopl hopr hl hr
    obtain ⟨mem, hread⟩ := exists_read32 ha
    obtain ⟨mem', hread'⟩ := exists_read32 ha'
    exact runCode_loads hopl hopr hdest hl hr hleft hright hread hread'
  · intro hopl hopr
    obtain ⟨memory, hrun, hrun', hputs⟩ :=
      runCode_stores hopl hopr hdest hleft hright ha ha'
    exact ⟨memory, hrun, hrun', hputs.size, fun k hk => hputs.put k hk trivial,
      fun pos hpos => hputs.kept pos fun k hk _ => hpos k hk⟩

/-- The word at address 5 lies in two aligned words; it is loaded, and it is overwritten. -/
theorem unaligned_pair_five :
    let m : Machine := {
      state := (({} : State).setSlot 4 5).setSlot 6 0xddccbbaa
      memory := { bytes := #[0, 1, 2, 3, 4, 5, 6, 7, 8, 9, 10, 11] } }
    (aligned 5).toNat + 4 ≤ m.memory.size ∧ (aligned (5 + 3)).toNat + 4 ≤ m.memory.size ∧
      m.state.reg 4 + 3 = 5 + 3 ∧ m.state.reg 4 + 0 = 5 ∧
      runCode [({ op := .load32Right, dest := 6, src1 := 4 }, 0),
        ({ op := .load32Left, dest := 6, src1 := 4 }, 3)] m
        = (.ok none, m.setReg 6 0x08070605) ∧
      ∃ memory, runCode [({ op := .store32Left, dest := 6, src1 := 4 }, 3),
        ({ op := .store32Right, dest := 6, src1 := 4 }, 0)] m = (.ok none, { m with memory }) ∧
        memory.byteAt 4 = 4 ∧ memory.byteAt 5 = 0xaa ∧ memory.byteAt 6 = 0xbb ∧
        memory.byteAt 7 = 0xcc ∧ memory.byteAt 8 = 0xdd ∧ memory.byteAt 9 = 9 := by
  intro m
  have ha : (aligned 5).toNat + 4 ≤ m.memory.size := by decide
  have ha' : (aligned (5 + 3)).toNat + 4 ≤ m.memory.size := by decide
  have hleft : m.state.reg 4 + 3 = 5 + 3 := by decide
  have hright : m.state.reg 4 + 0 = 5 := by decide
  have hword : m.memory.wordAt 5 = 0x08070605 := by decide
  have hreg : m.state.reg 6 = 0xddccbbaa := by decide
  have hload := ((unaligned_pair m 5 ha ha' { op := .load32Left, dest := 6, src1 := 4 }
    { op := .load32Right, dest := 6, src1 := 4 } 3 0 rfl hleft hright).1 rfl rfl (by decide)
    (by decide)).2
  obtain ⟨memory, hstore, -, -, hput, hkept⟩ :=
    (unaligned_pair m 5 ha ha' { op := .store32Left, dest := 6, src1 := 4 }
      { op := .store32Right, dest := 6, src1 := 4 } 3 0 rfl hleft hright).2 rfl rfl
  rw [hword] at hload
  rw [hreg] at hput
  exact ⟨ha, ha', hleft, hright, hload, memory, hstore, hkept 4 (by decide),
    hput 0 (by decide), hput 1 (by decide), hput 2 (by decide), hput 3 (by decide),
    hkept 9 (by decide)⟩

end Guest

end Dynarec
