/-
Branch words, and the words that are none.

A branch to a place in the code is known by a few fixed bits at the top of its word, and the
distance is a signed number in a field that none of these bits is part of. So filling in a distance
leaves the kind of the branch alone, and the distance is read back from the word (`ofWord?_patch`,
`distance_patch`).

All other words are told from branches by their highest byte. No register, lane or constant that is
small enough for its field gets up there (`top_bitsAt`, `top_shiftLeft`), so the highest byte of an
instruction depends on little more than its form, and no form has that of a branch (`Instr.Plain`).
-/
import Dynarec.Aarch64.Lower
import Dynarec.Proofs.Aarch64.Masks

set_option autoImplicit false

namespace Dynarec.Aarch64

/-! ## Reading branches -/

namespace BranchKind

/-- Every kind. -/
def all : List BranchKind := [.cbz, .cbnz, .cond, .tbz, .tbnz, .jump, .call]

/-- The bits by which a branch of the kind is known. -/
def opcodeMask : BranchKind → Word
  | .cbz | .cbnz | .tbz | .tbnz => 0x7f000000
  | .cond => 0xff000010
  | .jump | .call => 0xfc000000

/-- What these bits are. -/
def opcode : BranchKind → Word
  | .cbz => 0x34000000
  | .cbnz => 0x35000000
  | .cond => 0x54000000
  | .tbz => 0x36000000
  | .tbnz => 0x37000000
  | .jump => 0x14000000
  | .call => 0x94000000

/-- The kind of branch that a word is. -/
def ofWord? (w : Word) : Option BranchKind := all.find? fun k => w &&& k.opcodeMask = k.opcode

/-- The distance that a branch goes, in words. -/
def distance (k : BranchKind) (w : Word) : Int := (w.toBitVec.extractLsb' k.position k.width).toInt

variable {k : BranchKind} {w : Word}

theorem mem_all (k : BranchKind) : k ∈ all := by
  cases k <;> decide

/-- No word is a branch of two kinds: there is a bit by which both are known and in which they
differ. -/
theorem eq_of_opcode {k' : BranchKind} (h : w &&& k.opcodeMask = k.opcode)
    (h' : w &&& k'.opcodeMask = k'.opcode) : k = k' := by
  -- both sides are the bits of the word in both masks
  have hcommon : k.opcode &&& k'.opcodeMask = k'.opcode &&& k.opcodeMask := by
    rw [← h, ← h', UInt32.and_assoc, UInt32.and_comm k.opcodeMask, ← UInt32.and_assoc]
  revert hcommon
  cases k <;> cases k' <;> decide

theorem opcode_of_ofWord? (h : ofWord? w = some k) : w &&& k.opcodeMask = k.opcode := by
  have hfound := List.find?_some h
  exact of_decide_eq_true hfound

theorem ofWord?_eq_some_iff : ofWord? w = some k ↔ w &&& k.opcodeMask = k.opcode := by
  refine ⟨opcode_of_ofWord?, fun h => ?_⟩
  cases hfind : ofWord? w with
  | none => exact absurd (decide_eq_true h) (List.find?_eq_none.mp hfind k k.mem_all)
  | some k' => rw [eq_of_opcode h (opcode_of_ofWord? hfind)]

theorem ofWord?_eq_none_iff : ofWord? w = none ↔ ∀ k : BranchKind, w &&& k.opcodeMask ≠ k.opcode := by
  constructor
  · intro h k hk
    rw [ofWord?_eq_some_iff.mpr hk] at h
    exact nomatch h
  · intro h
    exact List.find?_eq_none.mpr fun k _ hk => h k (of_decide_eq_true hk)

/-! ## Filling in the distance -/

/-- The distance field is apart from the bits by which the branch is known. -/
theorem opcode_patch (w : Word) (d : Int) :
    k.patch w d &&& k.opcodeMask = w &&& k.opcodeMask := by
  have hfield : k.fieldMask.toBitVec &&& k.opcodeMask.toBitVec = 0#32 := by cases k <;> decide
  have hrest : ~~~k.fieldMask.toBitVec &&& k.opcodeMask.toBitVec = k.opcodeMask.toBitVec := by
    cases k <;> decide
  apply UInt32.eq_of_toBitVec_eq
  simp only [patch, UInt32.toBitVec_and, UInt32.toBitVec_or, UInt32.toBitVec_not]
  rw [BitVec.and_or_distrib_right, BitVec.and_assoc, hrest, BitVec.and_assoc, hfield,
    BitVec.and_zero, BitVec.or_zero]

theorem ofWord?_patch (h : ofWord? w = some k) (d : Int) : ofWord? (k.patch w d) = some k := by
  rw [ofWord?_eq_some_iff] at h ⊢
  rw [opcode_patch, h]

theorem extract_ofInt {n m : Nat} (h : n ≤ m) (d : Int) :
    (BitVec.ofInt m d).extractLsb' 0 n = BitVec.ofInt n d := by
  rw [← BitVec.setWidth_eq_extractLsb' h, ← BitVec.signExtend_eq_setWidth_of_le _ h]
  apply BitVec.eq_of_toInt_eq
  rw [BitVec.toInt_signExtend, Nat.min_eq_left h, BitVec.toInt_ofInt, BitVec.toInt_ofInt,
    Int.bmod_bmod_of_dvd (Nat.pow_dvd_pow 2 h)]

theorem toBitVec_ofInt (d : Int) : (UInt32.ofInt d).toBitVec = BitVec.ofInt 32 d := by
  have hlt : d % 4294967296 < 4294967296 := Int.emod_lt_of_pos d (by decide)
  apply BitVec.eq_of_toNat_eq
  rw [UInt32.ofInt, BitVec.toNat_ofInt]
  simp [hlt]

/-- The field of a word after a distance has been filled in. -/
theorem extract_patch (w : Word) (d : Int) :
    (k.patch w d).toBitVec.extractLsb' k.position k.width = BitVec.ofInt k.width d := by
  have hmask : k.fieldMask.toBitVec.extractLsb' k.position k.width = BitVec.allOnes k.width := by
    cases k <;> decide
  have hrest : (~~~k.fieldMask.toBitVec).extractLsb' k.position k.width = 0#k.width := by
    cases k <;> decide
  have hamount : (UInt32.ofNat k.position).toBitVec % 32 = BitVec.ofNat 32 k.position := by
    cases k <;> decide
  have hposition : (BitVec.ofNat 32 k.position).toNat = k.position := by cases k <;> decide
  have hfits : k.position + k.width ≤ 32 := by cases k <;> decide
  -- the field is where the distance has been moved to
  have hshift : (BitVec.ofInt 32 d <<< k.position).extractLsb' k.position k.width
      = BitVec.ofInt k.width d := by
    rw [← extract_ofInt (Nat.le_of_add_left_le hfits)]
    ext i hi
    rw [BitVec.getElem_extractLsb', BitVec.getElem_extractLsb', BitVec.getLsbD_shiftLeft,
      decide_eq_true (by omega : k.position + i < 32),
      decide_eq_false (by omega : ¬ k.position + i < k.position), Nat.add_sub_cancel_left,
      Nat.zero_add]
    rfl
  simp only [patch, UInt32.toBitVec_and, UInt32.toBitVec_or, UInt32.toBitVec_not,
    UInt32.toBitVec_shiftLeft, BitVec.shiftLeft_eq', hamount, hposition, toBitVec_ofInt,
    BitVec.extractLsb'_or, BitVec.extractLsb'_and]
  rw [hshift, hmask, hrest, BitVec.and_zero, BitVec.zero_or, BitVec.and_allOnes]

/-- **A distance in reach is read back.** -/
theorem distance_patch {d : Int} (h : k.reaches d = true) (w : Word) :
    k.distance (k.patch w d) = d := by
  obtain ⟨hlo, hhi⟩ := of_decide_eq_true h
  have hpos : 0 < k.width := by cases k <;> decide
  have hlimit : ((twoTo (k.width - 1) : Nat) : Int) = 2 ^ (k.width - 1) := by cases k <;> rfl
  unfold distance
  rw [extract_patch]
  rw [hlimit] at hlo hhi
  exact BitVec.toInt_ofInt_eq_self hpos hlo hhi

end BranchKind

/-! ## The highest byte -/

/-- No branch has this highest byte. -/
def Branchless (t : Word) : Prop :=
  ∀ k ∈ BranchKind.all, t &&& (k.opcodeMask >>> 24) ≠ k.opcode >>> 24

instance (t : Word) : Decidable (Branchless t) := by unfold Branchless; infer_instance

theorem ofWord?_eq_none {w t : Word} (h : w >>> 24 = t) (ht : Branchless t) :
    BranchKind.ofWord? w = none := by
  refine BranchKind.ofWord?_eq_none_iff.mpr fun k hk => ht k k.mem_all ?_
  rw [← h, ← hk, UInt32.shiftRight_and]

/-- A number that is small enough does not reach the highest byte. -/
theorem top_shiftLeft {x pos : Word} {n : Nat} (hx : x.toNat < 2 ^ n) (h : n + pos.toNat ≤ 24) :
    (x <<< pos) >>> 24 = 0 := by
  have hpos : pos.toNat < 32 := by omega
  have hlt : x.toNat * 2 ^ pos.toNat < 2 ^ 24 :=
    calc x.toNat * 2 ^ pos.toNat < 2 ^ n * 2 ^ pos.toNat :=
          Nat.mul_lt_mul_of_pos_right hx (Nat.two_pow_pos _)
      _ = 2 ^ (n + pos.toNat) := (Nat.pow_add 2 n _).symm
      _ ≤ 2 ^ 24 := Nat.pow_le_pow_right (by decide) h
  apply UInt32.toNat_inj.mp
  rw [UInt32.toNat_shiftRight, UInt32.toNat_shiftLeft, Nat.mod_eq_of_lt hpos, Nat.shiftLeft_eq,
    Nat.mod_eq_of_lt (Nat.lt_trans hlt (by decide)), Nat.shiftRight_eq_div_pow]
  exact Nat.div_eq_of_lt hlt

theorem top_bitsAt (f : UInt8) {pos : Word} (h : pos.toNat ≤ 16) : bitsAt f pos >>> 24 = 0 := by
  refine top_shiftLeft (n := 8) ?_ (by omega)
  rw [UInt8.toNat_toUInt32]
  exact f.toNat_lt

theorem top_flagAt (b : Bool) {pos : Word} (h : pos.toNat ≤ 23) : flagAt b pos >>> 24 = 0 := by
  refine top_shiftLeft (n := 1) ?_ (by omega)
  cases b <;> decide

theorem top_bitAt (f : UInt8) {pos : Word} (h : pos.toNat ≤ 23) :
    bitsAt (f &&& 1) pos >>> 24 = 0 := by
  refine top_shiftLeft (n := 1) ?_ (by omega)
  rw [UInt8.toNat_toUInt32, UInt8.toNat_and]
  exact Nat.lt_of_le_of_lt Nat.and_le_right (by decide)

/-- A lane reaches three bits of the highest byte, which are set in the forms that have lanes. -/
theorem branchless_laneField {base : Word} (lane : UInt8)
    (h : ∀ k < 8, Branchless (base ||| UInt32.ofNat k)) :
    Branchless (base ||| laneField lane >>> 24) := by
  have hlane : (bitsAt lane 3 ||| 4).toNat < 2 ^ 11 := by
    rw [UInt32.toNat_or]
    refine Nat.or_lt_two_pow ?_ (by decide)
    unfold bitsAt
    rw [UInt32.toNat_shiftLeft, UInt8.toNat_toUInt32, Nat.shiftLeft_eq]
    have hlt := lane.toNat_lt
    exact Nat.lt_of_le_of_lt (Nat.mod_le _ _) (Nat.mul_lt_mul_of_pos_right hlt (by decide))
  have htop : (laneField lane >>> 24).toNat < 8 := by
    unfold laneField
    rw [UInt32.toNat_shiftRight, UInt32.toNat_shiftLeft, Nat.shiftLeft_eq, Nat.shiftRight_eq_div_pow]
    have hle := Nat.mod_le ((bitsAt lane 3 ||| 4).toNat * 2 ^ ((16 : Word).toNat % 32)) (2 ^ 32)
    have hmul : (bitsAt lane 3 ||| 4).toNat * 2 ^ ((16 : Word).toNat % 32) < 2 ^ 27 :=
      Nat.mul_lt_mul_of_pos_right hlane (by decide)
    exact Nat.div_lt_of_lt_mul (Nat.lt_of_le_of_lt hle hmul)
  have hword : laneField lane >>> 24 = UInt32.ofNat (laneField lane >>> 24).toNat :=
    UInt32.ofNat_toNat.symm
  rw [hword]
  exact h _ htop

theorem top_twoRegs (rd rn : Reg) : twoRegs rd rn >>> 24 = 0 := by
  unfold twoRegs
  rw [UInt32.shiftRight_or, top_bitsAt rn (by decide), top_bitsAt rd (by decide)]
  rfl

theorem top_threeRegs (rd rn rm : Reg) : threeRegs rd rn rm >>> 24 = 0 := by
  unfold threeRegs
  rw [UInt32.shiftRight_or, UInt32.shiftRight_or, top_bitsAt rm (by decide),
    top_bitsAt rn (by decide), top_bitsAt rd (by decide)]
  rfl

/-! ## Instructions that are no branches -/

namespace Instr

/-- The instruction is no branch to a place in the code, and its constants fit into their fields. -/
def isPlain : Instr → Bool
  | .wide _ _ _ _ part => part < 4
  | .addImm _ _ _ _ imm _ => imm < 4096
  | .logicImm _ _ _ _ mask => mask.n = 0
  | .bitfield _ _ _ _ immr imms => immr < 64 && imms < 64
  | .access _ _ _ units => units < 4096
  | .pair _ _ _ bytes => bytes % 8 = 0 && -512 ≤ bytes && bytes < 512
  | .branch _ => false
  | _ => true

variable {i : Instr}

theorem check_of_isPlain (h : i.isPlain = true) : i.check = .ok () := by
  cases i with
  | addImm op is64 rd rn imm shifted => exact if_pos (of_decide_eq_true h)
  | logicImm op is64 rd rn mask =>
    have hn : mask.n = 0 := of_decide_eq_true h
    exact if_pos (Bool.or_eq_true_iff.mpr (Or.inr (decide_eq_true hn)))
  | pair op rt rt2 bytes =>
    simp only [isPlain, Bool.and_eq_true, decide_eq_true_eq] at h
    obtain ⟨⟨hdvd, hlo⟩, hhi⟩ := h
    unfold check
    simp only
    rw [if_neg (by omega), if_pos ⟨hdvd, hlo, hhi⟩]
  | branch op => exact nomatch h
  | _ => rfl

/-- The highest byte of a plain instruction, form by form. -/
theorem branchless_top (h : i.isPlain = true) : Branchless (i.encode >>> 24) := by
  cases i with
  -- constants that are not bounded by their type are bounded by `isPlain`
  | wide op is64 rd imm part =>
    have hpart : part.toUInt32.toNat < 2 ^ 2 := by
      rw [UInt8.toNat_toUInt32]
      exact UInt8.lt_iff_toNat_lt.mp (of_decide_eq_true h)
    have himm : imm.toUInt32.toNat < 2 ^ 16 := by
      rw [UInt16.toNat_toUInt32]
      exact imm.toNat_lt
    unfold encode
    simp only [UInt32.shiftRight_or, top_bitsAt rd (by decide : (0 : Word).toNat ≤ 16),
      top_shiftLeft himm (by decide : 16 + (5 : Word).toNat ≤ 24)]
    unfold bitsAt
    rw [top_shiftLeft hpart (by decide)]
    cases op <;> cases is64 <;> decide
  | addImm op is64 rd rn imm shifted =>
    have himm : imm.toNat < 2 ^ 12 := UInt32.lt_iff_toNat_lt.mp (of_decide_eq_true h)
    simp (disch := decide) only [encode, UInt32.shiftRight_or, top_twoRegs, top_flagAt shifted,
      top_shiftLeft himm]
    cases op <;> cases is64 <;> decide
  | add op is64 rd rn rm =>
    simp only [encode, UInt32.shiftRight_or, top_threeRegs]
    cases op <;> cases is64 <;> decide
  | logic op is64 rd rn rm shift amount invert =>
    simp (disch := decide) only [encode, UInt32.shiftRight_or, top_threeRegs, top_bitsAt,
      top_flagAt invert]
    cases op <;> cases is64 <;> cases shift <;> decide
  | logicImm op is64 rd rn mask =>
    have hn : mask.n = 0 := of_decide_eq_true h
    simp (disch := decide) only [encode, UInt32.shiftRight_or, top_twoRegs, top_bitsAt, hn]
    cases op <;> cases is64 <;> decide
  | bitfield isSigned is64 rd rn immr imms =>
    simp only [isPlain, Bool.and_eq_true, decide_eq_true_eq] at h
    have hr : immr.toNat < 2 ^ 6 := UInt32.lt_iff_toNat_lt.mp h.1
    have hs : imms.toNat < 2 ^ 6 := UInt32.lt_iff_toNat_lt.mp h.2
    simp (disch := decide) only [encode, UInt32.shiftRight_or, top_twoRegs, top_shiftLeft hr,
      top_shiftLeft hs]
    cases isSigned <;> cases is64 <;> decide
  | rotate rd rn amount =>
    have hamount : (amount &&& 31).toNat < 2 ^ 5 := by
      rw [UInt32.toNat_and]
      exact Nat.lt_of_le_of_lt Nat.and_le_right (by decide)
    simp (disch := decide) only [encode, UInt32.shiftRight_or, top_threeRegs, top_shiftLeft hamount]
    decide
  | twoSource op rd rn rm | accessIndexed op rd rn rm | fpOp op rd rn rm | vecOp op rd rn rm =>
    simp only [encode, UInt32.shiftRight_or, top_threeRegs]
    cases op <;> decide
  | oneSource op rd rn | fpUnary op rd rn =>
    simp only [encode, UInt32.shiftRight_or, top_twoRegs]
    cases op <;> decide
  | mulLong isSigned rd rn rm =>
    simp only [encode, UInt32.shiftRight_or, top_threeRegs]
    cases isSigned <;> decide
  | select increment rd rn rm c =>
    simp only [encode, UInt32.shiftRight_or, top_threeRegs]
    cases increment <;> cases c <;> decide
  | access op rt rn units =>
    have hunits : units.toNat < 2 ^ 12 := UInt32.lt_iff_toNat_lt.mp (of_decide_eq_true h)
    simp (disch := decide) only [encode, UInt32.shiftRight_or, top_twoRegs, top_shiftLeft hunits]
    cases op <;> decide
  | pair op rt rt2 bytes =>
    have hbytes : (UInt32.ofNat ((bytes / 8) % 128).toNat).toNat < 2 ^ 7 := by
      have hlt : ((bytes / 8) % 128).toNat < 128 := by omega
      rw [UInt32.toNat_ofNat_of_lt' (Nat.lt_trans hlt (by decide))]
      exact hlt
    simp (disch := decide) only [encode, UInt32.shiftRight_or, top_twoRegs, top_bitsAt,
      top_shiftLeft hbytes]
    cases op <;> decide
  | vecScale rd rn rm lane =>
    simp (disch := decide) only [encode, UInt32.shiftRight_or, top_threeRegs, top_bitAt]
    decide
  -- lanes are the only fields that reach the highest byte
  | takeLane rd rn lane =>
    simp only [encode, UInt32.shiftRight_or, top_twoRegs, UInt32.or_zero]
    exact branchless_laneField lane (by decide)
  | putLane rd dst rn src =>
    simp (disch := decide) only [encode, UInt32.shiftRight_or, top_twoRegs, top_bitsAt,
      UInt32.or_zero]
    exact branchless_laneField dst (by decide)
  | putInt rd dst rn =>
    simp only [encode, UInt32.shiftRight_or, top_twoRegs, UInt32.or_zero]
    exact branchless_laneField dst (by decide)
  | branch op => exact nomatch h
  | ret => decide
  | nop => decide
  | _ =>
    simp (disch := decide) only [encode, UInt32.shiftRight_or, top_threeRegs, top_twoRegs,
      top_bitsAt]
    decide

/-- **A plain instruction is no branch.** -/
theorem ofWord?_of_isPlain (h : i.isPlain = true) : BranchKind.ofWord? i.encode = none :=
  ofWord?_eq_none rfl (branchless_top h)

end Instr

/-! ## Sequences without branches -/

/-- No instruction of the sequence is a branch. -/
def AllPlain (is : List Instr) : Prop := is.all Instr.isPlain = true

instance (is : List Instr) : Decidable (AllPlain is) := by unfold AllPlain; infer_instance

section

variable {is is' : List Instr}

theorem allPlain_iff : AllPlain is ↔ ∀ i ∈ is, i.isPlain = true := List.all_eq_true

@[simp] theorem allPlain_nil : AllPlain [] := rfl

@[simp] theorem allPlain_cons {i : Instr} :
    AllPlain (i :: is) ↔ i.isPlain = true ∧ AllPlain is := by
  simp only [AllPlain, List.all_cons, Bool.and_eq_true]

@[simp] theorem allPlain_append : AllPlain (is ++ is') ↔ AllPlain is ∧ AllPlain is' := by
  simp only [AllPlain, List.all_append, Bool.and_eq_true]

end

/-- The sequence can be put together, and no instruction of it is a branch. -/
def Plain (x : Sequence) : Prop := ∃ is, x = .ok is ∧ AllPlain is

section

variable {x : Sequence} {is : List Instr} {f : List Instr → Sequence}

theorem plain_ok (h : AllPlain is) : Plain (.ok is) := ⟨is, rfl, h⟩

theorem plain_bind (hx : Plain x) (hf : ∀ is, AllPlain is → Plain (f is)) : Plain (x >>= f) := by
  obtain ⟨is, rfl, his⟩ := hx
  exact hf is his

/-- Instructions after a sequence. -/
theorem plain_append (hx : Plain x) (h : AllPlain is) : Plain (do return (← x) ++ is) :=
  plain_bind hx fun _ his => plain_ok (allPlain_append.mpr ⟨his, h⟩)

end

/-! ### Constants -/

theorem n_of_ofValue? {v : UInt64} {mask : Mask} (h : Mask.ofValue? v 32 = .ok (some mask)) :
    mask.n = 0 := by
  obtain ⟨size, hsize, hle, ones, r, hpos, hones, -, -, rfl⟩ :=
    (Mask.ofValue?_eq_some_iff (Or.inl rfl)).mp h
  exact (Mask.fields_ofElement hsize hpos hones r).2.2.2.2 (by omega)

theorem lt_of_arithmeticImmediate? {v : UInt64} {p : Word × Bool}
    (h : arithmeticImmediate? v = some p) : p.1 < 4096 := by
  rw [UInt32.lt_iff_toNat_lt]
  unfold arithmeticImmediate? at h
  split at h
  · rename_i hlt
    cases h
    rw [UInt64.lt_iff_toNat_lt] at hlt
    exact Nat.lt_of_le_of_lt (Nat.mod_le _ _) hlt
  · split at h
    · rename_i hmask
      cases h
      -- the bits above the twelve are clear
      have hle : v.toNat ≤ 0xfff000 := by
        rw [← hmask, UInt64.toNat_and]
        exact Nat.and_le_right
      have hshift : (v >>> 12).toNat < 4096 := by
        rw [UInt64.toNat_shiftRight, Nat.shiftRight_eq_div_pow]
        exact Nat.div_lt_of_lt_mul (Nat.lt_of_le_of_lt hle (by decide))
      exact Nat.lt_of_le_of_lt (Nat.mod_le _ _) hshift
    · exact nomatch h

theorem plain_moveConst (rd : Reg) (w : Word) : Plain (moveConst rd w) := by
  unfold moveConst
  simp only
  iterate 4
    split
    · exact plain_ok rfl
  obtain ⟨found, hfound⟩ := Mask.ofValue?_ok (Or.inl rfl) w.toUInt64
  rw [hfound]
  cases found with
  | none => exact plain_ok rfl
  | some mask => exact plain_ok (allPlain_cons.mpr ⟨decide_eq_true (n_of_ofValue? hfound), rfl⟩)

theorem plain_moveConst64 (rd : Reg) (w : UInt64) : Plain (moveConst64 rd w) := by
  unfold moveConst64
  split
  · exact plain_moveConst rd _
  · have hpart : ∀ k ∈ (List.range 4).filter fun k => partOf w k ≠ 0, UInt8.ofNat k < 4 := by
      intro k hk
      have hlt := List.mem_range.mp (List.mem_filter.mp hk).1
      rw [UInt8.lt_iff_toNat_lt, UInt8.toNat_ofNat_of_lt' (Nat.lt_trans hlt (by decide))]
      exact hlt
    split
    · exact plain_ok rfl
    · rename_i first rest hlist
      rw [hlist] at hpart
      refine plain_ok (allPlain_cons.mpr ⟨decide_eq_true (hpart first List.mem_cons_self),
        allPlain_iff.mpr fun i hi => ?_⟩)
      obtain ⟨k, hk, rfl⟩ := List.mem_map.mp hi
      exact decide_eq_true (hpart k (List.mem_cons_of_mem first hk))

theorem plain_addConst (rd rn : Reg) (w : Word) (scratch : Reg) :
    Plain (addConst rd rn w scratch) := by
  unfold addConst addConst?
  split
  · rename_i is his
    split at his
    · cases his
      split <;> exact plain_ok rfl
    · split at his
      · rename_i hbits
        cases his
        exact plain_ok
          (allPlain_cons.mpr ⟨decide_eq_true (lt_of_arithmeticImmediate? hbits), rfl⟩)
      · split at his
        · rename_i hbits
          cases his
          exact plain_ok
            (allPlain_cons.mpr ⟨decide_eq_true (lt_of_arithmeticImmediate? hbits), rfl⟩)
        · cases his
  · exact plain_append (plain_moveConst scratch w) rfl

theorem plain_compareConst (rn : Reg) (w : Word) (scratch : Reg) :
    Plain (compareConst rn w scratch) := by
  unfold compareConst
  split
  · rename_i hbits
    exact plain_ok (allPlain_cons.mpr ⟨decide_eq_true (lt_of_arithmeticImmediate? hbits), rfl⟩)
  · split
    · rename_i hbits
      exact plain_ok (allPlain_cons.mpr ⟨decide_eq_true (lt_of_arithmeticImmediate? hbits), rfl⟩)
    · exact plain_append (plain_moveConst scratch w) rfl

theorem plain_logicConst (op : LogicOp) (rd rn : Reg) (w : Word) (scratch : Reg) :
    Plain (logicConst op rd rn w scratch) := by
  unfold logicConst logicConst?
  obtain ⟨found, hfound⟩ := Mask.ofValue?_ok (Or.inl rfl) w.toUInt64
  rw [hfound]
  cases found with
  | none => exact plain_append (plain_moveConst scratch w) rfl
  | some mask => exact plain_ok (allPlain_cons.mpr ⟨decide_eq_true (n_of_ofValue? hfound), rfl⟩)

/-! ### Memory -/

theorem allPlain_of_accessAt? {op : MemOp} {rt rn : Reg} {offset : Word} {is : List Instr}
    (h : accessAt? op rt rn offset = some is) : AllPlain is := by
  unfold accessAt? at h
  split at h
  · rename_i hreaches
    cases h
    have hlt : offset.toNat / op.size < 4096 :=
      of_decide_eq_true (Bool.and_eq_true_iff.mp hreaches).2
    refine allPlain_cons.mpr ⟨decide_eq_true ?_, rfl⟩
    rw [UInt32.lt_iff_toNat_lt, UInt32.toNat_ofNat_of_lt' (Nat.lt_trans hlt (by decide))]
    exact hlt
  · exact nomatch h

theorem plain_accessAt (op : MemOp) (rt rn : Reg) (offset : Word) (scratch : Reg) :
    Plain (accessAt op rt rn offset scratch) := by
  unfold accessAt
  split
  · rename_i is his
    exact plain_ok (allPlain_of_accessAt? his)
  · exact plain_append (plain_moveConst scratch offset) rfl

theorem plain_accessPlace (op : MemOp) (rt : Reg) (place : Place) :
    Plain (accessPlace op rt place) := by
  cases place with
  | fixed addr => exact plain_append (plain_moveConst scratch1 addr) rfl
  | pointer base offset =>
    rw [accessPlace]
    cases his : accessAt? op rt base offset with
    | none => exact plain_ok rfl
    | some is => exact plain_ok (allPlain_of_accessAt? his)
  | guest base offset =>
    rw [accessPlace]
    split
    · exact plain_ok rfl
    · exact plain_append (plain_addConst _ _ _ _) rfl

theorem plain_setField (value : Reg) (offset : Nat) : Plain (setField value offset) :=
  plain_accessAt _ _ _ _ _

theorem plain_setFieldConst (value : Word) (offset : Nat) : Plain (setFieldConst value offset) :=
  plain_bind (plain_moveConst scratch2 value) fun _ h =>
    plain_bind (plain_setField scratch2 offset) fun _ h' =>
      plain_ok (allPlain_append.mpr ⟨h, h'⟩)

theorem plain_callCode (helper : UInt64) (i : Inst) (c : Word) : Plain (callCode helper i c) :=
  plain_bind (plain_moveConst64 2 _) fun _ h =>
    plain_bind (plain_moveConst64 scratch1 helper) fun _ h' =>
      plain_ok (allPlain_append.mpr ⟨allPlain_append.mpr
        ⟨allPlain_append.mpr ⟨rfl, h⟩, h'⟩, rfl⟩)

/-! ### Arithmetic and vectors -/

theorem allPlain_bitfield {isSigned is64 : Bool} {rd rn : Reg} {immr imms : Word}
    (hr : immr.toNat < 64) (hs : imms.toNat < 64) :
    AllPlain [.bitfield isSigned is64 rd rn immr imms] :=
  allPlain_cons.mpr ⟨Bool.and_eq_true_iff.mpr ⟨decide_eq_true (UInt32.lt_iff_toNat_lt.mpr hr),
    decide_eq_true (UInt32.lt_iff_toNat_lt.mpr hs)⟩, rfl⟩

theorem toNat_and_lt (w m : Word) {n : Nat} (h : m.toNat < n) : (w &&& m).toNat < n := by
  rw [UInt32.toNat_and]
  exact Nat.lt_of_le_of_lt Nat.and_le_right h

theorem allPlain_binaryForm {op : Opcode} {form : Reg → Reg → Reg → List Instr}
    (h : binaryForm? op = some form) (d a b : Reg) : AllPlain (form d a b) := by
  unfold binaryForm? at h
  split at h <;> first | (cases h; rfl) | exact nomatch h

theorem plain_unaryForm {op : Opcode} {c k : Word} {form : Reg → Reg → Sequence}
    (h : unaryForm? op c k = some form) (d s : Reg) : Plain (form d s) := by
  unfold unaryForm? at h
  split at h
  all_goals cases h
  all_goals first
    | exact plain_addConst _ _ _ _
    | exact plain_logicConst _ _ _ _ _
    | exact plain_append (plain_compareConst _ _ _) rfl
    | exact plain_ok (allPlain_bitfield (toNat_and_lt _ 31 (by decide)) (by decide))
    | exact plain_ok rfl
    | skip
  -- only a shift to the left has its amount in the second field
  refine plain_ok (allPlain_bitfield (toNat_and_lt _ 31 (by decide)) ?_)
  have hle : k &&& 31 ≤ 31 := UInt32.le_iff_toNat_le.mpr
    (Nat.le_of_lt_succ (toNat_and_lt k 31 (by decide)))
  rw [UInt32.toNat_sub_of_le _ _ hle]
  exact Nat.lt_of_le_of_lt (Nat.sub_le _ _) (by decide)

theorem plain_vectorPattern (v : Reg) (pattern : UInt8) : Plain (vectorPattern v pattern) := by
  unfold vectorPattern
  split
  · exact plain_ok rfl
  · exact plain_ok rfl
  · exact plain_ok rfl
  · exact plain_bind (plain_moveConst _ _) fun _ h =>
      plain_ok (allPlain_cons.mpr ⟨rfl, allPlain_append.mpr ⟨h, rfl⟩⟩)

theorem allPlain_shuffle (v s : Reg) (selector : UInt8) : AllPlain (shuffle v s selector) := by
  unfold shuffle
  simp only
  refine allPlain_append.mpr ⟨?_, rfl⟩
  split <;> rfl

theorem allPlain_prologue : AllPlain prologue := by decide

theorem allPlain_epilogue : AllPlain epilogue := by decide

end Dynarec.Aarch64
