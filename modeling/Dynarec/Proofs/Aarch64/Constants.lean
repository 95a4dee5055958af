/-
Operations with constants compute what they say.

An operation with a constant has several spellings, and the constant decides which one is taken: an
operand of its own, its complement or its negative, a bitmask, or a detour through another register.
Each spelling is followed through the machine, instruction by instruction, and all of them end with
the same value (`run_moveConst`, `run_addConst`, `run_logicConst`), or with the same flags
(`run_compareConst`). Shifts are bitfields with the right borders (`step_bitfield_eq`).

A comparison tries the negative of its constant. That would be wrong for zero and for the least
number, but zero is an operand of its own, and the least number has no such spelling.
-/
import Dynarec.Proofs.Aarch64.Operands
import Dynarec.Proofs.Guest.Bytes
import Mathlib.Tactic.IntervalCases

set_option autoImplicit false

namespace Dynarec.Aarch64

/-! ## Registers -/

section Registers

variable {m : Machine} {r r' : Reg} {width : Nat}

theorem lt_field (h : r.toNat < 31) : r.toNat < 2 ^ 5 := Nat.lt_trans h (by decide)

theorem toNat_regIndex (h : r.toNat < 2 ^ 5) : (regIndex r).toNat = r.toNat :=
  toNat_setWidth_of_lt h

theorem regIndex_ne (h : r.toNat < 31) : regIndex r ≠ 31 := by
  intro heq
  have hnat := toNat_regIndex (lt_field h)
  rw [heq] at hnat
  exact absurd hnat (Nat.ne_of_gt h)

theorem regIndex_inj (h : r.toNat < 2 ^ 5) (h' : r'.toNat < 2 ^ 5)
    (heq : regIndex r = regIndex r') : r = r' := by
  apply UInt8.toNat_inj.mp
  rw [← toNat_regIndex h, ← toNat_regIndex h', heq]

namespace Machine

/-- The lower half of a register. -/
def w (m : Machine) (r : Reg) : Word := ⟨(m.file (regIndex r)).setWidth 32⟩

/-- A register. -/
def x (m : Machine) (r : Reg) : UInt64 := ⟨m.file (regIndex r)⟩

theorem read_reg (h : r.toNat < 31) : m.read 32 (regIndex r) = (m.w r).toBitVec :=
  if_neg (regIndex_ne h)

theorem read_zr : m.read width (regIndex zr) = 0 := if_pos (by decide)

theorem read_put_self (h : r.toNat < 31) (hwidth : width ≤ 64) (v : BitVec width) :
    (m.put (regIndex r) v).read width (regIndex r) = v := by
  rw [read, if_neg (regIndex_ne h)]
  show ((Function.update m.file (regIndex r) (v.setWidth 64)) (regIndex r)).setWidth width = v
  rw [Function.update_self, BitVec.setWidth_setWidth_of_le _ hwidth, BitVec.setWidth_eq]

theorem write_reg (h : r.toNat < 31) (v : BitVec width) :
    m.write (regIndex r) v = m.put (regIndex r) v :=
  if_neg (regIndex_ne h)

theorem write_zr (v : BitVec width) : m.write (regIndex zr) v = m := if_pos (by decide)

theorem w_put (v : Word) : (m.put (regIndex r) v.toBitVec).w r = v := by
  apply UInt32.eq_of_toBitVec_eq
  show ((Function.update m.file (regIndex r) (v.toBitVec.setWidth 64)) (regIndex r)).setWidth 32 = _
  rw [Function.update_self, BitVec.setWidth_setWidth_of_le _ (by decide), BitVec.setWidth_eq]

theorem x_put (v : UInt64) : (m.put (regIndex r) v.toBitVec).x r = v := by
  apply UInt64.eq_of_toBitVec_eq
  show (Function.update m.file (regIndex r) (v.toBitVec.setWidth 64)) (regIndex r) = _
  rw [Function.update_self, BitVec.setWidth_eq]

theorem file_put {i j : BitVec 5} (h : j ≠ i) (v : BitVec width) : (m.put i v).file j = m.file j :=
  Function.update_of_ne h _ _

theorem w_put_of_ne (hr : r.toNat < 2 ^ 5) (hr' : r'.toNat < 2 ^ 5) (hne : r ≠ r')
    (v : BitVec width) : (m.put (regIndex r) v).w r' = m.w r' := by
  rw [w, w, file_put fun heq => hne (regIndex_inj hr hr' heq.symm)]

theorem put_put (i : BitVec 5) {width' : Nat} (v : BitVec width) (v' : BitVec width') :
    (m.put i v).put i v' = m.put i v' := by
  unfold put
  simp only [Function.update_idem]

end Machine

end Registers

/-! ## Instructions -/

/-- What a wide move makes of a register. -/
def WideOp.value {width : Nat} (old : BitVec width) (imm : BitVec 16) (part : Nat) :
    WideOp → BitVec width
  | .movn => ~~~insertPart 0 imm part
  | .movz => insertPart 0 imm part
  | .movk => insertPart old imm part

/-- What a bitwise operation makes of two words. -/
def LogicOp.apply (op : LogicOp) (a b : Word) : Word :=
  match op with
  | .and | .ands => a &&& b
  | .orr => a ||| b
  | .eor => a ^^^ b

theorem LogicOp.bitwise_code (op : LogicOp) (a b : Word) :
    bitwise op.code a.toBitVec b.toBitVec = (op.apply a b).toBitVec := by
  cases op <;> rfl

theorem LogicOp.code_ne_three {op : LogicOp} (h : op ≠ .ands) : op.code ≠ 3 := by
  revert h
  cases op <;> decide

theorem shiftBy_zero {width : Nat} (x : BitVec width) : shiftBy 0 x (0 : BitVec 6).toNat = x :=
  BitVec.shiftLeft_zero x

namespace Machine

variable {m : Machine} {rd rn rm : Reg}

theorem run_cons (w : Word) (ws : List Word) :
    m.run (w :: ws) = (m.step w).bind fun m' => m'.run ws := List.foldlM_cons

theorem run_append (ws ws' : List Word) :
    m.run (ws ++ ws') = (m.run ws).bind fun m' => m'.run ws' := List.foldlM_append

theorem run_singleton (w : Word) : m.run [w] = m.step w := by
  rw [run_cons]
  exact Option.bind_fun_some _

theorem step_wide_put {op : WideOp} {is64 : Bool} {imm : UInt16} {part : UInt8}
    (hrd : rd.toNat < 31) (hpart : 16 * part.toNat < if is64 then 64 else 32) :
    m.step (Instr.encode (.wide op is64 rd imm part)) =
      some (m.put (regIndex rd) (op.value (m.read (if is64 then 64 else 32) (regIndex rd))
        imm.toBitVec part.toNat)) := by
  have hlt : part.toNat < 2 ^ 2 := by
    split at hpart <;> omega
  have hfield : (part.toBitVec.setWidth 2).toNat = part.toNat := toNat_setWidth_of_lt hlt
  rw [step_wide (lt_field hrd) hlt, moveWide, hfield, if_neg (Nat.not_le_of_lt hpart)]
  simp only [write_reg hrd]
  cases op <;> rfl

/-- A sum or difference with a constant of twelve bits. -/
theorem step_addImm_eq {op : AddOp} {c bits : Word} {isShifted : Bool} (hrd : rd.toNat < 2 ^ 5)
    (hrn : rn.toNat < 2 ^ 5) (h : arithmeticImmediate? c.toUInt64 = some (bits, isShifted)) :
    m.step (Instr.encode (.addImm op false rd rn bits isShifted)) =
      let sum := addOrSub (op.isSub = 1) (m.w rn).toBitVec c.toBitVec
      some (if op.setsFlags = 1 then { m.write (regIndex rd) sum.1 with flags := sum.2 }
        else m.put (regIndex rd) sum.1) := by
  have hbits : bits.toNat < 2 ^ 12 := UInt32.lt_iff_toNat_lt.mp (lt_of_arithmeticImmediate? h)
  rw [step_addImm hrd hrn hbits, addImmediate, operand_of_arithmeticImmediate? h]
  rfl

/-- A sum or difference of two registers. -/
theorem step_add_eq {op : AddOp} (hrd : rd.toNat < 2 ^ 5) (hrn : rn.toNat < 31)
    (hrm : rm.toNat < 31) :
    m.step (Instr.encode (.add op false rd rn rm)) =
      let sum := addOrSub (op.isSub = 1) (m.w rn).toBitVec (m.w rm).toBitVec
      some (if op.setsFlags = 1 then { m.write (regIndex rd) sum.1 with flags := sum.2 }
        else m.write (regIndex rd) sum.1) := by
  rw [step_add hrd (lt_field hrn) (lt_field hrm), addShifted,
    if_neg (by decide), read_reg hrn, read_reg hrm, shiftBy_zero]

section

variable {op : LogicOp} {a b : Word} (hop : op ≠ .ands) (hrd : rd.toNat < 31)
  (hrn : rn.toNat < 2 ^ 5) (ha : m.read 32 (regIndex rn) = a.toBitVec)

include hop hrd hrn ha

/-- A bitwise operation on two registers. -/
theorem step_logic_eq (hrm : rm.toNat < 2 ^ 5) (hb : m.read 32 (regIndex rm) = b.toBitVec) :
    m.step (Instr.encode (.logicWord op rd rn rm)) =
      some (m.put (regIndex rd) (op.apply a b).toBitVec) := by
  rw [Instr.logicWord, step_logic (lt_field hrd) hrn hrm, bitwiseShifted,
    if_neg (by decide), ha, hb, shiftBy_zero]
  show some (if op.code = 3 then _ else m.write (regIndex rd)
    (bitwise op.code a.toBitVec b.toBitVec)) = _
  rw [if_neg (LogicOp.code_ne_three hop), op.bitwise_code, write_reg hrd]

/-- A bitwise operation with a bitmask. -/
theorem step_logicImm_eq {mask : Mask} (h : Mask.ofValue? b.toUInt64 32 = .ok (some mask)) :
    m.step (Instr.encode (.logicImm op false rd rn mask)) =
      some (m.put (regIndex rd) (op.apply a b).toBitVec) := by
  obtain ⟨hn, hs, hr, tmask, hmasks⟩ := bitMasks?_ofValue? h
  rw [step_logicImm (lt_field hrd) hrn hn hs hr, bitwiseImmediate,
    if_neg (by decide), hmasks, ha]
  show some (if op.code = 3 then _ else _) = _
  rw [if_neg (LogicOp.code_ne_three hop), op.bitwise_code]

end

/-! ## Sequences -/

/-- Carry out the words of a sequence. -/
def runSequence (m : Machine) (x : Sequence) : Option Machine :=
  match x with
  | .ok is => m.run (is.map Instr.encode)
  | .error _ => none

theorem runSequence_singleton (i : Instr) : m.runSequence (.ok [i]) = m.step i.encode :=
  run_singleton _

/-- An instruction after a sequence. -/
theorem runSequence_append (x : Sequence) (i : Instr) :
    m.runSequence (do return (← x) ++ [i])
      = (m.runSequence x).bind fun m' => m'.step i.encode := by
  cases x with
  | error e => rfl
  | ok is =>
    show m.run ((is ++ [i]).map Instr.encode) = (m.run (is.map Instr.encode)).bind _
    rw [List.map_append, run_append]
    exact congrArg _ (funext fun m' => run_singleton _)

/-! ## Moves -/

theorem extract_low (c : Word) : c.toUInt16.toBitVec = c.toBitVec.extractLsb' (16 * 0) 16 := by
  rw [UInt32.toBitVec_toUInt16, BitVec.setWidth_eq_extractLsb' (by decide)]

theorem extract_high (c : Word) :
    (c >>> 16).toUInt16.toBitVec = c.toBitVec.extractLsb' (16 * 1) 16 := by
  rw [UInt32.toBitVec_toUInt16, UInt32.toBitVec_shiftRight]
  rfl

theorem extract_partOf {c : UInt64} {k : Nat} (hk : k < 4) :
    (partOf c k).toBitVec = c.toBitVec.extractLsb' (16 * k) 16 := by
  rw [partOf, UInt64.toBitVec_toUInt16, UInt64.toBitVec_shiftRight]
  interval_cases k <;> rfl

theorem run_wide {op : WideOp} {imm : UInt16} {part : UInt8} {v : BitVec 32} (hrd : rd.toNat < 31)
    (hpart : 16 * part.toNat < 32)
    (hv : op.value (m.read 32 (regIndex rd)) imm.toBitVec part.toNat = v) :
    m.run ([Instr.wide op false rd imm part].map Instr.encode) = some (m.put (regIndex rd) v) := by
  rw [List.map_singleton, run_singleton, step_wide_put hrd hpart]
  exact congrArg (fun v => some (m.put (regIndex rd) v)) hv

/-- **A moved constant arrives**, and the upper half of its register is cleared. -/
theorem run_moveConst (hrd : rd.toNat < 31) (c : Word) :
    m.runSequence (moveConst rd c) = some (m.put (regIndex rd) c.toBitVec) := by
  have hlow := extract_low c
  have hhigh := extract_high c
  unfold moveConst
  simp only
  split
  · rename_i hzero
    refine run_wide hrd (by decide) ?_
    rw [WideOp.value, hlow]
    exact insertPart_zero_eq (k := 0) (by decide) (hhigh.symm.trans (congrArg _ hzero))
  split
  · rename_i hzero
    refine run_wide hrd (by decide) ?_
    rw [WideOp.value, hhigh]
    exact insertPart_zero_eq (k := 1) (by decide) (hlow.symm.trans (congrArg _ hzero))
  split
  · rename_i hones
    refine run_wide hrd (by decide) ?_
    rw [WideOp.value, UInt16.toBitVec_not, hlow]
    exact not_insertPart_eq (k := 0) (by decide) (hhigh.symm.trans (congrArg _ hones))
  split
  · rename_i hones
    refine run_wide hrd (by decide) ?_
    rw [WideOp.value, UInt16.toBitVec_not, hhigh]
    exact not_insertPart_eq (k := 1) (by decide) (hlow.symm.trans (congrArg _ hones))
  obtain ⟨found, hfound⟩ := Mask.ofValue?_ok (Or.inl rfl) c.toUInt64
  rw [hfound]
  cases found with
  | some mask =>
    show m.runSequence (.ok [_]) = _
    rw [runSequence_singleton,
      step_logicImm_eq (a := 0) (by decide) hrd (by decide) read_zr hfound]
    exact congrArg (fun v => some (m.put (regIndex rd) v)) BitVec.zero_or
  | none =>
    have hboth : insertParts c.toBitVec 0 [0, 1] = c.toBitVec := by
      refine insertParts_eq fun k hk hlt => absurd ?_ hk
      rw [List.mem_cons, List.mem_singleton]
      omega
    show m.run (([Instr.wide .movz false rd c.toUInt16 0] ++
      [Instr.wide .movk false rd (c >>> 16).toUInt16 1]).map Instr.encode) = _
    rw [List.map_append, run_append, run_wide hrd (by decide) rfl,
      Option.bind_some, run_wide hrd (by decide) rfl, put_put, read_put_self hrd (by decide)]
    rw [WideOp.value, WideOp.value, hlow, hhigh]
    exact congrArg (fun v => some (m.put (regIndex rd) v)) hboth

/-- A part of a double word over a register that is cleared or holds other parts. -/
theorem step_wide64 {op : WideOp} {c : UInt64} {k : Nat} (hrd : rd.toNat < 31) (hk : k < 4) :
    m.step (Instr.encode (.wide op true rd (partOf c k) (UInt8.ofNat k))) =
      some (m.put (regIndex rd) (op.value (m.read 64 (regIndex rd))
        (c.toBitVec.extractLsb' (16 * k) 16) k)) := by
  have hpart : (UInt8.ofNat k).toNat = k := UInt8.toNat_ofNat_of_lt' (Nat.lt_trans hk (by decide))
  have hlt : 16 * (UInt8.ofNat k).toNat < 64 := by omega
  rw [step_wide_put hrd hlt, hpart, extract_partOf hk]
  rfl

/-- The parts after the first one. -/
theorem run_movk (hrd : rd.toNat < 31) (c : UInt64) (v : BitVec 64) {parts : List Nat}
    (hparts : ∀ k ∈ parts, k < 4) :
    (m.put (regIndex rd) v).run ((parts.map fun k =>
        Instr.wide .movk true rd (partOf c k) (UInt8.ofNat k)).map Instr.encode) =
      some (m.put (regIndex rd) (insertParts c.toBitVec v parts)) := by
  induction parts generalizing v with
  | nil => rfl
  | cons k parts ih =>
    rw [List.map_cons, List.map_cons, run_cons, step_wide64 hrd (hparts k List.mem_cons_self),
      Option.bind_some, put_put, read_put_self hrd (Nat.le_refl 64)]
    exact ih _ fun k' hk' => hparts k' (List.mem_cons_of_mem k hk')

/-- **A moved double word arrives.** -/
theorem run_moveConst64 (hrd : rd.toNat < 31) (c : UInt64) :
    m.runSequence (moveConst64 rd c) = some (m.put (regIndex rd) c.toBitVec) := by
  unfold moveConst64
  split
  · rename_i hupper
    rw [run_moveConst hrd]
    have hvalue : c.toUInt32.toBitVec.setWidth 64 = c.toBitVec.setWidth 64 := by
      have hlt : c.toNat / 2 ^ 32 = 0 := by
        rw [← Nat.shiftRight_eq_div_pow]
        exact (UInt64.toNat_shiftRight c 32).symm.trans (congrArg UInt64.toNat hupper)
      apply BitVec.eq_of_toNat_eq
      rw [UInt64.toBitVec_toUInt32, BitVec.toNat_setWidth, BitVec.toNat_setWidth,
        BitVec.toNat_setWidth]
      show c.toNat % 2 ^ 32 % 2 ^ 64 = c.toNat % 2 ^ 64
      omega
    unfold put
    rw [hvalue]
  · rename_i hupper
    have hvalue : insertParts c.toBitVec 0 ((List.range 4).filter fun k => partOf c k ≠ 0)
        = c.toBitVec := by
      refine insertParts_eq fun k hk hlt => ?_
      have hrange : k ∈ List.range 4 := List.mem_range.mpr (by omega)
      have hzero : partOf c k = 0 := by
        by_contra hne
        exact hk (List.mem_filter.mpr ⟨hrange, decide_eq_true hne⟩)
      rw [← extract_partOf (List.mem_range.mp hrange), hzero]
      rfl
    have hparts : ∀ k ∈ (List.range 4).filter fun k => partOf c k ≠ 0, k < 4 := fun k hk =>
      List.mem_range.mp (List.mem_filter.mp hk).1
    split
    · rename_i hnil
      -- a double word without parts is zero, and has no upper half
      rw [hnil] at hvalue
      refine absurd ?_ hupper
      rw [← UInt64.eq_of_toBitVec_eq (a := 0) hvalue]
      rfl
    · rename_i first rest hlist
      rw [hlist] at hvalue hparts
      show m.run (List.map Instr.encode (_ :: _)) = _
      rw [List.map_cons, run_cons, step_wide64 hrd (hparts first List.mem_cons_self),
        Option.bind_some, run_movk hrd c _ fun k hk => hparts k (List.mem_cons_of_mem first hk)]
      exact congrArg (fun v => some (m.put (regIndex rd) v)) hvalue

/-! ## Operations with a constant -/

/-- Of the registers and the stack pointer only those of the list may have changed. -/
def Keeps (m m' : Machine) (rs : List Reg) : Prop :=
  ∀ i, i ∉ rs.map regIndex → m'.file i = m.file i

/-- A register holds a value, the flags are as before, and only registers of the list may have
changed. -/
structure Leaves (m m' : Machine) (rd : Reg) (v : Word) (rs : List Reg) : Prop where
  value : m'.w rd = v
  flags : m'.flags = m.flags
  keeps : m.Keeps m' rs

variable {m' : Machine} {r scratch : Reg} {rs : List Reg} {c v : Word}

theorem keeps_put {width : Nat} (hr : r ∈ rs) (v : BitVec width) :
    m.Keeps (m.put (regIndex r) v) rs := by
  intro i hi
  refine file_put (fun heq => hi ?_) v
  rw [heq]
  exact List.mem_map_of_mem hr

theorem leaves_put (hrd : rd ∈ rs) : m.Leaves (m.put (regIndex rd) v.toBitVec) rd v rs :=
  ⟨w_put v, rfl, keeps_put hrd _⟩

/-- The same with a constant that has been put into another register before. -/
theorem leaves_put_put (hrd : rd ∈ rs) (hr : r ∈ rs) :
    m.Leaves ((m.put (regIndex r) c.toBitVec).put (regIndex rd) v.toBitVec) rd v rs :=
  ⟨w_put v, rfl, fun i hi => (keeps_put hrd _ i hi).trans (keeps_put hr _ i hi)⟩

/-- A register is moved by an alternative with the register that reads as zero. -/
theorem step_mov (hrd : rd.toNat < 31) (hrn : rn.toNat < 31) :
    m.step (Instr.encode (.mov false rd rn)) = some (m.put (regIndex rd) (m.w rn).toBitVec) := by
  have hstep := step_logic_eq (a := 0) (show LogicOp.orr ≠ .ands by decide) hrd (by decide)
    read_zr (lt_field hrn) (read_reg (m := m) hrn)
  rwa [LogicOp.apply, UInt32.zero_or] at hstep

/-- A constant with a spelling of its own is added, as a sum or as a difference. -/
theorem run_addConst? {is : List Instr} (hrd : rd.toNat < 31) (hrn : rn.toNat < 31) (hrs : rd ∈ rs)
    (h : addConst? rd rn c = some is) :
    ∃ m', m.run (is.map Instr.encode) = some m' ∧ m.Leaves m' rd (m.w rn + c) rs := by
  have hrd' : rd.toNat < 2 ^ 5 := lt_field hrd
  have hrn' : rn.toNat < 2 ^ 5 := lt_field hrn
  unfold addConst? at h
  split at h
  · rename_i hzero
    cases h
    rw [hzero, UInt32.add_zero]
    split
    · rename_i heq
      subst heq
      exact ⟨m, rfl, rfl, rfl, fun _ _ => rfl⟩
    · refine ⟨m.put (regIndex rd) (m.w rn).toBitVec, ?_, leaves_put hrs⟩
      rw [List.map_singleton, run_singleton, step_mov hrd hrn]
  split at h
  · rename_i bits isShifted hbits
    cases h
    refine ⟨m.put (regIndex rd) (m.w rn + c).toBitVec, ?_, leaves_put hrs⟩
    rw [List.map_singleton, run_singleton, step_addImm_eq hrd' hrn' hbits]
    exact congrArg (fun v => some (m.put (regIndex rd) v)) addOrSub_false
  split at h
  · rename_i bits isShifted hbits
    cases h
    refine ⟨m.put (regIndex rd) (m.w rn + c).toBitVec, ?_, leaves_put hrs⟩
    have hneg : (m.w rn).toBitVec - (0 - c).toBitVec = (m.w rn + c).toBitVec := by
      rw [toBitVec_zero_sub, BitVec.sub_eq_add_neg, BitVec.neg_neg, UInt32.toBitVec_add]
    rw [List.map_singleton, run_singleton, step_addImm_eq hrd' hrn' hbits]
    exact congrArg (fun v => some (m.put (regIndex rd) v)) (addOrSub_true.trans hneg)
  · cases h

section

variable (hrn : rn.toNat < 31) (hscratch : scratch.toNat < 31) (hne : scratch ≠ rn)

include hscratch in
/-- Constants without a spelling of their own go through a register. -/
theorem run_through_scratch (i : Instr) :
    m.runSequence (do return (← moveConst scratch c) ++ [i]) =
      (m.put (regIndex scratch) c.toBitVec).step i.encode := by
  rw [runSequence_append, run_moveConst hscratch, Option.bind_some]

include hrn hscratch hne in
theorem w_put_scratch : (m.put (regIndex scratch) c.toBitVec).w rn = m.w rn :=
  w_put_of_ne (lt_field hscratch) (lt_field hrn) hne _

include hrn hscratch hne

/-- **A constant is added.** -/
theorem run_addConst (hrd : rd.toNat < 31) :
    ∃ m', m.runSequence (addConst rd rn c scratch) = some m' ∧
      m.Leaves m' rd (m.w rn + c) [rd, scratch] := by
  unfold addConst
  split
  · rename_i is his
    exact run_addConst? hrd hrn List.mem_cons_self his
  · refine ⟨(m.put (regIndex scratch) c.toBitVec).put (regIndex rd) (m.w rn + c).toBitVec, ?_,
      leaves_put_put List.mem_cons_self (List.mem_cons_of_mem rd List.mem_cons_self)⟩
    rw [run_through_scratch hscratch, step_add_eq (lt_field hrd) hrn hscratch,
      w_put_scratch hrn hscratch hne, w_put]
    simp only [write_reg hrd]
    exact congrArg (fun v => some (Machine.put _ (regIndex rd) v)) addOrSub_false

omit hrn hscratch hne in
/-- Neither zero nor the least number is compared by its negative: zero is an operand of its own,
and the negative of the least number is too long for one. -/
theorem ne_of_negative_immediate {imm : Word × Bool}
    (hnone : arithmeticImmediate? c.toUInt64 = none)
    (h : arithmeticImmediate? (0 - c).toUInt64 = some imm) :
    c.toBitVec ≠ 0 ∧ c.toBitVec.toNat ≠ 2 ^ 31 := by
  constructor
  · intro hzero
    rw [UInt32.eq_of_toBitVec_eq (b := 0) hzero] at hnone
    exact absurd hnone (by decide)
  · intro hmin
    have hlt := toNat_lt_of_arithmeticImmediate? h
    rw [UInt32.toNat_toUInt64] at hlt
    have hnat : (0 - c).toNat = (2 ^ 32 - 2 ^ 31) % 2 ^ 32 := by
      rw [← hmin, ← BitVec.toNat_neg, ← toBitVec_zero_sub]
      rfl
    omega

/-- **The flags are those of the difference to the constant.** -/
theorem run_compareConst :
    ∃ m', m.runSequence (compareConst rn c scratch) = some m' ∧
      m'.flags = (addOrSub true (m.w rn).toBitVec c.toBitVec).2 ∧ m.Keeps m' [scratch] := by
  have hrn' : rn.toNat < 2 ^ 5 := lt_field hrn
  unfold compareConst
  split
  · rename_i bits isShifted hbits
    refine ⟨{ m with flags := (addOrSub true (m.w rn).toBitVec c.toBitVec).2 }, ?_, rfl,
      fun _ _ => rfl⟩
    rw [runSequence_singleton, step_addImm_eq (by decide) hrn' hbits]
    simp only [write_zr]
    rfl
  · rename_i hnone
    split
    · rename_i bits isShifted hbits
      obtain ⟨hzero, hmin⟩ := ne_of_negative_immediate hnone hbits
      refine ⟨{ m with flags := (addOrSub true (m.w rn).toBitVec c.toBitVec).2 }, ?_, rfl,
        fun _ _ => rfl⟩
      rw [runSequence_singleton, step_addImm_eq (by decide) hrn' hbits, toBitVec_zero_sub]
      simp only [write_zr, ← addOrSub_neg hzero hmin]
      rfl
    · refine ⟨{ m.put (regIndex scratch) c.toBitVec with
          flags := (addOrSub true (m.w rn).toBitVec c.toBitVec).2 }, ?_, rfl,
        keeps_put (r := scratch) List.mem_cons_self c.toBitVec⟩
      rw [run_through_scratch hscratch, Instr.compare, step_add_eq (by decide) hrn hscratch,
        w_put_scratch hrn hscratch hne, w_put]
      simp only [write_zr]
      rfl

/-- **A bitwise operation with a constant.** -/
theorem run_logicConst {op : LogicOp} (hop : op ≠ .ands) (hrd : rd.toNat < 31) :
    ∃ m', m.runSequence (logicConst op rd rn c scratch) = some m' ∧
      m.Leaves m' rd (op.apply (m.w rn) c) [rd, scratch] := by
  have hrn' : rn.toNat < 2 ^ 5 := lt_field hrn
  have hscratch' : scratch.toNat < 2 ^ 5 := lt_field hscratch
  unfold logicConst logicConst?
  obtain ⟨found, hfound⟩ := Mask.ofValue?_ok (Or.inl rfl) c.toUInt64
  rw [hfound]
  cases found with
  | some mask =>
    refine ⟨m.put (regIndex rd) (op.apply (m.w rn) c).toBitVec, ?_, leaves_put List.mem_cons_self⟩
    exact (runSequence_singleton _).trans (step_logicImm_eq hop hrd hrn' (read_reg hrn) hfound)
  | none =>
    refine ⟨(m.put (regIndex scratch) c.toBitVec).put (regIndex rd)
      (op.apply (m.w rn) c).toBitVec, ?_,
      leaves_put_put List.mem_cons_self (List.mem_cons_of_mem rd List.mem_cons_self)⟩
    refine (run_through_scratch hscratch _).trans ?_
    rw [step_logic_eq hop hrd hrn' (read_reg hrn) hscratch' (read_reg hscratch),
      w_put_scratch hrn hscratch hne, w_put]

end

/-! ## Shifts -/

/-- Masks of fields within a word: the element is the whole word. -/
theorem bitMasks?_word {imms immr : BitVec 6} (hs : imms.toNat < 32) (hr : immr.toNat < 32) :
    bitMasks? 32 0 imms immr false =
      some (copies 32 ((onesBelow 32 (imms.toNat + 1)).rotateRight immr.toNat),
        copies 32 (onesBelow 32 ((imms.toNat + 32 - immr.toNat) % 32 + 1))) := by
  have hsize : sizeOfFields 0 imms = 32 := by
    have hall : ∀ k < 32, sizeOfFields 0 (BitVec.ofNat 6 k) = 32 := by decide
    have himms := hall imms.toNat hs
    rwa [BitVec.ofNat_toNat, BitVec.setWidth_eq] at himms
  rw [bitMasks?, hsize, Nat.mod_eq_of_lt hs, Nat.mod_eq_of_lt hr]
  rfl

/-- **The bits of a moved bitfield.** -/
theorem step_bitfield_eq {isSigned : Bool} {immr imms : Word} (hrd : rd.toNat < 31)
    (hrn : rn.toNat < 31) (hr : immr.toNat < 32) (hs : imms.toNat < 32)
    (hv : ∀ i < 32, v.toBitVec.getLsbD i =
      if i < (imms.toNat + 32 - immr.toNat) % 32 + 1 then
        (m.w rn).toBitVec.getLsbD ((i + immr.toNat) % 32) &&
          decide ((i + immr.toNat) % 32 < imms.toNat + 1)
      else isSigned && (m.w rn).toBitVec.getLsbD imms.toNat) :
    m.step (Instr.encode (.bitfield isSigned false rd rn immr imms)) =
      some (m.put (regIndex rd) v.toBitVec) := by
  have hr' : (immr.toBitVec.setWidth 6).toNat = immr.toNat :=
    toNat_setWidth_of_lt (Nat.lt_trans hr (by decide))
  have hs' : (imms.toBitVec.setWidth 6).toNat = imms.toNat :=
    toNat_setWidth_of_lt (Nat.lt_trans hs (by decide))
  have hfields : ¬ ((if isSigned then (0 : BitVec 2) else 2) = 3 ∨ ((0 : BitVec 1) = 1 ↔ 32 = 32) ∨
      32 ≤ immr.toNat ∨ 32 ≤ imms.toNat) := by
    have hcode : (if isSigned then (0 : BitVec 2) else 2) ≠ 3 := by cases isSigned <;> decide
    have hn : ¬ ((0 : BitVec 1) = 1 ↔ 32 = 32) := by decide
    rintro (h | h | h | h)
    · exact hcode h
    · exact hn h
    · omega
    · omega
  rw [step_bitfield (lt_field hrd) (lt_field hrn)
    (Nat.lt_trans hr (by decide)) (Nat.lt_trans hs (by decide)), bitfield,
    bitMasks?_word (hs'.trans_lt hs) (hr'.trans_lt hr), hr', hs', if_neg hfields, read_reg hrn]
  have hold : (if (if isSigned then (0 : BitVec 2) else 2) = 1 then m.read 32 (regIndex rd) else 0)
      = 0#32 := by
    cases isSigned <;> rfl
  show some (m.write (regIndex rd) _) = _
  rw [write_reg hrd, hold, BitVec.zero_and, BitVec.zero_or]
  refine congrArg (fun v => some (m.put (regIndex rd) v)) (BitVec.eq_of_getLsbD_eq fun i hi => ?_)
  have htop : (if (if isSigned then (0 : BitVec 2) else 2) = 0 then
      (if (m.w rn).toBitVec.getLsbD imms.toNat = true then BitVec.allOnes 32 else 0)
      else 0#32).getLsbD i = (isSigned && (m.w rn).toBitVec.getLsbD imms.toNat) := by
    cases isSigned
    · exact BitVec.getLsbD_zero
    · cases (m.w rn).toBitVec.getLsbD imms.toNat
      · exact BitVec.getLsbD_zero
      · exact (BitVec.getLsbD_allOnes).trans (decide_eq_true hi)
  rw [getLsbD_merge hi, htop, getLsbD_copies (Nat.dvd_refl 32) hi, Nat.mod_eq_of_lt hi,
    getLsbD_onesBelow, decide_eq_true hi, Bool.true_and, BitVec.getLsbD_and,
    getLsbD_rotateRight hr hi, getLsbD_run (Nat.dvd_refl 32) hr hi, hv i hi]
  simp only [decide_eq_true_eq]

section

variable (hrd : rd.toNat < 31) (hrn : rn.toNat < 31) (amount : Word)

theorem amount_lt : (amount &&& 31).toNat < 32 := toNat_and_lt amount 31 (by decide)

/-- What is left of a full turn. -/
theorem toNat_turn : ((32 - (amount &&& 31)) &&& 31).toNat = (32 - (amount &&& 31).toNat) % 32 := by
  have hle : amount &&& 31 ≤ 32 := UInt32.le_iff_toNat_le.mpr (Nat.le_of_lt (amount_lt amount))
  rw [UInt32.toNat_and, UInt32.toNat_sub_of_le _ _ hle]
  exact Nat.and_two_pow_sub_one_eq_mod _ 5

theorem getLsbD_sar (w : Word) {i : Nat} (hi : i < 32) :
    (Word.sar w amount).toBitVec.getLsbD i =
      if i + (amount &&& 31).toNat < 32 then w.toBitVec.getLsbD (i + (amount &&& 31).toNat)
      else w.toBitVec.getLsbD 31 := by
  have hmod : ((amount &&& 31).toBitVec.smod 32).toNat = (amount &&& 31).toNat := by
    have hall : ∀ k < 32, ((BitVec.ofNat 32 k).smod 32).toNat = k := by decide
    have hk := hall (amount &&& 31).toNat (amount_lt amount)
    rwa [← UInt32.toNat_toBitVec, BitVec.ofNat_toNat, BitVec.setWidth_eq] at hk
  have hbits : (Word.sar w amount).toBitVec = w.toBitVec.sshiftRight (amount &&& 31).toNat := by
    show (w.toInt32 >>> (amount &&& 31).toInt32).toBitVec = _
    rw [Int32.toBitVec_shiftRight, BitVec.sshiftRight_eq']
    exact congrArg _ hmod
  rw [hbits, BitVec.getLsbD_sshiftRight, decide_eq_false (Nat.not_le_of_lt hi), Bool.not_false,
    Bool.true_and, Nat.add_comm]
  rfl

theorem getLsbD_ror (w : Word) {i : Nat} (hi : i < 32) :
    (Word.ror w amount).toBitVec.getLsbD i
      = w.toBitVec.getLsbD ((i + (amount &&& 31).toNat) % 32) := by
  have hlt := amount_lt amount
  have hturn := toNat_turn amount
  rw [Word.ror, UInt32.toBitVec_or, BitVec.getLsbD_or, Word.getLsbD_shiftRight hlt,
    Word.getLsbD_shiftLeft (by omega) _ hi, hturn]
  by_cases hin : i + (amount &&& 31).toNat < 32
  · rw [Nat.mod_eq_of_lt hin, Nat.add_comm]
    by_cases hzero : (amount &&& 31).toNat = 0
    · rw [hzero, Nat.mod_self, Nat.sub_zero, decide_eq_true (Nat.zero_le i), Bool.true_and,
        Nat.add_zero, Bool.or_self]
    · rw [decide_eq_false (by omega), Bool.false_and, Bool.or_false]
  · have hfrom : i - (32 - (amount &&& 31).toNat) % 32 = (i + (amount &&& 31).toNat) % 32 := by
      omega
    rw [BitVec.getLsbD_of_ge _ _ (by omega), decide_eq_true (by omega), Bool.false_or,
      Bool.true_and, hfrom]

include hrd hrn

theorem step_shiftLeft : m.step (Instr.encode (.shiftLeft rd rn amount)) =
    some (m.put (regIndex rd) (m.w rn <<< (amount &&& 31)).toBitVec) := by
  have hlt := amount_lt amount
  have hr := toNat_turn amount
  have hs : (31 - (amount &&& 31)).toNat = 31 - (amount &&& 31).toNat :=
    UInt32.toNat_sub_of_le _ _ (UInt32.le_iff_toNat_le.mpr (Nat.le_of_lt_succ hlt))
  refine step_bitfield_eq hrd hrn (by omega) (by omega) fun i hi => ?_
  rw [Word.getLsbD_shiftLeft hlt _ hi, hs, hr, if_pos (by omega), Bool.and_comm]
  -- the bits that come around are those outside the field
  by_cases hk : (amount &&& 31).toNat ≤ i
  · have hfrom : (i + (32 - (amount &&& 31).toNat) % 32) % 32 = i - (amount &&& 31).toNat := by
      omega
    rw [hfrom, decide_eq_true hk, decide_eq_true (by omega)]
  · rw [decide_eq_false hk, decide_eq_false (by omega), Bool.and_false, Bool.and_false]

theorem step_shiftRight : m.step (Instr.encode (.shiftRight rd rn amount)) =
    some (m.put (regIndex rd) (m.w rn >>> (amount &&& 31)).toBitVec) := by
  have hlt := amount_lt amount
  refine step_bitfield_eq hrd hrn hlt (by decide) fun i hi => ?_
  show _ = if i < (31 + 32 - (amount &&& 31).toNat) % 32 + 1 then
    _ && decide ((i + (amount &&& 31).toNat) % 32 < 31 + 1) else _
  rw [Word.getLsbD_shiftRight hlt, Nat.add_comm, decide_eq_true (by omega), Bool.and_true]
  split
  · rw [Nat.mod_eq_of_lt (by omega)]
  · exact BitVec.getLsbD_of_ge _ _ (by omega)

theorem step_shiftRightSigned : m.step (Instr.encode (.shiftRightSigned rd rn amount)) =
    some (m.put (regIndex rd) (Word.sar (m.w rn) amount).toBitVec) := by
  have hlt := amount_lt amount
  refine step_bitfield_eq hrd hrn hlt (by decide) fun i hi => ?_
  show _ = if i < (31 + 32 - (amount &&& 31).toNat) % 32 + 1 then
    _ && decide ((i + (amount &&& 31).toNat) % 32 < 31 + 1) else _
  rw [getLsbD_sar amount _ hi, decide_eq_true (by omega), Bool.and_true, Bool.true_and]
  by_cases hin : i + (amount &&& 31).toNat < 32
  · rw [if_pos hin, if_pos (by omega), Nat.mod_eq_of_lt hin]
  · rw [if_neg hin, if_neg (by omega)]
    rfl

theorem step_rotate_eq : m.step (Instr.encode (.rotate rd rn amount)) =
    some (m.put (regIndex rd) (Word.ror (m.w rn) amount).toBitVec) := by
  have hlt := amount_lt amount
  have hamount : ((amount &&& 31).toBitVec.setWidth 6).toNat = (amount &&& 31).toNat :=
    toNat_setWidth_of_lt (Nat.lt_trans hlt (by decide))
  have hfields : ¬ ((0 : BitVec 2) ≠ 0 ∨ (0 : BitVec 1) = 1 ∨ ((0 : BitVec 1) = 1 ↔ 32 = 32) ∨
      32 ≤ (amount &&& 31).toNat) := by
    rintro (h | h | h | h)
    · exact h rfl
    · exact absurd h (by decide)
    · exact absurd h (by decide)
    · omega
  rw [step_rotate (lt_field hrd) (lt_field hrn), extract, hamount,
    if_neg hfields, read_reg hrn, write_reg hrd]
  refine congrArg (fun v => some (m.put (regIndex rd) v)) (BitVec.eq_of_getLsbD_eq fun i hi => ?_)
  rw [getLsbD_ror amount _ hi, BitVec.getLsbD_extractLsb', decide_eq_true hi, Bool.true_and,
    BitVec.getLsbD_append]
  split
  · rw [Nat.mod_eq_of_lt (by omega), Nat.add_comm]
  · congr 1
    omega

end

end Machine

/-! ## The main result -/

/-- The sequence can be put together, and laid down behind any code its instructions become words
that take every machine to one as stated. -/
def Computes (x : Sequence) (post : Machine → Machine → Prop) : Prop :=
  ∃ is, x = .ok is ∧ ∀ a : Assembler, ∃ ws : List Word, a.pushAll is = .ok (a.append ws) ∧
    ∀ m : Machine, ∃ m', m.run ws = some m' ∧ post m m'

theorem computes_of_run {x : Sequence} {post : Machine → Machine → Prop} (hplain : Plain x)
    (h : ∀ m : Machine, ∃ m', m.runSequence x = some m' ∧ post m m') : Computes x post := by
  obtain ⟨is, rfl, his⟩ := hplain
  exact ⟨is, rfl, fun _ => ⟨_, Assembler.pushAll_plain his, h⟩⟩

/-- One instruction that leaves a value. -/
theorem computes_of_step {i : Instr} {rd : Reg} {value : Machine → Word} (hplain : AllPlain [i])
    (h : ∀ m : Machine, m.step i.encode = some (m.put (regIndex rd) (value m).toBitVec)) :
    Computes (.ok [i]) fun m m' => m.Leaves m' rd (value m) [rd] :=
  computes_of_run (plain_ok hplain) fun m =>
    ⟨_, (Machine.runSequence_singleton _).trans (h m), Machine.leaves_put List.mem_cons_self⟩

theorem allPlain_shiftLeft (rd rn : Reg) (amount : Word) : AllPlain [.shiftLeft rd rn amount] := by
  have hlt := Machine.amount_lt amount
  have hr := Machine.toNat_turn amount
  have hs : (31 - (amount &&& 31)).toNat = 31 - (amount &&& 31).toNat :=
    UInt32.toNat_sub_of_le _ _ (UInt32.le_iff_toNat_le.mpr (Nat.le_of_lt_succ hlt))
  exact allPlain_bitfield (by omega) (by omega)

/-- **Operations with constants compute what they say.** For every constant the operation can be put
together, and on every machine its words can be carried out and leave the result. -/
theorem constants_compute {rd rn scratch : Reg} (hrd : rd ≤ 30) (hrn : rn ≤ 30)
    (hscratch : scratch ≤ 30) (hne : scratch ≠ rn) :
    -- moves
    (∀ c : Word, Computes (moveConst rd c) fun m m' => m.Leaves m' rd c [rd]) ∧
    (∀ c : UInt64, Computes (moveConst64 rd c) fun m m' =>
      m'.x rd = c ∧ m'.flags = m.flags ∧ m.Keeps m' [rd]) ∧
    -- sums and bitwise operations
    (∀ c : Word, Computes (addConst rd rn c scratch) fun m m' =>
      m.Leaves m' rd (m.w rn + c) [rd, scratch]) ∧
    (∀ c : Word, Computes (logicConst .and rd rn c scratch) fun m m' =>
      m.Leaves m' rd (m.w rn &&& c) [rd, scratch]) ∧
    (∀ c : Word, Computes (logicConst .orr rd rn c scratch) fun m m' =>
      m.Leaves m' rd (m.w rn ||| c) [rd, scratch]) ∧
    (∀ c : Word, Computes (logicConst .eor rd rn c scratch) fun m m' =>
      m.Leaves m' rd (m.w rn ^^^ c) [rd, scratch]) ∧
    -- comparisons
    (∀ c : Word, Computes (compareConst rn c scratch) fun m m' =>
      (Cond.holds m'.flags .eq = true ↔ m.w rn = c) ∧
      (Cond.holds m'.flags .lt = true ↔ Word.signed (m.w rn) < Word.signed c) ∧
      (Cond.holds m'.flags .lo = true ↔ m.w rn < c) ∧ m.Keeps m' [scratch]) ∧
    -- shifts
    (∀ amount : Word,
      Computes (.ok [.shiftLeft rd rn amount]) (fun m m' =>
        m.Leaves m' rd (m.w rn <<< (amount &&& 31)) [rd]) ∧
      Computes (.ok [.shiftRight rd rn amount]) (fun m m' =>
        m.Leaves m' rd (m.w rn >>> (amount &&& 31)) [rd]) ∧
      Computes (.ok [.shiftRightSigned rd rn amount]) (fun m m' =>
        m.Leaves m' rd (Word.sar (m.w rn) amount) [rd]) ∧
      Computes (.ok [.rotate rd rn amount]) (fun m m' =>
        m.Leaves m' rd (Word.ror (m.w rn) amount) [rd])) := by
  have hlt : ∀ {r : Reg}, r ≤ 30 → r.toNat < 31 := fun h =>
    Nat.lt_succ_of_le (UInt8.le_iff_toNat_le.mp h)
  have hrd := hlt hrd
  have hrn := hlt hrn
  have hscratch := hlt hscratch
  refine ⟨fun c => ?_, fun c => ?_, fun c => ?_, fun c => ?_, fun c => ?_, fun c => ?_, fun c => ?_,
    fun amount => ⟨?_, ?_, ?_, ?_⟩⟩
  · exact computes_of_run (plain_moveConst rd c) fun m =>
      ⟨_, Machine.run_moveConst hrd c, Machine.leaves_put List.mem_cons_self⟩
  · exact computes_of_run (plain_moveConst64 rd c) fun m =>
      ⟨_, Machine.run_moveConst64 hrd c, Machine.x_put c, rfl,
        Machine.keeps_put List.mem_cons_self _⟩
  · exact computes_of_run (plain_addConst rd rn c scratch) fun m =>
      Machine.run_addConst hrn hscratch hne hrd
  · exact computes_of_run (plain_logicConst .and rd rn c scratch) fun m =>
      Machine.run_logicConst hrn hscratch hne (by decide) hrd
  · exact computes_of_run (plain_logicConst .orr rd rn c scratch) fun m =>
      Machine.run_logicConst hrn hscratch hne (by decide) hrd
  · exact computes_of_run (plain_logicConst .eor rd rn c scratch) fun m =>
      Machine.run_logicConst hrn hscratch hne (by decide) hrd
  · refine computes_of_run (plain_compareConst rn c scratch) fun m => ?_
    obtain ⟨m', hrun, hflags, hkeeps⟩ := Machine.run_compareConst (m := m) (c := c) hrn hscratch hne
    obtain ⟨heq, hless, hlower⟩ := holds_addOrSub_true (x := (m.w rn).toBitVec) (y := c.toBitVec)
    rw [← hflags] at heq hless hlower
    exact ⟨m', hrun, heq.trans UInt32.toBitVec_inj, hless, hlower.trans UInt32.lt_iff_toNat_lt.symm,
      hkeeps⟩
  · exact computes_of_step (allPlain_shiftLeft rd rn amount) fun m =>
      Machine.step_shiftLeft hrd hrn amount
  · exact computes_of_step
      (allPlain_bitfield (Nat.lt_trans (Machine.amount_lt amount) (by decide)) (by decide)) fun m =>
      Machine.step_shiftRight hrd hrn amount
  · exact computes_of_step
      (allPlain_bitfield (Nat.lt_trans (Machine.amount_lt amount) (by decide)) (by decide)) fun m =>
      Machine.step_shiftRightSigned hrd hrn amount
  · exact computes_of_step rfl fun m => Machine.step_rotate_eq hrd hrn amount

/-- A sum that is spelled as a difference: five and minus two. -/
theorem constants_compute_difference :
    ∃ is, addConst 0 1 0xfffffffe 2 = .ok is ∧ ∃ ws : List Word,
      Assembler.pushAll {} is = .ok (Assembler.append {} ws) ∧
      ∃ m', Machine.run ⟨fun _ => 5, ⟨false, false, false, false⟩⟩ ws = some m' ∧ m'.w 0 = 3 := by
  obtain ⟨-, -, hadd, -⟩ := @constants_compute 0 1 2 (by decide) (by decide) (by decide) (by decide)
  obtain ⟨is, his, hlay⟩ := hadd 0xfffffffe
  obtain ⟨ws, hws, hrun⟩ := hlay {}
  obtain ⟨m', hm', hleaves⟩ := hrun ⟨fun _ => 5, ⟨false, false, false, false⟩⟩
  exact ⟨is, his, ws, hws, m', hm', hleaves.value.trans (by decide)⟩

end Dynarec.Aarch64
