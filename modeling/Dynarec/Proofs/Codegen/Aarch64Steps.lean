/-
What lowering to AArch64 is composed of.

However many opcodes there are, lowering an instruction does only a few things: it has the engine
map operands, set a slot or store everything, it lays down code that has no branches, and it leaves
the block. `Composed` says that a step does nothing else, counts the operands that it maps and lists
the branches that it lays down. What is true of these few things is then true of every instruction,
and the opcodes are gone through only once (`composed_lowerNative`).
-/
import Dynarec.Aarch64.Lower
import Dynarec.Proofs.Aarch64.Cells
import Dynarec.Proofs.Codegen.Fields

set_option autoImplicit false

namespace Dynarec.Aarch64

open Dynarec.Codegen Dynarec.Registers

/-! ## The branches of an exit -/

/-- The instructions of an exit to a constant address, up to its jump. -/
def exitStub (target : Word) : List Instr :=
  (setFieldConst target Guest.Layout.pc).toOption.getD [] ++ [.wide .movz false 0 1 0]

/-- A branch that skips an exit to a constant address, and the exit. -/
def skipCells (c : Cond) (target : Word) : List Cell :=
  .skip c.invert ((exitStub target).length + 1) :: (Cell.ofInstrs (exitStub target) ++ [.exit])

/-- Compare, and leave for a constant address on a condition. -/
def leaveIf (a b : Reg) (c : Cond) (target : Word) : LowerM Unit := do
  emit (.compare false a b)
  let st ← get
  let (skip, asm) ← st.asm.branch (.cond c.invert)
  set { st with asm := asm }
  exitTo target
  let st ← get
  set { st with asm := ← st.asm.resolve skip }

/-- The condition of a conditional exit. -/
def exitCondition : Opcode → Cond
  | .exitToConstIfEq => .eq
  | .exitToConstIfNeq => .ne
  | op => zeroCondition op

/-- The branches that an instruction is lowered to, with the code that one of them skips. -/
def branchCells (op : Opcode) (c : Word) : List Cell :=
  match op with
  | .exitToConst | .exitToReg | .exitToPC | .syscall => [.exit]
  | .exitToConstIfEq | .exitToConstIfNeq | .exitToConstIfGtZ | .exitToConstIfGeZ
  | .exitToConstIfLtZ | .exitToConstIfLeZ =>
    .skip (exitCondition op).invert ((exitStub c).length + 1)
      :: (Cell.ofInstrs (exitStub c) ++ [.exit])
  | _ => []

/-! ## Steps -/

/-- The step is put together from these. With `k` operands mapped before it no more than `m` are
after it, and no fifth is mapped. If `ok`, the slots that it names are of the kind that it takes
them for, and the branches that it lays down are those of `core`. -/
inductive Composed (ok : Prop) : {α : Type} → Nat → Nat → List Cell → LowerM α → Prop where
  | pure {α : Type} {k : Nat} (a : α) : Composed ok k k [] (pure a)
  | bind {α β : Type} {k m n : Nat} {core : List Cell} {op : LowerM α} {f : α → LowerM β}
      (hop : Composed ok k m [] op) (hf : ∀ a, Composed ok m n core (f a)) :
      Composed ok k n core (op >>= f)
  | mono {α : Type} {k m n : Nat} {core : List Cell} {op : LowerM α} (hop : Composed ok k m core op)
      (hle : m ≤ n) : Composed ok k n core op
  | read {α : Type} {k m : Nat} {core : List Cell} {f : LowerState → LowerM α}
      (hf : ∀ st, Composed ok k m core (f st)) : Composed ok k m core (get >>= f)
  | code {k : Nat} {x : Sequence} (hplain : Plain x) : Composed ok k k [] (emitSeq x)
  | leave {k : Nat} {c : Cell} {op : BranchOp} (hop : c.leave? = some op) :
      Composed ok k k [c] (branchToEpilogue op)
  | leaveIf {k : Nat} (a b : Reg) (c : Cond) (target : Word) :
      Composed ok k k (skipCells c target) (leaveIf a b c target)
  | operand {k : Nat} {q : Request} (hq : ok → q.Fits) (hk : k ≤ 3) :
      Composed ok k (k + 1) [] (withEngine q.run)
  | vector {k : Nat} {q : Request} (hq : ok → q.Fits) (hbank : q.bankOf = .fpr) (hk : k ≤ 3) :
      Composed ok k (k + 1) [] (withEngine q.run >>= fun r => vectorReg r)
  | knownValue {k : Nat} {s : Slot} (hs : ok → s < Slot.count) :
      Composed ok k k [] (withEngine (Registers.knownValue s))
  | setKnown {k : Nat} {s : Slot} (hs : ok → IntegerSlot s) (w : Word) :
      Composed ok k k [] (withEngine (Registers.setKnown s w))
  | flushAll {k : Nat} : Composed ok k k [] (withEngine Registers.flushAll)
  | missing {α : Type} {k m : Nat} {core : List Cell} (hok : ¬ ok) (target : String) (op : Opcode) :
      Composed ok k m core (violate (.noLowering target op) : LowerM α)

section

variable {α β : Type} {ok : Prop} {k m : Nat} {core : List Cell}

theorem emit_eq (i : Instr) : emit i = emitAll [i] := by
  unfold emit emitAll Assembler.pushAll
  simp only [List.foldlM_cons, List.foldlM_nil, bind_pure]

theorem emitAll_eq (is : List Instr) : emitAll is = emitSeq (.ok is) := rfl

theorem composed_emit {i : Instr} (hplain : i.isPlain = true) (hle : k ≤ m) :
    Composed ok k m [] (emit i) := by
  rw [emit_eq, emitAll_eq]
  exact .mono (.code (plain_ok (allPlain_cons.mpr ⟨hplain, rfl⟩))) hle

theorem composed_emitSeq {x : Sequence} (hplain : Plain x) (hle : k ≤ m) :
    Composed ok k m [] (emitSeq x) :=
  .mono (.code hplain) hle

theorem composed_emitAll {is : List Instr} (hplain : AllPlain is) (hle : k ≤ m) :
    Composed ok k m [] (emitAll is) :=
  composed_emitSeq (plain_ok hplain) hle

theorem composed_leave (result : UInt16) (hle : k ≤ m) : Composed ok k m [.exit] (leave result) :=
  .bind (composed_emit rfl hle) fun _ => .leave rfl

theorem composed_exitTo (target : Word) (hle : k ≤ m) : Composed ok k m [.exit] (exitTo target) :=
  .bind (composed_emitSeq (plain_setFieldConst _ _) hle) fun _ => composed_leave 1 (Nat.le_refl m)

/-! ## Operands -/

theorem composed_slot {s : Slot} {mode : Mode} (hs : ok → IntegerSlot s) (hk : k ≤ 3) :
    Composed ok k (k + 1) [] (gpr s mode) := by
  unfold gpr
  rw [map_eq_pure_bind]
  exact .bind (.operand (q := .integer s mode) hs hk) fun r => .pure _

theorem composed_gpr {r : UInt8} {mode : Mode} (h : ok → Names .gpr r) (hk : k ≤ 3) :
    Composed ok k (k + 1) [] (gpr r.toNat mode) :=
  composed_slot (fun hok => (h hok).integerSlot) hk

theorem composed_fpr {r : UInt8} {mode : Mode} (h : ok → Names .fpr r) (hk : k ≤ 3) :
    Composed ok k (k + 1) [] (fpr r mode) :=
  .vector (q := .float (Slot.ofFloat r) mode) (fun hok => (h hok).float mode) rfl hk

theorem composed_vec {r : UInt8} {mode : Mode} (h : ok → Names .vec4 r) (hk : k ≤ 3) :
    Composed ok k (k + 1) [] (vec r mode) :=
  .vector (q := .group (Slot.ofFloat r) mode) (fun hok => (h hok).group mode) rfl hk

theorem composed_freeValue {s : Slot} (hs : ok → s < Slot.count) :
    Composed ok k k [] (freeValue? s) :=
  .bind (.knownValue hs) fun _ => .read fun _ => .pure _

end

/-! ## Shapes of instructions -/

section

variable {ok : Prop} {i : Inst} {k m : Nat}

theorem composed_moveSlot {dest src : Slot} (hd : ok → IntegerSlot dest)
    (hs : ok → IntegerSlot src) : Composed ok 0 4 [] (moveSlot dest src) := by
  unfold moveSlot
  split
  · refine .bind (composed_freeValue fun hok => (hs hok).1) fun w => ?_
    cases w with
    | some w => exact .mono (.setKnown hd w) (by decide)
    | none =>
      exact .bind (composed_slot hs (by decide)) fun _ =>
        .bind (composed_slot hd (by decide)) fun _ => composed_emit rfl (by decide)
  · exact .mono (.pure _) (by decide)

theorem composed_binary {form : Reg → Reg → Reg → List Instr}
    (hform : ∀ d a b, AllPlain (form d a b)) (hd : ok → Names .gpr i.dest)
    (h₁ : ok → Names .gpr i.src1) (h₂ : ok → Names .gpr i.src2) :
    Composed ok 0 4 [] (binary i form) :=
  .bind (composed_gpr h₁ (by decide)) fun _ => .bind (composed_gpr h₂ (by decide)) fun _ =>
    .bind (composed_gpr hd (by decide)) fun _ => composed_emitAll (hform _ _ _) (by decide)

theorem composed_unary {form : Reg → Reg → Sequence} (hform : ∀ d s, Plain (form d s))
    (hd : ok → Names .gpr i.dest) (h₁ : ok → Names .gpr i.src1) :
    Composed ok 0 4 [] (unary i form) :=
  .bind (composed_gpr h₁ (by decide)) fun _ => .bind (composed_gpr hd (by decide)) fun _ =>
    composed_emitSeq (hform _ _) (by decide)

theorem composed_floatBinary {op : FpOp} (hd : ok → Names .fpr i.dest)
    (h₁ : ok → Names .fpr i.src1) (h₂ : ok → Names .fpr i.src2) :
    Composed ok 0 4 [] (floatBinary i op) :=
  .bind (composed_fpr h₁ (by decide)) fun _ => .bind (composed_fpr h₂ (by decide)) fun _ =>
    .bind (composed_fpr hd (by decide)) fun _ => composed_emit rfl (by decide)

theorem composed_floatUnary {form : Reg → Reg → Instr} (hform : ∀ d s, (form d s).isPlain = true)
    (hd : ok → Names .fpr i.dest) (h₁ : ok → Names .fpr i.src1) :
    Composed ok 0 4 [] (floatUnary i form) :=
  .bind (composed_fpr h₁ (by decide)) fun _ => .bind (composed_fpr hd (by decide)) fun _ =>
    composed_emit (hform _ _) (by decide)

theorem composed_vectorBinary {op : VecOp} (hd : ok → Names .vec4 i.dest)
    (h₁ : ok → Names .vec4 i.src1) (h₂ : ok → Names .vec4 i.src2) :
    Composed ok 0 4 [] (vectorBinary i op) :=
  .bind (composed_vec h₁ (by decide)) fun _ => .bind (composed_vec h₂ (by decide)) fun _ =>
    .bind (composed_vec hd (by decide)) fun _ => composed_emit rfl (by decide)

theorem composed_vectorUnary {form : Reg → Reg → List Instr} (hform : ∀ d s, AllPlain (form d s))
    (hd : ok → Names .vec4 i.dest) (h₁ : ok → Names .vec4 i.src1) :
    Composed ok 0 4 [] (vectorUnary i form) :=
  .bind (composed_vec h₁ (by decide)) fun _ => .bind (composed_vec hd (by decide)) fun _ =>
    composed_emitAll (hform _ _) (by decide)

theorem composed_conditionalMove {c : Cond} (hd : ok → Names .gpr i.dest)
    (h₁ : ok → Names .gpr i.src1) (h₂ : ok → Names .gpr i.src2) :
    Composed ok 0 4 [] (conditionalMove i c) :=
  .bind (composed_gpr h₁ (by decide)) fun _ => .bind (composed_gpr h₂ (by decide)) fun _ =>
    .bind (composed_gpr hd (by decide)) fun _ => composed_emitAll rfl (by decide)

theorem composed_multiply {isSigned : Bool} (h₁ : ok → Names .gpr i.src1)
    (h₂ : ok → Names .gpr i.src2) : Composed ok 0 4 [] (multiply i isSigned) := by
  have hlo : ok → IntegerSlot Slot.lo := fun _ => ⟨by decide, by decide⟩
  have hhi : ok → IntegerSlot Slot.hi := fun _ => ⟨by decide, by decide⟩
  exact .bind (composed_gpr h₁ (by decide)) fun _ => .bind (composed_gpr h₂ (by decide)) fun _ =>
    .bind (composed_slot hlo (by decide)) fun _ => .bind (composed_slot hhi (by decide)) fun _ =>
      composed_emitAll rfl (by decide)

theorem composed_placeOf {base : UInt8} {offset : Word} {op : MemOp} (h : ok → Names .gpr base)
    (hk : k ≤ 3) : Composed ok k (k + 1) [] (placeOf base.toNat offset op) := by
  refine .bind (composed_freeValue fun _ => base.toNat_lt) fun w => ?_
  cases w with
  | some w => exact .mono (.pure _) (Nat.le_succ k)
  | none =>
    -- a base that is kept as a pointer is used as one if the offset fits
    refine .read fun st => ?_
    split
    · exact .bind (.operand (q := .pointer base.toNat) (fun hok => (h hok).integerSlot) hk)
        fun _ => .pure _
    · exact .bind (composed_gpr h hk) fun _ => .pure _

theorem composed_load {offset : Word} {op : MemOp} {dest : LowerM Reg}
    (h₁ : ok → Names .gpr i.src1) (hdest : Composed ok 1 m [] dest) (hm : m ≤ 4) :
    Composed ok 0 4 [] (load i offset op dest) :=
  .bind (composed_placeOf h₁ (by decide)) fun _ => .bind hdest fun _ =>
    composed_emitSeq (plain_accessPlace _ _ _) hm

theorem composed_store {offset : Word} {op : MemOp} {value : LowerM Reg}
    (h₁ : ok → Names .gpr i.src1) (hvalue : Composed ok 0 m [] value) (hm : m ≤ 3) :
    Composed ok 0 4 [] (store i offset op value) :=
  .bind hvalue fun _ => .bind (composed_placeOf h₁ hm) fun _ =>
    composed_emitSeq (plain_accessPlace _ _ _) (Nat.succ_le_succ hm)

theorem composed_storedWord {s : UInt8} (h : ok → Names .gpr s) :
    Composed ok 0 1 [] (storedWord s.toNat) := by
  refine .bind (.knownValue fun _ => s.toNat_lt) fun w => ?_
  split
  · exact .mono (.pure _) (by decide)
  · exact composed_gpr h (by decide)

theorem composed_exitIf (target : Word) (h₁ : ok → Names .gpr i.src1)
    (h₂ : i.op = .exitToConstIfEq ∨ i.op = .exitToConstIfNeq → ok → Names .gpr i.src2) :
    Composed ok 0 4 (skipCells (exitCondition i.op) target) (exitIf i target) := by
  have hleave : ∀ a b c, Composed ok 2 4 (skipCells c target) (leaveIf a b c target) :=
    fun a b c => .mono (.leaveIf a b c target) (by decide)
  unfold exitIf
  refine .bind .flushAll fun _ => .bind (composed_gpr h₁ (by decide)) fun a => ?_
  split
  · rename_i hop
    rw [hop]
    exact .bind (composed_gpr (h₂ (Or.inl hop)) (by decide)) fun b => hleave a b .eq
  · rename_i hop
    rw [hop]
    exact .bind (composed_gpr (h₂ (Or.inr hop)) (by decide)) fun b => hleave a b .ne
  · rename_i heq hne
    have hzero : exitCondition i.op = zeroCondition i.op := by
      unfold exitCondition
      split
      · exact absurd ‹_› heq
      · exact absurd ‹_› hne
      · rfl
    rw [hzero]
    exact .mono (.leaveIf a zr _ target) (by decide)

end

/-! ## Opcodes -/

/-- The opcodes on float registers and vectors that have instructions. -/
def floatOpcodes : List Opcode :=
  [.setConstF, .fAdd, .fSub, .fMul, .fDiv, .fSqrt, .fNeg, .fAbs, .fMov, .fCvtSW, .fMovFromGPR,
   .fMovToGPR, .vec4Init, .vec4Shuffle, .vec4Mov, .vec4Add, .vec4Sub, .vec4Mul, .vec4Div,
   .vec4Scale, .vec4Neg, .vec4Abs]

/-- The opcodes that are neither arithmetic nor moves. -/
def otherOpcodes : List Opcode :=
  [.downcount, .setPC, .setPCConst, .movZ, .movNZ, .mult, .multU, .loadFloat, .loadVec4,
   .storeFloat, .storeVec4, .exitToConst, .exitToReg, .exitToConstIfEq, .exitToConstIfNeq,
   .exitToConstIfGtZ, .exitToConstIfGeZ, .exitToConstIfLtZ, .exitToConstIfLeZ, .exitToPC, .syscall]

theorem kinds_of_binaryForm {op : Opcode} {form : Reg → Reg → Reg → List Instr}
    (h : binaryForm? op = some form) : op.signature.dest = .gpr ∧ op.signature.src1 = .gpr ∧
      op.signature.src2 = .gpr ∧ ∀ c, branchCells op c = [] := by
  cases op <;> first | exact ⟨rfl, rfl, rfl, fun _ => rfl⟩ | exact nomatch h

theorem kinds_of_unaryForm {op : Opcode} {c k : Word} {form : Reg → Reg → Sequence}
    (h : unaryForm? op c k = some form) : op.signature.dest = .gpr ∧ op.signature.src1 = .gpr ∧
      ∀ c, branchCells op c = [] := by
  cases op <;> first | exact ⟨rfl, rfl, fun _ => rfl⟩ | exact nomatch h

theorem kinds_of_integerAccess {op : Opcode} {access : MemOp} (h : integerAccess? op = some access) :
    op.signature.dest = .gpr ∧ op.signature.src1 = .gpr ∧ ∀ c, branchCells op c = [] := by
  cases op <;> first | exact ⟨rfl, rfl, fun _ => rfl⟩ | exact nomatch h

theorem branchCells_of_slot {i : Inst} (h : slotConst? i ≠ none ∨ slotMove? i ≠ none) (c : Word) :
    branchCells i.op c = [] := by
  unfold slotConst? slotMove? at h
  cases hop : i.op <;> rw [hop] at h <;> first | rfl | exact h.elim (absurd rfl) (absurd rfl)

/-- An opcode with instructions of its own is in one of the parts of lowering. -/
theorem access_of_native {i : Inst} {c k : Word} (hnative : i.op.nativeOnAarch64 = true)
    (hnop : i.op ≠ .nop) (hconst : slotConst? i = none) (hmove : slotMove? i = none)
    (hbinary : binaryForm? i.op = none) (hunary : unaryForm? i.op c k = none) :
    integerAccess? i.op ≠ none ∨ i.op ∈ otherOpcodes ∨ i.op ∈ floatOpcodes := by
  unfold slotConst? at hconst
  unfold slotMove? at hmove
  cases hop : i.op <;> rw [hop] at hnative hnop hconst hmove hbinary hunary <;> first
    | exact Or.inr (by decide)
    | exact Or.inl (Option.some_ne_none _)
    | exact absurd hnative (by decide)
    | exact absurd rfl hnop
    | exact absurd hconst (Option.some_ne_none _)
    | exact absurd hmove (Option.some_ne_none _)
    | exact absurd hbinary (Option.some_ne_none _)
    | exact absurd hunary (Option.some_ne_none _)

/-- The instruction fits, and its opcode is lowered to instructions of the host. -/
structure HasCode (i : Inst) : Prop where
  fits : i.fits = true
  native : i.op.nativeOnAarch64 = true
  effective : i.op ≠ .nop

section

variable {ok : Prop} {i : Inst}

theorem composed_lowerFloat (hf : ok → i.fits = true) (hop : ok → i.op ∈ floatOpcodes) (c : Word) :
    Composed ok 0 4 (branchCells i.op c) (lowerFloat i c) := by
  unfold lowerFloat
  split
  all_goals rename_i hcase
  all_goals first
    | have hfields := names_of_op hf hcase
      obtain ⟨hd, h₁, h₂⟩ := hfields
      simp only [Opcode.signature] at hd h₁ h₂
      simp only [hcase, branchCells]
    | -- an opcode without a case is not on the list
      refine .missing (fun hok => ?_) _ _
      have hlisted := hop hok
      simp only [floatOpcodes, List.mem_cons, List.not_mem_nil, or_false] at hlisted
      tauto
  all_goals try first
    | with_reducible exact composed_floatBinary hd h₁ h₂
    | with_reducible exact composed_floatUnary (fun _ _ => rfl) hd h₁
    | with_reducible exact composed_vectorBinary hd h₁ h₂
  -- constants, moves between the classes and vectors have a shape of their own
  · refine .bind (composed_fpr hd (by decide)) fun f => ?_
    split
    · exact composed_emit rfl (by decide)
    · exact composed_emitSeq (plain_append (plain_moveConst _ _) rfl) (by decide)
  · exact .bind (composed_gpr h₁ (by decide)) fun _ =>
      .bind (composed_fpr hd (by decide)) fun _ => composed_emit rfl (by decide)
  · exact .bind (composed_fpr h₁ (by decide)) fun _ =>
      .bind (composed_gpr hd (by decide)) fun _ => composed_emit rfl (by decide)
  · exact .bind (composed_vec hd (by decide)) fun _ =>
      composed_emitSeq (plain_vectorPattern _ _) (by decide)
  · exact composed_vectorUnary (fun _ _ => allPlain_shuffle _ _ _) hd h₁
  · refine composed_vectorUnary (fun d s => ?_) hd h₁
    split <;> rfl
  · exact .bind (composed_vec h₁ (by decide)) fun _ => .bind (composed_fpr h₂ (by decide)) fun _ =>
      .bind (composed_vec hd (by decide)) fun _ => composed_emit rfl (by decide)
  · exact composed_vectorUnary (fun _ _ => rfl) hd h₁
  · exact composed_vectorUnary (fun _ _ => rfl) hd h₁

/-- The downcount is loaded, lowered and stored. -/
theorem plain_countDown (c : Word) :
    Plain (do
      return (← accessAt .ldrW scratch1 stateBase (UInt32.ofNat Guest.Layout.downcount) scratch2)
        ++ (← addConst scratch1 scratch1 (0 - c) scratch2)
        ++ (← accessAt .strW scratch1 stateBase (UInt32.ofNat Guest.Layout.downcount) scratch2)) :=
  plain_bind (plain_accessAt _ _ _ _ _) fun _ h₁ => plain_bind (plain_addConst _ _ _ _) fun _ h₂ =>
    plain_bind (plain_accessAt _ _ _ _ _) fun _ h₃ =>
      plain_ok (allPlain_append.mpr ⟨allPlain_append.mpr ⟨h₁, h₂⟩, h₃⟩)

theorem composed_lowerOther (hf : ok → i.fits = true)
    (hop : ok → i.op ∈ otherOpcodes ∨ i.op ∈ floatOpcodes) (c : Word) :
    Composed ok 0 4 (branchCells i.op c) (lowerOther i c) := by
  unfold lowerOther
  split
  all_goals rename_i hcase
  all_goals first
    | have hfields := names_of_op hf hcase
      obtain ⟨hd, h₁, h₂⟩ := hfields
      simp only [Opcode.signature] at hd h₁ h₂
      simp only [hcase, branchCells]
    | refine composed_lowerFloat hf (fun hok => ?_) c
      have hlisted := hop hok
      simp only [otherOpcodes, List.mem_cons, List.not_mem_nil, or_false] at hlisted
      tauto
  all_goals try first
    | with_reducible exact composed_conditionalMove hd h₁ h₂
    | with_reducible exact composed_multiply h₁ h₂
  -- the fields of the guest state
  · exact composed_emitSeq (plain_countDown c) (by decide)
  · exact .bind (composed_gpr h₁ (by decide)) fun _ =>
      composed_emitSeq (plain_setField _ _) (by decide)
  · exact composed_emitSeq (plain_setFieldConst _ _) (by decide)
  -- floats in memory
  · exact composed_load h₁ (composed_fpr hd (by decide)) (by decide)
  · exact composed_load h₁ (composed_vec hd (by decide)) (by decide)
  · exact composed_store h₁ (composed_fpr hd (by decide)) (by decide)
  · exact composed_store h₁ (composed_vec hd (by decide)) (by decide)
  -- the exits
  · exact .bind .flushAll fun _ => composed_exitTo c (by decide)
  · exact .bind .flushAll fun _ => .bind (composed_gpr h₁ (by decide)) fun _ =>
      .bind (composed_emitSeq (plain_setField _ _) (Nat.le_refl 1)) fun _ =>
        composed_leave 1 (by decide)
  iterate 2
    · have hexit := composed_exitIf c h₁ fun _ => h₂
      rwa [hcase] at hexit
  iterate 4
    · have hexit := composed_exitIf c h₁ fun h => by
        rcases h with h | h <;> cases hcase.symm.trans h
      rwa [hcase] at hexit
  · exact .bind .flushAll fun _ => composed_leave 1 (by decide)
  · exact .bind .flushAll fun _ =>
      .bind (composed_emitSeq (plain_setFieldConst _ _) (Nat.le_refl 0)) fun _ =>
        composed_leave 1 (by decide)

theorem composed_lowerAccess (hf : ok → i.fits = true)
    (hop : ok → integerAccess? i.op ≠ none ∨ i.op ∈ otherOpcodes ∨ i.op ∈ floatOpcodes) (c : Word) :
    Composed ok 0 4 (branchCells i.op c) (lowerAccess i c) := by
  unfold lowerAccess
  cases haccess : integerAccess? i.op with
  | none => exact composed_lowerOther hf (fun hok => (hop hok).resolve_left fun h => h haccess) c
  | some op =>
    obtain ⟨kd, k₁, hcells⟩ := kinds_of_integerAccess haccess
    obtain ⟨hd, h₁, -⟩ := names_of_op hf rfl
    rw [kd] at hd
    rw [k₁] at h₁
    rw [hcells]
    simp only
    split
    iterate 3
      · exact composed_store h₁ (composed_storedWord hd) (by decide)
    · exact composed_load h₁ (composed_gpr hd (by decide)) (by decide)

/-- **Lowering an instruction is composed of these steps**, and maps no more than four operands. Its
branches are those of its opcode if that has code. -/
theorem composed_lowerNative (i : Inst) (c : Word) :
    Composed (HasCode i) 0 4 (branchCells i.op c) (lowerNative i c) := by
  have hf : HasCode i → i.fits = true := HasCode.fits
  obtain ⟨hd, h₁, h₂⟩ := names_of_op hf rfl
  unfold lowerNative
  split
  · rename_i dest hdest
    rw [branchCells_of_slot (Or.inl (by rw [hdest]; exact nofun))]
    exact .mono (.setKnown (integerSlot_of_slotConst hf hdest) c) (by decide)
  · rename_i hconst
    split
    · rename_i dest src hmove
      obtain ⟨hdest, hsrc⟩ := integerSlots_of_slotMove hf hmove
      rw [branchCells_of_slot (Or.inr (by rw [hmove]; exact nofun))]
      exact composed_moveSlot hdest hsrc
    · rename_i hmove
      unfold lowerArithmetic
      split
      · rename_i form hform
        obtain ⟨kd, k₁, k₂, hcells⟩ := kinds_of_binaryForm hform
        rw [hcells]
        exact composed_binary (allPlain_binaryForm hform) (kd ▸ hd) (k₁ ▸ h₁) (k₂ ▸ h₂)
      · rename_i hbinary
        split
        · rename_i form hform
          obtain ⟨kd, k₁, hcells⟩ := kinds_of_unaryForm hform
          rw [hcells]
          exact composed_unary (plain_unaryForm hform) (kd ▸ hd) (k₁ ▸ h₁)
        · rename_i hunary
          exact composed_lowerAccess hf (fun hcode =>
            access_of_native hcode.native hcode.effective hconst hmove hbinary hunary) c

end

end Dynarec.Aarch64
