/-
What lowering to x86-64 is composed of.

However many opcodes there are, lowering an instruction does only a few things: it has the engine
map operands, set a slot or store everything, it lays down code, and it leaves the block. `Composed`
says that a step does nothing else, and counts the slots that it locks on the way. What is true of
these few things is then true of every instruction, and the opcodes are gone through only once
(`composed_lowerNative`).
-/
import Dynarec.Amd64.Lower
import Dynarec.Proofs.Codegen.Fields

set_option autoImplicit false

namespace Dynarec.Amd64

open Dynarec.Codegen Dynarec.Registers

/-- Skip an exit to a constant address on a condition. -/
def skipping (c : Cond) (target : Word) : LowerM Unit := do
  let st ← get
  let (skip, asm) := st.asm.newLabel
  set { st with asm := asm.branch (some c) skip }
  exitTo target
  modify fun st => { st with asm := st.asm.place skip }

/-- The step is put together from these. With `n` slots locked before it no more than `m` are locked
after it, and an operand is mapped where two registers of its class are left. If `ok`, the slots
that the step names are of the kind that it takes them for. -/
inductive Composed (ok : Prop) : {α : Type} → Nat → Nat → LowerM α → Prop where
  | pure {α : Type} {n : Nat} (a : α) : Composed ok n n (pure a)
  | bind {α β : Type} {n m k : Nat} {op : LowerM α} {f : α → LowerM β} (hop : Composed ok n m op)
      (hf : ∀ a, Composed ok m k (f a)) : Composed ok n k (op >>= f)
  | mono {α : Type} {n m k : Nat} {op : LowerM α} (hop : Composed ok n m op) (hle : m ≤ k) :
      Composed ok n k op
  | read {α : Type} {n m : Nat} {f : LowerState → LowerM α} (hf : ∀ st, Composed ok n m (f st)) :
      Composed ok n m (get >>= f)
  | code {n : Nat} (is : List Instr) : Composed ok n n (emitAll is)
  | leave {n : Nat} (c : Option Cond) : Composed ok n n (branchToEpilogue c)
  | skip {n : Nat} (c : Cond) (target : Word) : Composed ok n n (skipping c target)
  | integer {n : Nat} {q : Request} (hq : ok → q.Fits) (hbank : q.bankOf = .gpr)
      (hroom : n + q.width + 1 < 10) :
      Composed ok n (n + q.width) (withEngine q.run >>= fun r => integerReg r)
  | vector {n : Nat} {q : Request} (hq : ok → q.Fits) (hbank : q.bankOf = .fpr)
      (hroom : n + q.width + 1 < 14) :
      Composed ok n (n + q.width) (withEngine q.run >>= fun r => vectorReg r)
  | knownValue {n : Nat} {s : Slot} (hs : ok → s < Slot.count) :
      Composed ok n n (withEngine (Registers.knownValue s))
  | setKnown {n : Nat} {s : Slot} (hs : ok → IntegerSlot s) (w : Word) :
      Composed ok n (n + 1) (withEngine (Registers.setKnown s w))
  | flushAll {n : Nat} : Composed ok n n (withEngine Registers.flushAll)
  | missing {α : Type} {n m : Nat} (hok : ¬ ok) (target : String) (op : Opcode) :
      Composed ok n m (violate (.noLowering target op) : LowerM α)

section

variable {α β : Type} {ok : Prop} {n m : Nat}

theorem composed_map {op : LowerM α} {f : α → β} (hop : Composed ok n m op) :
    Composed ok n m (f <$> op) := by
  rw [map_eq_pure_bind]
  exact .bind hop fun a => .pure _

theorem emit_eq (i : Instr) : emit i = emitAll [i] := rfl

theorem composed_emitAll (is : List Instr) (hle : n ≤ m) : Composed ok n m (emitAll is) :=
  .mono (.code is) hle

theorem composed_emit (i : Instr) (hle : n ≤ m) : Composed ok n m (emit i) :=
  composed_emitAll [i] hle

theorem composed_leave (result : Word) (hle : n ≤ m) : Composed ok n m (leave result) :=
  .bind (composed_emit _ hle) fun _ => .leave _

theorem composed_exitTo (target : Word) (hle : n ≤ m) : Composed ok n m (exitTo target) :=
  .bind (composed_emit _ hle) fun _ => composed_leave _ (Nat.le_refl m)

/-! ## Operands -/

theorem composed_slot {s : Slot} {mode : Mode} (hs : ok → IntegerSlot s) (hn : n ≤ 7) :
    Composed ok n (n + 1) (gpr s mode) :=
  .integer (q := .integer s mode) hs rfl (show n + 1 + 1 < 10 by omega)

theorem composed_gpr {r : UInt8} {mode : Mode} (h : ok → Names .gpr r) (hn : n ≤ 7) :
    Composed ok n (n + 1) (gpr r.toNat mode) :=
  composed_slot (fun hok => (h hok).integerSlot) hn

theorem composed_fpr {r : UInt8} {mode : Mode} (h : ok → Names .fpr r) (hn : n ≤ 11) :
    Composed ok n (n + 1) (fpr r mode) :=
  .vector (q := .float (Slot.ofFloat r) mode) (fun hok => (h hok).float mode) rfl
    (show n + 1 + 1 < 14 by omega)

theorem composed_vec {r : UInt8} {mode : Mode} (h : ok → Names .vec4 r) (hn : n ≤ 8) :
    Composed ok n (n + 4) (vec r mode) :=
  .vector (q := .group (Slot.ofFloat r) mode) (fun hok => (h hok).group mode) rfl
    (show n + 4 + 1 < 14 by omega)

theorem composed_freeValue {s : Slot} (hs : ok → s < Slot.count) :
    Composed ok n n (freeValue? s) :=
  .bind (.knownValue hs) fun _ => .read fun _ => .pure _

end

/-! ## Shapes of instructions -/

section

variable {ok : Prop} {i : Inst} {n m : Nat}

theorem composed_moveSlot {dest src : Slot} (hd : ok → IntegerSlot dest)
    (hs : ok → IntegerSlot src) : Composed ok 0 12 (moveSlot dest src) := by
  unfold moveSlot
  split
  · refine .bind (composed_freeValue fun hok => (hs hok).1) fun w => ?_
    cases w with
    | some w => exact .mono (.setKnown hd w) (by decide)
    | none =>
      exact .bind (composed_slot hs (by decide)) fun _ =>
        .bind (composed_slot hd (by decide)) fun _ => composed_emit _ (by decide)
  · exact .mono (.pure _) (by decide)

theorem composed_binary {form : Reg → Reg → Reg → List Instr} (hd : ok → Names .gpr i.dest)
    (h₁ : ok → Names .gpr i.src1) (h₂ : ok → Names .gpr i.src2) :
    Composed ok 0 12 (binary i form) :=
  .bind (composed_gpr h₁ (by decide)) fun _ => .bind (composed_gpr h₂ (by decide)) fun _ =>
    .bind (composed_gpr hd (by decide)) fun _ => composed_emitAll _ (by decide)

theorem composed_unary {form : Reg → Reg → List Instr} (hd : ok → Names .gpr i.dest)
    (h₁ : ok → Names .gpr i.src1) : Composed ok 0 12 (unary i form) :=
  .bind (composed_gpr h₁ (by decide)) fun _ => .bind (composed_gpr hd (by decide)) fun _ =>
    composed_emitAll _ (by decide)

theorem composed_floatBinary {op : SseOp} (hd : ok → Names .fpr i.dest)
    (h₁ : ok → Names .fpr i.src1) (h₂ : ok → Names .fpr i.src2) :
    Composed ok 0 12 (floatBinary i op) :=
  .bind (composed_fpr h₁ (by decide)) fun _ => .bind (composed_fpr h₂ (by decide)) fun _ =>
    .bind (composed_fpr hd (by decide)) fun _ => composed_emitAll _ (by decide)

theorem composed_floatUnary {form : Reg → Reg → List Instr} (hd : ok → Names .fpr i.dest)
    (h₁ : ok → Names .fpr i.src1) : Composed ok 0 12 (floatUnary i form) :=
  .bind (composed_fpr h₁ (by decide)) fun _ => .bind (composed_fpr hd (by decide)) fun _ =>
    composed_emitAll _ (by decide)

theorem composed_vectorBinary {op : SseOp} (hd : ok → Names .vec4 i.dest)
    (h₁ : ok → Names .vec4 i.src1) (h₂ : ok → Names .vec4 i.src2) :
    Composed ok 0 12 (vectorBinary i op) :=
  .bind (composed_vec h₁ (by decide)) fun _ => .bind (composed_vec h₂ (by decide)) fun _ =>
    .bind (composed_vec hd (by decide)) fun _ => composed_emitAll _ (by decide)

theorem composed_vectorUnary {form : Reg → Reg → List Instr} (hd : ok → Names .vec4 i.dest)
    (h₁ : ok → Names .vec4 i.src1) : Composed ok 0 12 (vectorUnary i form) :=
  .bind (composed_vec h₁ (by decide)) fun _ => .bind (composed_vec hd (by decide)) fun _ =>
    composed_emitAll _ (by decide)

theorem composed_conditionalMove {c : Cond} (hd : ok → Names .gpr i.dest)
    (h₁ : ok → Names .gpr i.src1) (h₂ : ok → Names .gpr i.src2) :
    Composed ok 0 12 (conditionalMove i c) :=
  .bind (composed_gpr h₁ (by decide)) fun _ => .bind (composed_gpr h₂ (by decide)) fun _ =>
    .bind (composed_gpr hd (by decide)) fun _ => composed_emitAll _ (by decide)

theorem composed_multiply {isSigned : Bool} (h₁ : ok → Names .gpr i.src1)
    (h₂ : ok → Names .gpr i.src2) : Composed ok 0 12 (multiply i isSigned) := by
  have hlo : ok → IntegerSlot Slot.lo := fun _ => ⟨by decide, by decide⟩
  have hhi : ok → IntegerSlot Slot.hi := fun _ => ⟨by decide, by decide⟩
  exact .bind (composed_gpr h₁ (by decide)) fun _ => .bind (composed_gpr h₂ (by decide)) fun _ =>
    .bind (composed_slot hlo (by decide)) fun _ => .bind (composed_slot hhi (by decide)) fun _ =>
      composed_emitAll _ (by decide)

theorem composed_placeOf {base : UInt8} {offset : Word} (h : ok → Names .gpr base) (hn : n ≤ 7) :
    Composed ok n (n + 1) (placeOf base.toNat offset) := by
  refine .bind (composed_freeValue fun _ => base.toNat_lt) fun w => ?_
  cases w with
  | some w => exact .mono (.pure _) (Nat.le_succ n)
  | none => exact .bind (composed_gpr h hn) fun _ => .pure _

theorem composed_load {offset : Word} {dest : LowerM Reg} {form : Reg → Instr}
    (h₁ : ok → Names .gpr i.src1) (hdest : Composed ok 1 m dest) (hm : m ≤ 12) :
    Composed ok 0 12 (load i offset dest form) :=
  .bind (composed_placeOf h₁ (by decide)) fun _ => .bind hdest fun _ => composed_emitAll _ hm

theorem composed_store {offset : Word} {value : LowerM Instr} (h₁ : ok → Names .gpr i.src1)
    (hvalue : Composed ok 0 m value) (hm : m ≤ 7) : Composed ok 0 12 (store i offset value) :=
  .bind hvalue fun _ => .bind (composed_placeOf h₁ hm) fun _ =>
    composed_emitAll _ (Nat.le_trans (Nat.succ_le_succ hm) (by decide))

theorem composed_storedWord {s : UInt8} {size : Size} (h : ok → Names .gpr s) :
    Composed ok 0 1 (storedWord s.toNat size) := by
  refine .bind (composed_freeValue fun _ => s.toNat_lt) fun w => ?_
  cases w with
  | some w => exact .mono (.pure _) (by decide)
  | none => exact .bind (composed_gpr h (by decide)) fun _ => .pure _

theorem composed_exitIf (target : Word) (h₁ : ok → Names .gpr i.src1)
    (h₂ : i.op = .exitToConstIfEq ∨ i.op = .exitToConstIfNeq → ok → Names .gpr i.src2) :
    Composed ok 0 12 (exitIf i target) := by
  have hskip : Composed ok 12 12 (skipping (skipCondition i.op) target) := .skip _ target
  unfold exitIf
  refine .bind .flushAll fun _ => .bind (composed_gpr h₁ (by decide)) fun a => ?_
  split
  · rename_i hop
    exact .bind (composed_gpr (h₂ (Or.inl hop)) (by decide)) fun b =>
      .bind (composed_emit _ (by decide)) fun _ => hskip
  · rename_i hop
    exact .bind (composed_gpr (h₂ (Or.inr hop)) (by decide)) fun b =>
      .bind (composed_emit _ (by decide)) fun _ => hskip
  · exact .bind (composed_emit _ (by decide)) fun _ => hskip

end

/-! ## Opcodes -/

/-- The opcodes on float registers and vectors that have instructions. -/
def floatOpcodes : List Opcode :=
  [.setConstF, .fAdd, .fSub, .fDiv, .fSqrt, .fNeg, .fAbs, .fMov, .fCvtSW, .fMovFromGPR, .fMovToGPR,
   .vec4Init, .vec4Shuffle, .vec4Mov, .vec4Add, .vec4Sub, .vec4Mul, .vec4Div, .vec4Scale, .vec4Neg,
   .vec4Abs]

/-- The opcodes that are neither arithmetic nor moves nor memory accesses. -/
def otherOpcodes : List Opcode :=
  [.downcount, .setPC, .setPCConst, .movZ, .movNZ, .mult, .multU, .exitToConst, .exitToReg,
   .exitToConstIfEq, .exitToConstIfNeq, .exitToConstIfGtZ, .exitToConstIfGeZ, .exitToConstIfLtZ,
   .exitToConstIfLeZ, .exitToPC, .syscall]

/-- The loads and stores. -/
def accessOpcodes : List Opcode :=
  [.load8, .load8Ext, .load16, .load16Ext, .load32, .loadFloat, .loadVec4, .store8, .store16,
   .store32, .storeFloat, .storeVec4]

/-- An opcode with instructions of its own is in one of the parts of lowering. -/
theorem access_of_native {i : Inst} {c : Word} {k : UInt8} (hnative : i.op.nativeOnAmd64 = true)
    (hnop : i.op ≠ .nop) (hconst : slotConst? i = none) (hmove : slotMove? i = none)
    (hbinary : binaryForm? i.op = none) (hunary : unaryForm? i.op c k = none) :
    i.op ∈ accessOpcodes ∨ i.op ∈ otherOpcodes ∨ i.op ∈ floatOpcodes := by
  unfold slotConst? at hconst
  unfold slotMove? at hmove
  cases hop : i.op <;> rw [hop] at hnative hnop hconst hmove hbinary hunary <;> first
    | decide
    | exact absurd hnative (by decide)
    | exact absurd rfl hnop
    | exact absurd hconst (Option.some_ne_none _)
    | exact absurd hmove (Option.some_ne_none _)
    | exact absurd hbinary (Option.some_ne_none _)
    | exact absurd hunary (Option.some_ne_none _)

/-- The instruction fits, and its opcode is lowered to instructions of the host. -/
structure HasCode (i : Inst) : Prop where
  fits : i.fits = true
  native : i.op.nativeOnAmd64 = true
  effective : i.op ≠ .nop

theorem kinds_of_binaryForm {op : Opcode} {form : Reg → Reg → Reg → List Instr}
    (h : binaryForm? op = some form) : op.signature.dest = .gpr ∧ op.signature.src1 = .gpr ∧
      op.signature.src2 = .gpr := by
  cases op <;> first | exact ⟨rfl, rfl, rfl⟩ | exact nomatch h

theorem kinds_of_unaryForm {op : Opcode} {c : Word} {k : UInt8} {form : Reg → Reg → List Instr}
    (h : unaryForm? op c k = some form) : op.signature.dest = .gpr ∧ op.signature.src1 = .gpr := by
  cases op <;> first | exact ⟨rfl, rfl⟩ | exact nomatch h

section

variable {ok : Prop} {i : Inst} (hf : ok → i.fits = true) (c : Word)

include hf

theorem composed_lowerFloat (hlisted : ok → i.op ∈ floatOpcodes) :
    Composed ok 0 12 (lowerFloat i c) := by
  unfold lowerFloat
  split
  all_goals rename_i hop
  all_goals first
    | have hfields := names_of_op hf hop
      obtain ⟨hd, h₁, h₂⟩ := hfields
      simp only [Opcode.signature] at hd h₁ h₂
    | -- an opcode without a case is not on the list
      refine .missing (fun hok => ?_) _ _
      have hlisted := hlisted hok
      simp only [floatOpcodes, List.mem_cons, List.not_mem_nil, or_false] at hlisted
      tauto
  all_goals try first
    | with_reducible exact composed_floatBinary hd h₁ h₂
    | with_reducible exact composed_floatUnary hd h₁
    | with_reducible exact composed_vectorBinary hd h₁ h₂
    | with_reducible exact composed_vectorUnary hd h₁
  -- constants, moves between the classes and the product with a float have a shape of their own
  · exact .bind (composed_fpr hd (by decide)) fun _ => composed_emitAll _ (by decide)
  · exact .bind (composed_gpr h₁ (by decide)) fun _ =>
      .bind (composed_fpr hd (by decide)) fun _ => composed_emit _ (by decide)
  · exact .bind (composed_fpr h₁ (by decide)) fun _ =>
      .bind (composed_gpr hd (by decide)) fun _ => composed_emit _ (by decide)
  · exact .bind (composed_vec hd (by decide)) fun _ => composed_emitAll _ (by decide)
  · exact .bind (composed_vec h₁ (by decide)) fun _ => .bind (composed_fpr h₂ (by decide)) fun _ =>
      .bind (composed_vec hd (by decide)) fun _ => composed_emitAll _ (by decide)

theorem composed_lowerOther (hlisted : ok → i.op ∈ otherOpcodes ∨ i.op ∈ floatOpcodes) :
    Composed ok 0 12 (lowerOther i c) := by
  unfold lowerOther
  split
  all_goals rename_i hop
  all_goals first
    | have hfields := names_of_op hf hop
      obtain ⟨hd, h₁, h₂⟩ := hfields
      simp only [Opcode.signature] at hd h₁ h₂
    | refine composed_lowerFloat hf c fun hok => ?_
      have hlisted := hlisted hok
      simp only [otherOpcodes, List.mem_cons, List.not_mem_nil, or_false] at hlisted
      tauto
  all_goals try first
    | with_reducible exact composed_emit _ (by decide)
    | with_reducible exact composed_conditionalMove hd h₁ h₂
    | with_reducible exact composed_multiply h₁ h₂
    | with_reducible exact composed_exitIf c h₁ fun _ => h₂
    | with_reducible exact composed_exitIf c h₁ fun h => by
                             rcases h with h | h <;> cases hop.symm.trans h
  -- the program counter from a register, and the exits without a condition
  · exact .bind (composed_gpr h₁ (by decide)) fun _ => composed_emit _ (by decide)
  · exact .bind .flushAll fun _ => composed_exitTo c (by decide)
  · exact .bind .flushAll fun _ => .bind (composed_gpr h₁ (by decide)) fun _ =>
      .bind (composed_emit _ (Nat.le_refl 1)) fun _ => composed_leave 1 (by decide)
  · exact .bind .flushAll fun _ => composed_leave 1 (by decide)
  · exact .bind .flushAll fun _ => .bind (composed_emit _ (Nat.le_refl 0)) fun _ =>
      composed_leave 1 (by decide)

theorem composed_lowerAccess
    (hlisted : ok → i.op ∈ accessOpcodes ∨ i.op ∈ otherOpcodes ∨ i.op ∈ floatOpcodes) :
    Composed ok 0 12 (lowerAccess i c) := by
  unfold lowerAccess
  split
  all_goals rename_i hop
  all_goals first
    | have hfields := names_of_op hf hop
      obtain ⟨hd, h₁, -⟩ := hfields
      simp only [Opcode.signature] at hd h₁
    | refine composed_lowerOther hf c fun hok => ?_
      have hlisted := hlisted hok
      simp only [accessOpcodes, List.mem_cons, List.not_mem_nil, or_false] at hlisted
      tauto
  -- loads of the three classes, and then stores
  iterate 5
    · exact composed_load h₁ (composed_gpr hd (by decide)) (by decide)
  · exact composed_load h₁ (composed_fpr hd (by decide)) (by decide)
  · exact composed_load h₁ (composed_vec hd (by decide)) (by decide)
  iterate 3
    · exact composed_store h₁ (composed_storedWord hd) (by decide)
  · exact composed_store h₁ (composed_map (composed_fpr hd (by decide))) (by decide)
  · exact composed_store h₁ (composed_map (composed_vec hd (by decide))) (by decide)

end

/-- **Lowering an instruction is composed of these steps**, and locks no more than twelve slots. -/
theorem composed_lowerNative (i : Inst) (c : Word) :
    Composed (HasCode i) 0 12 (lowerNative i c) := by
  have hf : HasCode i → i.fits = true := HasCode.fits
  obtain ⟨hd, h₁, h₂⟩ := names_of_op hf rfl
  unfold lowerNative
  split
  · rename_i dest hdest
    exact .mono (.setKnown (integerSlot_of_slotConst hf hdest) c) (by decide)
  · rename_i hconst
    split
    · rename_i dest src hmove
      obtain ⟨hdest, hsrc⟩ := integerSlots_of_slotMove hf hmove
      exact composed_moveSlot hdest hsrc
    · rename_i hmove
      unfold lowerArithmetic
      split
      · rename_i form hform
        obtain ⟨kd, k₁, k₂⟩ := kinds_of_binaryForm hform
        exact composed_binary (kd ▸ hd) (k₁ ▸ h₁) (k₂ ▸ h₂)
      · rename_i hbinary
        split
        · rename_i form hform
          obtain ⟨kd, k₁⟩ := kinds_of_unaryForm hform
          exact composed_unary (kd ▸ hd) (k₁ ▸ h₁)
        · rename_i hunary
          exact composed_lowerAccess hf c fun hcode =>
            access_of_native hcode.native hcode.effective hconst hmove hbinary hunary

end Dynarec.Amd64
