/-
What the operand bytes of each opcode mean.

Every consumer of an instruction reads its three bytes through the signature of the opcode: the
kind of each field, whether the destination field is written, read, or both, which special slots
are touched without being named, and whether the instruction may leave the block. Besides the
table this file gives the two ways an operation on registers has a cheaper form with a known
operand.

The table is `metadata`, and the cheaper forms are `to_const_form` and `to_imm_shift`.
-/
import Dynarec.Opcode
import Dynarec.Slot

set_option autoImplicit false

namespace Dynarec

/-- What an operand field holds. -/
inductive OperandKind where
  /-- Nothing; the byte is ignored. -/
  | unused
  /-- An integer slot. -/
  | gpr
  /-- A float register number. -/
  | fpr
  /-- The number of the first of four consecutive float registers. -/
  | vec4
  /-- A position in the constant pool. -/
  | const
  /-- The operand itself. -/
  | imm
  /-- A vector control register number. -/
  | vfpuCtrl
  deriving DecidableEq, Repr

/-- What happens to the register named in the destination field. -/
inductive DestRole where
  /-- It is overwritten. -/
  | result
  /-- It is only read: the field is a third source. -/
  | source
  /-- It is read and then overwritten. -/
  | update
  deriving DecidableEq, Repr

/-- The operand kinds of an opcode and its effects beyond them. -/
structure Signature where
  dest : OperandKind
  src1 : OperandKind
  src2 : OperandKind
  role : DestRole := .result
  /-- The instruction may leave the block. -/
  isExit : Bool := false
  /-- The instruction has effects outside the register file and memory. -/
  isBarrier : Bool := false
  /-- Slots read without being named in a field. -/
  implicitReads : List Slot := []
  /-- Slots written without being named in a field. -/
  implicitWrites : List Slot := []
  deriving DecidableEq, Repr

/-- The effects of a signature as one number: 1 for a source destination, 2 for an updated one, 4
for an exit, 8 for a barrier. -/
def Signature.flagBits (s : Signature) : Nat :=
  (match s.role with | .result => 0 | .source => 1 | .update => 2)
    + (if s.isExit then 4 else 0) + (if s.isBarrier then 8 else 0)

namespace Opcode

/-- The signature of each opcode. -/
def signature : Opcode → Signature
  | .nop =>
    { dest := .unused, src1 := .unused, src2 := .unused }
  | .mov | .neg | .not | .ext8to32 | .ext16to32 | .bSwap16 | .bSwap32 | .clz | .reverseBits =>
    { dest := .gpr, src1 := .gpr, src2 := .unused }
  | .setConst =>
    { dest := .gpr, src1 := .const, src2 := .unused }
  | .setConstF =>
    { dest := .fpr, src1 := .const, src2 := .unused }
  | .downcount | .setPCConst =>
    { dest := .const, src1 := .unused, src2 := .unused }
  | .setPC =>
    { dest := .unused, src1 := .gpr, src2 := .unused }
  | .add | .sub | .and | .or | .xor | .shl | .shr | .sar | .ror | .slt | .sltU | .max | .min =>
    { dest := .gpr, src1 := .gpr, src2 := .gpr }
  | .addConst | .subConst | .andConst | .orConst | .xorConst | .sltConst | .sltUConst | .load8
  | .load8Ext | .load16 | .load16Ext | .load32 =>
    { dest := .gpr, src1 := .gpr, src2 := .const }
  | .shlImm | .shrImm | .sarImm | .rorImm =>
    { dest := .gpr, src1 := .gpr, src2 := .imm }
  | .movZ | .movNZ =>
    { dest := .gpr, src1 := .gpr, src2 := .gpr, role := .update }
  | .mtLo =>
    { dest := .unused, src1 := .gpr, src2 := .unused, implicitWrites := [Slot.lo] }
  | .mtHi =>
    { dest := .unused, src1 := .gpr, src2 := .unused, implicitWrites := [Slot.hi] }
  | .mfLo =>
    { dest := .gpr, src1 := .unused, src2 := .unused, implicitReads := [Slot.lo] }
  | .mfHi =>
    { dest := .gpr, src1 := .unused, src2 := .unused, implicitReads := [Slot.hi] }
  | .mult | .multU | .div | .divU =>
    { dest := .unused, src1 := .gpr, src2 := .gpr, implicitWrites := [Slot.lo, Slot.hi] }
  | .madd | .maddU | .msub | .msubU =>
    { dest := .unused, src1 := .gpr, src2 := .gpr,
      implicitReads := [Slot.lo, Slot.hi], implicitWrites := [Slot.lo, Slot.hi] }
  | .load32Left | .load32Right =>
    { dest := .gpr, src1 := .gpr, src2 := .const, role := .update }
  | .load32Linked =>
    { dest := .gpr, src1 := .gpr, src2 := .const, implicitWrites := [Slot.llBit] }
  | .loadFloat =>
    { dest := .fpr, src1 := .gpr, src2 := .const }
  | .loadVec4 =>
    { dest := .vec4, src1 := .gpr, src2 := .const }
  | .store8 | .store16 | .store32 | .store32Left | .store32Right =>
    { dest := .gpr, src1 := .gpr, src2 := .const, role := .source }
  | .store32Conditional =>
    { dest := .gpr, src1 := .gpr, src2 := .const,
      role := .update, implicitReads := [Slot.llBit] }
  | .storeFloat =>
    { dest := .fpr, src1 := .gpr, src2 := .const, role := .source }
  | .storeVec4 =>
    { dest := .vec4, src1 := .gpr, src2 := .const, role := .source }
  | .fAdd | .fSub | .fMul | .fDiv | .fMin | .fMax =>
    { dest := .fpr, src1 := .fpr, src2 := .fpr }
  | .fSqrt | .fNeg | .fAbs | .fMov | .fRound | .fTrunc | .fCeil | .fFloor | .fCvtSW =>
    { dest := .fpr, src1 := .fpr, src2 := .unused }
  | .fCvtWS =>
    { dest := .fpr, src1 := .fpr, src2 := .unused, implicitReads := [Slot.fcr31] }
  | .fCmp =>
    { dest := .imm, src1 := .fpr, src2 := .fpr, implicitWrites := [Slot.fpCond] }
  | .fMovFromGPR =>
    { dest := .fpr, src1 := .gpr, src2 := .unused }
  | .fMovToGPR =>
    { dest := .gpr, src1 := .fpr, src2 := .unused }
  | .fpCondFromReg =>
    { dest := .unused, src1 := .gpr, src2 := .unused, implicitWrites := [Slot.fpCond] }
  | .fpCondToReg =>
    { dest := .gpr, src1 := .unused, src2 := .unused, implicitReads := [Slot.fpCond] }
  | .setCtrlVFPU =>
    { dest := .vfpuCtrl, src1 := .const, src2 := .unused }
  | .setCtrlVFPUReg =>
    { dest := .vfpuCtrl, src1 := .gpr, src2 := .unused }
  | .vec4Init =>
    { dest := .vec4, src1 := .imm, src2 := .unused }
  | .vec4Shuffle =>
    { dest := .vec4, src1 := .vec4, src2 := .imm }
  | .vec4Blend =>
    { dest := .vec4, src1 := .vec4, src2 := .imm, role := .update }
  | .vec4Mov | .vec4Neg | .vec4Abs | .vec4ClampToZero =>
    { dest := .vec4, src1 := .vec4, src2 := .unused }
  | .vec4Add | .vec4Sub | .vec4Mul | .vec4Div =>
    { dest := .vec4, src1 := .vec4, src2 := .vec4 }
  | .vec4Scale =>
    { dest := .vec4, src1 := .vec4, src2 := .fpr }
  | .vec4Dot =>
    { dest := .fpr, src1 := .vec4, src2 := .vec4 }
  | .exitToConst =>
    { dest := .const, src1 := .unused, src2 := .unused, isExit := true }
  | .exitToReg =>
    { dest := .unused, src1 := .gpr, src2 := .unused, isExit := true }
  | .exitToConstIfEq | .exitToConstIfNeq =>
    { dest := .const, src1 := .gpr, src2 := .gpr, isExit := true }
  | .exitToConstIfGtZ | .exitToConstIfGeZ | .exitToConstIfLtZ | .exitToConstIfLeZ =>
    { dest := .const, src1 := .gpr, src2 := .unused, isExit := true }
  | .exitToPC =>
    { dest := .unused, src1 := .unused, src2 := .unused, isExit := true }
  | .syscall =>
    { dest := .const, src1 := .unused, src2 := .unused, isExit := true, isBarrier := true }

/-- An opcode that may leave the block. -/
def isExit (op : Opcode) : Bool := op.signature.isExit

/-- The form of a two-register operation whose second operand is a pool constant. -/
def constForm? : Opcode → Option Opcode
  | .add => some .addConst
  | .sub => some .subConst
  | .and => some .andConst
  | .or => some .orConst
  | .xor => some .xorConst
  | .slt => some .sltConst
  | .sltU => some .sltUConst
  | _ => none

/-- The form of a shift or rotate whose amount is given in the instruction. -/
def immShift? : Opcode → Option Opcode
  | .shl => some .shlImm
  | .shr => some .shrImm
  | .sar => some .sarImm
  | .ror => some .rorImm
  | _ => none

end Opcode

end Dynarec
