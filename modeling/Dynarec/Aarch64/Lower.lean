/-
Lowering blocks to AArch64.

A compiled block is a function of two pointers, the guest state and guest memory, and returns 0
when control runs off its end, 1 when it exits with the program counter set, and 2 when a call of
the interpreter has faulted. The prologue saves the registers that the caller expects back and
loads the bound guest registers. Each instruction brings its operands into registers first, sources
before the destination, and uses scratch registers only afterwards, because bringing an operand in
may itself need them.

An exit stores everything before it tests its condition, so that the taken path only has to set the
program counter and return. Every return goes through one epilogue, which expects the result in W0;
the branches to it are resolved at the end.

This is `Arm64Backend`: `compile`, `emit_prologue`, `emit_epilogue`, `compile_inst`,
`compile_fallback`, `plan_address`, `access`, `conditional_exit` and `leave`.
-/
import Dynarec.Aarch64.Host
import Dynarec.Codegen.Compiled
import Dynarec.Guest.Helper
import Dynarec.Opcode.Native
import Dynarec.Registers.Consistency
import Dynarec.Registers.Flush
import Dynarec.Settings

set_option autoImplicit false

namespace Dynarec.Aarch64

open Dynarec.Codegen (Compiled Lowering slotConst? slotMove?)
open Dynarec.Registers (Engine EngineM Mode Policy)

/-- A block being lowered. -/
structure LowerState where
  engine : Engine
  asm : Assembler := {}
  /-- The branches to the epilogue. -/
  exits : Array Branch := #[]

/-- Steps of lowering. -/
abbrev LowerM := StateT LowerState (Except Fault)

/-! ## Laying down code -/

/-- Lay down an instruction. -/
def emit (i : Instr) : LowerM Unit := do
  let st ← get
  set { st with asm := ← st.asm.push i }

/-- Lay down instructions. -/
def emitAll (is : List Instr) : LowerM Unit := do
  let st ← get
  set { st with asm := ← st.asm.pushAll is }

/-- Lay down a sequence. -/
def emitSeq (is : Sequence) : LowerM Unit := do emitAll (← is)

/-- Run an operation of the register engine and lay down what it asks for. -/
def withEngine {α : Type} (op : EngineM α) : LowerM α := do
  let st ← get
  let (a, e) ← op.run st.engine
  set { st with engine := { e with actions := #[] }, asm := ← st.asm.performAll e.actions }
  return a

/-- Lay down a branch to the epilogue. -/
def branchToEpilogue (op : BranchOp) : LowerM Unit := do
  let st ← get
  let (b, asm) ← st.asm.branch op
  set { st with asm := asm, exits := st.exits.push b }

/-! ## Operands -/

/-- Bring an integer slot into a register. -/
def gpr (s : Slot) (mode : Mode) : LowerM Reg :=
  UInt8.ofNat <$> withEngine (Registers.mapInteger s mode)

/-- Bring a float register into a register. -/
def fpr (f : UInt8) (mode : Mode) : LowerM Reg := do
  let r ← withEngine (Registers.mapFloat (Slot.ofFloat f) mode)
  vectorReg r

/-- Bring a vector operand into a register. -/
def vec (f : UInt8) (mode : Mode) : LowerM Reg := do
  let r ← withEngine (Registers.mapGroup (Slot.ofFloat f) mode)
  vectorReg r

/-- The value of a slot that is known and not bound to a register. -/
def freeValue? (s : Slot) : LowerM (Option Word) := do
  let w ← withEngine (Registers.knownValue s)
  return if ((← get).engine.slotAt s).isStatic then none else w

/-- Copy one integer slot to another; a known value stays known. -/
def moveSlot (dest src : Slot) : LowerM Unit := do
  if dest ≠ src then
    match ← freeValue? src with
    | some w => withEngine (Registers.setKnown dest w)
    | none =>
      let s ← gpr src .read
      let d ← gpr dest .write
      emit (.mov false d s)

/-- A result in an integer register from two integer registers. -/
def binary (i : Inst) (form : Reg → Reg → Reg → List Instr) : LowerM Unit := do
  let a ← gpr i.src1.toNat .read
  let b ← gpr i.src2.toNat .read
  let d ← gpr i.dest.toNat .write
  emitAll (form d a b)

/-- A result in an integer register from one integer register. -/
def unary (i : Inst) (form : Reg → Reg → Sequence) : LowerM Unit := do
  let s ← gpr i.src1.toNat .read
  let d ← gpr i.dest.toNat .write
  emitSeq (form d s)

/-- A float result from two float registers. -/
def floatBinary (i : Inst) (op : FpOp) : LowerM Unit := do
  let a ← fpr i.src1 .read
  let b ← fpr i.src2 .read
  let d ← fpr i.dest .write
  emit (.fpOp op d a b)

/-- A float result from one float register. -/
def floatUnary (i : Inst) (form : Reg → Reg → Instr) : LowerM Unit := do
  let s ← fpr i.src1 .read
  let d ← fpr i.dest .write
  emit (form d s)

/-- A vector result from two vectors. -/
def vectorBinary (i : Inst) (op : VecOp) : LowerM Unit := do
  let a ← vec i.src1 .read
  let b ← vec i.src2 .read
  let d ← vec i.dest .write
  emit (.vecOp op d a b)

/-- A vector result from one vector. -/
def vectorUnary (i : Inst) (form : Reg → Reg → List Instr) : LowerM Unit := do
  let s ← vec i.src1 .read
  let d ← vec i.dest .write
  emitAll (form d s)

/-! ## Integer arithmetic -/

/-- The instructions for a result `d` from `a` and `b`. -/
def binaryForm? : Opcode → Option (Reg → Reg → Reg → List Instr)
  | .add => some fun d a b => [.add .add false d a b]
  | .sub => some fun d a b => [.add .sub false d a b]
  | .and => some fun d a b => [.logicWord .and d a b]
  | .or => some fun d a b => [.logicWord .orr d a b]
  | .xor => some fun d a b => [.logicWord .eor d a b]
  | .shl => some fun d a b => [.twoSource .lslv d a b]
  | .shr => some fun d a b => [.twoSource .lsrv d a b]
  | .sar => some fun d a b => [.twoSource .asrv d a b]
  | .ror => some fun d a b => [.twoSource .rorv d a b]
  | .slt => some fun d a b => [.compare false a b, .setIf d .lt]
  | .sltU => some fun d a b => [.compare false a b, .setIf d .lo]
  | .max => some fun d a b => [.compare false a b, .select false d a b .gt]
  | .min => some fun d a b => [.compare false a b, .select false d a b .lt]
  | _ => none

/-- The instructions for a result `d` from `s`, a constant `c` and an immediate `k`. -/
def unaryForm? (op : Opcode) (c k : Word) : Option (Reg → Reg → Sequence) :=
  match op with
  | .addConst => some fun d s => addConst d s c scratch1
  | .subConst => some fun d s => addConst d s (0 - c) scratch1
  | .andConst => some fun d s => logicConst .and d s c scratch1
  | .orConst => some fun d s => logicConst .orr d s c scratch1
  | .xorConst => some fun d s => logicConst .eor d s c scratch1
  | .sltConst => some fun d s => do return (← compareConst s c scratch1) ++ [.setIf d .lt]
  | .sltUConst => some fun d s => do return (← compareConst s c scratch1) ++ [.setIf d .lo]
  | .shlImm => some fun d s => .ok [.shiftLeft d s k]
  | .shrImm => some fun d s => .ok [.shiftRight d s k]
  | .sarImm => some fun d s => .ok [.shiftRightSigned d s k]
  | .rorImm => some fun d s => .ok [.rotate d s k]
  | .neg => some fun d s => .ok [.negate false d s]
  | .not => some fun d s => .ok [.not d s]
  | .ext8to32 => some fun d s => .ok [.extendByte d s]
  | .ext16to32 => some fun d s => .ok [.extendHalf d s]
  | .bSwap16 => some fun d s => .ok [.oneSource .rev16 d s]
  | .bSwap32 => some fun d s => .ok [.oneSource .rev d s]
  | .clz => some fun d s => .ok [.oneSource .clz d s]
  | .reverseBits => some fun d s => .ok [.oneSource .rbit d s]
  | _ => none

/-- Overwrite the destination with the second source if the first is zero, or if it is not. -/
def conditionalMove (i : Inst) (c : Cond) : LowerM Unit := do
  let test ← gpr i.src1.toNat .read
  let v ← gpr i.src2.toNat .read
  let r ← gpr i.dest.toNat .readWrite
  emitAll [.compare false test zr, .select false r v r c]

/-- The 64-bit product of two words, in two slots. -/
def multiply (i : Inst) (isSigned : Bool) : LowerM Unit := do
  let a ← gpr i.src1.toNat .read
  let b ← gpr i.src2.toNat .read
  let lo ← gpr Slot.lo .write
  let hi ← gpr Slot.hi .write
  emitAll [.mulLong isSigned scratch1 a b, .mov false lo scratch1, .shiftRight64 hi scratch1 32]

/-! ## Memory -/

/-- Where a memory operand is. -/
inductive Place where
  /-- At a known guest address. -/
  | fixed (addr : Word)
  /-- At a host pointer plus an offset that fits into the access. -/
  | pointer (base : Reg) (offset : Word)
  /-- At a guest address plus an offset. -/
  | guest (base : Reg) (offset : Word)
  deriving DecidableEq, Repr

/-- Bring the base of a memory operand into a register. -/
def placeOf (base : Slot) (offset : Word) (op : MemOp) : LowerM Place := do
  match ← freeValue? base with
  | some w => return .fixed (w + offset)
  | none =>
    match (← get).engine.residence base, op.reaches offset with
    | .pointer _, true =>
      let r ← withEngine (Registers.mapPointer base)
      return .pointer (UInt8.ofNat r) offset
    | _, _ => return .guest (← gpr base .read) offset

/-- The instructions of an access. -/
def accessPlace (op : MemOp) (rt : Reg) : Place → Sequence
  | .fixed addr => do
    return (← moveConst scratch1 addr) ++ [.accessIndexed op rt memoryBase scratch1]
  | .pointer base offset => .ok ((accessAt? op rt base offset).getD [])
  | .guest base offset =>
    if offset = 0 then .ok [.accessIndexed op rt memoryBase base]
    else do
      return (← addConst scratch1 base offset scratch2)
        ++ [.accessIndexed op rt memoryBase scratch1]

/-- Load into the register that `dest` brings in. -/
def load (i : Inst) (offset : Word) (op : MemOp) (dest : LowerM Reg) : LowerM Unit := do
  let place ← placeOf i.src1.toNat offset op
  let d ← dest
  emitSeq (accessPlace op d place)

/-- Store the register that `value` brings in. -/
def store (i : Inst) (offset : Word) (op : MemOp) (value : LowerM Reg) : LowerM Unit := do
  let v ← value
  let place ← placeOf i.src1.toNat offset op
  emitSeq (accessPlace op v place)

/-- The register with the value of a store; zero needs none. -/
def storedWord (s : Slot) : LowerM Reg := do
  match ← withEngine (Registers.knownValue s) with
  | some 0 => return zr
  | _ => gpr s .read

/-- The opcode of a load or store of an integer register. -/
def integerAccess? : Opcode → Option MemOp
  | .load8 => some .ldrb
  | .load8Ext => some .ldrsb
  | .load16 => some .ldrh
  | .load16Ext => some .ldrsh
  | .load32 => some .ldrW
  | .store8 => some .strb
  | .store16 => some .strh
  | .store32 => some .strW
  | _ => none

/-! ## Leaving the block -/

/-- The instructions that set a field of the guest state. -/
def setField (value : Reg) (offset : Nat) : Sequence :=
  accessAt .strW value stateBase (UInt32.ofNat offset) scratch1

/-- The instructions that set a field of the guest state to a constant. -/
def setFieldConst (value : Word) (offset : Nat) : Sequence := do
  return (← moveConst scratch2 value) ++ (← setField scratch2 offset)

/-- Return a number through the epilogue. -/
def leave (result : UInt16) : LowerM Unit := do
  emit (.wide .movz false 0 result 0)
  branchToEpilogue .jump

/-- Exit to a constant address. -/
def exitTo (target : Word) : LowerM Unit := do
  emitSeq (setFieldConst target Guest.Layout.pc)
  leave 1

/-- The condition of an exit that compares with zero. -/
def zeroCondition : Opcode → Cond
  | .exitToConstIfGtZ => .gt
  | .exitToConstIfGeZ => .ge
  | .exitToConstIfLtZ => .lt
  | _ => .le

/-- Exit to a constant address if a condition holds. -/
def exitIf (i : Inst) (target : Word) : LowerM Unit := do
  withEngine Registers.flushAll
  let a ← gpr i.src1.toNat .read
  let (b, c) ← match i.op with
    | .exitToConstIfEq => do pure (← gpr i.src2.toNat .read, Cond.eq)
    | .exitToConstIfNeq => do pure (← gpr i.src2.toNat .read, Cond.ne)
    | op => pure (zr, zeroCondition op)
  emit (.compare false a b)
  let st ← get
  let (skip, asm) ← st.asm.branch (.cond c.invert)
  set { st with asm := asm }
  exitTo target
  let st ← get
  set { st with asm := ← st.asm.resolve skip }

/-! ## Vectors -/

/-- The instructions that fill a vector with a pattern: zeros, ones, minus ones, or a one in a
single lane. -/
def vectorPattern (v : Reg) (pattern : UInt8) : Sequence :=
  match (pattern % 7).toNat with
  | 0 => .ok [.vecZero v]
  | 1 => .ok [.vecConst v 0x70]
  | 2 => .ok [.vecConst v 0xf0]
  | k => do
    return .vecZero v :: (← moveConst scratch1 0x3f800000)
      ++ [.putInt v (UInt8.ofNat (k - 3)) scratch1]

/-- The instructions that permute the lanes of `s` into `v`. -/
def shuffle (v s : Reg) (selector : UInt8) : List Instr :=
  let source := if s = v then vectorScratch else s
  (if s = v then [.vecMov vectorScratch s] else [])
    ++ (List.range 4).map fun lane =>
      .putLane v (UInt8.ofNat lane) source (selector >>> UInt8.ofNat (2 * lane) &&& 3)

/-! ## Instructions -/

/-- The instructions of a call of the interpreter at `helper`. -/
def callCode (helper : UInt64) (i : Inst) (c : Word) : Sequence := do
  return [.mov true 0 stateBase, .mov true 1 memoryBase] ++ (← moveConst64 2 (Helper.pack i c))
    ++ (← moveConst64 scratch1 helper) ++ [.callReg scratch1]

/-- Lower an instruction as a call of the interpreter. -/
def lowerCall (helper : UInt64) (i : Inst) (c : Word) : LowerM Unit := do
  withEngine (Registers.flushBeforeCall i.writeSlots)
  emitSeq (callCode helper i c)
  branchToEpilogue (.cbnz false 0)
  withEngine (Registers.reloadAfterCall i.writeSlots)

/-- Lower an instruction on float registers or vectors. -/
def lowerFloat (i : Inst) (c : Word) : LowerM Unit := do
  match i.op with
  | .setConstF =>
    let f ← fpr i.dest .write
    if c = 0 then emit (.fpFromInt f zr)
    else emitSeq do return (← moveConst scratch1 c) ++ [.fpFromInt f scratch1]
  | .fAdd => floatBinary i .add
  | .fSub => floatBinary i .sub
  | .fMul => floatBinary i .mul
  | .fDiv => floatBinary i .div
  | .fSqrt => floatUnary i (.fpUnary .sqrt)
  | .fNeg => floatUnary i (.fpUnary .neg)
  | .fAbs => floatUnary i (.fpUnary .abs)
  | .fMov => floatUnary i (.fpUnary .mov)
  | .fCvtSW => floatUnary i .fpConvertLane
  | .fMovFromGPR =>
    let s ← gpr i.src1.toNat .read
    let f ← fpr i.dest .write
    emit (.fpFromInt f s)
  | .fMovToGPR =>
    let f ← fpr i.src1 .read
    let r ← gpr i.dest.toNat .write
    emit (.fpToInt r f)
  | .vec4Init =>
    let v ← vec i.dest .write
    emitSeq (vectorPattern v i.src1)
  | .vec4Shuffle => vectorUnary i fun d s => shuffle d s i.src2
  | .vec4Mov => vectorUnary i fun d s => if d = s then [] else [.vecMov d s]
  | .vec4Add => vectorBinary i .add
  | .vec4Sub => vectorBinary i .sub
  | .vec4Mul => vectorBinary i .mul
  | .vec4Div => vectorBinary i .div
  | .vec4Scale =>
    let s ← vec i.src1 .read
    let f ← fpr i.src2 .read
    let v ← vec i.dest .write
    emit (.vecScale v s f 0)
  | .vec4Neg => vectorUnary i fun d s => [.vecNeg d s]
  | .vec4Abs => vectorUnary i fun d s => [.vecAbs d s]
  | op => violate (.noLowering Target.aarch64.name op)

/-- Lower an instruction that is neither arithmetic nor a move. -/
def lowerOther (i : Inst) (c : Word) : LowerM Unit := do
  match i.op with
  | .downcount =>
    let offset := UInt32.ofNat Guest.Layout.downcount
    emitSeq do
      return (← accessAt .ldrW scratch1 stateBase offset scratch2)
        ++ (← addConst scratch1 scratch1 (0 - c) scratch2)
        ++ (← accessAt .strW scratch1 stateBase offset scratch2)
  | .setPC =>
    let s ← gpr i.src1.toNat .read
    emitSeq (setField s Guest.Layout.pc)
  | .setPCConst => emitSeq (setFieldConst c Guest.Layout.pc)
  | .movZ => conditionalMove i .eq
  | .movNZ => conditionalMove i .ne
  | .mult => multiply i true
  | .multU => multiply i false
  | .loadFloat => load i c .ldrS (fpr i.dest .write)
  | .loadVec4 => load i c .ldrQ (vec i.dest .write)
  | .storeFloat => store i c .strS (fpr i.dest .read)
  | .storeVec4 => store i c .strQ (vec i.dest .read)
  | .exitToConst =>
    withEngine Registers.flushAll
    exitTo c
  | .exitToReg =>
    withEngine Registers.flushAll
    let s ← gpr i.src1.toNat .read
    emitSeq (setField s Guest.Layout.pc)
    leave 1
  | .exitToConstIfEq | .exitToConstIfNeq | .exitToConstIfGtZ | .exitToConstIfGeZ
  | .exitToConstIfLtZ | .exitToConstIfLeZ => exitIf i c
  | .exitToPC =>
    withEngine Registers.flushAll
    leave 1
  | .syscall =>
    withEngine Registers.flushAll
    emitSeq (setFieldConst c Guest.Layout.syscall)
    leave 1
  | _ => lowerFloat i c

/-- Lower an instruction that is no arithmetic on integer registers. -/
def lowerAccess (i : Inst) (c : Word) : LowerM Unit :=
  match integerAccess? i.op with
  | none => lowerOther i c
  | some op =>
    match i.op with
    | .store8 | .store16 | .store32 => store i c op (storedWord i.dest.toNat)
    | _ => load i c op (gpr i.dest.toNat .write)

/-- Lower an instruction that does not just fill an integer slot. -/
def lowerArithmetic (i : Inst) (c : Word) : LowerM Unit :=
  match binaryForm? i.op with
  | some form => binary i form
  | none =>
    match unaryForm? i.op c i.src2.toUInt32 with
    | some form => unary i form
    | none => lowerAccess i c

/-- Lower an instruction. -/
def lowerNative (i : Inst) (c : Word) : LowerM Unit :=
  match slotConst? i with
  | some dest => withEngine (Registers.setKnown dest c)
  | none =>
    match slotMove? i with
    | some (dest, src) => moveSlot dest src
    | none => lowerArithmetic i c

/-! ## Blocks -/

/-- The bytes of stack that a block uses. -/
def frameSize : Int := 160

/-- Save what the caller expects back and take over the arguments. -/
def prologue : List Instr :=
  [.pair .stpPre fp lr (-frameSize), .addImm .add true fp sp 0 false, .pair .stp 19 20 16,
   .pair .stp 21 22 32, .pair .stp 23 24 48, .pair .stp 25 26 64, .pair .stp 27 28 80,
   .pair .stpD 8 9 96, .pair .stpD 10 11 112, .pair .stpD 12 13 128, .pair .stpD 14 15 144,
   .mov true stateBase 0, .mov true memoryBase 1]

/-- Restore what the prologue saved, and return. -/
def epilogue : List Instr :=
  [.pair .ldpD 14 15 144, .pair .ldpD 12 13 128, .pair .ldpD 10 11 112, .pair .ldpD 8 9 96,
   .pair .ldp 27 28 80, .pair .ldp 25 26 64, .pair .ldp 23 24 48, .pair .ldp 21 22 32,
   .pair .ldp 19 20 16, .pair .ldpPost fp lr frameSize, .ret]

/-- How this host lowers instructions, if the interpreter is at `helper`. -/
def lowering (helper : UInt64) : Lowering LowerM where
  isNative := Opcode.nativeOnAarch64
  beginInst k := modify fun st => { st with engine := st.engine.beginInst k }
  native := lowerNative
  call := lowerCall helper
  finishInst := do (← get).engine.check

/-- Make the branches to the epilogue go to the next word. -/
def resolveExits : LowerM Unit := do
  let st ← get
  let asm ← Assembler.resolveAll st.asm st.exits
  set { st with asm := asm, exits := #[] }

/-- The steps of compiling a block. -/
def lowerBlock (helper : UInt64) (b : Block) : LowerM Compiled := do
  emitAll prologue
  withEngine Registers.reloadStatics
  let lowered ← (lowering helper).walk b 0 b.insts
  modify fun st => { st with engine := st.engine.releaseLocks }
  withEngine Registers.flushAll
  emit (.wide .movz false 0 0 0)
  resolveExits
  emitAll epilogue
  let st ← get
  return { code := ← st.asm.finish, lowered := lowered, spills := st.engine.spills }

/-- What the engine is to do. -/
def policy (s : Settings) : Policy :=
  { useStatics := s.useStatics, pointerify := s.useStatics && s.pointerify, window := s.window }

/-- Compile a block. -/
def compile (helper : UInt64) (s : Settings) (b : Block) : Except Fault Compiled :=
  Prod.fst <$> (lowerBlock helper b).run { engine := (Engine.new host (policy s)).start b.insts }

end Dynarec.Aarch64
