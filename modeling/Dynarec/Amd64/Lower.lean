/-
Lowering blocks to x86-64.

A compiled block is a function of two pointers, the guest state and guest memory, and returns 0
when control runs off its end, 1 when it exits with the program counter set, and 2 when a call of
the interpreter has faulted. Each instruction brings its operands into registers first, sources
before the destination, and uses scratch registers only afterwards.

Most operations of this host overwrite their first operand, so a result whose register is not that
of the first source is computed in `eax` and copied. Guest addresses are formed in `eax` as well,
in 32 bits, and accessed relative to `r15`. An exit stores everything before it tests its condition;
every return goes through the one epilogue, with the result in `eax`.

This is `X64Backend`: `compile`, `compile_inst`, `compile_fallback`, `alu`, `shift`,
`plan_address`, `address`, `conditional_exit` and `leave`, with `emit_prologue` and `emit_epilogue`
of `X64Encoder`.
-/
import Dynarec.Amd64.Host
import Dynarec.Codegen.Compiled
import Dynarec.Guest.Helper
import Dynarec.Opcode.Native
import Dynarec.Registers.Consistency
import Dynarec.Registers.Flush
import Dynarec.Settings

set_option autoImplicit false

namespace Dynarec.Amd64

open Dynarec.Codegen (Compiled Lowering slotConst? slotMove?)
open Dynarec.Registers (Engine EngineM Mode Policy)

/-- A block being lowered. -/
structure LowerState where
  engine : Engine
  asm : Assembler
  /-- The label of the epilogue. -/
  exit : Label

/-- Steps of lowering. -/
abbrev LowerM := StateT LowerState (Except Fault)

/-! ## Laying down code -/

/-- Lay down an instruction. -/
def emit (i : Instr) : LowerM Unit := modify fun st => { st with asm := st.asm.push i }

/-- Lay down instructions. -/
def emitAll (is : List Instr) : LowerM Unit :=
  modify fun st => { st with asm := st.asm.pushAll is }

/-- Run an operation of the register engine and lay down what it asks for. -/
def withEngine {α : Type} (op : EngineM α) : LowerM α := do
  let st ← get
  let (a, e) ← op.run st.engine
  set { st with engine := { e with actions := #[] }, asm := ← st.asm.performAll e.actions }
  return a

/-- Lay down a branch to the epilogue. -/
def branchToEpilogue (c : Option Cond) : LowerM Unit :=
  modify fun st => { st with asm := st.asm.branch c st.exit }

/-! ## Operands -/

/-- Bring an integer slot into a register. -/
def gpr (s : Slot) (mode : Mode) : LowerM Reg := do
  let r ← withEngine (Registers.mapInteger s mode)
  integerReg r

/-- Bring a float register into a register. -/
def fpr (f : UInt8) (mode : Mode) : LowerM Reg := do
  let r ← withEngine (Registers.mapFloat (Slot.ofFloat f) mode)
  vectorReg r

/-- Bring a vector operand into a register. -/
def vec (f : UInt8) (mode : Mode) : LowerM Reg := do
  let r ← withEngine (Registers.mapGroup (Slot.ofFloat f) mode)
  vectorReg r

/-- The value of a slot that is known and not bound to a register. -/
def freeValue? (s : Slot) : LowerM (Option Word) := do
  let w ← withEngine (Registers.knownValue s)
  return if ((← get).engine.slotAt s).isStatic then none else w

/-- Copy one integer slot to another; a known value stays known. -/
def moveSlot (dest src : Slot) : LowerM Unit := do
  if dest ≠ src then
    match ← freeValue? src with
    | some w => withEngine (Registers.setKnown dest w)
    | none =>
      let s ← gpr src .read
      let d ← gpr dest .write
      emit (.mov false d s)

/-- The instructions for `d = a op b` where the operation overwrites its first operand. -/
def inPlace (d a : Reg) (op : Reg → List Instr) : List Instr :=
  if d = a then op d else .mov false rax a :: op rax ++ [.mov false d rax]

/-- The same on vector registers. -/
def vectorInPlace (d a b : Reg) (op : SseOp) : List Instr :=
  if d = a then [.sse op d b]
  else [.sse .movaps resultScratch a, .sse op resultScratch b, .sse .movaps d resultScratch]

/-- A result in an integer register from two integer registers. -/
def binary (i : Inst) (form : Reg → Reg → Reg → List Instr) : LowerM Unit := do
  let a ← gpr i.src1.toNat .read
  let b ← gpr i.src2.toNat .read
  let d ← gpr i.dest.toNat .write
  emitAll (form d a b)

/-- A result in an integer register from one integer register. -/
def unary (i : Inst) (form : Reg → Reg → List Instr) : LowerM Unit := do
  let s ← gpr i.src1.toNat .read
  let d ← gpr i.dest.toNat .write
  emitAll (form d s)

/-- A float result from two float registers. -/
def floatBinary (i : Inst) (op : SseOp) : LowerM Unit := do
  let a ← fpr i.src1 .read
  let b ← fpr i.src2 .read
  let d ← fpr i.dest .write
  emitAll (vectorInPlace d a b op)

/-- A float result from one float register. -/
def floatUnary (i : Inst) (form : Reg → Reg → List Instr) : LowerM Unit := do
  let s ← fpr i.src1 .read
  let d ← fpr i.dest .write
  emitAll (form d s)

/-- A vector result from two vectors. -/
def vectorBinary (i : Inst) (op : SseOp) : LowerM Unit := do
  let a ← vec i.src1 .read
  let b ← vec i.src2 .read
  let d ← vec i.dest .write
  emitAll (vectorInPlace d a b op)

/-- A vector result from one vector. -/
def vectorUnary (i : Inst) (form : Reg → Reg → List Instr) : LowerM Unit := do
  let s ← vec i.src1 .read
  let d ← vec i.dest .write
  emitAll (form d s)

/-! ## Integer arithmetic -/

/-- A shift by a register, which goes through the counter. -/
def shiftForm (op : ShiftOp) (d a b : Reg) : List Instr :=
  [.mov false rcx b, .mov false rax a, .shift op rax, .mov false d rax]

/-- The outcome of a comparison as a word. -/
def compareForm (c : Cond) (d : Reg) (compare : Instr) : List Instr :=
  [.alu .xor false rax rax, compare, .set c rax, .mov false d rax]

/-- The larger or smaller of two words: `b` replaces `a` under a condition. -/
def selectForm (c : Cond) (d a b : Reg) : List Instr :=
  [.mov false rax a, .alu .cmp false a b, .cmov c rax b, .mov false d rax]

/-- The instructions for a result `d` from `a` and `b`. -/
def binaryForm? : Opcode → Option (Reg → Reg → Reg → List Instr)
  | .add => some fun d a b => inPlace d a fun r => [.alu .add false r b]
  | .sub => some fun d a b => inPlace d a fun r => [.alu .sub false r b]
  | .and => some fun d a b => inPlace d a fun r => [.alu .and false r b]
  | .or => some fun d a b => inPlace d a fun r => [.alu .or false r b]
  | .xor => some fun d a b => inPlace d a fun r => [.alu .xor false r b]
  | .shl => some (shiftForm .shl)
  | .shr => some (shiftForm .shr)
  | .sar => some (shiftForm .sar)
  | .ror => some (shiftForm .ror)
  | .slt => some fun d a b => compareForm .l d (.alu .cmp false a b)
  | .sltU => some fun d a b => compareForm .b d (.alu .cmp false a b)
  | .max => some (selectForm .l)
  | .min => some (selectForm .g)
  | _ => none

/-- Exchange the bytes of each half. -/
def swapHalvesForm (d s : Reg) : List Instr :=
  [.mov false rax s, .shiftImm .shr false rax 8, .aluImm .and false rax 0x00ff00ff,
   .mov false rcx s, .shiftImm .shl false rcx 8, .aluImm .and false rcx 0xff00ff00,
   .alu .or false rax rcx, .mov false d rax]

/-- Count leading zeros: 31 less the position of the highest one bit, which is -1 for zero. -/
def leadingZerosForm (d s : Reg) : List Instr :=
  [.movImm rcx 0xffffffff, .bsr rax s, .cmov .e rax rcx, .neg rax, .aluImm .add false rax 31,
   .mov false d rax]

/-- The instructions for a result `d` from `s`, a constant `c` and an immediate `k`. -/
def unaryForm? (op : Opcode) (c : Word) (k : UInt8) : Option (Reg → Reg → List Instr) :=
  match op with
  | .addConst => some fun d s => inPlace d s fun r => [.aluImm .add false r c]
  | .subConst => some fun d s => inPlace d s fun r => [.aluImm .sub false r c]
  | .andConst => some fun d s => inPlace d s fun r => [.aluImm .and false r c]
  | .orConst => some fun d s => inPlace d s fun r => [.aluImm .or false r c]
  | .xorConst => some fun d s => inPlace d s fun r => [.aluImm .xor false r c]
  | .neg => some fun d s => inPlace d s fun r => [.neg r]
  | .not => some fun d s => inPlace d s fun r => [.not r]
  | .bSwap32 => some fun d s => inPlace d s fun r => [.bswap r]
  | .shlImm => some fun d s => inPlace d s fun r => [.shiftImm .shl false r k]
  | .shrImm => some fun d s => inPlace d s fun r => [.shiftImm .shr false r k]
  | .sarImm => some fun d s => inPlace d s fun r => [.shiftImm .sar false r k]
  | .rorImm => some fun d s => inPlace d s fun r => [.shiftImm .ror false r k]
  | .sltConst => some fun d s => compareForm .l d (.aluImm .cmp false s c)
  | .sltUConst => some fun d s => compareForm .b d (.aluImm .cmp false s c)
  | .ext8to32 => some fun d s => [.extend false d s]
  | .ext16to32 => some fun d s => [.extend true d s]
  | .bSwap16 => some swapHalvesForm
  | .clz => some leadingZerosForm
  | _ => none

/-- Overwrite the destination with the second source if the first is zero, or if it is not. -/
def conditionalMove (i : Inst) (c : Cond) : LowerM Unit := do
  let test ← gpr i.src1.toNat .read
  let v ← gpr i.src2.toNat .read
  let r ← gpr i.dest.toNat .readWrite
  emitAll [.test test test, .cmov c r v]

/-- The 64-bit product of two words, in two slots. -/
def multiply (i : Inst) (isSigned : Bool) : LowerM Unit := do
  let a ← gpr i.src1.toNat .read
  let b ← gpr i.src2.toNat .read
  let lo ← gpr Slot.lo .write
  let hi ← gpr Slot.hi .write
  emitAll
    ((if isSigned then [.extendWord rax a, .extendWord rcx b]
      else [.mov false rax a, .mov false rcx b])
      ++ [.imul rax rcx, .mov false lo rax, .shiftImm .shr true rax 32, .mov false hi rax])

/-! ## Memory -/

/-- Where a memory operand is. -/
inductive Place where
  /-- At a known guest address. -/
  | fixed (addr : Word)
  /-- At a guest address plus an offset. -/
  | guest (base : Reg) (offset : Word)
  deriving DecidableEq, Repr

/-- Bring the base of a memory operand into a register. -/
def placeOf (base : Slot) (offset : Word) : LowerM Place := do
  match ← freeValue? base with
  | some w => return .fixed (w + offset)
  | none => return .guest (← gpr base .read) offset

/-- The instructions that form an address in `eax`. -/
def addressForm : Place → List Instr
  | .fixed addr => [.movImm rax addr]
  | .guest base offset =>
    .mov false rax base :: if offset = 0 then [] else [.aluImm .add false rax offset]

/-- Load into the register that `dest` brings in. -/
def load (i : Inst) (offset : Word) (dest : LowerM Reg) (form : Reg → Instr) : LowerM Unit := do
  let place ← placeOf i.src1.toNat offset
  let d ← dest
  emitAll (addressForm place ++ [form d])

/-- Store what `value` says how to store. -/
def store (i : Inst) (offset : Word) (value : LowerM Instr) : LowerM Unit := do
  let form ← value
  let place ← placeOf i.src1.toNat offset
  emitAll (addressForm place ++ [form])

/-- How to store a slot: a known value as an immediate, any other from its register. -/
def storedWord (s : Slot) (size : Size) : LowerM Instr := do
  match ← freeValue? s with
  | some w => return .storeImm size .guest w
  | none => return .store size .guest (← gpr s .read)

/-! ## Leaving the block -/

/-- A field of the guest state. -/
def stateField (offset : Nat) : Mem := .state (UInt32.ofNat offset)

/-- Return a number through the epilogue. -/
def leave (result : Word) : LowerM Unit := do
  emit (moveConst rax result)
  branchToEpilogue none

/-- Exit to a constant address. -/
def exitTo (target : Word) : LowerM Unit := do
  emit (.storeImm .word (stateField Guest.Layout.pc) target)
  leave 1

/-- The condition under which a conditional exit is not taken. -/
def skipCondition : Opcode → Cond
  | .exitToConstIfEq => .ne
  | .exitToConstIfNeq => .e
  | .exitToConstIfGtZ => .le
  | .exitToConstIfGeZ => .l
  | .exitToConstIfLtZ => .ge
  | _ => .g

/-- Exit to a constant address if a condition holds. -/
def exitIf (i : Inst) (target : Word) : LowerM Unit := do
  withEngine Registers.flushAll
  let a ← gpr i.src1.toNat .read
  match i.op with
  | .exitToConstIfEq | .exitToConstIfNeq =>
    let b ← gpr i.src2.toNat .read
    emit (.alu .cmp false a b)
  | _ => emit (.test a a)
  let st ← get
  let (skip, asm) := st.asm.newLabel
  set { st with asm := asm.branch (some (skipCondition i.op)) skip }
  exitTo target
  modify fun st => { st with asm := st.asm.place skip }

/-! ## Floats and vectors -/

/-- Flip the sign of a float, or clear it. -/
def signForm (isNegate : Bool) (d s : Reg) : List Instr :=
  [.movdFrom rax s,
   if isNegate then .aluImm .xor false rax 0x80000000 else .aluImm .and false rax 0x7fffffff,
   .movdTo d rax]

/-- Flip the signs of four lanes, or clear them. -/
def vectorSignForm (isNegate : Bool) (d s : Reg) : List Instr :=
  [.movImm rax (if isNegate then 0x80000000 else 0x7fffffff), .movdTo maskScratch rax,
   .shuffle .pshufd maskScratch maskScratch 0, .sse .movaps resultScratch s,
   .sse (if isNegate then .xorps else .andps) resultScratch maskScratch,
   .sse .movaps d resultScratch]

/-- Copy a vector register unless it is in place. -/
def copyForm (d s : Reg) : List Instr := if d = s then [] else [.sse .movaps d s]

/-- The instructions that fill a vector with a pattern: zeros, ones, minus ones, or a one in a
single lane. The last takes the lanes from a register that has a one only in lane 0. -/
def vectorPattern (v : Reg) (pattern : UInt8) : List Instr :=
  match (pattern % 7).toNat with
  | 0 => [.sse .xorps v v]
  | 1 => moveVectorConst v 0x3f800000 ++ [.shuffle .pshufd v v 0]
  | 2 => moveVectorConst v 0xbf800000 ++ [.shuffle .pshufd v v 0]
  | k =>
    let ones := (List.range 4).filter (· ≠ k - 3)
    let selector := ones.foldl (fun acc lane => acc + twoTo (2 * lane)) 0
    moveVectorConst resultScratch 0x3f800000
      ++ [.shuffle .pshufd v resultScratch (UInt8.ofNat selector)]

/-- The product of a vector and a float. -/
def scaleForm (v s f : Reg) : List Instr :=
  [.sse .movaps maskScratch f, .shuffle .shufps maskScratch maskScratch 0,
   .sse .movaps resultScratch s, .sse .mulps resultScratch maskScratch,
   .sse .movaps v resultScratch]

/-! ## Instructions -/

/-- Lower an instruction as a call of the interpreter at `helper`. -/
def lowerCall (helper : UInt64) (i : Inst) (c : Word) : LowerM Unit := do
  withEngine (Registers.flushBeforeCall i.writeSlots)
  emitAll
    [.mov true rdi stateBase, .mov true rsi memoryBase, .movImm64 rdx (Helper.pack i c),
     .movImm64 rax helper, .callReg rax, .test rax rax]
  branchToEpilogue (some .ne)
  withEngine (Registers.reloadAfterCall i.writeSlots)

/-- Lower an instruction on float registers or vectors. -/
def lowerFloat (i : Inst) (c : Word) : LowerM Unit := do
  match i.op with
  | .setConstF =>
    let f ← fpr i.dest .write
    emitAll (moveVectorConst f c)
  | .fAdd => floatBinary i .addss
  | .fSub => floatBinary i .subss
  | .fDiv => floatBinary i .divss
  | .fSqrt => floatUnary i fun d s => [.sse .sqrtss d s]
  | .fNeg => floatUnary i (signForm true)
  | .fAbs => floatUnary i (signForm false)
  | .fMov => floatUnary i copyForm
  | .fCvtSW => floatUnary i fun d s => [.sse .cvtdq2ps d s]
  | .fMovFromGPR =>
    let s ← gpr i.src1.toNat .read
    let f ← fpr i.dest .write
    emit (.movdTo f s)
  | .fMovToGPR =>
    let f ← fpr i.src1 .read
    let r ← gpr i.dest.toNat .write
    emit (.movdFrom r f)
  | .vec4Init =>
    let v ← vec i.dest .write
    emitAll (vectorPattern v i.src1)
  | .vec4Shuffle => vectorUnary i fun d s => [.shuffle .pshufd d s i.src2]
  | .vec4Mov => vectorUnary i copyForm
  | .vec4Add => vectorBinary i .addps
  | .vec4Sub => vectorBinary i .subps
  | .vec4Mul => vectorBinary i .mulps
  | .vec4Div => vectorBinary i .divps
  | .vec4Scale =>
    let s ← vec i.src1 .read
    let f ← fpr i.src2 .read
    let v ← vec i.dest .write
    emitAll (scaleForm v s f)
  | .vec4Neg => vectorUnary i (vectorSignForm true)
  | .vec4Abs => vectorUnary i (vectorSignForm false)
  | op => violate (.noLowering Target.amd64.name op)

/-- Lower an instruction that is neither arithmetic nor a memory access. -/
def lowerOther (i : Inst) (c : Word) : LowerM Unit := do
  match i.op with
  | .downcount => emit (.aluMemImm .sub (stateField Guest.Layout.downcount) c)
  | .setPC =>
    let s ← gpr i.src1.toNat .read
    emit (.store .word (stateField Guest.Layout.pc) s)
  | .setPCConst => emit (.storeImm .word (stateField Guest.Layout.pc) c)
  | .movZ => conditionalMove i .e
  | .movNZ => conditionalMove i .ne
  | .mult => multiply i true
  | .multU => multiply i false
  | .exitToConst =>
    withEngine Registers.flushAll
    exitTo c
  | .exitToReg =>
    withEngine Registers.flushAll
    let s ← gpr i.src1.toNat .read
    emit (.store .word (stateField Guest.Layout.pc) s)
    leave 1
  | .exitToConstIfEq | .exitToConstIfNeq | .exitToConstIfGtZ | .exitToConstIfGeZ
  | .exitToConstIfLtZ | .exitToConstIfLeZ => exitIf i c
  | .exitToPC =>
    withEngine Registers.flushAll
    leave 1
  | .syscall =>
    withEngine Registers.flushAll
    emit (.storeImm .word (stateField Guest.Layout.syscall) c)
    leave 1
  | _ => lowerFloat i c

/-- Lower an instruction that is no arithmetic on integer registers. -/
def lowerAccess (i : Inst) (c : Word) : LowerM Unit :=
  match i.op with
  | .load8 => load i c (gpr i.dest.toNat .write) fun d => .loadExtended false false d .guest
  | .load8Ext => load i c (gpr i.dest.toNat .write) fun d => .loadExtended true false d .guest
  | .load16 => load i c (gpr i.dest.toNat .write) fun d => .loadExtended false true d .guest
  | .load16Ext => load i c (gpr i.dest.toNat .write) fun d => .loadExtended true true d .guest
  | .load32 => load i c (gpr i.dest.toNat .write) fun d => .load d .guest
  | .loadFloat => load i c (fpr i.dest .write) fun x => .loadLane x .guest
  | .loadVec4 => load i c (vec i.dest .write) fun x => .loadVector x .guest
  | .store8 => store i c (storedWord i.dest.toNat .byte)
  | .store16 => store i c (storedWord i.dest.toNat .half)
  | .store32 => store i c (storedWord i.dest.toNat .word)
  | .storeFloat => store i c (Instr.storeLane .guest <$> fpr i.dest .read)
  | .storeVec4 => store i c (Instr.storeVector .guest <$> vec i.dest .read)
  | _ => lowerOther i c

/-- Lower an instruction that does not just fill an integer slot. -/
def lowerArithmetic (i : Inst) (c : Word) : LowerM Unit :=
  match binaryForm? i.op with
  | some form => binary i form
  | none =>
    match unaryForm? i.op c i.src2 with
    | some form => unary i form
    | none => lowerAccess i c

/-- Lower an instruction. -/
def lowerNative (i : Inst) (c : Word) : LowerM Unit :=
  match slotConst? i with
  | some dest => withEngine (Registers.setKnown dest c)
  | none =>
    match slotMove? i with
    | some (dest, src) => moveSlot dest src
    | none => lowerArithmetic i c

/-! ## Blocks -/

/-- Save what the caller expects back. -/
def prologue : List Instr := savedRegs.map .push ++ [.aluImm .sub true rsp 8]

/-- Restore what the prologue saved, and return. -/
def epilogue : List Instr := .aluImm .add true rsp 8 :: savedRegs.reverse.map .pop ++ [.ret]

/-- How this host lowers instructions, if the interpreter is at `helper`. -/
def lowering (helper : UInt64) : Lowering LowerM where
  isNative := Opcode.nativeOnAmd64
  beginInst k := modify fun st => { st with engine := st.engine.beginInst k }
  native := lowerNative
  call := lowerCall helper
  finishInst := do (← get).engine.check

/-- Lay down the code of a block: what was lowered. -/
def lowerItems (helper : UInt64) (b : Block) : LowerM (List (Opcode × Bool)) := do
  emitAll (prologue ++ [.mov true stateBase rdi, .mov true memoryBase rsi])
  let lowered ← (lowering helper).walk b 0 b.insts
  modify fun st => { st with engine := st.engine.releaseLocks }
  withEngine Registers.flushAll
  emit (.alu .xor false rax rax)
  modify fun st => { st with asm := st.asm.place st.exit }
  emitAll epilogue
  return lowered

/-- The bytes of what has been laid down. -/
def Assembler.finish (assemble : Assemble) (a : Assembler) : Except Fault (List UInt8) :=
  (assemble a.items.toList).mapError .assembly

/-- The steps of compiling a block. -/
def lowerBlock (assemble : Assemble) (helper : UInt64) (b : Block) : LowerM Compiled := do
  let lowered ← lowerItems helper b
  let st ← get
  return { code := ← st.asm.finish assemble, lowered := lowered, spills := st.engine.spills }

/-- What the engine is to do. -/
def policy (s : Settings) : Policy := { window := s.window }

/-- Nothing is lowered yet. -/
def initial (s : Settings) (b : Block) : LowerState :=
  let (exit, asm) := Assembler.newLabel {}
  { engine := (Engine.new host (policy s)).start b.insts, asm := asm, exit := exit }

/-- Compile a block. -/
def compile (assemble : Assemble) (helper : UInt64) (s : Settings) (b : Block) :
    Except Fault Compiled :=
  Prod.fst <$> (lowerBlock assemble helper b).run (initial s b)

end Dynarec.Amd64
