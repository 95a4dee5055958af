/-
Constant propagation.

The walk over a block keeps, for every integer slot, the value it is known to hold and the constant
that the block being built has already put there. Setting a register to a constant only updates
that knowledge, and so does arithmetic on known operands. An operation with one known operand takes
its cheaper form. A known value is put into its register (flushed) when an instruction needs it
there, and only if the register does not already hold it; the value stays known, so later reads
still fold. Accesses with a known base are based on slot zero with the address in the constant, and
conditional exits on known operands become unconditional or vanish.

Whoever runs after an exit, a barrier or the end of the block sees the registers, so all known
values are flushed there. Slot zero is known to be zero and never flushed. When the pool of the
block being built has grown past the limit, everything is flushed and the rest is taken over
unchanged.

Float numbers may name slots past the register file. Where an instruction's slots are flushed or
forgotten such a slot counts modulo 256, so the walk may flush or forget more than needed, never
less.

The walk is `run` of `const_prop`. What is known is an `ImmCache` (`set_imm`, `discard`, `flush`,
`flush_all`), and instructions are added by `emit`, `write_const_op`, `write_mov` and
`map_dirty_in`.
-/
import Dynarec.Alu
import Dynarec.Block

set_option autoImplicit false

namespace Dynarec.Optimize.ConstantPropagation

/-- Something about each of the 256 slots. -/
abbrev PerSlot (α : Type) := Vector α 256

/-- The entry of a slot given by its byte. -/
def PerSlot.at {α : Type} (t : PerSlot α) (r : UInt8) : α := t.get ⟨r.toNat, r.toNat_lt⟩

/-- The table with another entry for a slot. -/
def PerSlot.put {α : Type} (t : PerSlot α) (r : UInt8) (a : α) : PerSlot α :=
  t.set r.toNat a r.toNat_lt

/-- What is known, and the block built so far. -/
structure Folding where
  /-- The value that each integer slot is known to hold. -/
  known : PerSlot (Option Word) := (Vector.replicate 256 none).set 0 (some 0)
  /-- The constant that the block being built has left in each slot. -/
  placed : PerSlot (Option Word) := Vector.replicate 256 none
  out : Block := {}
  /-- An exit was decided, and the unconditional exit after it is unreachable. -/
  dropExit : Bool := false

namespace Folding

/-! ## Knowledge -/

/-- The known value of a slot. -/
def value? (s : Folding) (r : UInt8) : Option Word := PerSlot.at s.known r

/-- A slot now holds a known value; slot zero is left alone. -/
def learn (s : Folding) (r : UInt8) (w : Word) : Folding :=
  if r = 0 then s else { s with known := PerSlot.put s.known r (some w) }

/-- A slot now holds something unknown; slot zero is left alone. -/
def forget (s : Folding) (r : UInt8) : Folding :=
  if r = 0 then s
  else { s with known := PerSlot.put s.known r none, placed := PerSlot.put s.placed r none }

/-- Put the known value of a slot into it, unless it is there already. -/
def flush (s : Folding) (r : UInt8) : Except Fault Folding :=
  match s.value? r with
  | none => .ok s
  | some w =>
    if r = 0 ∨ PerSlot.at s.placed r = some w then .ok s
    else do
      return { s with out := ← s.out.setConst r w, placed := PerSlot.put s.placed r (some w) }

/-- The slots other than zero, in order. -/
def flushOrder : List UInt8 := (List.range' 1 255).map UInt8.ofNat

/-- Put all known values into their slots. -/
def flushAll (s : Folding) : Except Fault Folding := flushOrder.foldlM flush s

/-! ## Emission -/

/-- The integer slots in a list, as bytes. -/
def integerBytes (slots : List Slot) : List UInt8 :=
  (slots.filter Slot.isInteger).map UInt8.ofNat

/-- Append an instruction. -/
def push (s : Folding) (i : Inst) : Folding := { s with out := s.out.push i }

/-- Append an instruction with the given constant. -/
def pushWith (s : Folding) (i : Inst) (constant : Option Word) : Except Fault Folding := do
  return { s with out := ← s.out.pushWith i constant }

/-- Emit an instruction: flush what it reads, forget what it writes, append it. -/
def emit (s : Folding) (i : Inst) (constant : Option Word) : Except Fault Folding := do
  let s ← (integerBytes i.readSlots).foldlM flush s
  let s := (integerBytes i.writeSlots).foldl forget s
  s.pushWith i constant

/-- Flush everything and then emit an instruction. -/
def emitExit (s : Folding) (i : Inst) (constant : Option Word) : Except Fault Folding := do
  (← s.flushAll).emit i constant

/-- Get ready to write `dest` from `src`: forget the destination if it is another slot, and flush
the source. -/
def derive (s : Folding) (dest src : UInt8) : Except Fault Folding :=
  (if dest = src then s else s.forget dest).flush src

/-- Append a move between different slots. -/
def move (s : Folding) (dest src : UInt8) : Folding :=
  if dest = src then s else s.push { op := .mov, dest := dest, src1 := src }

/-- Append the constant form of an operation. -/
def constOp (s : Folding) (op : Opcode) (dest src : UInt8) (w : Word) : Except Fault Folding :=
  match op.constForm? with
  | some form => do return { s with out := ← s.out.pushConst form dest src w }
  | none => .ok s

/-- Leave for a constant address: flush everything and append an unconditional exit. -/
def leave (s : Folding) (target : Word) : Except Fault Folding := do
  let s ← s.flushAll
  return { s with out := ← s.out.exitToConst target }

/-! ## Rules -/

/-- Operations with operands that may be exchanged. -/
def isSymmetric (op : Opcode) : Bool :=
  op = .add || op = .and || op = .or || op = .xor

/-- Operations that a zero second operand turns into a move. -/
def zeroIsMove (op : Opcode) : Bool :=
  op = .add || op = .sub || op = .or || op = .xor
    || op = .addConst || op = .subConst || op = .orConst || op = .xorConst

/-- The operand that equals the destination put first. -/
def swapTowardDest (i : Inst) : Inst :=
  if i.src2 = i.dest ∧ i.src1 ≠ i.src2 then { i with src1 := i.src2, src2 := i.src1 } else i

/-- `dest = src op w` for an unknown source and a known second operand. -/
def partlyKnown (s : Folding) (op : Opcode) (dest src : UInt8) (w : Word) :
    Except Fault Folding := do
  let s ← s.derive dest src
  if w = 0 ∧ zeroIsMove op then return s.move dest src else s.constOp op dest src w

/-- Arithmetic on two registers. -/
def arithmetic (s : Folding) (i : Inst) : Except Fault Folding :=
  let i := if isSymmetric i.op then swapTowardDest i else i
  match s.value? i.src1, s.value? i.src2 with
  | some a, some b => do return s.learn i.dest (← Alu.evaluate2 i.op a b)
  | a?, b? =>
    if i.op = .and ∧ (a? = some 0 ∨ b? = some 0) then .ok (s.learn i.dest 0)
    else
      match b?, a? with
      | some b, _ => s.partlyKnown i.op i.dest i.src1 b
      | none, some a =>
        if isSymmetric i.op then s.partlyKnown i.op i.dest i.src2 a else s.emit i none
      | none, none => s.emit i none

/-- Subtraction: from zero it is negation, of a register from itself it is zero. -/
def subtraction (s : Folding) (i : Inst) : Except Fault Folding :=
  if s.value? i.src1 = some 0 ∧ s.value? i.src2 = none then do
    let s ← s.derive i.dest i.src2
    return s.push { op := .neg, dest := i.dest, src1 := i.src2 }
  else if i.src1 = i.src2 then .ok (s.learn i.dest 0)
  else s.arithmetic i

/-- Arithmetic on a register and a constant. -/
def constArithmetic (s : Folding) (i : Inst) (c : Word) : Except Fault Folding :=
  if i.op = .andConst ∧ c = 0 then .ok (s.learn i.dest 0)
  else
    match s.value? i.src1 with
    | some a => do return s.learn i.dest (← Alu.evaluate2 i.op a c)
    | none =>
      if c = 0 ∧ zeroIsMove i.op then do return (← s.derive i.dest i.src1).move i.dest i.src1
      else s.emit i (some c)

/-- Shifts and rotations by a register. -/
def shift (s : Folding) (i : Inst) : Except Fault Folding :=
  match s.value? i.src1, s.value? i.src2 with
  | some a, some b => do return s.learn i.dest (← Alu.evaluate2 i.op a b)
  | none, some b => do
    let amount := (b &&& 31).toUInt8
    let s ← s.derive i.dest i.src1
    if amount = 0 then return s.move i.dest i.src1
    else
      match i.op.immShift? with
      | some op => return s.push { op := op, dest := i.dest, src1 := i.src1, src2 := amount }
      | none => return s
  | _, none => s.emit i none

/-- An instruction that becomes another one with a constant when its source is known. -/
def specialize (s : Folding) (i : Inst) (known : Word → Except Fault Folding) :
    Except Fault Folding :=
  match s.value? i.src1 with
  | some a => known a
  | none => s.emit i none

/-- An access whose base may be known. -/
def access (s : Folding) (i : Inst) (c : Word) : Except Fault Folding :=
  match s.value? i.src1 with
  | some base => s.emit { i with src1 := 0 } (some (base + c))
  | none => s.emit i (some c)

/-- An exit whose outcome may be known: a taken one becomes unconditional, the other vanishes. -/
def decide? (s : Folding) (i : Inst) (c : Word) (outcome : Option Bool) : Except Fault Folding :=
  match outcome with
  | some true => do return { (← s.leave c) with dropExit := true }
  | some false => .ok s
  | none => s.emitExit i (some c)

/-- The outcome of a conditional exit, if its operands are known. -/
def outcome? (s : Folding) (i : Inst) : Option Bool :=
  match i.op.exitCondition?, i.op.signature.src2, s.value? i.src1, s.value? i.src2 with
  | some taken, .gpr, some a, some b => some (taken a b)
  | some taken, .unused, some a, _ => some (taken a 0)
  | _, _, _, _ => none

/-- One instruction, whose constant operand is `constant`. -/
def fold (s : Folding) (i : Inst) (constant : Option Word) : Except Fault Folding :=
  let c := constant.getD 0
  match i.op with
  | .setConst => .ok (s.learn i.dest c)
  | .sub => s.subtraction i
  | .add | .and | .or | .xor | .slt | .sltU => s.arithmetic i
  | .neg | .not | .bSwap16 | .bSwap32 | .ext8to32 | .ext16to32 | .reverseBits | .clz =>
    s.specialize i fun a => do return s.learn i.dest (← Alu.evaluate1 i.op a)
  | .addConst | .subConst | .andConst | .orConst | .xorConst | .sltConst | .sltUConst =>
    s.constArithmetic i c
  | .shl | .shr | .sar | .ror => s.shift i
  | .shlImm | .shrImm | .sarImm | .rorImm =>
    s.specialize i fun a => do return s.learn i.dest (← Alu.evaluate2 i.op a i.src2.toUInt32)
  | .mov => if i.dest = i.src1 then .ok s else s.specialize i fun a => .ok (s.learn i.dest a)
  | .fMovFromGPR =>
    s.specialize i fun a => do return { s with out := ← s.out.setConstF i.dest a }
  | .store8 | .store16 | .store32 | .store32Left | .store32Right | .store32Conditional | .load8
  | .load8Ext | .load16 | .load16Ext | .load32 | .load32Linked =>
    if i.src1 = i.dest then s.emit i constant else s.access i c
  | .load32Left | .load32Right | .loadFloat | .loadVec4 | .storeFloat | .storeVec4 => s.access i c
  | .setPC => s.specialize i fun a => s.pushWith { op := .setPCConst } (some a)
  | .setCtrlVFPUReg =>
    s.specialize i fun a => s.emit { op := .setCtrlVFPU, dest := i.dest } (some a)
  | .fpCondToReg =>
    match s.value? (UInt8.ofNat Slot.fpCond) with
    | some a => .ok (s.learn i.dest a)
    | none => s.emit i none
  | .fAdd | .fMul => s.emit (swapTowardDest i) none
  | .exitToConstIfEq | .exitToConstIfNeq | .exitToConstIfGtZ | .exitToConstIfGeZ
  | .exitToConstIfLtZ | .exitToConstIfLeZ => s.decide? i c (s.outcome? i)
  | .exitToConst =>
    if s.dropExit then .ok { s with dropExit := false } else s.emitExit i constant
  | .exitToReg =>
    match s.value? i.src1 with
    | some a => s.leave a
    | none => s.emitExit i none
  | .syscall | .exitToPC | .nop => s.emitExit i constant
  | _ => s.emit i constant

end Folding

/-- The instructions still to come, with the largest pool that folding goes on with. -/
def walk (source : Block) (limit : Nat) : List Inst → Folding → Except Fault Folding
  | [], s => .ok s
  | i :: rest, s =>
    if limit < s.out.pool.size then do
      let s ← s.flushAll
      return { s with out := ← s.out.appendAll source (i :: rest) }
    else do
      walk source limit rest (← s.fold i (← source.constantOf i))

/-- The block with its constants propagated. Folding stops when the pool has more than `cap`
constants beyond those of the block; that limit has to be a double word. -/
def run (cap : Nat) (b : Block) : Except Fault Block := do
  let s ← walk b (← asDouble (b.pool.size + cap)) b.insts {}
  return (← s.flushAll).out

end Dynarec.Optimize.ConstantPropagation
