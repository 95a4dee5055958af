/-
The meaning of one instruction.

An instruction first computes its effect from the machine without changing anything: which words
it puts into which slots, which bytes it stores where, what it does to the program counter, the
downcount and the system call number, and where it exits to. Loads happen here, so an instruction
that faults while loading has changed nothing. The effect is then carried out: stores in order, and
only when none of them faults, the registers. Splitting the two makes the frame of an instruction
visible: only slots that the effect lists are written.

A float operand may name a slot past the register file; the instruction then fails with an index
fault at the point where it would touch that slot.

The cases are those of `interpret_single`, which reads and changes the machine in one go. For the
instructions that access memory `access?` has its order of steps, and `step_eq_outcome` says that
both come to the same.
-/
import Dynarec.Alu
import Dynarec.Inst
import Dynarec.Guest.State
import Dynarec.Single.Arithmetic
import Dynarec.Single.Compare
import Dynarec.Single.Convert

set_option autoImplicit false

namespace Dynarec.Guest

/-- Four lanes of a vector. -/
abbrev Lanes := Vector Word 4

/-- What an instruction does. -/
structure Effect where
  /-- Bytes stored at addresses, in order. -/
  stores : List (Word × List UInt8) := []
  /-- Words put into slots, in order. -/
  slots : List (Slot × Word) := []
  pc : Option Word := none
  downcount : Option Int32 := none
  syscall : Option Word := none
  /-- The address the block exits to. -/
  exit : Option Word := none
  deriving Repr

/-! ## Reading operands -/

/-- The word of a float register. -/
def State.float (s : State) (f : UInt8) : Except Fault Word := s.slot? (Slot.ofFloat f)

/-- The four words of a vector operand. -/
def State.lanes (s : State) (f : UInt8) : Except Fault Lanes := do
  let first := Slot.ofFloat f
  return #v[← s.slot? first, ← s.slot? (first + 1), ← s.slot? (first + 2), ← s.slot? (first + 3)]

/-- The double word in the two halves of the product register. -/
def State.product (s : State) : UInt64 :=
  (s.slot Slot.lo).toUInt64 ||| ((s.slot Slot.hi).toUInt64 <<< 32)

/-! ## Effects of common shape -/

namespace Effect

/-- Put a word into an integer slot. -/
def gpr (r : UInt8) (w : Word) : Effect := { slots := [(r.toNat, w)] }

/-- Put a word into a float register. -/
def float (f : UInt8) (w : Word) : Except Fault Effect :=
  let s := Slot.ofFloat f
  if s < Slot.count then .ok { slots := [(s, w)] } else .error .outOfBounds

/-- Put four words into a vector operand. -/
def lanes (f : UInt8) (v : Lanes) : Except Fault Effect :=
  let s := Slot.ofFloat f
  if s + 3 < Slot.count then
    .ok { slots := [(s, v[0]), (s + 1, v[1]), (s + 2, v[2]), (s + 3, v[3])] }
  else .error .outOfBounds

/-- Put a double word into the two halves of the product register. -/
def product (p : UInt64) : Effect :=
  { slots := [(Slot.lo, p.toUInt32), (Slot.hi, (p >>> 32).toUInt32)] }

/-- Put a quotient and a remainder into the product register. -/
def quotient (qr : Word × Word) : Effect := { slots := [(Slot.lo, qr.1), (Slot.hi, qr.2)] }

/-- Store bytes at an address. -/
def store (addr : Word) (data : List UInt8) : Effect := { stores := [(addr, data)] }

/-- Exit to an address. -/
def exitTo (target : Word) : Effect := { exit := some target }

end Effect

/-! ## The four words that a vector can be set to by number -/

/-- The pattern of the number one. -/
def one : Word := 0x3f800000

/-- The lanes of each initial value; the number counts modulo seven. -/
def initialLanes (mode : UInt8) : Lanes :=
  match mode.toNat % 7 with
  | 0 => #v[0, 0, 0, 0]
  | 1 => #v[one, one, one, one]
  | 2 => #v[0xbf800000, 0xbf800000, 0xbf800000, 0xbf800000]
  | 3 => #v[one, 0, 0, 0]
  | 4 => #v[0, one, 0, 0]
  | 5 => #v[0, 0, one, 0]
  | _ => #v[0, 0, 0, one]

/-- The lane of `v` that two bits of `select` choose for lane `i`. -/
def pick (v : Lanes) (select : UInt8) (i : Nat) : Word :=
  match ((select >>> UInt8.ofNat (2 * i)) &&& 3).toNat with
  | 0 => v[0]
  | 1 => v[1]
  | 2 => v[2]
  | _ => v[3]

/-- The lane of `v` where the bit of `select` for lane `i` is set, else of `w`. -/
def blend (v w : Lanes) (select : UInt8) (i : Fin 4) : Word :=
  if (select >>> UInt8.ofNat i) &&& 1 != 0 then v[i] else w[i]

/-- The scalar product, as a running sum over the lanes in order. A sum of two payloads that are no
numbers may keep either of them: the program as built adds the running sum to the new product, so
the product's payload is kept and it stands first here. -/
def dot (v w : Lanes) : Word :=
  let p := v.zipWith Single.mul w
  Single.add p[3] (Single.add p[2] (Single.add p[1] p[0]))

/-! ## Unaligned words

A left access covers the bytes from the start of an aligned word up to the address, a right access
those from the address to its end. -/

/-- The distance of an address from its aligned word, in bits. -/
def misalignment (a : Word) : Word := (a &&& 3) * 8

/-- The aligned word that holds an address. -/
def aligned (a : Word) : Word := a &&& 0xfffffffc

/-- The register after a left load of the aligned word `mem`. -/
def mergeLeft (a reg mem : Word) : Word :=
  (reg &&& (0x00ffffff >>> misalignment a)) ||| (mem <<< (24 - misalignment a))

/-- The register after a right load of the aligned word `mem`. -/
def mergeRight (a reg mem : Word) : Word :=
  (reg &&& (0xffffff00 <<< (24 - misalignment a))) ||| (mem >>> misalignment a)

/-- The aligned word after a left store of `reg`. -/
def spliceLeft (a reg mem : Word) : Word :=
  (reg >>> (24 - misalignment a)) ||| (mem &&& (0xffffff00 <<< misalignment a))

/-- The aligned word after a right store of `reg`. -/
def spliceRight (a reg mem : Word) : Word :=
  (reg <<< misalignment a) ||| (mem &&& (0x00ffffff >>> (24 - misalignment a)))

/-! ## The meaning of each opcode -/

/-- The second operand of an integer operation: a register, the constant or the immediate. -/
def secondOperand (i : Inst) (constant : Word) (s : State) : Word :=
  match i.op.signature.src2 with
  | .const => constant
  | .imm => i.src2.toUInt32
  | _ => s.reg i.src2

/-- A float operation on one register. -/
def floatUnary (i : Inst) (s : State) (f : Word → Word) : Except Fault Effect := do
  Effect.float i.dest (f (← s.float i.src1))

/-- A float operation on two registers. -/
def floatBinary (i : Inst) (s : State) (f : Word → Word → Word) : Except Fault Effect := do
  Effect.float i.dest (f (← s.float i.src1) (← s.float i.src2))

/-- An operation on the lanes of one vector. -/
def lanesUnary (i : Inst) (s : State) (f : Word → Word) : Except Fault Effect := do
  Effect.lanes i.dest ((← s.lanes i.src1).map f)

/-- An operation on the lanes of two vectors. -/
def lanesBinary (i : Inst) (s : State) (f : Word → Word → Word) : Except Fault Effect := do
  let v ← s.lanes i.src1
  let w ← s.lanes i.src2
  Effect.lanes i.dest (v.zipWith f w)

/-- The effect of an instruction that computes no integer result from integer operands. -/
def effectOther (i : Inst) (constant : Word) (m : Machine) : Except Fault Effect :=
  let s := m.state
  let addr := s.reg i.src1 + constant
  match i.op with
  | .setConst => .ok (Effect.gpr i.dest constant)
  | .setConstF => Effect.float i.dest constant
  | .mov => .ok (Effect.gpr i.dest (s.reg i.src1))
  | .downcount => .ok { downcount := some (s.downcount - constant.toInt32) }
  | .setPC => .ok { pc := some (s.reg i.src1) }
  | .setPCConst => .ok { pc := some constant }
  | .movZ => .ok (if s.reg i.src1 = 0 then Effect.gpr i.dest (s.reg i.src2) else {})
  | .movNZ => .ok (if s.reg i.src1 = 0 then {} else Effect.gpr i.dest (s.reg i.src2))
  | .max => .ok (Effect.gpr i.dest (Word.smax (s.reg i.src1) (s.reg i.src2)))
  | .min => .ok (Effect.gpr i.dest (Word.smin (s.reg i.src1) (s.reg i.src2)))
  | .mtLo => .ok { slots := [(Slot.lo, s.reg i.src1)] }
  | .mtHi => .ok { slots := [(Slot.hi, s.reg i.src1)] }
  | .mfLo => .ok (Effect.gpr i.dest (s.slot Slot.lo))
  | .mfHi => .ok (Effect.gpr i.dest (s.slot Slot.hi))
  | .mult => .ok (Effect.product (Alu.productSigned (s.reg i.src1) (s.reg i.src2)))
  | .multU => .ok (Effect.product (Alu.productUnsigned (s.reg i.src1) (s.reg i.src2)))
  | .madd =>
    .ok (Effect.product (s.product + Alu.productSigned (s.reg i.src1) (s.reg i.src2)))
  | .maddU =>
    .ok (Effect.product (s.product + Alu.productUnsigned (s.reg i.src1) (s.reg i.src2)))
  | .msub =>
    .ok (Effect.product (s.product - Alu.productSigned (s.reg i.src1) (s.reg i.src2)))
  | .msubU =>
    .ok (Effect.product (s.product - Alu.productUnsigned (s.reg i.src1) (s.reg i.src2)))
  | .div => .ok (Effect.quotient (Alu.divideSigned (s.reg i.src1) (s.reg i.src2)))
  | .divU => .ok (Effect.quotient (Alu.divideUnsigned (s.reg i.src1) (s.reg i.src2)))
  | .load8 => do return Effect.gpr i.dest (← m.memory.read8 addr).toUInt32
  | .load8Ext => do return Effect.gpr i.dest (Word.extend8 (← m.memory.read8 addr).toUInt32)
  | .load16 => do return Effect.gpr i.dest (← m.memory.read16 addr)
  | .load16Ext => do return Effect.gpr i.dest (Word.extend16 (← m.memory.read16 addr))
  | .load32 => do return Effect.gpr i.dest (← m.memory.read32 addr)
  | .load32Left => do
    let mem ← m.memory.read32 (aligned addr)
    return Effect.gpr i.dest (mergeLeft addr (s.reg i.dest) mem)
  | .load32Right => do
    let mem ← m.memory.read32 (aligned addr)
    return Effect.gpr i.dest (mergeRight addr (s.reg i.dest) mem)
  | .load32Linked => do
    let w ← m.memory.read32 addr
    let loaded := if i.dest = 0 then [] else [(i.dest.toNat, w)]
    return { slots := loaded ++ [(Slot.llBit, 1)] }
  | .loadFloat => do Effect.float i.dest (← m.memory.read32 addr)
  | .loadVec4 => do
    let v : Lanes := #v[← m.memory.read32 addr, ← m.memory.read32 (addr + 4),
      ← m.memory.read32 (addr + 8), ← m.memory.read32 (addr + 12)]
    Effect.lanes i.dest v
  | .store8 => .ok (Effect.store addr ((Word.littleEndian (s.reg i.dest)).take 1))
  | .store16 => .ok (Effect.store addr ((Word.littleEndian (s.reg i.dest)).take 2))
  | .store32 => .ok (Effect.store addr (Word.littleEndian (s.reg i.dest)))
  | .store32Left => do
    let mem ← m.memory.read32 (aligned addr)
    return Effect.store (aligned addr) (Word.littleEndian (spliceLeft addr (s.reg i.dest) mem))
  | .store32Right => do
    let mem ← m.memory.read32 (aligned addr)
    return Effect.store (aligned addr) (Word.littleEndian (spliceRight addr (s.reg i.dest) mem))
  | .store32Conditional =>
    let linked := s.slot Slot.llBit != 0
    .ok {
      stores := if linked then [(addr, Word.littleEndian (s.reg i.dest))] else []
      slots := if i.dest = 0 then [] else [(i.dest.toNat, Word.ofBool linked)] }
  | .storeFloat => do return Effect.store addr (Word.littleEndian (← s.float i.dest))
  | .storeVec4 => do
    let v ← s.lanes i.dest
    return { stores := [(addr, Word.littleEndian v[0]), (addr + 4, Word.littleEndian v[1]),
      (addr + 8, Word.littleEndian v[2]), (addr + 12, Word.littleEndian v[3])] }
  | .fAdd => floatBinary i s Single.add
  | .fSub => floatBinary i s Single.sub
  | .fMul => floatBinary i s Single.guestMul
  | .fDiv => floatBinary i s Single.div
  | .fMin => floatBinary i s Single.minimum
  | .fMax => floatBinary i s Single.maximum
  | .fSqrt => floatUnary i s Single.sqrt
  | .fNeg => floatUnary i s Single.negate
  | .fAbs => floatUnary i s Single.magnitude
  | .fMov => floatUnary i s id
  | .fRound => floatUnary i s (Single.convert .nearestEven)
  | .fTrunc => floatUnary i s Single.truncate
  | .fCeil => floatUnary i s (Single.convert .up)
  | .fFloor => floatUnary i s (Single.convert .down)
  | .fCvtWS =>
    floatUnary i s (Single.convert (Single.controlDirection (s.slot Slot.fcr31)))
  | .fCvtSW => floatUnary i s Single.ofWord
  | .fCmp => do
    let outcome := Single.compare i.dest (← s.float i.src1) (← s.float i.src2)
    return { slots := [(Slot.fpCond, Word.ofBool outcome)] }
  | .fMovFromGPR => Effect.float i.dest (s.reg i.src1)
  | .fMovToGPR => do return Effect.gpr i.dest (← s.float i.src1)
  | .fpCondFromReg => .ok { slots := [(Slot.fpCond, s.reg i.src1)] }
  | .fpCondToReg => .ok (Effect.gpr i.dest (s.slot Slot.fpCond))
  | .setCtrlVFPU => .ok { slots := [(Slot.ofControl i.dest, constant)] }
  | .setCtrlVFPUReg => .ok { slots := [(Slot.ofControl i.dest, s.reg i.src1)] }
  | .vec4Init => Effect.lanes i.dest (initialLanes i.src1)
  | .vec4Shuffle => do
    let v ← s.lanes i.src1
    Effect.lanes i.dest #v[pick v i.src2 0, pick v i.src2 1, pick v i.src2 2, pick v i.src2 3]
  | .vec4Blend => do
    let v ← s.lanes i.src1
    let w ← s.lanes i.dest
    Effect.lanes i.dest (Vector.ofFn (blend v w i.src2))
  | .vec4Mov => lanesUnary i s id
  | .vec4Add => lanesBinary i s Single.add
  | .vec4Sub => lanesBinary i s Single.sub
  | .vec4Mul => lanesBinary i s Single.mul
  | .vec4Div => lanesBinary i s Single.div
  | .vec4Scale => do
    let factor ← s.float i.src2
    lanesUnary i s fun x => Single.mul x factor
  | .vec4Neg => lanesUnary i s Single.negate
  | .vec4Abs => lanesUnary i s Single.magnitude
  | .vec4Dot => do
    let v ← s.lanes i.src1
    let w ← s.lanes i.src2
    Effect.float i.dest (dot v w)
  | .vec4ClampToZero => lanesUnary i s fun x => if Single.isNegative x then 0 else x
  | .exitToConst => .ok (Effect.exitTo constant)
  | .exitToReg => .ok (Effect.exitTo (s.reg i.src1))
  | .exitToPC => .ok (Effect.exitTo s.pc)
  | .syscall => .ok { syscall := some constant, exit := some s.pc }
  | op =>
    match op.exitCondition? with
    | some taken =>
      .ok (if taken (s.reg i.src1) (s.reg i.src2) then Effect.exitTo constant else {})
    | none => violate (.notExecutable op)

/-- The effect of an instruction whose constant operand, if it has one, is `constant`. -/
def effect (i : Inst) (constant : Word) (m : Machine) : Except Fault Effect :=
  let s := m.state
  match i.op.binary? with
  | some f => .ok (Effect.gpr i.dest (f (s.reg i.src1) (secondOperand i constant s)))
  | none =>
    match i.op.unary? with
    | some f => .ok (Effect.gpr i.dest (f (s.reg i.src1)))
    | none => effectOther i constant m

/-! ## Carrying out an effect -/

/-- Stores in order, up to the first that faults. -/
def storeAll : List (Word × List UInt8) → Memory → Except Fault Unit × Memory
  | [], memory => (.ok (), memory)
  | (addr, data) :: rest, memory =>
    match memory.write addr data with
    | .ok memory => storeAll rest memory
    | .error f => (.error f, memory)

/-- The state after the register part of an effect. -/
def Effect.onState (e : Effect) (s : State) : State :=
  let s := s.setSlots e.slots
  { s with
    pc := e.pc.getD s.pc
    downcount := e.downcount.getD s.downcount
    syscall := e.syscall.getD s.syscall }

/-- Carry out an effect: the exit target if there is one, and the machine afterwards. A store that
faults leaves the registers alone. -/
def Effect.apply (e : Effect) (m : Machine) : Except Fault (Option Word) × Machine :=
  match storeAll e.stores m.memory with
  | (.ok (), memory) => (.ok e.exit, { state := e.onState m.state, memory := memory })
  | (.error f, memory) => (.error f, { m with memory := memory })

/-- Execute one instruction: the exit target if it leaves the block, and the machine
afterwards. -/
def step (i : Inst) (constant : Word) (m : Machine) : Except Fault (Option Word) × Machine :=
  match effect i constant m with
  | .ok e => e.apply m
  | .error f => (.error f, m)

end Dynarec.Guest
