/-
Instructions and the slots they touch.

An instruction is an opcode and three bytes. The bytes mean nothing by themselves: the constant
operand, the slots read and the slots written are all read off through the signature of the
opcode. The order of the slot lists is fixed (first source, second source, destination, implicit
slots) because the optimiser and the register engine act on the slots in that order.

This is `IrInst`: `dest_gpr`, `src3`, `constant_index`, `set_constant_index`, `read_slots`,
`write_slots` and `mixes_vec4_lanes`.
-/
import Dynarec.Opcode.Signature
import Dynarec.Fault

set_option autoImplicit false

namespace Dynarec

/-- One of the three operand fields. -/
inductive Field where
  | dest
  | src1
  | src2
  deriving DecidableEq, Repr

/-- An instruction. -/
structure Inst where
  op : Opcode
  dest : UInt8 := 0
  src1 : UInt8 := 0
  src2 : UInt8 := 0
  deriving DecidableEq, Repr

/-- The slots that a field of the given kind and content names. -/
def OperandKind.slots (kind : OperandKind) (value : UInt8) : List Slot :=
  match kind with
  | .gpr => [value.toNat]
  | .fpr => [Slot.ofFloat value]
  | .vec4 =>
    let first := Slot.ofFloat value
    [first, first + 1, first + 2, first + 3]
  | .vfpuCtrl => [Slot.ofControl value]
  | .unused | .const | .imm => []

/-- The field that holds a pool position, if the opcode has one. -/
def Opcode.constField? (op : Opcode) : Option Field :=
  let s := op.signature
  if s.dest = .const then some .dest
  else if s.src1 = .const then some .src1
  else if s.src2 = .const then some .src2
  else none

namespace Inst

/-- The instruction that does nothing. -/
def nop : Inst := { op := .nop }

/-- The kinds and contents of the three fields, in order. -/
def operands (i : Inst) : List (OperandKind × UInt8) :=
  let s := i.op.signature
  [(s.dest, i.dest), (s.src1, i.src1), (s.src2, i.src2)]

/-- The content of a field. -/
def field (i : Inst) : Field → UInt8
  | .dest => i.dest
  | .src1 => i.src1
  | .src2 => i.src2

/-- The instruction with another content in a field. -/
def setField (i : Inst) (f : Field) (value : UInt8) : Inst :=
  match f with
  | .dest => { i with dest := value }
  | .src1 => { i with src1 := value }
  | .src2 => { i with src2 := value }

/-- The integer slot that the destination field names and the instruction writes. -/
def destGpr (i : Inst) : Option UInt8 :=
  let s := i.op.signature
  if s.dest = .gpr ∧ s.role ≠ .source then some i.dest else none

/-- The destination field, if it is read. -/
def thirdSource (i : Inst) : Option UInt8 :=
  if i.op.signature.role = .result then none else some i.dest

/-- The pool position of the constant operand. -/
def constantIndex (i : Inst) : Option UInt8 := i.op.constField?.map i.field

/-- The instruction with another pool position for its constant operand. -/
def setConstantIndex (i : Inst) (index : UInt8) : Except Fault Inst :=
  match i.op.constField? with
  | some f => .ok (i.setField f index)
  | none => violate (.noConstantOperand i.op)

/-- The instruction may leave the block. -/
def isExit (i : Inst) : Bool := i.op.signature.isExit

/-- The instruction has effects outside registers and memory. -/
def isBarrier (i : Inst) : Bool := i.op.signature.isBarrier

/-- The slots read: first source, second source, destination if it is read, implicit ones. -/
def readSlots (i : Inst) : List Slot :=
  let s := i.op.signature
  s.src1.slots i.src1 ++ s.src2.slots i.src2
    ++ (if s.role = .result then [] else s.dest.slots i.dest) ++ s.implicitReads

/-- The slots written: destination if it is written, implicit ones. -/
def writeSlots (i : Inst) : List Slot :=
  let s := i.op.signature
  (if s.role = .source then [] else s.dest.slots i.dest) ++ s.implicitWrites

/-- The instruction reads a slot. -/
def readsSlot (i : Inst) (s : Slot) : Bool := i.readSlots.contains s

/-- The instruction writes a slot. -/
def writesSlot (i : Inst) (s : Slot) : Bool := i.writeSlots.contains s

/-- The instruction reads an integer slot given by its byte. -/
def readsGpr (i : Inst) (r : UInt8) : Bool := i.readsSlot r.toNat

/-- The first slots of the vector operands. -/
def groups (i : Inst) : List Slot :=
  i.operands.filterMap fun (kind, value) =>
    if kind = .vec4 then some (Slot.ofFloat value) else none

/-- The slots of the scalar float operands. -/
def scalars (i : Inst) : List Slot :=
  i.operands.filterMap fun (kind, value) =>
    if kind = .fpr then some (Slot.ofFloat value) else none

/-- Two vector operands overlap without coinciding, or a scalar float operand lies inside a vector
operand. One register per operand cannot represent such an instruction. -/
def mixesLanes (i : Inst) : Bool :=
  (i.groups.any fun a => i.groups.any fun b => a != b && decide (a < b + 4 ∧ b < a + 4))
    || i.scalars.any fun s => i.groups.any fun g => decide (g ≤ s ∧ s < g + 4)

end Inst

end Dynarec
