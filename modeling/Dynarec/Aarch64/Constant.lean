/-
Sequences for operations with constants.

A constant that fits into a field of an instruction needs one instruction; any other is put into a
register first. Each operation looks for the short forms in a fixed order, so the sequence for a
constant is unique. A sequence can fail only where the fields of a bitmask are looked for.

The sequences are those of `movi2r`, `movi2r64`, `try_add_imm`, `add_i2r`, `cmp_i2r`,
`try_logic_imm`, `logic_i2r`, `try_mem_imm` and `mem_imm`.
-/
import Dynarec.Aarch64.Instr

set_option autoImplicit false

namespace Dynarec.Aarch64

/-- A sequence of instructions, unless putting it together fails. -/
abbrev Sequence := Except Fault (List Instr)

/-- The sixteen bits of a double word from bit `16 * part` on. -/
def partOf (imm : UInt64) (part : Nat) : UInt16 := (imm >>> UInt64.ofNat (16 * part)).toUInt16

/-! ## Moves -/

/-- Put a word into a register. -/
def moveConst (rd : Reg) (imm : Word) : Sequence :=
  let low := imm.toUInt16
  let high := (imm >>> 16).toUInt16
  if high = 0 then .ok [.wide .movz false rd low 0]
  else if low = 0 then .ok [.wide .movz false rd high 1]
  else if high = 0xffff then .ok [.wide .movn false rd (~~~low) 0]
  else if low = 0xffff then .ok [.wide .movn false rd (~~~high) 1]
  else do
    match ← Mask.ofValue? imm.toUInt64 32 with
    | some mask => return [.logicImm .orr false rd zr mask]
    | none => return [.wide .movz false rd low 0, .wide .movk false rd high 1]

/-- Put a double word into a register: its sixteen-bit parts that are not zero, the first one into
the cleared register. -/
def moveConst64 (rd : Reg) (imm : UInt64) : Sequence :=
  if imm >>> 32 = 0 then moveConst rd imm.toUInt32
  else
    match (List.range 4).filter fun k => partOf imm k ≠ 0 with
    | [] => .ok []
    | first :: rest =>
      .ok (.wide .movz true rd (partOf imm first) (UInt8.ofNat first)
        :: rest.map fun k => .wide .movk true rd (partOf imm k) (UInt8.ofNat k))

/-! ## Arithmetic and logic -/

/-- Add a constant in at most one instruction. -/
def addConst? (rd rn : Reg) (imm : Word) : Option (List Instr) :=
  if imm = 0 then some (if rd = rn then [] else [.mov false rd rn])
  else
    match arithmeticImmediate? imm.toUInt64 with
    | some (bits, shifted) => some [.addImm .add false rd rn bits shifted]
    | none =>
      match arithmeticImmediate? (0 - imm).toUInt64 with
      | some (bits, shifted) => some [.addImm .sub false rd rn bits shifted]
      | none => none

/-- Add a constant. -/
def addConst (rd rn : Reg) (imm : Word) (scratch : Reg) : Sequence :=
  match addConst? rd rn imm with
  | some is => .ok is
  | none => do return (← moveConst scratch imm) ++ [.add .add false rd rn scratch]

/-- Compare with a constant. -/
def compareConst (rn : Reg) (imm : Word) (scratch : Reg) : Sequence :=
  match arithmeticImmediate? imm.toUInt64 with
  | some (bits, shifted) => .ok [.addImm .subs false zr rn bits shifted]
  | none =>
    match arithmeticImmediate? (0 - imm).toUInt64 with
    | some (bits, shifted) => .ok [.addImm .adds false zr rn bits shifted]
    | none => do return (← moveConst scratch imm) ++ [.compare false rn scratch]

/-- A bitwise operation with a constant, if the constant is a bitmask. -/
def logicConst? (op : LogicOp) (rd rn : Reg) (imm : Word) : Except Fault (Option (List Instr)) := do
  return (← Mask.ofValue? imm.toUInt64 32).map fun mask => [.logicImm op false rd rn mask]

/-- A bitwise operation with a constant. -/
def logicConst (op : LogicOp) (rd rn : Reg) (imm : Word) (scratch : Reg) : Sequence := do
  match ← logicConst? op rd rn imm with
  | some is => return is
  | none => return (← moveConst scratch imm) ++ [.logicWord op rd rn scratch]

/-! ## Memory -/

/-- The offset fits into the field of a load or store. -/
def MemOp.reaches (op : MemOp) (offset : Word) : Bool :=
  offset.toNat % op.size = 0 && offset.toNat / op.size < 4096

/-- Access at a fixed offset, in one instruction. -/
def accessAt? (op : MemOp) (rt rn : Reg) (offset : Word) : Option (List Instr) :=
  if op.reaches offset then some [.access op rt rn (UInt32.ofNat (offset.toNat / op.size))]
  else none

/-- Access at a fixed offset. -/
def accessAt (op : MemOp) (rt rn : Reg) (offset : Word) (scratch : Reg) : Sequence :=
  match accessAt? op rt rn offset with
  | some is => .ok is
  | none => do
    return (← moveConst scratch offset) ++ [.addLow scratch rn scratch, .access op rt scratch 0]

end Dynarec.Aarch64
