/-
Memory instructions, one access after the other.

`effect` first says all that an instruction will do. Here the instructions that access memory are
written as `interpret_single` has them: reads, writes and changes of registers follow each other,
and what was done before an access that is refused stays done. That this comes to the same is a
property of the order in which each of them does things.
-/
import Dynarec.Guest.Step

set_option autoImplicit false

namespace Dynarec.Guest

/-- Steps on a machine. What they have changed stays changed when a later one fails. -/
abbrev MachineM := ExceptT Fault (StateM Machine)

namespace MachineM

/-- Something read from the machine. -/
def read {α : Type} (f : Machine → Except Fault α) : MachineM α := do
  match f (← get) with
  | .ok a => return a
  | .error fault => throw fault

/-- Write bytes at an address. -/
def write (addr : Word) (data : List UInt8) : MachineM Unit := do
  let memory ← read fun m => m.memory.write addr data
  modify fun m => { m with memory := memory }

/-- Put a word into a slot of the register file. -/
def put (s : Slot) (w : Word) : MachineM Unit :=
  modify fun m => { m with state := m.state.setSlot s w }

/-- Put a word into a float register (`set_fi`). -/
def putFloat (f : UInt8) (w : Word) : MachineM Unit := do
  if Slot.ofFloat f < Slot.count then put (Slot.ofFloat f) w else throw .outOfBounds

/-- Put four words into a vector operand (`set_vec4`), which has to be in the register file as a
whole. -/
def putLanes (f : UInt8) (words : List Word) : MachineM Unit := do
  if Slot.ofFloat f + 3 < Slot.count then
    words.zipIdx.forM fun (w, k) => put (Slot.ofFloat f + k) w
  else throw .outOfBounds

end MachineM

open MachineM

/-- The address of an access, and the word of the register that it loads or stores. -/
def place (i : Inst) (constant : Word) : MachineM (Word × Word) := do
  let s := (← get).state
  return (s.reg i.src1 + constant, s.reg i.dest)

/-- Load a word computed from the address, the register and what is read, into an integer slot. -/
def loadWith {α : Type} (i : Inst) (constant : Word) (readAt : Memory → Word → Except Fault α)
    (f : Word → Word → α → Word) : MachineM Unit := do
  let (addr, reg) ← place i constant
  let a ← read fun m => readAt m.memory addr
  put i.dest.toNat (f addr reg a)

/-- Change the aligned word that holds the address. -/
def spliceWith (i : Inst) (constant : Word) (f : Word → Word → Word → Word) : MachineM Unit := do
  let (addr, reg) ← place i constant
  let mem ← read fun m => m.memory.read32 (aligned addr)
  write (aligned addr) (Word.littleEndian (f addr reg mem))

/-- Store the lowest bytes of an integer slot. -/
def storeLow (i : Inst) (constant : Word) (count : Nat) : MachineM Unit := do
  let (addr, reg) ← place i constant
  write addr ((Word.littleEndian reg).take count)

/-- Load a word and set the link bit. -/
def loadLinked (i : Inst) (constant : Word) : MachineM Unit := do
  let (addr, _) ← place i constant
  let w ← read fun m => m.memory.read32 addr
  if i.dest ≠ 0 then put i.dest.toNat w
  put Slot.llBit 1

/-- Load a float register. -/
def loadFloat (i : Inst) (constant : Word) : MachineM Unit := do
  let (addr, _) ← place i constant
  putFloat i.dest (← read fun m => m.memory.read32 addr)

/-- Load a vector, word by word (`read_vec4`). -/
def loadLanes (i : Inst) (constant : Word) : MachineM Unit := do
  let (addr, _) ← place i constant
  let x ← read fun m => m.memory.read32 addr
  let y ← read fun m => m.memory.read32 (addr + 4)
  let z ← read fun m => m.memory.read32 (addr + 8)
  let w ← read fun m => m.memory.read32 (addr + 12)
  putLanes i.dest [x, y, z, w]

/-- Store a word if the link bit is set, and say whether it was. -/
def storeConditional (i : Inst) (constant : Word) : MachineM Unit := do
  if (← get).state.slot Slot.llBit ≠ 0 then
    let (addr, reg) ← place i constant
    write addr (Word.littleEndian reg)
    if i.dest ≠ 0 then put i.dest.toNat 1
  else if i.dest ≠ 0 then put i.dest.toNat 0

/-- Store a float register. -/
def storeFloat (i : Inst) (constant : Word) : MachineM Unit := do
  let (addr, _) ← place i constant
  write addr (Word.littleEndian (← read fun m => m.state.float i.dest))

/-- Store a vector, word by word. -/
def storeLanes (i : Inst) (constant : Word) : MachineM Unit := do
  let (addr, _) ← place i constant
  let v ← read fun m => m.state.lanes i.dest
  (List.finRange 4).forM fun k => write (addr + 4 * UInt32.ofNat k) (Word.littleEndian (v.get k))

/-- What an instruction that accesses memory does. -/
def access? (i : Inst) (constant : Word) : Option (MachineM Unit) :=
  match i.op with
  | .load8 => some (loadWith i constant Memory.read8 fun _ _ b => b.toUInt32)
  | .load8Ext => some (loadWith i constant Memory.read8 fun _ _ b => Word.extend8 b.toUInt32)
  | .load16 => some (loadWith i constant Memory.read16 fun _ _ w => w)
  | .load16Ext => some (loadWith i constant Memory.read16 fun _ _ w => Word.extend16 w)
  | .load32 => some (loadWith i constant Memory.read32 fun _ _ w => w)
  | .load32Left => some (loadWith i constant (fun m a => m.read32 (aligned a)) mergeLeft)
  | .load32Right => some (loadWith i constant (fun m a => m.read32 (aligned a)) mergeRight)
  | .load32Linked => some (loadLinked i constant)
  | .loadFloat => some (loadFloat i constant)
  | .loadVec4 => some (loadLanes i constant)
  | .store8 => some (storeLow i constant 1)
  | .store16 => some (storeLow i constant 2)
  | .store32 => some (storeLow i constant 4)
  | .store32Left => some (spliceWith i constant spliceLeft)
  | .store32Right => some (spliceWith i constant spliceRight)
  | .store32Conditional => some (storeConditional i constant)
  | .storeFloat => some (storeFloat i constant)
  | .storeVec4 => some (storeLanes i constant)
  | _ => none

end Dynarec.Guest
