/-
Compiling a block: what comes out, and what is the same on every host.

Instructions are lowered in order. One that the host has instructions for, and whose vector
operands fit into one register each, is lowered natively; any other becomes a call of the
interpreter. The instruction that does nothing is left out.

The walk over the instructions is the loop of `compile`, which both backends have.
-/
import Dynarec.Block
import Dynarec.Statistics

set_option autoImplicit false

namespace Dynarec.Codegen

/-- A compiled block. -/
structure Compiled where
  code : List UInt8
  /-- The opcodes that were lowered, in order, and whether natively. -/
  lowered : List (Opcode × Bool)
  /-- How often a register was evicted. -/
  spills : Nat
  deriving DecidableEq, Repr

namespace Compiled

/-- The number of instructions lowered natively. -/
def nativeOps (c : Compiled) : Nat := c.lowered.countP (·.2)

/-- The number of instructions lowered as calls. -/
def helperOps (c : Compiled) : Nat := c.lowered.countP (!·.2)

/-- Count the work. -/
def record (c : Compiled) (stats : Statistics) : Statistics :=
  (c.lowered.foldl (fun s (op, native) => s.lowered op.name native) stats).spilled c.spills

end Compiled

/-! ## The walk over a block -/

/-- How a host lowers instructions. -/
structure Lowering (m : Type → Type) where
  /-- The host has instructions for the opcode. -/
  isNative : Opcode → Bool
  /-- Get ready for the instruction at a position. -/
  beginInst : Nat → m Unit
  /-- Lower an instruction with its constant. -/
  native : Inst → Word → m Unit
  /-- Lower an instruction with its constant as a call. -/
  call : Inst → Word → m Unit
  /-- Check that the instruction left everything in order. -/
  finishInst : m Unit

/-- Lower the instructions of a block from a position on. -/
def Lowering.walk {m : Type → Type} [Monad m] [MonadLiftT (Except Fault) m] (l : Lowering m)
    (b : Block) (position : Nat) : List Inst → m (List (Opcode × Bool))
  | [] => return []
  | i :: rest => do
    if i.op = .nop then l.walk b (position + 1) rest
    else
      l.beginInst position
      let constant ← monadLift (b.constantOf i)
      let native := l.isNative i.op && !i.mixesLanes
      if native then l.native i (constant.getD 0) else l.call i (constant.getD 0)
      l.finishInst
      return (i.op, native) :: (← l.walk b (position + 1) rest)

/-! ## Instructions that only move words between integer slots -/

/-- The destination and source of an instruction that copies one integer slot to another. -/
def slotMove? (i : Inst) : Option (Slot × Slot) :=
  match i.op with
  | .mov => some (i.dest.toNat, i.src1.toNat)
  | .mtLo => some (Slot.lo, i.src1.toNat)
  | .mtHi => some (Slot.hi, i.src1.toNat)
  | .mfLo => some (i.dest.toNat, Slot.lo)
  | .mfHi => some (i.dest.toNat, Slot.hi)
  | .fpCondFromReg => some (Slot.fpCond, i.src1.toNat)
  | .fpCondToReg => some (i.dest.toNat, Slot.fpCond)
  | .setCtrlVFPUReg => some (Slot.ofControl i.dest, i.src1.toNat)
  | _ => none

/-- The destination of an instruction that sets an integer slot to its constant. -/
def slotConst? (i : Inst) : Option Slot :=
  match i.op with
  | .setConst => some i.dest.toNat
  | .setCtrlVFPU => some (Slot.ofControl i.dest)
  | _ => none

end Dynarec.Codegen
