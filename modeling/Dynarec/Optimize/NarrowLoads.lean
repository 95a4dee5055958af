/-
Narrowing of loads that are masked.

A wide load whose result is first used by a mask on the same register needs only the bytes that
the mask keeps. When the mask is exactly the width of the narrower load it is dropped as well. From
each load the search goes forward to the first instruction that reads the register; it gives up at
an exit, a barrier, and at an instruction that overwrites the register.

This is `narrow` and `run` of `reduce_loads`.
-/
import Dynarec.Block

set_option autoImplicit false

namespace Dynarec.Optimize.NarrowLoads

/-- A load that may be narrowed. -/
def isWide (op : Opcode) : Bool := op = .load32 || op = .load16 || op = .load16Ext

/-- The narrower load for a load followed by a mask, and whether the mask is still needed. -/
def narrow? (load : Opcode) (mask : Word) : Option (Opcode × Bool) :=
  if isWide load && mask &&& 0xffffff00 == 0 then some (.load8, mask != 0xff)
  else if load = .load32 && mask &&& 0xffff0000 == 0 then some (.load16, mask != 0xffff)
  else none

/-- A load to replace, and the mask to drop, both by position. -/
structure Narrowing where
  load : Nat
  op : Opcode
  dropped : Option Nat
  deriving Repr

/-- Search for the mask of the load at `pos` into register `reg`, through the instructions that
start at position `here`. -/
def search (source : Block) (load : Opcode) (reg : UInt8) (pos : Nat) :
    Nat → List Inst → Except Fault (Option Narrowing)
  | _, [] => .ok none
  | here, i :: rest =>
    if i.isExit || i.isBarrier then .ok none
    else if i.readsGpr reg then
      if i.op = .andConst ∧ i.src1 = reg ∧ i.dest = reg then do
        let mask := (← source.constantOf i).getD 0xffffffff
        match narrow? load mask with
        | some (op, keep) =>
          return some { load := pos, op := op, dropped := if keep then none else some here }
        | none => return none
      else .ok none
    else if i.destGpr = some reg then .ok none
    else search source load reg pos (here + 1) rest

/-- The narrowings of the instructions that start at position `pos`. -/
def plan (source : Block) (pos : Nat) : List Inst → Except Fault (List Narrowing)
  | [] => .ok []
  | i :: rest => do
    let first? ←
      if isWide i.op ∧ i.dest ≠ 0 then search source i.op i.dest pos (pos + 1) rest else pure none
    let others ← plan source (pos + 1) rest
    return first?.toList ++ others

/-- The instruction at a position after the planned narrowings, unless it is dropped. -/
def kept? (narrowings : List Narrowing) (pos : Nat) (i : Inst) : Option Inst :=
  if narrowings.any fun n => n.dropped == some pos then none
  else
    match narrowings.find? fun n => n.load == pos with
    | some n => some { i with op := n.op }
    | none => some i

/-- The block with its masked loads narrowed. -/
def run (b : Block) : Except Fault Block := do
  let narrowings ← plan b 0 b.insts
  let kept := b.insts.zipIdx.filterMap fun (i, pos) => kept? narrowings pos i
  Block.appendAll {} b kept

end Dynarec.Optimize.NarrowLoads
