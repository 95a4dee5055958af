/-
Forwarding of floats that pass through an integer register.

A float copied into an integer register and straight back into a float register is copied
directly. If it goes back into the register it came from, the second copy is dropped and the first
remains the instruction to forward from.

This is `fp_moves`.
-/
import Dynarec.Block

set_option autoImplicit false

namespace Dynarec.Optimize.FloatMoves

/-- The block built so far and its last instruction as it was emitted. -/
structure Progress where
  out : Block := {}
  last : Option Inst := none

/-- The float register that `i` reads back from the integer copy made by the last instruction. -/
def forwarded? (last : Option Inst) (i : Inst) : Option UInt8 :=
  match last with
  | some p =>
    if i.op = .fMovFromGPR ∧ p.op = .fMovToGPR ∧ p.dest = i.src1 then some p.src1 else none
  | none => none

/-- Emit an instruction and remember it. -/
def Progress.emit (p : Progress) (source : Block) (i : Inst) : Except Fault Progress := do
  return { out := ← p.out.append source i, last := some i }

/-- One more instruction of the source. -/
def step (source : Block) (p : Progress) (i : Inst) : Except Fault Progress :=
  match forwarded? p.last i with
  | some f => if i.dest = f then .ok p else p.emit source { op := .fMov, dest := i.dest, src1 := f }
  | none => p.emit source i

/-- The block with its round trips forwarded. -/
def run (b : Block) : Except Fault Block := do
  return (← b.insts.foldlM (step b) {}).out

end Dynarec.Optimize.FloatMoves
