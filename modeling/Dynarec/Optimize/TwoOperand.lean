/-
Splitting of three-operand arithmetic.

Arithmetic whose destination differs from both sources becomes a move of the first source and an
operation that updates the destination in place, the shape that a two-operand host wants. Vector
operations stay as they are: their operands may overlap in part, and the move could overwrite
lanes of the second source. An integer result in slot zero stays as it is too.

This is `three_op_to_two_op`, with the move that `two_op_move` gives.
-/
import Dynarec.Block

set_option autoImplicit false

namespace Dynarec.Optimize.TwoOperand

/-- The move that goes with an operation that can be split. -/
def moveFor? : Opcode → Option Opcode
  | .add | .sub | .and | .or | .xor | .slt | .sltU => some .mov
  | .fAdd | .fSub | .fMul | .fDiv => some .fMov
  | _ => none

/-- The two instructions that an instruction is split into, if it is split. -/
def split? (i : Inst) : Option (Inst × Inst) :=
  match moveFor? i.op with
  | some move =>
    if i.dest ≠ i.src1 ∧ i.dest ≠ i.src2 ∧ ¬(move = .mov ∧ i.dest = 0) then
      some ({ op := move, dest := i.dest, src1 := i.src1 }, { i with src1 := i.dest })
    else none
  | none => none

/-- One more instruction of the source. -/
def step (source out : Block) (i : Inst) : Except Fault Block :=
  match split? i with
  | some (move, update) => .ok ((out.push move).push update)
  | none => out.append source i

/-- The block with its three-operand arithmetic split. -/
def run (b : Block) : Except Fault Block := b.insts.foldlM (step b) {}

end Dynarec.Optimize.TwoOperand
