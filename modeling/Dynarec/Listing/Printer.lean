/-
Printing blocks as listings.

An instruction is one line: its name and, separated by commas, the operands in the fields that its
opcode uses. Integer registers are written by name, float registers as `f` and vector control
registers as `vc` with their number, immediates in base ten and constants by value in base
sixteen. A position that the pool does not hold is printed as such, so printing is total.

This is `format_inst` and `print_program`.
-/
import Dynarec.Block

set_option autoImplicit false

namespace Dynarec.Listing

/-- The text of an operand; an unused field has none. -/
def operandText (constants : List Word) : OperandKind × UInt8 → Option String
  | (.unused, _) => none
  | (.gpr, v) => some (Slot.regName v)
  | (.fpr, v) | (.vec4, v) => some s!"f{v.toNat}"
  | (.vfpuCtrl, v) => some s!"vc{v.toNat}"
  | (.imm, v) => some s!"{v.toNat}"
  | (.const, v) =>
    match constants[v.toNat]? with
    | some c => some (Text.hex c.toNat)
    | none => some s!"<bad const {v.toNat}>"

/-- The line of an instruction, without its line feed. -/
def instText (constants : List Word) (i : Inst) : String :=
  match i.operands.filterMap (operandText constants) with
  | [] => i.op.name
  | texts => i.op.name ++ " " ++ ", ".intercalate texts

/-- The listing of a block: a line for each instruction. -/
def blockText (b : Block) : String :=
  String.join (b.insts.map fun i => instText b.pool.values i ++ "\n")

end Dynarec.Listing
