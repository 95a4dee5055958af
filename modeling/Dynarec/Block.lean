/-
Blocks: instructions together with their constants.

Constants are held once, in order of first insertion, and instructions refer to them by position,
so a pool has at most 256 entries. A block is the unit that is read, optimised, executed and
compiled. No optimisation carries a position over from one pool to another: `append` interns the
constant again in the pool of the block being built, which keeps every pool free of entries that
nothing refers to.

Pools are `ConstPool` and blocks `IrProgram`: `add`, `get`, `add_constant`, `constant_of`,
`append_from` and the helpers for building blocks.
-/
import Dynarec.Inst

set_option autoImplicit false

namespace Dynarec

/-! ## Pools -/

/-- The constants of a block, in order of first insertion. -/
structure Pool where
  values : List Word := []
  deriving DecidableEq, Repr

namespace Pool

/-- The largest number of constants: positions are bytes. -/
def capacity : Nat := 256

/-- The number of constants. -/
def size (p : Pool) : Nat := p.values.length

/-- The position of a constant, which is inserted at the end if the pool does not hold it. -/
def intern (p : Pool) (value : Word) : Except Fault (UInt8 × Pool) :=
  match p.values.idxOf? value with
  | some i => .ok (UInt8.ofNat i, p)
  | none =>
    if capacity ≤ p.size then .error (.poolFull value)
    else .ok (UInt8.ofNat p.size, { values := p.values ++ [value] })

/-- The constant at a position. -/
def get (p : Pool) (index : UInt8) : Except Fault Word :=
  match p.values[index.toNat]? with
  | some value => .ok value
  | none => .error .outOfBounds

end Pool

/-! ## Blocks -/

/-- A block of instructions and its constants. -/
structure Block where
  insts : List Inst := []
  pool : Pool := {}
  deriving DecidableEq, Repr

namespace Block

/-- The number of instructions. -/
def size (b : Block) : Nat := b.insts.length

/-- The block with one more instruction, its bytes taken as they are. -/
def push (b : Block) (i : Inst) : Block := { b with insts := b.insts ++ [i] }

/-- The position of a constant, and the block whose pool holds it. -/
def intern (b : Block) (value : Word) : Except Fault (UInt8 × Block) := do
  let (index, pool) ← b.pool.intern value
  return (index, { b with pool := pool })

/-- The constant operand of an instruction of this block. -/
def constantOf (b : Block) (i : Inst) : Except Fault (Option Word) :=
  match i.constantIndex with
  | none => .ok none
  | some index => some <$> b.pool.get index

/-- The block with one more instruction whose constant operand, if there is one, is `constant`. -/
def pushWith (b : Block) (i : Inst) (constant : Option Word) : Except Fault Block :=
  match constant with
  | none => .ok (b.push i)
  | some value => do
    let (index, b) ← b.intern value
    let i ← i.setConstantIndex index
    return b.push i

/-- The block with one more instruction, taken over from `source` with its constant. -/
def append (b : Block) (source : Block) (i : Inst) : Except Fault Block := do
  b.pushWith i (← source.constantOf i)

/-- The block with several more instructions taken over from `source`. -/
def appendAll (b : Block) (source : Block) (is : List Inst) : Except Fault Block :=
  is.foldlM (fun out i => out.append source i) b

/-- The same instructions with a pool built anew in order of first use. -/
def copy (b : Block) : Except Fault Block := Block.appendAll {} b b.insts

/-! ## Building blocks by hand -/

/-- Set an integer slot to a constant. -/
def setConst (b : Block) (dest : UInt8) (value : Word) : Except Fault Block := do
  let (index, b) ← b.intern value
  return b.push { op := .setConst, dest := dest, src1 := index }

/-- Set a float register to a pattern. -/
def setConstF (b : Block) (dest : UInt8) (value : Word) : Except Fault Block := do
  let (index, b) ← b.intern value
  return b.push { op := .setConstF, dest := dest, src1 := index }

/-- Append an operation whose last field is a constant. -/
def pushConst (b : Block) (op : Opcode) (dest src1 : UInt8) (value : Word) :
    Except Fault Block := do
  let (index, b) ← b.intern value
  return b.push { op := op, dest := dest, src1 := src1, src2 := index }

/-- Leave the block for a constant address. -/
def exitToConst (b : Block) (target : Word) : Except Fault Block := do
  let (index, b) ← b.intern target
  return b.push { op := .exitToConst, dest := index }

end Block

end Dynarec
