/-
Code under construction.

Code is laid down as items: instructions, branches to labels, and labels, which name the instruction
that follows. What the items are as bytes is the business of an assembler (`Assemble`), which knows
the forms of instructions and chooses those of branches. An assembler can refuse.
-/
import Dynarec.Amd64.Instr

set_option autoImplicit false

namespace Dynarec.Amd64

/-- A place in the code. -/
abbrev Label := Nat

/-- Code. -/
inductive Item where
  | instr (i : Instr)
  /-- A branch to a label, under a condition or always. -/
  | branch (c : Option Cond) (target : Label)
  /-- The next item is what the label names. -/
  | label (l : Label)
  deriving DecidableEq, Repr

/-- The bytes of items, or why there are none. -/
abbrev Assemble := List Item → Except String (List UInt8)

/-- Code under construction. -/
structure Assembler where
  items : Array Item := #[]
  /-- The number of labels handed out. -/
  labels : Nat := 0
  deriving DecidableEq, Repr

namespace Assembler

/-- Lay down an instruction. -/
def push (a : Assembler) (i : Instr) : Assembler := { a with items := a.items.push (.instr i) }

/-- Lay down instructions. -/
def pushAll (a : Assembler) (is : List Instr) : Assembler := is.foldl push a

/-- A new label. -/
def newLabel (a : Assembler) : Label × Assembler := (a.labels, { a with labels := a.labels + 1 })

/-- Lay down a branch to a label. -/
def branch (a : Assembler) (c : Option Cond) (l : Label) : Assembler :=
  { a with items := a.items.push (.branch c l) }

/-- Place a label. -/
def place (a : Assembler) (l : Label) : Assembler := { a with items := a.items.push (.label l) }

/-- The number of instructions and branches. -/
def count (a : Assembler) : Nat :=
  a.items.toList.countP fun
    | .label _ => false
    | _ => true

end Assembler

end Dynarec.Amd64
