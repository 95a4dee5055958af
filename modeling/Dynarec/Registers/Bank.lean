/-
The two classes of host registers: integer registers and float (vector) registers.
-/

set_option autoImplicit false

namespace Dynarec.Registers

/-- A class of host registers. -/
inductive Bank where
  | gpr
  | fpr
  deriving DecidableEq, Repr

/-- The name of a class in messages. -/
def Bank.name : Bank → String
  | .gpr => "Gpr"
  | .fpr => "Fpr"

end Dynarec.Registers
