/-
The process that compiles and runs.

Which architecture the process runs on, whether it may enter code that it has made, and where the
interpreter is in its memory differ from one process to the next. So do the answers of its system,
and the assembler that it uses for x86-64 is not part of this library.
-/
import Dynarec.Amd64.Assembler
import Dynarec.System
import Dynarec.Target

set_option autoImplicit false

namespace Dynarec

/-- A process. -/
structure Platform where
  /-- The architecture that is taken where none is chosen. -/
  host : Target
  /-- Code made for this architecture can be entered. -/
  entersCode : Bool
  /-- The address at which compiled code calls the interpreter (`interpret_one`). -/
  helper : UInt64
  /-- The assembler for x86-64. -/
  assemble : Amd64.Assemble
  system : System

namespace Platform

/-- The process can enter code made for a target. -/
def enters (p : Platform) (t : Target) : Bool := t == p.host && p.entersCode

end Platform

end Dynarec
