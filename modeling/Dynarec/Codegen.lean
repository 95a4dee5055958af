/-
Compiling a block for the chosen target (`compile_program`).
-/
import Dynarec.Aarch64.Lower
import Dynarec.Amd64.Lower
import Dynarec.Platform

set_option autoImplicit false

namespace Dynarec.Codegen

/-- Compile a block. -/
def compile (p : Platform) (s : Settings) (b : Block) : Except Fault Compiled :=
  match s.target with
  | .aarch64 => Aarch64.compile p.helper s b
  | .amd64 => Amd64.compile p.assemble p.helper s b

end Dynarec.Codegen
