/-
The hosts that code is produced for (`TargetArch`).
-/

set_option autoImplicit false

namespace Dynarec

/-- A host architecture. -/
inductive Target where
  | aarch64
  | amd64
  deriving DecidableEq, Repr

namespace Target

/-- The name of a target in reports. -/
def name : Target → String
  | .aarch64 => "arm64"
  | .amd64 => "x64"

/-- The target that a name stands for. -/
def ofName? (s : String) : Option Target :=
  if s = "arm64" ∨ s = "a64" ∨ s = "aarch64" then some .aarch64
  else if s = "x64" ∨ s = "x86_64" ∨ s = "x86-64" then some .amd64
  else none

end Target

end Dynarec
