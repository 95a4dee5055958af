/-
How blocks are optimised and compiled.

This is `JitOptions`.
-/
import Dynarec.Optimize.Pipeline

set_option autoImplicit false

namespace Dynarec

open Dynarec.Optimize (Pipeline)

/-- What a caller can choose. -/
structure Settings where
  target : Target
  pipeline : Pipeline
  /-- The most constants that one pass may add to a pool. -/
  constantCap : Nat := Optimize.defaultCap
  /-- Guest registers that are used often are bound to host registers, where the host has such
  bindings. -/
  useStatics : Bool
  /-- Bound registers that hold addresses are kept as host pointers. -/
  pointerify : Bool := false
  /-- How many instructions the register engine looks ahead. -/
  window : Nat := 30
  /-- The number of bytes for code. -/
  codeSize : Nat := 4 * 1024 * 1024
  deriving DecidableEq, Repr

namespace Settings

/-- The usual choice for a target. -/
def standard (t : Target) : Settings :=
  { target := t, pipeline := Pipeline.standard t, useStatics := t = .aarch64 }

end Settings

end Dynarec
