/-
Passes by name, and lists of passes.

A pipeline first copies the block, which rebuilds its pool in order of first use, and then feeds
each pass the output of the one before. A pass reports a change when its output differs from its
input as a block: instructions or pool.

This is `PassKind` and `Pipeline`: `default_for`, `from_names` and `run`.
-/
import Dynarec.Optimize.ConstantPropagation
import Dynarec.Optimize.DeadWrites
import Dynarec.Optimize.FloatMoves
import Dynarec.Optimize.NarrowLoads
import Dynarec.Optimize.StoreReload
import Dynarec.Optimize.TwoOperand
import Dynarec.Statistics
import Dynarec.Target
import Dynarec.Text.Blank
import Dynarec.Text.Lines

set_option autoImplicit false

namespace Dynarec.Optimize

/-- An optimisation pass. -/
inductive Pass where
  | floatMoves
  | constantPropagation
  | deadWrites
  | narrowLoads
  | twoOperand
  | storeReload
  deriving DecidableEq, Repr

namespace Pass

/-- Every pass. -/
def all : List Pass :=
  [.floatMoves, .constantPropagation, .deadWrites, .narrowLoads, .twoOperand, .storeReload]

/-- The name of a pass. -/
def name : Pass → String
  | .floatMoves => "fp-moves"
  | .constantPropagation => "const-prop"
  | .deadWrites => "purge-temps"
  | .narrowLoads => "reduce-loads"
  | .twoOperand => "three-op"
  | .storeReload => "loads-after-stores"

/-- The pass with the given name. -/
def ofName? (s : String) : Option Pass := all.find? fun p => p.name == s

/-- The output of a pass; `cap` bounds the constants that constant propagation may add. -/
def output (p : Pass) (cap : Nat) (b : Block) : Except Fault Block :=
  match p with
  | .floatMoves => FloatMoves.run b
  | .constantPropagation => ConstantPropagation.run cap b
  | .deadWrites => DeadWrites.run b
  | .narrowLoads => NarrowLoads.run b
  | .twoOperand => TwoOperand.run b
  | .storeReload => StoreReload.run b

/-- The output of a pass and whether it differs from the input. -/
def run (p : Pass) (cap : Nat) (b : Block) : Except Fault (Block × Bool) := do
  let out ← p.output cap b
  return (out, out != b)

end Pass

/-- The default bound on the constants that a pass may add. -/
def defaultCap : Nat := 128

/-- A list of passes, run in order. -/
structure Pipeline where
  passes : List Pass := []
  deriving DecidableEq, Repr

namespace Pipeline

/-- The usual passes for a target. Only the two-operand host wants three-operand arithmetic
split. -/
def standard (t : Target) : Pipeline :=
  { passes := [.floatMoves, .constantPropagation, .deadWrites, .narrowLoads, .storeReload]
      ++ (if t = .amd64 then [.twoOperand] else []) }

/-- The pass that a piece of a list names. -/
def passOf (piece : List Char) : Except Fault Pass :=
  match Pass.ofName? (String.ofList piece) with
  | some p => .ok p
  | none => .error (.unsupported (.unknownPass (String.ofList piece)))

/-- The pipeline that a list of names separated by commas describes; blanks around a name and
empty names are ignored. -/
def ofNames (list : String) : Except Fault Pipeline := do
  let pieces := (Text.splitOn ',' list.toList).map Text.trim
  return { passes := ← (pieces.filter fun piece => !piece.isEmpty).mapM passOf }

/-- The passes one after the other, with the changes counted. -/
def runPasses (cap : Nat) : List Pass → Block × Statistics → Except Fault (Block × Statistics)
  | [], r => .ok r
  | p :: rest, (b, stats) => do
    let (out, changed) ← p.run cap b
    runPasses cap rest (out, if changed then stats.passChanged p.name else stats)

/-- The optimised block, with the work counted. -/
def run (p : Pipeline) (cap : Nat) (b : Block) (stats : Statistics) :
    Except Fault (Block × Statistics) := do
  let (out, stats) ← runPasses cap p.passes (← b.copy, stats)
  return (out, stats.optimized b.size out.size)

end Pipeline

end Dynarec.Optimize
