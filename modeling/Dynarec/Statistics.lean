/-
What is counted while blocks are optimised and compiled.

Counts are kept per unit of work and added up afterwards. The largest block is the first one
of its size: a later block of the same size does not replace it, within a unit or between units.
The summary lists the ten most frequent opcodes, by falling count and then by name.

Every count is a double word. Counts only grow, so it is enough to look at them at the end: if one
left its double word on the way, it is still outside.

This is `JitSession` and `SessionStats`: the counters, `merge` and the summary.
-/
import Dynarec.Fault

set_option autoImplicit false

namespace Dynarec

/-- Counts by name, in order of first occurrence. -/
abbrev Tally := List (String × Nat)

/-- A tally with `n` added under a name. -/
def Tally.add (name : String) (n : Nat) : Tally → Tally
  | [] => [(name, n)]
  | (k, v) :: rest => if k = name then (k, v + n) :: rest else (k, v) :: Tally.add name n rest

/-- The sum of two tallies. -/
def Tally.merge (a b : Tally) : Tally := b.foldl (fun t (k, v) => Tally.add k v t) a

/-- The counts of one unit of work, or of several together. -/
structure Statistics where
  blocksCompiled : Nat := 0
  instsCompiled : Nat := 0
  instsIn : Nat := 0
  instsOut : Nat := 0
  codeSize : Nat := 0
  largestSize : Nat := 0
  largestAddr : Word := 0
  nativeOps : Nat := 0
  helperOps : Nat := 0
  opCounts : Tally := []
  passChanges : Tally := []
  spills : Nat := 0
  deriving Repr

namespace Statistics

/-- A block was compiled. -/
def block (s : Statistics) (addr : Word) (insts bytes : Nat) : Statistics :=
  let s := { s with
    blocksCompiled := s.blocksCompiled + 1
    instsCompiled := s.instsCompiled + insts
    codeSize := s.codeSize + bytes }
  if s.largestSize < bytes then { s with largestSize := bytes, largestAddr := addr } else s

/-- A block was optimised. -/
def optimized (s : Statistics) (before after : Nat) : Statistics :=
  { s with instsIn := s.instsIn + before, instsOut := s.instsOut + after }

/-- A pass changed a block. -/
def passChanged (s : Statistics) (name : String) : Statistics :=
  { s with passChanges := Tally.add name 1 s.passChanges }

/-- An instruction was lowered, natively or as a call. -/
def lowered (s : Statistics) (name : String) (native : Bool) : Statistics :=
  let s := { s with opCounts := Tally.add name 1 s.opCounts }
  if native then { s with nativeOps := s.nativeOps + 1 }
  else { s with helperOps := s.helperOps + 1 }

/-- Registers were spilled. -/
def spilled (s : Statistics) (n : Nat) : Statistics := { s with spills := s.spills + n }

/-- The counts of two units together. -/
def merge (a b : Statistics) : Statistics :=
  let larger := a.largestSize < b.largestSize
  { blocksCompiled := a.blocksCompiled + b.blocksCompiled
    instsCompiled := a.instsCompiled + b.instsCompiled
    instsIn := a.instsIn + b.instsIn
    instsOut := a.instsOut + b.instsOut
    codeSize := a.codeSize + b.codeSize
    largestSize := if larger then b.largestSize else a.largestSize
    largestAddr := if larger then b.largestAddr else a.largestAddr
    nativeOps := a.nativeOps + b.nativeOps
    helperOps := a.helperOps + b.helperOps
    opCounts := Tally.merge a.opCounts b.opCounts
    passChanges := Tally.merge a.passChanges b.passChanges
    spills := a.spills + b.spills }

/-- Every count. -/
def counts (s : Statistics) : List Nat :=
  [s.blocksCompiled, s.instsCompiled, s.instsIn, s.instsOut, s.codeSize, s.largestSize,
   s.nativeOps, s.helperOps, s.spills] ++ s.opCounts.map (·.2) ++ s.passChanges.map (·.2)

/-- The same counts, each of which has to be a double word. -/
def checked (s : Statistics) : Except Fault Statistics := do
  s.counts.forM fun n => discard (asDouble n)
  return s

/-- The order of the opcode list: larger counts first, then by name. -/
def before (a b : String × Nat) : Bool := b.2 < a.2 || (a.2 == b.2 && decide (a.1 ≤ b.1))

/-- The opcode lines of the summary. -/
def opLines (s : Statistics) : List String :=
  if s.opCounts.isEmpty then []
  else
    "  Op breakdown:" ::
      ((s.opCounts.mergeSort before).take 10).map fun (name, count) => s!"    {name}: {count}"

/-- The lines of the summary. -/
def summaryLines (s : Statistics) : List String :=
  ["Compilation Session Statistics:",
   s!"  Blocks compiled: {s.blocksCompiled}",
   s!"  IR instructions: {s.instsIn} in, {s.instsOut} after passes",
   s!"  Total code size: {s.codeSize} bytes",
   s!"  Native lowerings: {s.nativeOps}",
   s!"  Interpreter fallbacks: {s.helperOps}",
   s!"  Spills: {s.spills}"]
  ++ (if s.largestSize = 0 then []
      else [s!"  Largest block: {Text.hex8 s.largestAddr.toNat} ({s.largestSize} bytes)"])
  ++ s.opLines

/-- The summary, each line ended by a line feed. -/
def summary (s : Statistics) : String := String.join (s.summaryLines.map (· ++ "\n"))

end Statistics

end Dynarec
