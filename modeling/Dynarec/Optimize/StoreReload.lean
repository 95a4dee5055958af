/-
Removal of reloads.

A load that directly follows a store and reads exactly what was stored, from the same address into
the register it was stored from, is dropped; so are further copies of that load.

This is `loads_after_stores`.
-/
import Dynarec.Block

set_option autoImplicit false

namespace Dynarec.Optimize.StoreReload

/-- The block built so far, and the store whose reloads are being dropped. -/
structure Progress where
  out : Block := {}
  store : Option Inst := none

/-- The load that reads back what a store wrote. -/
def reload? : Opcode → Option Opcode
  | .store32 => some .load32
  | .storeVec4 => some .loadVec4
  | _ => none

/-- `i` reads back what the store `s` wrote. -/
def isReload (source : Block) (s i : Inst) : Except Fault Bool :=
  if reload? s.op = some i.op ∧ i.dest = s.dest ∧ i.src1 = s.src1 then do
    return (← source.constantOf i) == (← source.constantOf s)
  else .ok false

/-- Emit an instruction and, if it is a store, watch for its reloads. -/
def Progress.emit (p : Progress) (source : Block) (i : Inst) : Except Fault Progress := do
  return { out := ← p.out.append source i, store := if (reload? i.op).isSome then some i else none }

/-- One more instruction of the source. -/
def step (source : Block) (p : Progress) (i : Inst) : Except Fault Progress :=
  match p.store with
  | none => p.emit source i
  | some s => do if ← isReload source s i then return p else p.emit source i

/-- The block without its reloads. -/
def run (b : Block) : Except Fault Block := do
  return (← b.insts.foldlM (step b) {}).out

end Dynarec.Optimize.StoreReload
