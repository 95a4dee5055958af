/-
Handing out registers and emptying them.

A free register is handed out first. Otherwise a register is evicted, in the order in which the
host hands them out. A register whose slots are all overwritten before they are read is dropped
without a store; then comes one whose slots are never touched again, and then the first one that
is not locked. Locked slots, bound slots and reserved registers are never evicted, so a request
can fail; the failure names the instruction.

Here are `find_free`, `find_best_to_spill`, `alloc`, `alloc_temp`, `flush_native`, `store_lanes`
and `write_back_native`.
-/
import Dynarec.Registers.Engine

set_option autoImplicit false

namespace Dynarec.Registers

namespace Engine

/-- The first register of a class that holds nothing and is not reserved. -/
def findFree (e : Engine) (bank : Bank) : Option HostReg :=
  (e.host.order bank e.policy.useStatics).find? fun r =>
    let v := e.hostAt r
    v.holding.isNone && !v.reserved

/-- The next use of a slot. -/
def usage (e : Engine) (s : Slot) : Usage := Usage.nextFrom e.insts e.index s e.policy.window

/-- The register may be evicted. -/
def isEvictable (e : Engine) (r : HostReg) : Bool :=
  let v := e.hostAt r
  v.holding.isSome && !v.reserved
    && !(e.residents r).any fun (s, _) => (e.slotAt s).locked || (e.slotAt s).isStatic

/-- Whether evicting a register is worth its cost, and if so, whether its content is dead. With
`unusedOnly` a register with a slot that may be read again is passed over. -/
def evictionOf (e : Engine) (unusedOnly : Bool) (r : HostReg) : Option (HostReg × Bool) :=
  if !e.isEvictable r then none
  else
    let usages := (e.residents r).map fun (s, _) => e.usage s
    if usages.all (· = .clobbered) then some (r, true)
    else if !unusedOnly || usages.all (· = .unused) then some (r, false)
    else none

/-- The register to evict, and whether its content is dead. -/
def victim (e : Engine) (bank : Bank) : Option (HostReg × Bool) :=
  let order := e.host.order bank e.policy.useStatics
  match order.findSome? (e.evictionOf true) with
  | some v => some v
  | none => order.findSome? (e.evictionOf false)

end Engine

/-! ## Storing -/

/-- Store the given lanes of a register. An integer register loses the memory base first. -/
def storeLanes (r : HostReg) (slots : List (Slot × Nat)) : EngineM Unit := do
  let e ← get
  match e.host.bankOf r with
  | .gpr =>
    if (e.holding r).any (·.pointer) then emit (.removeBase r)
    match slots with
    | (s, _) :: _ => emit (.store r s 0 1)
    | [] => pure ()
  | .fpr =>
    match slots with
    | [] => pure ()
    | (s, _) :: _ =>
      if !e.holdsGroup r then emit (.store r s 0 1)
      else if slots.length = 4 then emit (.store r s 0 4)
      else slots.forM fun (s, lane) => emit (.store r s lane 1)

/-- Store a register if guest storage may lack its value, and free it. -/
def flushReg (r : HostReg) : EngineM Unit := do
  requireReg r
  let e ← get
  match e.residents r with
  | [] => modify (·.free r)
  | (s, lane) :: rest =>
    if (e.slotAt s).isStatic then violate (.flushOfStatic (e.host.regName r))
    if e.isDirty r then storeLanes r ((s, lane) :: rest)
    modify fun e => (((s, lane) :: rest).foldl (fun e (s, _) => e.clear s) e).free r

/-- Store a register if guest storage may lack its value, and keep it as a clean copy. -/
def writeBack (r : HostReg) : EngineM Unit := do
  let e ← get
  let slots := e.residents r
  if e.isDirty r && !slots.isEmpty then
    storeLanes r slots
    if (e.holding r).any (·.pointer) then emit (.addBase r)
    modify (·.modifyHolding r fun h => { h with dirty := false })

/-! ## Handing out -/

/-- A register of a class that holds nothing. -/
def alloc (bank : Bank) : EngineM HostReg := do
  let e ← get
  match e.findFree bank with
  | some r => return r
  | none =>
    match e.victim bank with
    | none => violate (.exhausted bank e.index (e.insts[e.index]?.map (·.op)))
    | some (r, dead) =>
      set { e with spills := e.spills + 1 }
      if dead then modify (·.discard r) else flushReg r
      return r

/-- A register for scratch use until the next instruction. -/
def allocScratch (bank : Bank) : EngineM HostReg := do
  let r ← alloc bank
  modify (·.reserve r true)
  return r

end Dynarec.Registers
