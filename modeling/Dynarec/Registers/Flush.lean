/-
Bringing guest storage up to date.

At the end of a block everything is stored and every register except the bound ones is free.
Before a call of the interpreter everything is stored too, but registers that the call leaves alone
and whose slots it does not write keep a clean copy. After the call the bound registers whose slots
it wrote are loaded again. A bound register that is kept as a pointer loses the memory base for the
store and gets it back.

Here are `flush_all`, `flush_slot`, `flush_static`, `repointerify`, `flush_before_call`,
`reload_after_call` and `reload_statics`.
-/
import Dynarec.Registers.Mapping

set_option autoImplicit false

namespace Dynarec.Registers

/-- Add the memory base to a bound register that is to be kept as a pointer. -/
def pointAgain (s : Slot) (r : HostReg) : EngineM Unit := do
  let e ← get
  if e.policy.pointerify && ((e.host.statics.find? (·.slot == s)).any (·.pointer)) then
    emit (.addBase r)
    modify fun e =>
      (e.modifyHolding r fun h => { h with pointer := true, normalized := false }).setResidence s
        (.pointer r)

/-- Store a bound register if guest storage may lack its value. -/
def flushStatic (s : Slot) (r : HostReg) : EngineM Unit := do
  let e ← get
  if e.isDirty r then
    if (e.holding r).any (·.pointer) then
      emit (.removeBase r)
      modify (·.modifyHolding r fun h => { h with pointer := false })
    emit (.store r s 0 1)
    modify (·.modifyHolding r fun h => { h with dirty := false })
  if ((← get).holding r).any (·.pointer) then modify (·.setResidence s (.pointer r))
  else
    modify (·.setResidence s (.host r 0))
    pointAgain s r

/-- Store a slot and let it go. -/
def flushSlot (s : Slot) : EngineM Unit := do
  requireSlot s
  let v := (← get).slotAt s
  if !v.isStatic then
    match v.residence with
    | .value w =>
      emit (.storeValue s w)
      modify (·.clear s)
    | .guest => pure ()
    | .host r _ | .hostValue r _ | .pointer r => flushReg r

/-- Store the known value of a slot that lives in no register. -/
def flushKnown (s : Slot) : EngineM Unit := do
  let v := (← get).slotAt s
  match v.residence with
  | .value w =>
    if !v.isStatic then
      emit (.storeValue s w)
      modify (·.clear s)
  | _ => pure ()

/-- Do something with every register that holds something: bound registers are stored and stay
bound, the others are left to `other`. -/
def forHoldings (other : HostReg → EngineM Unit) : EngineM Unit := do
  (List.range (← get).hosts.size).forM fun r => do
    let e ← get
    match e.holding r with
    | none => pure ()
    | some h => if (e.slotAt h.first).isStatic then flushStatic h.first r else other r

/-- Store everything; only bound slots stay in registers. -/
def flushAll : EngineM Unit := do
  (List.range Slot.count).forM flushKnown
  forHoldings flushReg

/-- A call that writes the given slots may change the register or make it stale. -/
def Engine.isLostInCall (e : Engine) (writes : List Slot) (r : HostReg) : Bool :=
  e.host.callerSaved r || (e.holdsGroup r && !e.host.preservesVector r)
    || (e.residents r).any fun (s, _) => writes.contains s

/-- Get ready for a call that works on guest storage, writes the given slots and may end the
block. -/
def flushBeforeCall (writes : List Slot) : EngineM Unit := do
  (List.range Slot.count).forM flushKnown
  forHoldings fun r => do
    if (← get).isLostInCall writes r then flushReg r else writeBack r

/-- Load a bound register. -/
def reloadStatic (b : Binding) : EngineM Unit := do
  emit (.load b.reg b.slot 1)
  modify fun e =>
    (e.modifyHolding b.reg fun h =>
      { h with dirty := false, pointer := false, normalized := true }).setResidence b.slot
      (.host b.reg 0)
  pointAgain b.slot b.reg

/-- Load the bound registers whose slots a call wrote. -/
def reloadAfterCall (writes : List Slot) : EngineM Unit := do
  let e ← get
  if e.policy.useStatics then
    e.host.statics.forM fun b => if writes.contains b.slot then reloadStatic b else pure ()

/-- Load every bound register. -/
def reloadStatics : EngineM Unit := do
  let e ← get
  if e.policy.useStatics then e.host.statics.forM reloadStatic

/-- Forget what a register holds, if the register exists. -/
def discardReg (r : HostReg) : EngineM Unit := do
  requireReg r
  modify (·.discard r)

/-- Forget a slot, if the slot exists. -/
def forgetSlot (s : Slot) : EngineM Unit := do
  requireSlot s
  modify (·.discardSlot s)

end Dynarec.Registers
