/-
Bringing slots into host registers.

An instruction maps each operand and says whether it reads it, writes it, or both. A slot that is
only written is not loaded. Mapping locks the slot, so that no later operand of the same
instruction evicts it.

A float slot that lives in a group is moved out into a register of its own; if it is the last one
of its group, the register stops being a group. Four float slots are mapped as a group: a register
that still holds two or more of the group is filled up, otherwise a new one is filled, each
missing lane coming from wherever its slot lives. The tables change for all four lanes at once,
after the code that moves them.

Here are `set_imm`, `spill_lock`, `map_gpr`, `map_gpr_as_pointer`, `map_fpr` and `map_vec4`.
-/
import Dynarec.Registers.Evict

set_option autoImplicit false

namespace Dynarec.Registers

/-- How an instruction uses an operand. -/
inductive Mode where
  | read
  /-- The old value does not matter. -/
  | write
  | readWrite
  deriving DecidableEq, Repr

namespace Mode

/-- The old value matters. -/
def reads : Mode → Bool
  | .read | .readWrite => true
  | .write => false

/-- The operand gets a new value. -/
def writes : Mode → Bool
  | .write | .readWrite => true
  | .read => false

end Mode

/-! ## Integer slots -/

/-- The known value of a slot. -/
def knownValue (s : Slot) : EngineM (Option Word) := do
  requireSlot s
  return ((← get).residence s).known?

/-- Keep a slot where it is until the next instruction. -/
def lockSlot (s : Slot) : EngineM Unit := do
  requireSlot s
  modify (·.lock s)

/-- Record that an integer slot has a known value now. A bound register gets it at once. -/
def setKnown (s : Slot) (w : Word) : EngineM Unit := do
  if !Slot.isInteger s then violate (.immediateOnFloat s)
  requireSlot s
  let v := (← get).slotAt s
  match v.isStatic, v.residence.reg? with
  | true, some r =>
    emit (.setValue r w)
    modify fun e =>
      (e.modifyHolding r fun h =>
        { h with dirty := true, pointer := false, normalized := true }).setResidence s
        (.hostValue r w)
  | _, _ => modify fun e => (e.detach s).setResidence s (.value w)

/-- The register holds an integer slot, which lives there as `residence` says. -/
def Engine.bindInteger (e : Engine) (s : Slot) (r : HostReg) (dirty : Bool)
    (residence : Residence) : Engine :=
  (e.setHolding r (some { first := s, dirty := dirty, normalized := true })).setResidence s
    residence

/-- A register that holds an integer slot; a slot that is read is loaded. -/
def bringIn (s : Slot) (mode : Mode) : EngineM HostReg := do
  match (← get).residence s with
  | .host r _ | .hostValue r _ => return r
  | .pointer r =>
    if mode.reads then emit (.removeBase r)
    modify fun e =>
      (e.modifyHolding r fun h => { h with pointer := false, normalized := true }).setResidence s
        (.host r 0)
    return r
  | .value w =>
    let r ← alloc .gpr
    if mode.reads then
      emit (.setValue r w)
      modify (·.bindInteger s r true (.hostValue r w))
    else modify (·.bindInteger s r false (.host r 0))
    return r
  | .guest =>
    let r ← alloc .gpr
    if mode.reads then emit (.load r s 1)
    modify (·.bindInteger s r false (.host r 0))
    return r

/-- Map an integer slot. -/
def mapInteger (s : Slot) (mode : Mode) : EngineM HostReg := do
  if !Slot.isInteger s then violate (.integerMapOfFloat s)
  lockSlot s
  let r ← bringIn s mode
  if mode.writes then
    modify fun e =>
      (e.modifyHolding r fun h =>
        { h with dirty := true, pointer := false, normalized := true }).setResidence s (.host r 0)
  return r

/-- Map an integer slot that holds a guest address, with the memory base added. -/
def mapPointer (s : Slot) : EngineM HostReg := do
  requireSlot s
  match (← get).residence s with
  | .pointer r =>
    modify (·.lock s)
    return r
  | _ =>
    let r ← mapInteger s .read
    emit (.addBase r)
    modify fun e =>
      (e.modifyHolding r fun h => { h with pointer := true, normalized := false }).setResidence s
        (.pointer r)
    return r

/-! ## Float slots -/

/-- Move a float slot out of its group into a register of its own. -/
def leaveGroup (s : Slot) (group : HostReg) (mode : Mode) : EngineM HostReg := do
  let e ← get
  let lane := (e.residence s).lane
  set (e.reserve group true)
  let r ← alloc .fpr
  modify (·.reserve group (e.hostAt group).reserved)
  if mode.reads then emit (.extract r group lane)
  modify fun e' => (e'.clear s).bindScalar s r (mode.writes || (mode.reads && e.isDirty group))
  return r

/-- Turn a group of which only one slot is left into a register for that slot. -/
def shrinkGroup (s : Slot) (group : HostReg) (mode : Mode) : EngineM Unit := do
  let lane := ((← get).residence s).lane
  if lane != 0 && mode.reads then emit (.extract group group lane)
  modify fun e =>
    (e.modifyHolding group fun h =>
      { h with first := s, isGroup := false, dirty := h.dirty || mode.writes }).setResidence s
      (.host group 0)

/-- Map one float slot to lane 0 of a register. -/
def mapFloat (s : Slot) (mode : Mode) : EngineM HostReg := do
  if Slot.isInteger s then violate (.floatMapOfInteger s)
  lockSlot s
  let e ← get
  match (e.residence s).reg? with
  | some r =>
    if !e.holdsGroup r then
      if mode.writes then modify (·.modifyHolding r fun h => { h with dirty := true })
      return r
    else if (e.residents r).length = 1 then
      shrinkGroup s r mode
      return r
    else leaveGroup s r mode
  | none =>
    let r ← alloc .fpr
    if mode.reads then emit (.load r s 1)
    modify (·.bindScalar s r mode.writes)
    return r

/-! ## Groups -/

namespace Engine

/-- The register that holds the group that starts at a slot. -/
def groupRegister (e : Engine) (first : Slot) : Option HostReg :=
  ((List.range 4).filterMap fun lane => (e.residence (first + lane)).reg?).find? fun r =>
    (e.holding r).any fun h => h.isGroup && h.first = first

/-- Where lane `lane` of a group comes from when it is put together in register `r`. -/
def laneSource (e : Engine) (first : Slot) (r : HostReg) (lane : Nat) : LaneSource :=
  match (e.residence (first + lane)).reg? with
  | none => .guest (first + lane)
  | some old =>
    if old = r then .keep
    else .lane old (if e.holdsGroup old then (e.residence (first + lane)).lane else 0)

/-- Some lane of a group has a value that guest storage may lack. -/
def groupDirty (e : Engine) (first : Slot) : Bool :=
  (List.range 4).any fun lane => ((e.residence (first + lane)).reg?).any e.isDirty

/-- The slots of a group leave the registers other than `r` that hold them. -/
def gather (e : Engine) (first : Slot) (r : HostReg) : Engine :=
  (List.range 4).foldl (fun e lane =>
    match (e.residence (first + lane)).reg? with
    | some old => if old = r then e else e.detach (first + lane)
    | none => e) e

end Engine

/-- Put a group together in register `r`, which holds some of it already if `isBase`. -/
def compose (first : Slot) (r : HostReg) (isBase : Bool) : EngineM Unit := do
  let e ← get
  let sources := Vector.ofFn fun lane : Fin 4 => e.laneSource first r lane
  let allGuest := sources.toList == (List.range 4).map fun lane => LaneSource.guest (first + lane)
  if !isBase && allGuest then emit (.load r first 4) else emit (.compose r sources)

/-- Map four consecutive float slots to the lanes of one register. -/
def mapGroup (first : Slot) (mode : Mode) : EngineM HostReg := do
  if first < Slot.floatBase then violate (.vectorMapOutside first)
  let stop ← liftM (asDouble (first + 4))
  if Slot.floatEnd < stop then violate (.vectorMapOutside first)
  modify fun e => (List.range 4).foldl (fun e lane => e.lock (first + lane)) e
  let e ← get
  let group := e.groupRegister first
  let left := (group.map fun r => (e.residents r).length).getD 0
  match group, left with
  | some r, 4 =>
    if mode.writes then modify (·.modifyHolding r fun h => { h with dirty := true })
    return r
  | _, _ =>
    let base := if 2 ≤ left then group else none
    let r ← match base with
      | some r => pure r
      | none => alloc .fpr
    if mode.reads then
      let dirty := (← get).groupDirty first
      compose first r base.isSome
      modify fun e => (e.gather first r).bindGroup first r (dirty || mode.writes)
    else modify fun e => (e.gather first r).bindGroup first r true
    return r

end Dynarec.Registers
