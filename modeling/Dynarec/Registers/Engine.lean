/-
The state of the register engine.

The engine keeps two tables. One says for each slot where its current value is: in guest storage,
nowhere but known, in a host register, in a host register and known, or in a host register with
the memory base added. The other says for each host register what it holds: one slot, or a group
of four consecutive float slots, one per lane. Lanes leave a group one at a time: a slot that has
moved elsewhere no longer points at the group, and `residents` lists only those that still do.

Locks last for one instruction. A locked slot is not evicted, and a reserved register is neither
handed out nor evicted.

The functions in this file only keep the tables; those that need code are in the modules above
this one.

The engine is `RegCache`; here are `start`, `begin_inst`, `release_locks`, `valid_lanes`,
`free_native`, `clear_virt`, `detach`, `discard_native`, `discard_slot`, `bind_scalar` and
`bind_group`.
-/
import Dynarec.Block
import Dynarec.Liveness
import Dynarec.Registers.Host

set_option autoImplicit false

namespace Dynarec.Registers

/-- Where the current value of a slot is. -/
inductive Residence where
  /-- In guest storage. -/
  | guest
  /-- Known; guest storage may be stale. -/
  | value (w : Word)
  /-- In a lane of a host register. -/
  | host (reg : HostReg) (lane : Nat)
  /-- In a host register, and known. -/
  | hostValue (reg : HostReg) (w : Word)
  /-- In a host register, with the memory base added. -/
  | pointer (reg : HostReg)
  deriving DecidableEq, Repr

namespace Residence

/-- The host register that holds the value. -/
def reg? : Residence → Option HostReg
  | .guest | .value _ => none
  | .host r _ | .hostValue r _ | .pointer r => some r

/-- The lane that holds the value. -/
def lane : Residence → Nat
  | .host _ lane => lane
  | _ => 0

/-- The value, if it is known. -/
def known? : Residence → Option Word
  | .value w | .hostValue _ w => some w
  | _ => none

/-- The name of the kind of residence. -/
def name : Residence → String
  | .guest => "InGuestStorage"
  | .value _ => "KnownImmediate"
  | .host .. => "InHostRegister"
  | .hostValue .. => "InHostRegisterWithImmediate"
  | .pointer _ => "InHostRegisterAsPointer"

end Residence

/-- What the engine knows about a slot. -/
structure SlotState where
  residence : Residence := .guest
  /-- It must stay where it is until the next instruction. -/
  locked : Bool := false
  /-- It is bound to its host register. -/
  isStatic : Bool := false
  deriving DecidableEq, Repr

/-- What a host register holds. -/
structure Holding where
  /-- The slot in lane 0. -/
  first : Slot
  /-- It holds four slots. -/
  isGroup : Bool := false
  /-- Guest storage may be stale. -/
  dirty : Bool := false
  /-- The memory base has been added. -/
  pointer : Bool := false
  /-- The upper half of the register is zero. -/
  normalized : Bool := false
  deriving DecidableEq, Repr

/-- The number of lanes in use. -/
def Holding.width (h : Holding) : Nat := if h.isGroup then 4 else 1

/-- What the engine knows about a host register. -/
structure HostState where
  holding : Option Holding := none
  /-- It serves as scratch until the next instruction. -/
  reserved : Bool := false
  deriving DecidableEq, Repr

/-- How the engine is to work. -/
structure Policy where
  /-- The static bindings of the host are in force. -/
  useStatics : Bool := false
  /-- Bound registers that hold addresses are kept with the memory base added. -/
  pointerify : Bool := false
  /-- How many instructions to look ahead before evicting. -/
  window : Nat := 30
  deriving DecidableEq, Repr

/-- The engine: its tables, the instructions to come, and the actions it has asked for. -/
structure Engine where
  host : Host
  policy : Policy
  slots : Vector SlotState 256
  hosts : Array HostState
  insts : List Inst := []
  index : Nat := 0
  spills : Nat := 0
  actions : Array Action := #[]

/-- Engine operations: they may fail, and a failing operation has asked for nothing. -/
abbrev EngineM := StateT Engine (Except Fault)

namespace Engine

/-! ## The tables -/

/-- What is known about a slot. -/
def slotAt (e : Engine) (s : Slot) : SlotState := e.slots[s]?.getD {}

/-- What is known about a host register. -/
def hostAt (e : Engine) (r : HostReg) : HostState := e.hosts[r]?.getD {}

/-- The engine with another entry for a slot. -/
def setSlot (e : Engine) (s : Slot) (v : SlotState) : Engine :=
  { e with slots := e.slots.setIfInBounds s v }

/-- The engine with another entry for a host register. -/
def setHost (e : Engine) (r : HostReg) (v : HostState) : Engine :=
  { e with hosts := e.hosts.setIfInBounds r v }

/-- Where the value of a slot is. -/
def residence (e : Engine) (s : Slot) : Residence := (e.slotAt s).residence

/-- The engine with another residence for a slot. -/
def setResidence (e : Engine) (s : Slot) (r : Residence) : Engine :=
  e.setSlot s { e.slotAt s with residence := r }

/-- What a host register holds. -/
def holding (e : Engine) (r : HostReg) : Option Holding := (e.hostAt r).holding

/-- The engine with another content of a host register. -/
def setHolding (e : Engine) (r : HostReg) (h : Option Holding) : Engine :=
  e.setHost r { e.hostAt r with holding := h }

/-- The engine with what a host register holds changed, if it holds something. -/
def modifyHolding (e : Engine) (r : HostReg) (f : Holding → Holding) : Engine :=
  e.setHolding r ((e.holding r).map f)

/-- The engine with a slot locked. -/
def lock (e : Engine) (s : Slot) : Engine := e.setSlot s { e.slotAt s with locked := true }

/-- The engine with a host register reserved, or not. -/
def reserve (e : Engine) (r : HostReg) (b : Bool) : Engine :=
  e.setHost r { e.hostAt r with reserved := b }

/-- The register holds a value that guest storage may lack. -/
def isDirty (e : Engine) (r : HostReg) : Bool := (e.holding r).any (·.dirty)

/-- The register holds a group. -/
def holdsGroup (e : Engine) (r : HostReg) : Bool := (e.holding r).any (·.isGroup)

/-- The slots that live in a host register, with their lanes. -/
def residents (e : Engine) (r : HostReg) : List (Slot × Nat) :=
  match e.holding r with
  | none => []
  | some h =>
    ((List.range h.width).map fun lane => (h.first + lane, lane)).filter fun (s, _) =>
      (e.residence s).reg? = some r

/-! ## Starting -/

/-- A static binding put into force. -/
def bindStatic (e : Engine) (b : Binding) : Engine :=
  (e.setSlot b.slot { residence := .host b.reg 0, isStatic := true }).setHost b.reg
    { holding := some { first := b.slot, normalized := true } }

/-- The tables at the start of a block: every slot is in guest storage, except the bound ones. -/
def reset (e : Engine) : Engine :=
  let e := { e with
    slots := Vector.replicate 256 {}
    hosts := Array.replicate e.host.count {} }
  if e.policy.useStatics then e.host.statics.foldl bindStatic e else e

/-- Begin a block. -/
def start (e : Engine) (insts : List Inst) : Engine :=
  reset { e with insts := insts, index := 0, spills := 0 }

/-- An engine for a host. -/
def new (host : Host) (policy : Policy) : Engine :=
  reset
    { host := host, policy := policy, slots := Vector.replicate 256 {},
      hosts := Array.replicate host.count {} }

/-- Drop every lock. -/
def releaseLocks (e : Engine) : Engine :=
  { e with
    slots := e.slots.map fun v => { v with locked := false }
    hosts := e.hosts.map fun v => { v with reserved := false } }

/-- Move on to an instruction. -/
def beginInst (e : Engine) (index : Nat) : Engine := releaseLocks { e with index := index }

/-! ## Letting go -/

/-- The register holds nothing. -/
def free (e : Engine) (r : HostReg) : Engine := e.setHolding r none

/-- The slot is in guest storage. -/
def clear (e : Engine) (s : Slot) : Engine := e.setResidence s .guest

/-- The slot no longer lives in its host register; a register left without slots is free. -/
def detach (e : Engine) (s : Slot) : Engine :=
  match (e.residence s).reg? with
  | none => e
  | some r =>
    let e := e.clear s
    if (e.residents r).isEmpty then e.free r else e

/-- Forget what a register holds. A bound slot stays in its register, whose content counts as
clean. -/
def discard (e : Engine) (r : HostReg) : Engine :=
  let slots := e.residents r
  if slots.any fun (s, _) => (e.slotAt s).isStatic then
    e.modifyHolding r fun h => { h with dirty := false, pointer := false }
  else (slots.foldl (fun e (s, _) => e.clear s) e).free r

/-- Forget a slot. -/
def discardSlot (e : Engine) (s : Slot) : Engine :=
  if (e.slotAt s).isStatic then e
  else
    match (e.residence s).reg? with
    | some r => if e.holdsGroup r then e.detach s else e.discard r
    | none => e.clear s

/-! ## Taking up -/

/-- The register holds one slot, and the slot lives there. -/
def bindScalar (e : Engine) (s : Slot) (r : HostReg) (dirty : Bool) : Engine :=
  (e.setHolding r (some { first := s, dirty := dirty })).setResidence s (.host r 0)

/-- The register holds four slots, and they live there. -/
def bindGroup (e : Engine) (first : Slot) (r : HostReg) (dirty : Bool) : Engine :=
  (List.range 4).foldl (fun e lane => e.setResidence (first + lane) (.host r lane))
    (e.setHolding r (some { first := first, isGroup := true, dirty := dirty }))

end Engine

/-! ## Basic operations -/

/-- Ask for an action. -/
def emit (a : Action) : EngineM Unit := modify fun e => { e with actions := e.actions.push a }

/-- Fail unless the slot exists. -/
def requireSlot (s : Slot) : EngineM Unit :=
  if s < Slot.count then pure () else throwThe Fault .outOfBounds

/-- Fail unless the host register exists. -/
def requireReg (r : HostReg) : EngineM Unit := do
  if r < (← get).hosts.size then pure () else throwThe Fault .outOfBounds

end Dynarec.Registers
