/-
What the register engine has to know about a host, and what it may ask of it.

The engine decides where guest values live and never produces code. A host is described by a
record: how many registers of each class there are, in which order they are handed out, which
guest registers are bound to a host register for good, and what a call leaves alone. What the
engine wants done is an action; the meaning of an action is the same on every host, and each host
has its own way to spell it.

The record is `NativeTarget`, and its methods that produce code are the actions.
-/
import Dynarec.Registers.Bank
import Dynarec.Slot
import Dynarec.Bits

set_option autoImplicit false

namespace Dynarec.Registers

/-- A host register: the integer registers come first, then the float registers. -/
abbrev HostReg := Nat

/-- A guest register that always lives in the same host register. -/
structure Binding where
  slot : Slot
  reg : HostReg
  /-- It holds a guest address and is kept with the memory base added, if that is asked for. -/
  pointer : Bool
  deriving DecidableEq, Repr

/-- A host. -/
structure Host where
  gprs : Nat
  fprs : Nat
  /-- The registers of a class in the order in which they are handed out; with static bindings
  in force the bound registers are left out. -/
  order : Bank → Bool → List HostReg
  statics : List Binding
  /-- A call may change the register. -/
  callerSaved : HostReg → Bool
  /-- A call keeps all four lanes of a float register that it does not change as a whole. -/
  preservesVector : HostReg → Bool
  regName : HostReg → String
  /-- The number of lanes of a float register. -/
  simdWidth : Nat := 4

namespace Host

/-- The number of registers of both classes. -/
def count (h : Host) : Nat := h.gprs + h.fprs

/-- The class of a register. -/
def bankOf (h : Host) (r : HostReg) : Bank := if r < h.gprs then .gpr else .fpr

end Host

/-! ## Actions -/

/-- Where a lane of a vector that is put together comes from. -/
inductive LaneSource where
  /-- It is in place already. -/
  | keep
  /-- A lane of another register. -/
  | lane (reg : HostReg) (lane : Nat)
  /-- The guest storage of a slot. -/
  | guest (slot : Slot)
  | value (w : Word)
  deriving DecidableEq, Repr

/-- What the engine asks of the host. -/
inductive Action where
  /-- Put `lanes` (one or four) consecutive slots into the register, from lane 0 on. -/
  | load (reg : HostReg) (slot : Slot) (lanes : Nat)
  /-- Put `count` lanes from `lane` on into consecutive slots. -/
  | store (reg : HostReg) (slot : Slot) (lane count : Nat)
  /-- Put a word into the register. -/
  | setValue (reg : HostReg) (value : Word)
  /-- Put a word into guest storage. -/
  | storeValue (slot : Slot) (value : Word)
  /-- Add the memory base to the guest address in the register. -/
  | addBase (reg : HostReg)
  /-- Take the memory base away again. -/
  | removeBase (reg : HostReg)
  | move (dest src : HostReg)
  /-- Put a lane of `src` into lane 0 of `dest`. -/
  | extract (dest src : HostReg) (lane : Nat)
  /-- Fill the lanes of `dest`; no source names `dest`. -/
  | compose (dest : HostReg) (sources : Vector LaneSource 4)
  deriving DecidableEq, Repr

end Dynarec.Registers
