/-
The check that the two tables of the engine agree (`check_consistency`): a slot that lives in a host
register lives in the lane that its position in the register's group says and is not said to be
elsewhere, and a register that holds something has at least one slot living in it.
-/
import Dynarec.Registers.Engine

set_option autoImplicit false

namespace Dynarec.Registers.Engine

/-- The slot is said to be in no host register. -/
def isElsewhere (r : Residence) : Bool :=
  match r with
  | .guest | .value _ => true
  | .host .. | .hostValue .. | .pointer _ => false

/-- The first thing wrong with the entry of a slot. -/
def slotFault (e : Engine) (s : Slot) : Option Violation :=
  match (e.residence s).reg? with
  | none => none
  | some r =>
    match e.holding r with
    | none => some (.slotInFreeRegister s r)
    | some h =>
      let lane := (e.residence s).lane
      if h.first + lane ≠ s then some (.laneMismatch s lane h.first)
      else if isElsewhere (e.residence s) then some .registerWithoutStatus
      else none

/-- The first thing wrong with the entry of a host register. -/
def regFault (e : Engine) (r : HostReg) : Option Violation :=
  match e.holding r with
  | none => none
  | some h =>
    if (e.residents r).isEmpty then some (.occupiedWithoutLane (e.host.regName r) h.first)
    else none

/-- Fail with the first thing wrong with the tables. -/
def check (e : Engine) : Except Fault Unit :=
  match (List.range Slot.count).findSome? e.slotFault with
  | some v => violate v
  | none =>
    match (List.range e.hosts.size).findSome? e.regFault with
    | some v => violate v
    | none => .ok ()

end Dynarec.Registers.Engine
