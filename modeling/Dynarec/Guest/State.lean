/-
Guest state: the register file, the program counter, the cycle downcount and the pending system
call. A machine is a state together with a memory.

This is `GuestState`.
-/
import Dynarec.Guest.Memory
import Dynarec.Slot

set_option autoImplicit false

namespace Dynarec.Guest

/-- The registers and control words of the guest. -/
structure State where
  regs : Vector Word 256 := Vector.replicate 256 0
  pc : Word := 0
  downcount : Int32 := 0
  syscall : Word := 0
  deriving DecidableEq, Repr

namespace State

/-- The word in an integer slot given by its byte. -/
def reg (s : State) (r : UInt8) : Word := s.regs.get ⟨r.toNat, r.toNat_lt⟩

/-- The word in a slot, zero past the register file. -/
def slot (s : State) (n : Slot) : Word := s.regs[n]?.getD 0

/-- The word in a slot that may lie past the register file. -/
def slot? (s : State) (n : Slot) : Except Fault Word :=
  match s.regs[n]? with
  | some w => .ok w
  | none => .error .outOfBounds

/-- The state with a word in a slot; nothing happens past the register file. -/
def setSlot (s : State) (n : Slot) (w : Word) : State :=
  { s with regs := s.regs.setIfInBounds n w }

/-- The states after writing words into slots, one after the other. -/
def setSlots (s : State) (writes : List (Slot × Word)) : State :=
  writes.foldl (fun s (n, w) => s.setSlot n w) s

end State

/-- A guest state and its memory. -/
structure Machine where
  state : State
  memory : Memory
  deriving DecidableEq, Repr

end Dynarec.Guest
