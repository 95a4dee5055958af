/-
Where compiled code finds the guest: the register slots as words one after the other, then the
program counter, the downcount and the system call number (`GuestState`).
-/
import Dynarec.Fault
import Dynarec.Slot

set_option autoImplicit false

namespace Dynarec.Guest.Layout

/-- The offset of a slot in the guest state. -/
def slot (s : Slot) : Nat := 4 * s

/-- The offset of a slot, which has to be a double word, as compiled code writes it: only its lower
half. -/
def slotOffset (s : Slot) : Except Fault Word := do return UInt32.ofNat (← asDouble (slot s))

/-- The offset of the program counter. -/
def pc : Nat := 4 * Slot.count

/-- The offset of the downcount. -/
def downcount : Nat := pc + 4

/-- The offset of the system call number. -/
def syscall : Nat := pc + 8

end Dynarec.Guest.Layout
