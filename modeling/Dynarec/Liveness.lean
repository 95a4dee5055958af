/-
What happens next to a slot.

The register engine asks this when it has to evict something. The answer looks at a bounded window
of the instructions to come: the slot may be read first, overwritten first, or not touched again;
or the window may end before that is decided. Exits and the end of a block observe every slot
except the temporaries, which die there.

This is `next_usage` and `all_clobbered`.
-/
import Dynarec.Inst

set_option autoImplicit false

namespace Dynarec

/-- The next use of a slot. -/
inductive Usage where
  /-- It is read before it is overwritten. -/
  | read
  /-- It is overwritten before it is read, so its value is dead. -/
  | clobbered
  /-- It is a temporary that is not touched again. -/
  | unused
  /-- The window ends before the next use. -/
  | unknown
  deriving DecidableEq, Repr

namespace Usage

/-- The name of a use. -/
def name : Usage → String
  | .read => "Read"
  | .clobbered => "Clobbered"
  | .unused => "Unused"
  | .unknown => "Unknown"

/-- The use of a slot where control leaves the block. -/
def atEnd (slot : Slot) : Usage := if Slot.isTemp slot then .unused else .read

/-- The next use of a slot in the given instructions, of which at most `window` are looked at. -/
def next (slot : Slot) : Nat → List Inst → Usage
  | _, [] => atEnd slot
  | 0, _ :: _ => .unknown
  | window + 1, i :: rest =>
    if i.readsSlot slot || i.isBarrier then .read
    else if i.writesSlot slot then .clobbered
    else if i.isExit then atEnd slot
    else next slot window rest

/-- The next use of a slot from the instruction at position `start` on. -/
def nextFrom (insts : List Inst) (start : Nat) (slot : Slot) (window : Nat) : Usage :=
  next slot window (insts.drop start)

/-- Every one of the slots, of which there is at least one, is overwritten before it is read. -/
def allClobbered (insts : List Inst) (start : Nat) (slots : List Slot) (window : Nat) : Bool :=
  !slots.isEmpty && slots.all fun s => nextFrom insts start s window = .clobbered

end Usage

end Dynarec
