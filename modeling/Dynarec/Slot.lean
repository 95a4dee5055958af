/-
The register file.

All guest registers live in one file of 256 word-sized slots: the 32 integer registers, then 176
float slots (32 scalar registers, 128 vector registers, 16 vector temporaries), then 16 vector
control registers, ten temporaries that live only inside a block, and the special registers. A
slot outside the float range is an integer slot.

An instruction names an integer register by its slot, a float register by its number counted from
the first float slot, and a vector control register by its number modulo 16. Float numbers up to
255 can be written although only 176 exist, so a float number may name a slot past the file; the
functions below do not hide that.

The functions are `is_temp`, `is_gpr_slot`, `fpr_slot`, `vfpu_ctrl_slot`, `gpr_name` and
`parse_gpr_name`.
-/
import Dynarec.Text.Digits

set_option autoImplicit false

namespace Dynarec

/-- A position in the register file. -/
abbrev Slot := Nat

namespace Slot

/-- The number of slots in the file. -/
def count : Nat := 256

/-- The number of integer registers with a number of their own. -/
def integerCount : Nat := 32

/-- The first float slot. -/
def floatBase : Slot := 32

/-- The number of float slots. -/
def floatCount : Nat := 176

/-- The slot after the last float slot. -/
def floatEnd : Slot := floatBase + floatCount

/-- The first vector control slot. -/
def controlBase : Slot := 208

/-- The first temporary. -/
def firstTemp : Slot := 224

/-- The last temporary. -/
def lastTemp : Slot := 233

/-- The low half of a product, or a quotient. -/
def lo : Slot := 240

/-- The high half of a product, or a remainder. -/
def hi : Slot := 241

/-- The float control register, which holds the rounding direction. -/
def fcr31 : Slot := 242

/-- The outcome of the last float comparison. -/
def fpCond : Slot := 243

/-- Set by a linked load and tested by a conditional store. -/
def llBit : Slot := 244

/-- A temporary: its value does not outlive the block. -/
def isTemp (s : Slot) : Bool := firstTemp ≤ s && s ≤ lastTemp

/-- A slot outside the float range. -/
def isInteger (s : Slot) : Bool := s < floatBase || floatEnd ≤ s

/-- The slot of the float register with the given number. -/
def ofFloat (f : UInt8) : Slot := floatBase + f.toNat

/-- The slot of the vector control register with the given number. -/
def ofControl (n : UInt8) : Slot := controlBase + (n &&& 15).toNat

/-! ## Names of integer slots -/

/-- The integer slots with a name of their own. -/
def specialNames : List (UInt8 × String) :=
  [(224, "temp0"), (225, "temp1"), (226, "temp2"), (227, "temp3"), (228, "lhs"), (229, "rhs"),
   (230, "lr_addr"), (231, "lr_value"), (232, "lr_mask"), (233, "lr_shift"), (240, "lo"),
   (241, "hi"), (242, "fcr31"), (243, "fpcond"), (244, "llbit")]

/-- The name of an integer slot: `r` and the number for the numbered registers, its own name for a
special one, `g` and the slot for any other. -/
def regName (r : UInt8) : String :=
  if r.toNat < integerCount then s!"r{r.toNat}"
  else
    match specialNames.find? fun p => p.1 == r with
    | some p => p.2
    | none => s!"g{r.toNat}"

/-- The integer slot with the given name. Any slot may be written with `g`. -/
def ofRegName? (cs : List Char) : Option UInt8 :=
  match specialNames.find? fun p => p.2.toList == cs with
  | some p => some p.1
  | none =>
    match cs with
    | 'r' :: ds => (Text.unsignedBelow? 10 integerCount ds).map UInt8.ofNat
    | 'g' :: ds => (Text.unsignedBelow? 10 count ds).map UInt8.ofNat
    | _ => none

end Slot

end Dynarec
