/-
What words of the data processing group do.

A machine has 31 registers of 64 bits, a stack pointer and four flags. A word is taken apart into
fields: its form is told by six bits at the top, its width by the highest bit, and what the form
does with the other fields is written down as the manual of the architecture has it, for both
widths. So the machine knows nothing of how words are made. What it makes of the words of the
encoder is said once for each form, by `step_wide` and its siblings.

Only forms on integer registers without memory are here. A word of another form, or one whose fields
are reserved, has no step.
-/
import Dynarec.Proofs.Aarch64.Cells

set_option autoImplicit false

namespace Dynarec.Aarch64

/-! ## Machines -/

/-- The flags: the result is negative, is zero, has a carry, leaves the signed range. -/
structure Flags where
  n : Bool
  z : Bool
  c : Bool
  v : Bool
  deriving DecidableEq, Repr

/-- The condition holds of the flags. -/
def Cond.holds (f : Flags) : Cond → Bool
  | .eq => f.z
  | .ne => !f.z
  | .hs => f.c
  | .lo => !f.c
  | .mi => f.n
  | .pl => !f.n
  | .vs => f.v
  | .vc => !f.v
  | .hi => f.c && !f.z
  | .ls => !(f.c && !f.z)
  | .ge => f.n == f.v
  | .lt => f.n != f.v
  | .gt => f.n == f.v && !f.z
  | .le => !(f.n == f.v && !f.z)
  | .al => true

/-- The integer registers and the flags. -/
structure Machine where
  /-- Number 31 is the stack pointer. -/
  file : BitVec 5 → BitVec 64
  flags : Flags

namespace Machine

variable {width : Nat}

/-- Read a register; number 31 is zero. -/
def read (m : Machine) (width : Nat) (r : BitVec 5) : BitVec width :=
  if r = 31 then 0 else (m.file r).setWidth width

/-- Write a register or the stack pointer. The bits above the width are cleared. -/
def put (m : Machine) (r : BitVec 5) (v : BitVec width) : Machine :=
  { m with file := Function.update m.file r (v.setWidth 64) }

/-- Write a register; number 31 is none. -/
def write (m : Machine) (r : BitVec 5) (v : BitVec width) : Machine :=
  if r = 31 then m else m.put r v

end Machine

/-! ## Operations -/

section Operations

variable {width : Nat}

/-- A sum with a carry, and the flags that it sets. -/
def addWithCarry (x y : BitVec width) (carry : Bool) : BitVec width × Flags :=
  let unsignedSum := x.toNat + y.toNat + carry.toNat
  let signedSum := x.toInt + y.toInt + carry.toNat
  let result := BitVec.ofNat width unsignedSum
  (result, { n := result.msb, z := result == 0, c := result.toNat != unsignedSum,
             v := result.toInt != signedSum })

/-- A sum, or a difference as the sum with the complement and one. -/
def addOrSub (isSub : Bool) (x y : BitVec width) : BitVec width × Flags :=
  if isSub then addWithCarry x (~~~y) true else addWithCarry x y false

/-- A shift of a second operand, by its code. -/
def shiftBy (code : BitVec 2) (x : BitVec width) (amount : Nat) : BitVec width :=
  match code.toNat with
  | 0 => x <<< amount
  | 1 => x >>> amount
  | 2 => x.sshiftRight amount
  | _ => x.rotateRight amount

/-- A bitwise operation, by its code. The last one is the first with flags. -/
def bitwise (code : BitVec 2) (x y : BitVec width) : BitVec width :=
  match code.toNat with
  | 1 => x ||| y
  | 2 => x ^^^ y
  | _ => x &&& y

/-- The flags that the last bitwise operation sets. -/
def bitwiseFlags (x : BitVec width) : Flags where
  n := x.msb
  z := x == 0
  c := false
  v := false

/-- Sixteen bits written over others. -/
def insertPart (x : BitVec width) (imm : BitVec 16) (part : Nat) : BitVec width :=
  (x &&& ~~~((BitVec.allOnes 16).setWidth width <<< (16 * part)))
    ||| imm.setWidth width <<< (16 * part)

/-- As many copies of an element as fit. -/
def copies {size : Nat} (width : Nat) (x : BitVec size) : BitVec width :=
  (BitVec.replicate (width / size) x).setWidth width

/-- `ones` ones from the bottom. -/
def onesBelow (width ones : Nat) : BitVec width := BitVec.ofNat width (2 ^ ones - 1)

/-- The element size that the fields of a bitmask give: the place of the highest set bit of
`n : ~imms`, as a power of two. -/
def sizeOfFields (n : BitVec 1) (imms : BitVec 6) : Nat := 2 ^ (n ++ ~~~imms).toNat.log2

/-- The two masks of a bitfield: where the rotated operand goes, and what is below the sign. An
operand of its own (`isOperand`) is not all ones. -/
def bitMasks? (width : Nat) (n : BitVec 1) (imms immr : BitVec 6) (isOperand : Bool) :
    Option (BitVec width × BitVec width) :=
  let size := sizeOfFields n imms
  let s := imms.toNat % size
  let r := immr.toNat % size
  if size < 2 ∨ isOperand = true ∧ s = size - 1 then none
  else some (copies width ((onesBelow size (s + 1)).rotateRight r),
    copies width (onesBelow size ((s + size - r) % size + 1)))

end Operations

/-! ## Forms -/

namespace Machine

/-- Move sixteen bits: complemented, into a cleared register, or over a part of the register. -/
def moveWide (m : Machine) (width : Nat) (code hw : BitVec 2) (imm : BitVec 16) (rd : BitVec 5) :
    Option Machine :=
  if width ≤ 16 * hw.toNat then none
  else
    match code.toNat with
    | 0 => some (m.write rd (~~~insertPart (0 : BitVec width) imm hw.toNat))
    | 2 => some (m.write rd (insertPart (0 : BitVec width) imm hw.toNat))
    | 3 => some (m.write rd (insertPart (m.read width rd) imm hw.toNat))
    | _ => none

/-- Add or subtract a constant of twelve bits, which may be shifted by twelve. Register 31 is the
stack pointer, unless it receives a result with flags. -/
def addImmediate (m : Machine) (width : Nat) (isSub setsFlags isShifted : BitVec 1)
    (imm : BitVec 12) (rn rd : BitVec 5) : Option Machine :=
  let operand : BitVec width := imm.setWidth width <<< if isShifted = 1 then 12 else 0
  let (result, flags) := addOrSub (isSub = 1) ((m.file rn).setWidth width) operand
  some (if setsFlags = 1 then { m.write rd result with flags } else m.put rd result)

/-- Add or subtract a shifted register. -/
def addShifted (m : Machine) (width : Nat) (isSub setsFlags isExtended : BitVec 1)
    (shift : BitVec 2) (amount : BitVec 6) (rm rn rd : BitVec 5) : Option Machine :=
  if isExtended = 1 ∨ shift = 3 ∨ width ≤ amount.toNat then none
  else
    let (result, flags) := addOrSub (isSub = 1) (m.read width rn)
      (shiftBy shift (m.read width rm) amount.toNat)
    let m' := m.write rd result
    some (if setsFlags = 1 then { m' with flags } else m')

/-- A bitwise operation with a bitmask. Register 31 receives the result as the stack pointer, unless
flags are set. -/
def bitwiseImmediate (m : Machine) (width : Nat) (code : BitVec 2) (n : BitVec 1)
    (immr imms : BitVec 6) (rn rd : BitVec 5) : Option Machine :=
  if width = 32 ∧ n = 1 then none
  else do
    let (operand, _) ← bitMasks? width n imms immr true
    let result := bitwise code (m.read width rn) operand
    return if code = 3 then { m.write rd result with flags := bitwiseFlags result }
      else m.put rd result

/-- A bitwise operation with a shifted register, which may be complemented. -/
def bitwiseShifted (m : Machine) (width : Nat) (code : BitVec 2) (shift : BitVec 2)
    (isInverted : BitVec 1) (amount : BitVec 6) (rm rn rd : BitVec 5) : Option Machine :=
  if width ≤ amount.toNat then none
  else
    let shifted := shiftBy shift (m.read width rm) amount.toNat
    let result := bitwise code (m.read width rn) (if isInverted = 1 then ~~~shifted else shifted)
    let m' := m.write rd result
    some (if code = 3 then { m' with flags := bitwiseFlags result } else m')

/-- Move a bitfield: into the copies of its sign, over a part of the register, or into a cleared
register. -/
def bitfield (m : Machine) (width : Nat) (code : BitVec 2) (n : BitVec 1) (immr imms : BitVec 6)
    (rn rd : BitVec 5) : Option Machine :=
  if code = 3 ∨ (n = 1 ↔ width = 32) ∨ width ≤ immr.toNat ∨ width ≤ imms.toNat then none
  else do
    let (wmask, tmask) ← bitMasks? width n imms immr false
    let old := if code = 1 then m.read width rd else 0
    let source := m.read width rn
    let bottom := (old &&& ~~~wmask) ||| (source.rotateRight immr.toNat &&& wmask)
    let top := if code = 0 then
        (if source.getLsbD imms.toNat then BitVec.allOnes width else 0)
      else old
    return m.write rd ((top &&& ~~~tmask) ||| (bottom &&& tmask))

/-- Bits from the middle of two registers, one behind the other. -/
def extract (m : Machine) (width : Nat) (code : BitVec 2) (n isOther : BitVec 1)
    (amount : BitVec 6) (rm rn rd : BitVec 5) : Option Machine :=
  if code ≠ 0 ∨ isOther = 1 ∨ (n = 1 ↔ width = 32) ∨ width ≤ amount.toNat then none
  else some (m.write rd ((m.read width rn ++ m.read width rm).extractLsb' amount.toNat width))

end Machine

/-! ## Words -/

/-- The bits of a word from a position on. -/
def bitsOf (w : Word) (pos width : Nat) : BitVec width := w.toBitVec.extractLsb' pos width

/-- The width that a word works at. -/
def widthOf (w : Word) : Nat := if bitsOf w 31 1 = 1 then 64 else 32

namespace Machine

/-- Carry out a word. -/
def step (m : Machine) (w : Word) : Option Machine :=
  match (bitsOf w 23 6).toNat with
  | 0b100101 =>
    m.moveWide (widthOf w) (bitsOf w 29 2) (bitsOf w 21 2) (bitsOf w 5 16) (bitsOf w 0 5)
  | 0b100010 =>
    m.addImmediate (widthOf w) (bitsOf w 30 1) (bitsOf w 29 1) (bitsOf w 22 1) (bitsOf w 10 12)
      (bitsOf w 5 5) (bitsOf w 0 5)
  | 0b010110 | 0b010111 =>
    m.addShifted (widthOf w) (bitsOf w 30 1) (bitsOf w 29 1) (bitsOf w 21 1) (bitsOf w 22 2)
      (bitsOf w 10 6) (bitsOf w 16 5) (bitsOf w 5 5) (bitsOf w 0 5)
  | 0b100100 =>
    m.bitwiseImmediate (widthOf w) (bitsOf w 29 2) (bitsOf w 22 1) (bitsOf w 16 6) (bitsOf w 10 6)
      (bitsOf w 5 5) (bitsOf w 0 5)
  | 0b010100 | 0b010101 =>
    m.bitwiseShifted (widthOf w) (bitsOf w 29 2) (bitsOf w 22 2) (bitsOf w 21 1) (bitsOf w 10 6)
      (bitsOf w 16 5) (bitsOf w 5 5) (bitsOf w 0 5)
  | 0b100110 =>
    m.bitfield (widthOf w) (bitsOf w 29 2) (bitsOf w 22 1) (bitsOf w 16 6) (bitsOf w 10 6)
      (bitsOf w 5 5) (bitsOf w 0 5)
  | 0b100111 =>
    m.extract (widthOf w) (bitsOf w 29 2) (bitsOf w 22 1) (bitsOf w 21 1) (bitsOf w 10 6)
      (bitsOf w 16 5) (bitsOf w 5 5) (bitsOf w 0 5)
  | _ => none

/-- Carry out words, one after another. -/
def run (m : Machine) (ws : List Word) : Option Machine := ws.foldlM step m

end Machine

/-! ## Fields of encoded words -/

section Fields

variable {x y pos : Word} {p n k : Nat}

theorem bitsOf_or : bitsOf (x ||| y) p n = bitsOf x p n ||| bitsOf y p n := BitVec.extractLsb'_or

theorem getLsbD_bitsOf (i : Nat) :
    (bitsOf x p n).getLsbD i = (decide (i < n) && x.toNat.testBit (p + i)) :=
  BitVec.getLsbD_extractLsb' ..

theorem testBit_shiftLeft (hpos : pos.toNat < 32) (i : Nat) :
    (x <<< pos).toNat.testBit i =
      (decide (i < 32) && (decide (pos.toNat ≤ i) && x.toNat.testBit (i - pos.toNat))) := by
  rw [UInt32.toNat_shiftLeft, Nat.mod_eq_of_lt hpos, Nat.testBit_mod_two_pow, Nat.testBit_shiftLeft]

/-- A field is where it was put. -/
theorem bitsOf_here (hp : pos.toNat = p) (h : p + n ≤ 32) (hpos : pos.toNat < 32) :
    bitsOf (x <<< pos) p n = x.toBitVec.setWidth n := by
  subst hp
  apply BitVec.eq_of_getLsbD_eq
  intro i hi
  rw [getLsbD_bitsOf, testBit_shiftLeft hpos, BitVec.getLsbD_setWidth, Nat.add_sub_cancel_left,
    decide_eq_true hi, decide_eq_true (by omega : pos.toNat + i < 32),
    decide_eq_true (by omega : pos.toNat ≤ pos.toNat + i)]
  rfl

/-- A field is not below of where it was put. -/
theorem bitsOf_below (h : p + n ≤ pos.toNat) (hpos : pos.toNat < 32) :
    bitsOf (x <<< pos) p n = 0#n := by
  apply BitVec.eq_of_getLsbD_eq
  intro i hi
  rw [getLsbD_bitsOf, testBit_shiftLeft hpos, decide_eq_false (by omega : ¬ pos.toNat ≤ p + i)]
  simp

/-- Nor is it above. -/
theorem bitsOf_above (hx : x.toNat < 2 ^ k) (h : pos.toNat + k ≤ p) (hpos : pos.toNat < 32) :
    bitsOf (x <<< pos) p n = 0#n := by
  apply BitVec.eq_of_getLsbD_eq
  intro i hi
  have hbit : x.toNat.testBit (p + i - pos.toNat) = false :=
    Nat.testBit_lt_two_pow (hx.trans_le (Nat.pow_le_pow_right (by decide) (by omega)))
  rw [getLsbD_bitsOf, testBit_shiftLeft hpos, hbit]
  simp

/-- A number has nothing below its factor of two. -/
theorem bitsOf_low (hx : x.toNat % 2 ^ k = 0) (h : p + n ≤ k) : bitsOf x p n = 0#n := by
  apply BitVec.eq_of_getLsbD_eq
  intro i hi
  have hbit : (x.toNat % 2 ^ k).testBit (p + i) = x.toNat.testBit (p + i) := by
    rw [Nat.testBit_mod_two_pow, decide_eq_true (by omega : p + i < k), Bool.true_and]
  rw [getLsbD_bitsOf, ← hbit, hx]
  simp

end Fields

/-! ## What the encoder's words do -/

/-- The number of a register in a word. -/
def regIndex (r : Reg) : BitVec 5 := r.toBitVec.setWidth 5

/-- The code of a wide move. -/
def WideOp.code : WideOp → BitVec 2
  | .movn => 0
  | .movz => 2
  | .movk => 3

/-- The operation is a subtraction. -/
def AddOp.isSub : AddOp → BitVec 1
  | .add | .adds => 0
  | .sub | .subs => 1

/-- The operation sets the flags. -/
def AddOp.setsFlags : AddOp → BitVec 1
  | .add | .sub => 0
  | .adds | .subs => 1

/-- The code of a bitwise operation. -/
def LogicOp.code : LogicOp → BitVec 2
  | .and => 0
  | .orr => 1
  | .eor => 2
  | .ands => 3

section Registers

variable {f : UInt8} {rd rn rm : Reg} {n p : Nat}

theorem toNat_toUInt32_lt (h : f.toNat < 2 ^ n) : f.toUInt32.toNat < 2 ^ n := by
  rwa [UInt8.toNat_toUInt32]

theorem setWidth_toUInt32 (h : n ≤ 8) :
    f.toUInt32.toBitVec.setWidth n = f.toBitVec.setWidth n := by
  rw [UInt8.toBitVec_toUInt32, BitVec.setWidth_setWidth_of_le _ (Nat.le_trans h (by decide))]

variable (hrd : rd.toNat < 2 ^ 5) (hrn : rn.toNat < 2 ^ 5) (hrm : rm.toNat < 2 ^ 5)

include hrd in
theorem bitsOf_twoRegs : bitsOf (twoRegs rd rn) 0 5 = regIndex rd ∧
    bitsOf (twoRegs rd rn) 5 5 = regIndex rn := by
  have hrd := toNat_toUInt32_lt hrd
  constructor
  · simp (disch := decide) only [twoRegs, bitsAt, bitsOf_or, bitsOf_below, bitsOf_here,
      BitVec.zero_or, setWidth_toUInt32, regIndex]
  · simp (disch := decide) only [twoRegs, bitsAt, bitsOf_or, bitsOf_here, bitsOf_above hrd,
      BitVec.or_zero, setWidth_toUInt32, regIndex]

include hrd hrn in
theorem bitsOf_twoRegs_above (h : 10 ≤ p) : bitsOf (twoRegs rd rn) p n = 0#n := by
  have hrd := toNat_toUInt32_lt hrd
  have hrn := toNat_toUInt32_lt hrn
  rw [twoRegs, bitsAt, bitsAt, bitsOf_or, bitsOf_above hrn h (by decide),
    bitsOf_above hrd (Nat.le_trans (by decide) h) (by decide), BitVec.or_zero]

theorem threeRegs_eq : threeRegs rd rn rm = bitsAt rm 16 ||| twoRegs rd rn := UInt32.or_assoc ..

include hrd hrn in
theorem bitsOf_threeRegs : bitsOf (threeRegs rd rn rm) 0 5 = regIndex rd ∧
    bitsOf (threeRegs rd rn rm) 5 5 = regIndex rn ∧ bitsOf (threeRegs rd rn rm) 10 6 = 0#6 ∧
    bitsOf (threeRegs rd rn rm) 16 5 = regIndex rm := by
  simp (disch := decide) only [threeRegs_eq, bitsAt, bitsOf_or, bitsOf_below, bitsOf_here,
    bitsOf_twoRegs hrd, bitsOf_twoRegs_above hrd hrn, BitVec.zero_or, BitVec.or_zero,
    setWidth_toUInt32, regIndex, and_self]

include hrd hrn hrm in
theorem bitsOf_threeRegs_above (h : 21 ≤ p) : bitsOf (threeRegs rd rn rm) p n = 0#n := by
  rw [threeRegs_eq, bitsAt, bitsOf_or, bitsOf_above (toNat_toUInt32_lt hrm) h (by decide),
    bitsOf_twoRegs_above hrd hrn (Nat.le_trans (by decide) h), BitVec.or_zero]

end Registers

theorem flagAt_false (pos : Word) : flagAt false pos = 0 := UInt32.zero_shiftLeft

namespace Machine

variable {m : Machine} {rd rn rm : Reg}

-- The bits that tell form and operation are one number in each proof. It has the six bits of the
-- form and nothing below them, so all other fields are those of the rest.

theorem step_wide {op : WideOp} {is64 : Bool} {imm : UInt16} {part : UInt8}
    (hrd : rd.toNat < 2 ^ 5) (hpart : part.toNat < 2 ^ 2) :
    m.step (Instr.encode (.wide op is64 rd imm part)) =
      m.moveWide (if is64 then 64 else 32) op.code (part.toBitVec.setWidth 2) imm.toBitVec
        (regIndex rd) := by
  have hrd := toNat_toUInt32_lt hrd
  have hpart := toNat_toUInt32_lt hpart
  have himm : imm.toUInt32.toNat < 2 ^ 16 := by
    rw [UInt16.toNat_toUInt32]
    exact imm.toNat_lt
  have hvalue : imm.toUInt32.toBitVec.setWidth 16 = imm.toBitVec := by
    rw [UInt16.toBitVec_toUInt32, BitVec.setWidth_setWidth_of_le _ (by decide), BitVec.setWidth_eq]
  have hlow : op.base.toNat % 2 ^ 23 = 0 := by cases op <;> decide
  have hfixed : bitsOf op.base 31 1 = 0#1 ∧ bitsOf op.base 29 2 = op.code ∧
      bitsOf op.base 23 6 = 0b100101 := by
    cases op <;> decide
  have hform : bitsOf (Instr.encode (.wide op is64 rd imm part)) 23 6 = 0b100101 := by
    simp (disch := decide) only [Instr.encode, bitsAt, flagAt, bitsOf_or, hfixed, bitsOf_below,
      bitsOf_above hrd, bitsOf_above hpart, bitsOf_above himm, BitVec.or_zero]
  rw [step, hform]
  show m.moveWide (widthOf _) _ _ _ _ = _
  simp (disch := decide) only [widthOf, Instr.encode, bitsAt, flagAt, bitsOf_or, hfixed,
    bitsOf_low hlow, bitsOf_below, bitsOf_here, bitsOf_above hrd, bitsOf_above hpart,
    bitsOf_above himm, BitVec.zero_or, BitVec.or_zero, setWidth_toUInt32, hvalue, regIndex]
  cases is64 <;> rfl

theorem step_addImm {op : AddOp} {imm : Word} {isShifted : Bool} (hrd : rd.toNat < 2 ^ 5)
    (hrn : rn.toNat < 2 ^ 5) (himm : imm.toNat < 2 ^ 12) :
    m.step (Instr.encode (.addImm op false rd rn imm isShifted)) =
      m.addImmediate 32 op.isSub op.setsFlags (BitVec.ofBool isShifted) (imm.toBitVec.setWidth 12)
        (regIndex rn) (regIndex rd) := by
  obtain ⟨fixed, hfixed⟩ : ∃ f, f = 0x11000000 ||| op.bits := ⟨_, rfl⟩
  have hshifted : (Word.ofBool isShifted).toNat < 2 ^ 1 := by cases isShifted <;> decide
  have hencode : Instr.encode (.addImm op false rd rn imm isShifted) =
      fixed ||| flagAt isShifted 22 ||| imm <<< 10 ||| twoRegs rd rn := by
    rw [hfixed, Instr.encode, flagAt_false, UInt32.or_zero]
  have hlow : fixed.toNat % 2 ^ 23 = 0 := by rw [hfixed]; cases op <;> decide
  have htop : bitsOf fixed 31 1 = 0#1 ∧ bitsOf fixed 30 1 = op.isSub ∧
      bitsOf fixed 29 1 = op.setsFlags ∧ bitsOf fixed 23 6 = 0b100010 := by
    rw [hfixed]
    cases op <;> decide
  have hform : bitsOf (fixed ||| flagAt isShifted 22 ||| imm <<< 10 ||| twoRegs rd rn) 23 6
      = 0b100010 := by
    simp (disch := decide) only [flagAt, bitsOf_or, htop, bitsOf_above himm, bitsOf_above hshifted,
      bitsOf_twoRegs_above hrd hrn, BitVec.or_zero]
  rw [hencode, step, hform]
  show m.addImmediate (widthOf _) _ _ _ _ _ _ = _
  simp (disch := decide) only [widthOf, flagAt, bitsOf_or, htop, bitsOf_low hlow, bitsOf_below,
    bitsOf_here, bitsOf_above himm, bitsOf_above hshifted, bitsOf_twoRegs hrd,
    bitsOf_twoRegs_above hrd hrn, BitVec.zero_or, BitVec.or_zero]
  cases isShifted <;> rfl

theorem step_add {op : AddOp} (hrd : rd.toNat < 2 ^ 5) (hrn : rn.toNat < 2 ^ 5)
    (hrm : rm.toNat < 2 ^ 5) :
    m.step (Instr.encode (.add op false rd rn rm)) =
      m.addShifted 32 op.isSub op.setsFlags 0 0 0 (regIndex rm) (regIndex rn) (regIndex rd) := by
  obtain ⟨fixed, hfixed⟩ : ∃ f, f = 0x0b000000 ||| op.bits := ⟨_, rfl⟩
  have hencode : Instr.encode (.add op false rd rn rm) = fixed ||| threeRegs rd rn rm := by
    rw [hfixed, Instr.encode, flagAt_false, UInt32.or_zero]
  have hlow : fixed.toNat % 2 ^ 24 = 0 := by rw [hfixed]; cases op <;> decide
  have htop : bitsOf fixed 31 1 = 0#1 ∧ bitsOf fixed 30 1 = op.isSub ∧
      bitsOf fixed 29 1 = op.setsFlags ∧ bitsOf fixed 23 6 = 0b010110 := by
    rw [hfixed]
    cases op <;> decide
  have hform : bitsOf (fixed ||| threeRegs rd rn rm) 23 6 = 0b010110 := by
    rw [bitsOf_or, htop.2.2.2, bitsOf_threeRegs_above hrd hrn hrm (by decide), BitVec.or_zero]
  rw [hencode, step, hform]
  show m.addShifted (widthOf _) _ _ _ _ _ _ _ _ = _
  simp (disch := decide) only [widthOf, bitsOf_or, htop, bitsOf_low hlow, bitsOf_threeRegs hrd hrn,
    bitsOf_threeRegs_above hrd hrn hrm, BitVec.zero_or, BitVec.or_zero]
  rfl

theorem step_logic {op : LogicOp} (hrd : rd.toNat < 2 ^ 5) (hrn : rn.toNat < 2 ^ 5)
    (hrm : rm.toNat < 2 ^ 5) :
    m.step (Instr.encode (.logic op false rd rn rm .lsl 0 false)) =
      m.bitwiseShifted 32 op.code 0 0 0 (regIndex rm) (regIndex rn) (regIndex rd) := by
  obtain ⟨fixed, hfixed⟩ : ∃ f, f = 0x0a000000 ||| op.bits := ⟨_, rfl⟩
  have hencode : Instr.encode (.logic op false rd rn rm .lsl 0 false) =
      fixed ||| threeRegs rd rn rm := by
    have hshift : Shift.code .lsl <<< 22 = 0 ∧ bitsAt (0 &&& 63) 10 = 0 := by decide
    rw [hfixed, Instr.encode, flagAt_false, flagAt_false, hshift.1, hshift.2]
    simp only [UInt32.or_zero]
  have hlow : fixed.toNat % 2 ^ 24 = 0 := by rw [hfixed]; cases op <;> decide
  have htop : bitsOf fixed 31 1 = 0#1 ∧ bitsOf fixed 29 2 = op.code ∧
      bitsOf fixed 23 6 = 0b010100 := by
    rw [hfixed]
    cases op <;> decide
  have hform : bitsOf (fixed ||| threeRegs rd rn rm) 23 6 = 0b010100 := by
    rw [bitsOf_or, htop.2.2, bitsOf_threeRegs_above hrd hrn hrm (by decide), BitVec.or_zero]
  rw [hencode, step, hform]
  show m.bitwiseShifted (widthOf _) _ _ _ _ _ _ _ = _
  simp (disch := decide) only [widthOf, bitsOf_or, htop, bitsOf_low hlow, bitsOf_threeRegs hrd hrn,
    bitsOf_threeRegs_above hrd hrn hrm, BitVec.zero_or, BitVec.or_zero]
  rfl

theorem step_logicImm {op : LogicOp} {mask : Mask} (hrd : rd.toNat < 2 ^ 5) (hrn : rn.toNat < 2 ^ 5)
    (hn : mask.n = 0) (hs : mask.s.toNat < 2 ^ 6) (hr : mask.r.toNat < 2 ^ 6) :
    m.step (Instr.encode (.logicImm op false rd rn mask)) =
      m.bitwiseImmediate 32 op.code 0 (mask.r.toBitVec.setWidth 6) (mask.s.toBitVec.setWidth 6)
        (regIndex rn) (regIndex rd) := by
  have hs := toNat_toUInt32_lt hs
  have hr := toNat_toUInt32_lt hr
  obtain ⟨fixed, hfixed⟩ : ∃ f, f = 0x12000000 ||| op.bits := ⟨_, rfl⟩
  have hencode : Instr.encode (.logicImm op false rd rn mask) =
      fixed ||| mask.r.toUInt32 <<< 16 ||| mask.s.toUInt32 <<< 10 ||| twoRegs rd rn := by
    have hzero : bitsAt 0 22 = 0 := by decide
    rw [hfixed, Instr.encode, flagAt_false, hn, hzero, UInt32.or_zero, UInt32.or_zero]
    rfl
  have hlow : fixed.toNat % 2 ^ 23 = 0 := by rw [hfixed]; cases op <;> decide
  have htop : bitsOf fixed 31 1 = 0#1 ∧ bitsOf fixed 29 2 = op.code ∧
      bitsOf fixed 23 6 = 0b100100 := by
    rw [hfixed]
    cases op <;> decide
  have hform : bitsOf (fixed ||| mask.r.toUInt32 <<< 16 ||| mask.s.toUInt32 <<< 10
      ||| twoRegs rd rn) 23 6 = 0b100100 := by
    simp (disch := decide) only [bitsOf_or, htop, bitsOf_above hs, bitsOf_above hr,
      bitsOf_twoRegs_above hrd hrn, BitVec.or_zero]
  rw [hencode, step, hform]
  show m.bitwiseImmediate (widthOf _) _ _ _ _ _ _ = _
  simp (disch := decide) only [widthOf, bitsOf_or, htop, bitsOf_low hlow, bitsOf_below, bitsOf_here,
    bitsOf_above hs, bitsOf_above hr, bitsOf_twoRegs hrd, bitsOf_twoRegs_above hrd hrn,
    BitVec.zero_or, BitVec.or_zero, setWidth_toUInt32]
  rfl

theorem step_bitfield {isSigned : Bool} {immr imms : Word} (hrd : rd.toNat < 2 ^ 5)
    (hrn : rn.toNat < 2 ^ 5) (hr : immr.toNat < 2 ^ 6) (hs : imms.toNat < 2 ^ 6) :
    m.step (Instr.encode (.bitfield isSigned false rd rn immr imms)) =
      m.bitfield 32 (if isSigned then 0 else 2) 0 (immr.toBitVec.setWidth 6)
        (imms.toBitVec.setWidth 6) (regIndex rn) (regIndex rd) := by
  obtain ⟨fixed, hfixed⟩ : ∃ f, f = if isSigned then (0x13000000 : Word) else 0x53000000 := ⟨_, rfl⟩
  have hencode : Instr.encode (.bitfield isSigned false rd rn immr imms) =
      fixed ||| immr <<< 16 ||| imms <<< 10 ||| twoRegs rd rn := by
    rw [hfixed, Instr.encode, flagAt_false, flagAt_false, UInt32.or_zero, UInt32.or_zero]
  have hlow : fixed.toNat % 2 ^ 23 = 0 := by rw [hfixed]; cases isSigned <;> decide
  have htop : bitsOf fixed 31 1 = 0#1 ∧ bitsOf fixed 29 2 = (if isSigned then 0 else 2) ∧
      bitsOf fixed 23 6 = 0b100110 := by
    rw [hfixed]
    cases isSigned <;> decide
  have hform : bitsOf (fixed ||| immr <<< 16 ||| imms <<< 10 ||| twoRegs rd rn) 23 6
      = 0b100110 := by
    simp (disch := decide) only [bitsOf_or, htop, bitsOf_above hs, bitsOf_above hr,
      bitsOf_twoRegs_above hrd hrn, BitVec.or_zero]
  rw [hencode, step, hform]
  show m.bitfield (widthOf _) _ _ _ _ _ _ = _
  simp (disch := decide) only [widthOf, bitsOf_or, htop, bitsOf_low hlow, bitsOf_below, bitsOf_here,
    bitsOf_above hs, bitsOf_above hr, bitsOf_twoRegs hrd, bitsOf_twoRegs_above hrd hrn,
    BitVec.zero_or, BitVec.or_zero]
  rfl

theorem step_rotate {amount : Word} (hrd : rd.toNat < 2 ^ 5) (hrn : rn.toNat < 2 ^ 5) :
    m.step (Instr.encode (.rotate rd rn amount)) =
      m.extract 32 0 0 0 ((amount &&& 31).toBitVec.setWidth 6) (regIndex rn) (regIndex rn)
        (regIndex rd) := by
  have hamount : (amount &&& 31).toNat < 2 ^ 5 := toNat_and_lt amount 31 (by decide)
  obtain ⟨fixed, hfixed⟩ : ∃ f, f = (0x13800000 : Word) := ⟨_, rfl⟩
  have hencode : Instr.encode (.rotate rd rn amount) =
      fixed ||| (amount &&& 31) <<< 10 ||| threeRegs rd rn rn := by
    rw [hfixed, Instr.encode]
  have hlow : fixed.toNat % 2 ^ 23 = 0 := by rw [hfixed]; decide
  have htop : bitsOf fixed 31 1 = 0#1 ∧ bitsOf fixed 29 2 = 0#2 ∧ bitsOf fixed 23 6 = 0b100111 := by
    rw [hfixed]
    decide
  have hform : bitsOf (fixed ||| (amount &&& 31) <<< 10 ||| threeRegs rd rn rn) 23 6
      = 0b100111 := by
    simp (disch := decide) only [bitsOf_or, htop, bitsOf_above hamount,
      bitsOf_threeRegs_above hrd hrn hrn, BitVec.or_zero]
  rw [hencode, step, hform]
  show m.extract (widthOf _) _ _ _ _ _ _ _ = _
  simp (disch := decide) only [widthOf, bitsOf_or, htop, bitsOf_low hlow, bitsOf_below, bitsOf_here,
    bitsOf_above hamount, bitsOf_threeRegs hrd hrn, bitsOf_threeRegs_above hrd hrn hrn,
    BitVec.zero_or, BitVec.or_zero]
  rfl

end Machine

end Dynarec.Aarch64
