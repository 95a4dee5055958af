/-
AArch64 instructions and their words.

One constructor stands for one form of the manual; the forms are those that lowered blocks need.
Fields go into the word as they are: `encode` is total, and `check` states the few conditions
under which a word would not mean what the constructor says.

The forms are the emitters of `Arm64Encoder`, one each.
-/
import Dynarec.Aarch64.Mask

set_option autoImplicit false

namespace Dynarec.Aarch64

/-- A register number. Number 31 is the zero register, or the stack pointer where an address or an
addition with a constant is concerned. -/
abbrev Reg := UInt8

/-- The zero register. -/
def zr : Reg := 31

/-- The stack pointer. -/
def sp : Reg := 31

/-- The frame pointer. -/
def fp : Reg := 29

/-- The return address. -/
def lr : Reg := 30

/-! ## Conditions -/

/-- A condition. -/
inductive Cond where
  | eq | ne | hs | lo | mi | pl | vs | vc | hi | ls | ge | lt | gt | le | al
  deriving DecidableEq, Repr

namespace Cond

/-- Every condition, in the order of the codes. -/
def all : List Cond :=
  [.eq, .ne, .hs, .lo, .mi, .pl, .vs, .vc, .hi, .ls, .ge, .lt, .gt, .le, .al]

/-- The code of a condition. -/
def code : Cond → Word
  | .eq => 0 | .ne => 1 | .hs => 2 | .lo => 3 | .mi => 4 | .pl => 5 | .vs => 6 | .vc => 7
  | .hi => 8 | .ls => 9 | .ge => 10 | .lt => 11 | .gt => 12 | .le => 13 | .al => 14

/-- The opposite condition; there is none for `al`. -/
def invert : Cond → Cond
  | .eq => .ne | .ne => .eq | .hs => .lo | .lo => .hs | .mi => .pl | .pl => .mi | .vs => .vc
  | .vc => .vs | .hi => .ls | .ls => .hi | .ge => .lt | .lt => .ge | .gt => .le | .le => .gt
  | .al => .al

end Cond

/-! ## Operations within a form -/

/-- Moves of sixteen bits: into a cleared register, complemented, or into a part. -/
inductive WideOp where
  | movn | movz | movk
  deriving DecidableEq, Repr

/-- The bits that tell the wide moves apart. -/
def WideOp.base : WideOp → Word
  | .movn => 0x12800000
  | .movz => 0x52800000
  | .movk => 0x72800000

/-- Addition and subtraction, with or without setting the flags. -/
inductive AddOp where
  | add | adds | sub | subs
  deriving DecidableEq, Repr

/-- The bits that tell additions and subtractions apart. -/
def AddOp.bits : AddOp → Word
  | .add => 0
  | .adds => 0x20000000
  | .sub => 0x40000000
  | .subs => 0x60000000

/-- Bitwise operations; the last one sets the flags. -/
inductive LogicOp where
  | and | orr | eor | ands
  deriving DecidableEq, Repr

/-- The bits that tell bitwise operations apart. -/
def LogicOp.bits : LogicOp → Word
  | .and => 0
  | .orr => 0x20000000
  | .eor => 0x40000000
  | .ands => 0x60000000

/-- Shifts of a second operand. -/
inductive Shift where
  | lsl | lsr | asr | ror
  deriving DecidableEq, Repr

/-- The code of a shift. -/
def Shift.code : Shift → Word
  | .lsl => 0
  | .lsr => 1
  | .asr => 2
  | .ror => 3

/-- Operations on two registers. -/
inductive TwoSourceOp where
  | udiv | sdiv | lslv | lsrv | asrv | rorv
  deriving DecidableEq, Repr

/-- The code of an operation on two registers. -/
def TwoSourceOp.code : TwoSourceOp → Word
  | .udiv => 2
  | .sdiv => 3
  | .lslv => 8
  | .lsrv => 9
  | .asrv => 10
  | .rorv => 11

/-- Operations on one register. -/
inductive OneSourceOp where
  | rbit | rev16 | rev | clz
  deriving DecidableEq, Repr

/-- The code of an operation on one register. -/
def OneSourceOp.code : OneSourceOp → Word
  | .rbit => 0
  | .rev16 => 1
  | .rev => 2
  | .clz => 4

/-- Loads and stores: bytes, halves, words and double words of integer registers, one lane and
all four lanes of vector registers. -/
inductive MemOp where
  | strb | ldrb | ldrsb | strh | ldrh | ldrsh | strW | ldrW | strX | ldrX | strS | ldrS
  | strQ | ldrQ
  deriving DecidableEq, Repr

namespace MemOp

/-- Every load and store. -/
def all : List MemOp :=
  [.strb, .ldrb, .ldrsb, .strh, .ldrh, .ldrsh, .strW, .ldrW, .strX, .ldrX, .strS, .ldrS, .strQ,
   .ldrQ]

/-- The name of a load or store. -/
def name : MemOp → String
  | .strb => "Strb" | .ldrb => "Ldrb" | .ldrsb => "Ldrsb" | .strh => "Strh" | .ldrh => "Ldrh"
  | .ldrsh => "Ldrsh" | .strW => "StrW" | .ldrW => "LdrW" | .strX => "StrX" | .ldrX => "LdrX"
  | .strS => "StrS" | .ldrS => "LdrS" | .strQ => "StrQ" | .ldrQ => "LdrQ"

/-- The number of bytes accessed. -/
def size : MemOp → Nat
  | .strb | .ldrb | .ldrsb => 1
  | .strh | .ldrh | .ldrsh => 2
  | .strW | .ldrW | .strS | .ldrS => 4
  | .strX | .ldrX => 8
  | .strQ | .ldrQ => 16

/-- The bits of the form with an immediate offset. -/
def immediateBase : MemOp → Word
  | .strb => 0x39000000 | .ldrb => 0x39400000 | .ldrsb => 0x39c00000 | .strh => 0x79000000
  | .ldrh => 0x79400000 | .ldrsh => 0x79c00000 | .strW => 0xb9000000 | .ldrW => 0xb9400000
  | .strX => 0xf9000000 | .ldrX => 0xf9400000 | .strS => 0xbd000000 | .ldrS => 0xbd400000
  | .strQ => 0x3d800000 | .ldrQ => 0x3dc00000

/-- The bits of the form with a register offset. -/
def indexedBase : MemOp → Word
  | .strb => 0x38200800 | .ldrb => 0x38600800 | .ldrsb => 0x38e00800 | .strh => 0x78200800
  | .ldrh => 0x78600800 | .ldrsh => 0x78e00800 | .strW => 0xb8200800 | .ldrW => 0xb8600800
  | .strX => 0xf8200800 | .ldrX => 0xf8600800 | .strS => 0xbc200800 | .ldrS => 0xbc600800
  | .strQ => 0x3ca00800 | .ldrQ => 0x3ce00800

end MemOp

/-- Loads and stores of register pairs relative to the stack pointer: with the stack pointer moved
before, moved after, or left alone; of integer or of vector registers. -/
inductive PairOp where
  | stpPre | ldpPost | stp | ldp | stpD | ldpD
  deriving DecidableEq, Repr

/-- The bits that tell pair accesses apart. -/
def PairOp.base : PairOp → Word
  | .stpPre => 0xa9800000
  | .ldpPost => 0xa8c00000
  | .stp => 0xa9000000
  | .ldp => 0xa9400000
  | .stpD => 0x6d000000
  | .ldpD => 0x6d400000

/-- Arithmetic on two single floats. -/
inductive FpOp where
  | mul | div | add | sub | max | min
  deriving DecidableEq, Repr

/-- The code of an operation on two single floats. -/
def FpOp.code : FpOp → Word
  | .mul => 0
  | .div => 1
  | .add => 2
  | .sub => 3
  | .max => 4
  | .min => 5

/-- Operations on one single float. -/
inductive FpUnary where
  | mov | abs | neg | sqrt
  deriving DecidableEq, Repr

/-- The bits of an operation on one single float. -/
def FpUnary.base : FpUnary → Word
  | .mov => 0x1e204000
  | .abs => 0x1e20c000
  | .neg => 0x1e214000
  | .sqrt => 0x1e21c000

/-- Arithmetic on four lanes. -/
inductive VecOp where
  | add | sub | mul | div
  deriving DecidableEq, Repr

/-- The bits of an operation on four lanes. -/
def VecOp.base : VecOp → Word
  | .add => 0x4e20d400
  | .sub => 0x4ea0d400
  | .mul => 0x6e20dc00
  | .div => 0x6e20fc00

/-- Branches to a place in the code. -/
inductive BranchOp where
  /-- Taken if the register is zero. -/
  | cbz (is64 : Bool) (rt : Reg)
  | cbnz (is64 : Bool) (rt : Reg)
  | cond (c : Cond)
  /-- Taken if the bit is zero. -/
  | tbz (rt : Reg) (bit : UInt8)
  | tbnz (rt : Reg) (bit : UInt8)
  | jump
  | call
  deriving DecidableEq, Repr

/-! ## Instructions -/

/-- An instruction. -/
inductive Instr where
  | wide (op : WideOp) (is64 : Bool) (rd : Reg) (imm : UInt16) (part : UInt8)
  | addImm (op : AddOp) (is64 : Bool) (rd rn : Reg) (imm : Word) (shifted : Bool)
  | add (op : AddOp) (is64 : Bool) (rd rn rm : Reg)
  /-- The 64-bit sum of `rn` and the lower half of `rm`. -/
  | addLow (rd rn rm : Reg)
  | logic (op : LogicOp) (is64 : Bool) (rd rn rm : Reg) (shift : Shift) (amount : UInt8)
      (invert : Bool)
  | logicImm (op : LogicOp) (is64 : Bool) (rd rn : Reg) (mask : Mask)
  | bitfield (isSigned is64 : Bool) (rd rn : Reg) (immr imms : Word)
  /-- Rotation to the right. -/
  | rotate (rd rn : Reg) (amount : Word)
  | twoSource (op : TwoSourceOp) (rd rn rm : Reg)
  | oneSource (op : OneSourceOp) (rd rn : Reg)
  | mulAdd (rd rn rm ra : Reg)
  /-- The 64-bit product of two words. -/
  | mulLong (isSigned : Bool) (rd rn rm : Reg)
  /-- `rn` if the condition holds, else `rm` or one more than it. -/
  | select (increment : Bool) (rd rn rm : Reg) (c : Cond)
  /-- Access at `rn` plus `units` times the size of the access. -/
  | access (op : MemOp) (rt rn : Reg) (units : Word)
  /-- Access at `rn` plus the lower half of `rm`. -/
  | accessIndexed (op : MemOp) (rt rn rm : Reg)
  | pair (op : PairOp) (rt rt2 : Reg) (bytes : Int)
  | fpOp (op : FpOp) (rd rn rm : Reg)
  | fpUnary (op : FpUnary) (rd rn : Reg)
  | fpCompare (rn rm : Reg)
  | fpFromInt (rd rn : Reg)
  | fpToInt (rd rn : Reg)
  /-- Conversion of an integer register. -/
  | fpConvert (rd rn : Reg)
  /-- Conversion of the integer in a lane. -/
  | fpConvertLane (rd rn : Reg)
  | vecOp (op : VecOp) (rd rn rm : Reg)
  | vecNeg (rd rn : Reg)
  | vecAbs (rd rn : Reg)
  /-- Product of four lanes with one lane of `rm`. -/
  | vecScale (rd rn rm : Reg) (lane : UInt8)
  | vecMov (rd rn : Reg)
  | vecZero (rd : Reg)
  /-- A small float constant in all four lanes. -/
  | vecConst (rd : Reg) (imm : UInt8)
  | fpConst (rd : Reg) (imm : UInt8)
  | takeLane (rd rn : Reg) (lane : UInt8)
  | putLane (rd : Reg) (dst : UInt8) (rn : Reg) (src : UInt8)
  | putInt (rd : Reg) (dst : UInt8) (rn : Reg)
  | jumpReg (rn : Reg)
  | callReg (rn : Reg)
  | ret
  | nop
  /-- A branch whose distance is still to be filled in. -/
  | branch (op : BranchOp)
  deriving DecidableEq, Repr

/-- A small field at a bit position. -/
def bitsAt (field : UInt8) (pos : Word) : Word := field.toUInt32 <<< pos

/-- A truth value at a bit position. -/
def flagAt (b : Bool) (pos : Word) : Word := Word.ofBool b <<< pos

/-- The registers of a form with three of them. -/
def threeRegs (rd rn rm : Reg) : Word := bitsAt rm 16 ||| bitsAt rn 5 ||| bitsAt rd 0

/-- The registers of a form with two of them. -/
def twoRegs (rd rn : Reg) : Word := bitsAt rn 5 ||| bitsAt rd 0

/-- The lane field of lane moves. -/
def laneField (lane : UInt8) : Word := (bitsAt lane 3 ||| 4) <<< 16

/-- The word of a branch with distance zero. -/
def BranchOp.encode : BranchOp → Word
  | .cbz is64 rt => (0x34000000 : Word) ||| flagAt is64 31 ||| bitsAt rt 0
  | .cbnz is64 rt => (0x35000000 : Word) ||| flagAt is64 31 ||| bitsAt rt 0
  | .cond c => (0x54000000 : Word) ||| c.code
  | .tbz rt bit => (0x36000000 : Word) ||| bitsAt (bit >>> 5 &&& 1) 31 ||| bitsAt (bit &&& 31) 19
      ||| bitsAt rt 0
  | .tbnz rt bit => (0x37000000 : Word) ||| bitsAt (bit >>> 5 &&& 1) 31 ||| bitsAt (bit &&& 31) 19
      ||| bitsAt rt 0
  | .jump => 0x14000000
  | .call => 0x94000000

namespace Instr

/-- The word of an instruction. -/
def encode : Instr → Word
  | .wide op is64 rd imm part =>
    op.base ||| flagAt is64 31 ||| bitsAt part 21 ||| imm.toUInt32 <<< 5 ||| bitsAt rd 0
  | .addImm op is64 rd rn imm shifted =>
    (0x11000000 : Word) ||| op.bits ||| flagAt is64 31 ||| flagAt shifted 22 ||| imm <<< 10
      ||| twoRegs rd rn
  | .add op is64 rd rn rm =>
    (0x0b000000 : Word) ||| op.bits ||| flagAt is64 31 ||| threeRegs rd rn rm
  | .addLow rd rn rm => (0x8b204000 : Word) ||| threeRegs rd rn rm
  | .logic op is64 rd rn rm shift amount invert =>
    (0x0a000000 : Word) ||| op.bits ||| flagAt is64 31 ||| shift.code <<< 22 ||| flagAt invert 21
      ||| bitsAt (amount &&& 63) 10 ||| threeRegs rd rn rm
  | .logicImm op is64 rd rn mask =>
    (0x12000000 : Word) ||| op.bits ||| flagAt is64 31 ||| bitsAt mask.n 22 ||| bitsAt mask.r 16
      ||| bitsAt mask.s 10 ||| twoRegs rd rn
  | .bitfield isSigned is64 rd rn immr imms =>
    (if isSigned then (0x13000000 : Word) else 0x53000000) ||| flagAt is64 31 ||| flagAt is64 22
      ||| immr <<< 16 ||| imms <<< 10 ||| twoRegs rd rn
  | .rotate rd rn amount => (0x13800000 : Word) ||| (amount &&& 31) <<< 10 ||| threeRegs rd rn rn
  | .twoSource op rd rn rm => (0x1ac00000 : Word) ||| op.code <<< 10 ||| threeRegs rd rn rm
  | .oneSource op rd rn => (0x5ac00000 : Word) ||| op.code <<< 10 ||| twoRegs rd rn
  | .mulAdd rd rn rm ra => (0x1b000000 : Word) ||| bitsAt ra 10 ||| threeRegs rd rn rm
  | .mulLong isSigned rd rn rm =>
    (if isSigned then (0x9b200000 : Word) else 0x9ba00000) ||| bitsAt zr 10 ||| threeRegs rd rn rm
  | .select increment rd rn rm c =>
    (0x1a800000 : Word) ||| flagAt increment 10 ||| c.code <<< 12 ||| threeRegs rd rn rm
  | .access op rt rn units => op.immediateBase ||| units <<< 10 ||| twoRegs rt rn
  | .accessIndexed op rt rn rm => op.indexedBase ||| (0x4000 : Word) ||| threeRegs rt rn rm
  | .pair op rt rt2 bytes =>
    op.base ||| UInt32.ofNat ((bytes / 8) % 128).toNat <<< 15 ||| bitsAt rt2 10 ||| twoRegs rt sp
  | .fpOp op rd rn rm => (0x1e200800 : Word) ||| op.code <<< 12 ||| threeRegs rd rn rm
  | .fpUnary op rd rn => op.base ||| twoRegs rd rn
  | .fpCompare rn rm => (0x1e202000 : Word) ||| threeRegs 0 rn rm
  | .fpFromInt rd rn => (0x1e270000 : Word) ||| twoRegs rd rn
  | .fpToInt rd rn => (0x1e260000 : Word) ||| twoRegs rd rn
  | .fpConvert rd rn => (0x1e220000 : Word) ||| twoRegs rd rn
  | .fpConvertLane rd rn => (0x5e21d800 : Word) ||| twoRegs rd rn
  | .vecOp op rd rn rm => op.base ||| threeRegs rd rn rm
  | .vecNeg rd rn => (0x6ea0f800 : Word) ||| twoRegs rd rn
  | .vecAbs rd rn => (0x4ea0f800 : Word) ||| twoRegs rd rn
  | .vecScale rd rn rm lane =>
    (0x4f809000 : Word) ||| bitsAt (lane &&& 1) 21 ||| bitsAt (rm >>> 4 &&& 1) 20
      ||| bitsAt (lane >>> 1 &&& 1) 11 ||| threeRegs rd rn (rm &&& 15)
  | .vecMov rd rn => (0x4ea01c00 : Word) ||| threeRegs rd rn rn
  | .vecZero rd => (0x6f00e400 : Word) ||| bitsAt rd 0
  | .vecConst rd imm =>
    (0x4f00f400 : Word) ||| bitsAt (imm >>> 5) 16 ||| bitsAt (imm &&& 31) 5 ||| bitsAt rd 0
  | .fpConst rd imm => (0x1e201000 : Word) ||| bitsAt imm 13 ||| bitsAt rd 0
  | .takeLane rd rn lane => (0x5e000400 : Word) ||| laneField lane ||| twoRegs rd rn
  | .putLane rd dst rn src =>
    (0x6e000400 : Word) ||| laneField dst ||| bitsAt src 13 ||| twoRegs rd rn
  | .putInt rd dst rn => (0x4e001c00 : Word) ||| laneField dst ||| twoRegs rd rn
  | .jumpReg rn => (0xd61f0000 : Word) ||| bitsAt rn 5
  | .callReg rn => (0xd63f0000 : Word) ||| bitsAt rn 5
  | .ret => 0xd65f03c0
  | .nop => 0xd503201f
  | .branch op => op.encode

/-- The instruction has a word: its constants fit into their fields. -/
def check : Instr → Except Fault Unit
  | .addImm _ _ _ _ imm _ =>
    if imm < 4096 then .ok () else violate (.arithmeticImmediate imm.toNat)
  | .logicImm _ is64 _ _ mask => if is64 || mask.n = 0 then .ok () else violate .wideMask
  | .pair _ _ _ bytes =>
    if 0x80000000 ≤ bytes then .error .overflow
    else if bytes % 8 = 0 ∧ -512 ≤ bytes ∧ bytes < 512 then .ok ()
    else violate (.pairOffset bytes)
  | .branch (.tbz _ bit) | .branch (.tbnz _ bit) =>
    if bit < 64 then .ok () else violate (.testBit bit.toNat)
  | _ => .ok ()

/-! ## Forms with names of their own -/

/-- Copy a register. -/
def mov (is64 : Bool) (rd rm : Reg) : Instr := .logic .orr is64 rd zr rm .lsl 0 false

/-- A bitwise operation on two words. -/
def logicWord (op : LogicOp) (rd rn rm : Reg) : Instr := .logic op false rd rn rm .lsl 0 false

/-- Complement a word. -/
def not (rd rm : Reg) : Instr := .logic .orr false rd zr rm .lsl 0 true

/-- Compare two registers. -/
def compare (is64 : Bool) (rn rm : Reg) : Instr := .add .subs is64 zr rn rm

/-- Negate a register. -/
def negate (is64 : Bool) (rd rm : Reg) : Instr := .add .sub is64 rd zr rm

/-- Shift a word left; the amount counts modulo 32. -/
def shiftLeft (rd rn : Reg) (amount : Word) : Instr :=
  let k := amount &&& 31
  .bitfield false false rd rn ((32 - k) &&& 31) (31 - k)

/-- Shift a word right; the amount counts modulo 32. -/
def shiftRight (rd rn : Reg) (amount : Word) : Instr :=
  .bitfield false false rd rn (amount &&& 31) 31

/-- Shift a word right, keeping its sign; the amount counts modulo 32. -/
def shiftRightSigned (rd rn : Reg) (amount : Word) : Instr :=
  .bitfield true false rd rn (amount &&& 31) 31

/-- Shift a double word right; the amount counts modulo 64. -/
def shiftRight64 (rd rn : Reg) (amount : Word) : Instr :=
  .bitfield false true rd rn (amount &&& 63) 63

/-- Sign extend the low byte. -/
def extendByte (rd rn : Reg) : Instr := .bitfield true false rd rn 0 7

/-- Sign extend the low half word. -/
def extendHalf (rd rn : Reg) : Instr := .bitfield true false rd rn 0 15

/-- Sign extend a word to 64 bits. -/
def extendWord (rd rn : Reg) : Instr := .bitfield true true rd rn 0 31

/-- One if the condition holds, else zero. -/
def setIf (rd : Reg) (c : Cond) : Instr := .select true rd zr zr c.invert

end Instr

end Dynarec.Aarch64
