/-
The opcodes of the intermediate form.

An opcode is a code byte and a name; the code is the position in the list below. What the three
operand bytes of an instruction mean under each opcode is in `Dynarec.Opcode.Signature`.

This is `Op`.
-/

set_option autoImplicit false

namespace Dynarec

/-- An opcode of the intermediate form. -/
inductive Opcode where
  | nop | mov | setConst | setConstF | downcount | setPC | setPCConst | add | sub | neg | not
  | and | or | xor | addConst | subConst | andConst | orConst | xorConst | ext8to32 | ext16to32
  | bSwap16 | bSwap32 | clz | reverseBits | shl | shr | sar | ror | shlImm | shrImm | sarImm
  | rorImm | slt | sltConst | sltU | sltUConst | movZ | movNZ | max | min | mtLo | mtHi | mfLo
  | mfHi | mult | multU | madd | maddU | msub | msubU | div | divU | load8 | load8Ext | load16
  | load16Ext | load32 | load32Left | load32Right | load32Linked | loadFloat | loadVec4 | store8
  | store16 | store32 | store32Left | store32Right | store32Conditional | storeFloat | storeVec4
  | fAdd | fSub | fMul | fDiv | fMin | fMax | fSqrt | fNeg | fAbs | fMov | fRound | fTrunc
  | fCeil | fFloor | fCvtWS | fCvtSW | fCmp | fMovFromGPR | fMovToGPR | fpCondFromReg
  | fpCondToReg | setCtrlVFPU | setCtrlVFPUReg | vec4Init | vec4Shuffle | vec4Blend | vec4Mov
  | vec4Add | vec4Sub | vec4Mul | vec4Div | vec4Scale | vec4Neg | vec4Abs | vec4Dot
  | vec4ClampToZero | exitToConst | exitToReg | exitToConstIfEq | exitToConstIfNeq
  | exitToConstIfGtZ | exitToConstIfGeZ | exitToConstIfLtZ | exitToConstIfLeZ | exitToPC
  | syscall
  deriving DecidableEq, Repr

namespace Opcode

/-- Every opcode, in the order of their codes. -/
def all : List Opcode :=
  [.nop, .mov, .setConst, .setConstF, .downcount, .setPC, .setPCConst, .add, .sub, .neg, .not,
   .and, .or, .xor, .addConst, .subConst, .andConst, .orConst, .xorConst, .ext8to32, .ext16to32,
   .bSwap16, .bSwap32, .clz, .reverseBits, .shl, .shr, .sar, .ror, .shlImm, .shrImm, .sarImm,
   .rorImm, .slt, .sltConst, .sltU, .sltUConst, .movZ, .movNZ, .max, .min, .mtLo, .mtHi, .mfLo,
   .mfHi, .mult, .multU, .madd, .maddU, .msub, .msubU, .div, .divU, .load8, .load8Ext, .load16,
   .load16Ext, .load32, .load32Left, .load32Right, .load32Linked, .loadFloat, .loadVec4, .store8,
   .store16, .store32, .store32Left, .store32Right, .store32Conditional, .storeFloat, .storeVec4,
   .fAdd, .fSub, .fMul, .fDiv, .fMin, .fMax, .fSqrt, .fNeg, .fAbs, .fMov, .fRound, .fTrunc,
   .fCeil, .fFloor, .fCvtWS, .fCvtSW, .fCmp, .fMovFromGPR, .fMovToGPR, .fpCondFromReg,
   .fpCondToReg, .setCtrlVFPU, .setCtrlVFPUReg, .vec4Init, .vec4Shuffle, .vec4Blend, .vec4Mov,
   .vec4Add, .vec4Sub, .vec4Mul, .vec4Div, .vec4Scale, .vec4Neg, .vec4Abs, .vec4Dot,
   .vec4ClampToZero, .exitToConst, .exitToReg, .exitToConstIfEq, .exitToConstIfNeq,
   .exitToConstIfGtZ, .exitToConstIfGeZ, .exitToConstIfLtZ, .exitToConstIfLeZ, .exitToPC,
   .syscall]

/-- The name of an opcode in a listing. -/
def name : Opcode → String
  | .nop => "Nop"
  | .mov => "Mov"
  | .setConst => "SetConst"
  | .setConstF => "SetConstF"
  | .downcount => "Downcount"
  | .setPC => "SetPC"
  | .setPCConst => "SetPCConst"
  | .add => "Add"
  | .sub => "Sub"
  | .neg => "Neg"
  | .not => "Not"
  | .and => "And"
  | .or => "Or"
  | .xor => "Xor"
  | .addConst => "AddConst"
  | .subConst => "SubConst"
  | .andConst => "AndConst"
  | .orConst => "OrConst"
  | .xorConst => "XorConst"
  | .ext8to32 => "Ext8to32"
  | .ext16to32 => "Ext16to32"
  | .bSwap16 => "BSwap16"
  | .bSwap32 => "BSwap32"
  | .clz => "Clz"
  | .reverseBits => "ReverseBits"
  | .shl => "Shl"
  | .shr => "Shr"
  | .sar => "Sar"
  | .ror => "Ror"
  | .shlImm => "ShlImm"
  | .shrImm => "ShrImm"
  | .sarImm => "SarImm"
  | .rorImm => "RorImm"
  | .slt => "Slt"
  | .sltConst => "SltConst"
  | .sltU => "SltU"
  | .sltUConst => "SltUConst"
  | .movZ => "MovZ"
  | .movNZ => "MovNZ"
  | .max => "Max"
  | .min => "Min"
  | .mtLo => "MtLo"
  | .mtHi => "MtHi"
  | .mfLo => "MfLo"
  | .mfHi => "MfHi"
  | .mult => "Mult"
  | .multU => "MultU"
  | .madd => "Madd"
  | .maddU => "MaddU"
  | .msub => "Msub"
  | .msubU => "MsubU"
  | .div => "Div"
  | .divU => "DivU"
  | .load8 => "Load8"
  | .load8Ext => "Load8Ext"
  | .load16 => "Load16"
  | .load16Ext => "Load16Ext"
  | .load32 => "Load32"
  | .load32Left => "Load32Left"
  | .load32Right => "Load32Right"
  | .load32Linked => "Load32Linked"
  | .loadFloat => "LoadFloat"
  | .loadVec4 => "LoadVec4"
  | .store8 => "Store8"
  | .store16 => "Store16"
  | .store32 => "Store32"
  | .store32Left => "Store32Left"
  | .store32Right => "Store32Right"
  | .store32Conditional => "Store32Conditional"
  | .storeFloat => "StoreFloat"
  | .storeVec4 => "StoreVec4"
  | .fAdd => "FAdd"
  | .fSub => "FSub"
  | .fMul => "FMul"
  | .fDiv => "FDiv"
  | .fMin => "FMin"
  | .fMax => "FMax"
  | .fSqrt => "FSqrt"
  | .fNeg => "FNeg"
  | .fAbs => "FAbs"
  | .fMov => "FMov"
  | .fRound => "FRound"
  | .fTrunc => "FTrunc"
  | .fCeil => "FCeil"
  | .fFloor => "FFloor"
  | .fCvtWS => "FCvtWS"
  | .fCvtSW => "FCvtSW"
  | .fCmp => "FCmp"
  | .fMovFromGPR => "FMovFromGPR"
  | .fMovToGPR => "FMovToGPR"
  | .fpCondFromReg => "FpCondFromReg"
  | .fpCondToReg => "FpCondToReg"
  | .setCtrlVFPU => "SetCtrlVFPU"
  | .setCtrlVFPUReg => "SetCtrlVFPUReg"
  | .vec4Init => "Vec4Init"
  | .vec4Shuffle => "Vec4Shuffle"
  | .vec4Blend => "Vec4Blend"
  | .vec4Mov => "Vec4Mov"
  | .vec4Add => "Vec4Add"
  | .vec4Sub => "Vec4Sub"
  | .vec4Mul => "Vec4Mul"
  | .vec4Div => "Vec4Div"
  | .vec4Scale => "Vec4Scale"
  | .vec4Neg => "Vec4Neg"
  | .vec4Abs => "Vec4Abs"
  | .vec4Dot => "Vec4Dot"
  | .vec4ClampToZero => "Vec4ClampToZero"
  | .exitToConst => "ExitToConst"
  | .exitToReg => "ExitToReg"
  | .exitToConstIfEq => "ExitToConstIfEq"
  | .exitToConstIfNeq => "ExitToConstIfNeq"
  | .exitToConstIfGtZ => "ExitToConstIfGtZ"
  | .exitToConstIfGeZ => "ExitToConstIfGeZ"
  | .exitToConstIfLtZ => "ExitToConstIfLtZ"
  | .exitToConstIfLeZ => "ExitToConstIfLeZ"
  | .exitToPC => "ExitToPC"
  | .syscall => "Syscall"

/-- The code byte of an opcode. -/
def code (op : Opcode) : UInt8 := UInt8.ofNat op.ctorIdx

/-- The opcode with the given code byte. -/
def ofCode? (b : UInt8) : Option Opcode := all[b.toNat]?

/-- The opcode with the given name. -/
def ofName? (s : String) : Option Opcode := all.find? fun op => op.name == s

theorem ofCode?_code (op : Opcode) : ofCode? op.code = some op := by
  cases op <;> rfl

end Opcode

end Dynarec
