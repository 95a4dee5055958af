/-
Which opcodes are lowered to host instructions. The others are compiled as calls of the
interpreter.

This is `lowers_natively` of each backend.
-/
import Dynarec.Opcode

set_option autoImplicit false

namespace Dynarec.Opcode

/-- The opcode is lowered for AArch64. -/
def nativeOnAarch64 : Opcode → Bool
  | .madd | .maddU | .msub | .msubU | .div | .divU | .load32Left | .load32Right | .load32Linked
  | .store32Left | .store32Right | .store32Conditional | .fMin | .fMax | .fRound | .fTrunc
  | .fCeil | .fFloor | .fCvtWS | .fCmp | .vec4Blend | .vec4Dot | .vec4ClampToZero => false
  | _ => true

/-- The opcode is lowered for x86-64. The scalar product is not, because the host gives another
NaN for infinity times zero than the guest, and bit reversal has no host instruction. -/
def nativeOnAmd64 : Opcode → Bool
  | .fMul | .reverseBits => false
  | op => op.nativeOnAarch64

end Dynarec.Opcode
