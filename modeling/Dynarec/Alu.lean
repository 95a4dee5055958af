/-
Integer operations on words.

The same operation occurs under up to three opcodes: on two registers, on a register and a pool
constant, on a register and an immediate. Execution and constant folding both take its meaning from
here, so they cannot disagree.

The operations are those of `evaluate_binary` and `evaluate_unary`; the conditions are
`exit_taken`, and the divisions `div_signed` and `div_unsigned`.
-/
import Dynarec.Fault

set_option autoImplicit false

namespace Dynarec

namespace Opcode

/-- The function of an opcode with two integer operands and an integer result. -/
def binary? : Opcode → Option (Word → Word → Word)
  | .add | .addConst => some fun a b => a + b
  | .sub | .subConst => some fun a b => a - b
  | .and | .andConst => some fun a b => a &&& b
  | .or | .orConst => some fun a b => a ||| b
  | .xor | .xorConst => some fun a b => a ^^^ b
  | .shl | .shlImm => some fun a b => a <<< (b &&& 31)
  | .shr | .shrImm => some fun a b => a >>> (b &&& 31)
  | .sar | .sarImm => some Word.sar
  | .ror | .rorImm => some Word.ror
  | .slt | .sltConst => some fun a b => Word.ofBool (Word.slt a b)
  | .sltU | .sltUConst => some fun a b => Word.ofBool (a < b)
  | _ => none

/-- The function of an opcode with one integer operand and an integer result. -/
def unary? : Opcode → Option (Word → Word)
  | .not => some fun a => ~~~a
  | .neg => some fun a => -a
  | .bSwap16 => some Word.swapHalves
  | .bSwap32 => some Word.swapBytes
  | .ext8to32 => some Word.extend8
  | .ext16to32 => some Word.extend16
  | .reverseBits => some Word.reverse
  | .clz => some Word.leadingZeros
  | _ => none

/-- The condition of a conditional exit; the second word matters only to the two equalities. -/
def exitCondition? : Opcode → Option (Word → Word → Bool)
  | .exitToConstIfEq => some fun a b => a == b
  | .exitToConstIfNeq => some fun a b => a != b
  | .exitToConstIfGtZ => some fun a _ => Word.slt 0 a
  | .exitToConstIfGeZ => some fun a _ => !Word.slt a 0
  | .exitToConstIfLtZ => some fun a _ => Word.slt a 0
  | .exitToConstIfLeZ => some fun a _ => !Word.slt 0 a
  | _ => none

end Opcode

namespace Alu

/-- Evaluate a two-operand opcode. -/
def evaluate2 (op : Opcode) (a b : Word) : Except Fault Word :=
  match op.binary? with
  | some f => .ok (f a b)
  | none => violate (.notBinary op)

/-- Evaluate a one-operand opcode. -/
def evaluate1 (op : Opcode) (a : Word) : Except Fault Word :=
  match op.unary? with
  | some f => .ok (f a)
  | none => violate (.notUnary op)

/-- The signed product as a double word. -/
def productSigned (a b : Word) : UInt64 := UInt64.ofInt (Word.signed a * Word.signed b)

/-- The unsigned product as a double word. -/
def productUnsigned (a b : Word) : UInt64 := a.toUInt64 * b.toUInt64

/-- Quotient and remainder of signed words, rounding toward zero. The least word divided by minus
one wraps and leaves all ones as remainder; division by zero leaves the dividend as remainder. -/
def divideSigned (a b : Word) : Word × Word :=
  if a = 0x80000000 ∧ b = 0xffffffff then (0x80000000, 0xffffffff)
  else if b = 0 then (if Word.slt a 0 then 1 else 0xffffffff, a)
  else
    (UInt32.ofInt ((Word.signed a).tdiv (Word.signed b)),
     UInt32.ofInt ((Word.signed a).tmod (Word.signed b)))

/-- Quotient and remainder of unsigned words. Division by zero gives all ones in the width of the
dividend, 16 or 32 bits, and leaves the dividend as remainder. -/
def divideUnsigned (a b : Word) : Word × Word :=
  if b = 0 then (if a ≤ 0xffff then 0xffff else 0xffffffff, a) else (a / b, a % b)

end Alu

end Dynarec
