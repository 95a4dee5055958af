/-
Everything that can go wrong, as causes, and the wording of each cause.

Faults come in three kinds. The first is recoverable and part of what callers expect: an access
outside guest memory, a listing that does not parse, a block that does not exist, a buffer or a
pool that is full, a request that cannot be served. The second is a violation: a caller broke a
rule that an operation states, or the library broke one of its own. The third is an index outside
a table, or a count that leaves its double word; these have no wording of their own. A fault never
carries a text that was put together elsewhere; `Fault.message` is the only place where the wording
is decided.

The recoverable faults are those of `JitError`.
-/
import Dynarec.Opcode
import Dynarec.Registers.Bank
import Dynarec.Text.Hex
import Dynarec.Text.Quoted

set_option autoImplicit false

namespace Dynarec

open Dynarec.Registers (Bank)
open Dynarec.Text (hex hex8)

/-! ## Causes -/

/-- Why a line of a listing cannot be read. -/
inductive ParseCause where
  /-- A certain mark should stand here. -/
  | expected (mark : Char) (found : Option Char)
  /-- The line goes on after its item. -/
  | trailing (c : Char)
  /-- A name should start here. -/
  | notName (found : Option Char)
  /-- A number should start here. -/
  | noNumber
  /-- The characters of a number that is none. -/
  | badNumber (token : String)
  /-- A float or control register should stand here. -/
  | badIndexed (mark token : String)
  | unknownRegister (token : String)
  | unknownOpcode (token : String)
  /-- An immediate above 255. -/
  | wideImmediate (value : Word)
  /-- A text that should hold one block holds several. -/
  | manyBlocks (count : Nat)
  deriving DecidableEq, Repr

/-- Why the code buffer refuses. -/
inductive BufferCause where
  | zeroSized
  | outOfSpace (requested left : Nat)
  /-- The system refuses, for this reason. -/
  | refused (reason : String)
  deriving DecidableEq, Repr

/-- Why a file cannot be written. -/
inductive WriteCause where
  | noSuchDirectory
  | isDirectory
  | nameTooLong
  /-- The path has a zero character, which no file name can have. -/
  | zeroInPath
  deriving DecidableEq, Repr

/-- Why a request is not served. -/
inductive UnsupportedCause where
  | unknownPass (name : String)
  | unknownTarget (name : String)
  /-- A flag that needs a value has none. -/
  | missingValue (flag : String)
  /-- A packed instruction whose opcode byte is no opcode. -/
  | badOpcodeByte (byte : UInt8)
  /-- An interpreter call made without memory or without a state. -/
  | helperOutside (op : Opcode)
  /-- Code for another host cannot be entered. -/
  | foreignCode (target : String)
  deriving DecidableEq, Repr

/-- A broken rule. -/
inductive Violation where
  | noConstantOperand (op : Opcode)
  | notExecutable (op : Opcode)
  | notBinary (op : Opcode)
  | notUnary (op : Opcode)
  /-- An opcode that a backend is said to have instructions for has none. -/
  | noLowering (target : String) (op : Opcode)
  | exhausted (bank : Bank) (index : Nat) (op : Option Opcode)
  | flushOfStatic (register : String)
  | immediateOnFloat (slot : Nat)
  | integerMapOfFloat (slot : Nat)
  | floatMapOfInteger (slot : Nat)
  | vectorMapOutside (slot : Nat)
  | slotInFreeRegister (slot register : Nat)
  | laneMismatch (slot lane first : Nat)
  /-- A slot has a host register although it is said to be in guest storage or nowhere. -/
  | registerWithoutStatus
  | occupiedWithoutLane (register : String) (slot : Nat)
  | maskWidth (width : Nat)
  | arithmeticImmediate (imm : Nat)
  | wideMask
  | testBit (bit : Nat)
  | pairOffset (bytes : Int)
  | branchRange (mnemonic : String) (site : Nat) (distance : Int)
  | pendingBranches (count : Nat)
  | notIntegerRegister (register : Nat)
  | notVectorRegister (register : Nat)
  | codeOffset (offset : Nat)
  | codeRange
  /-- A symbol name has a zero byte, which is what ends a name. -/
  | zeroInName
  deriving DecidableEq, Repr

/-- A failure. -/
inductive Fault where
  /-- An access of `size` bytes at `addr` that leaves guest memory. -/
  | memory (addr : Word) (size : Word)
  | parse (line : Nat) (cause : ParseCause)
  | unknownBlock (addr : Word)
  | codeBuffer (cause : BufferCause)
  /-- A register number without a hardware register of the class an instruction needs. -/
  | invalidRegister (register : Nat)
  /-- The assembler cannot put the code together, for this reason. -/
  | assembly (reason : String)
  /-- A constant that does not fit into a pool with 256 entries. -/
  | poolFull (value : Word)
  | object (path : String) (cause : WriteCause)
  | unsupported (cause : UnsupportedCause)
  | violation (cause : Violation)
  /-- An index outside its table. -/
  | outOfBounds
  /-- A count, a size or a distance that leaves its double word. -/
  | overflow
  deriving DecidableEq, Repr

/-! ## Wording -/

/-- The wording of a parse cause. -/
def ParseCause.message : ParseCause → String
  | .expected mark at? => s!"expected '{mark}' but found {Text.found at?}"
  | .trailing c => s!"unexpected '{c}' after instruction"
  | .notName (some c) => s!"expected identifier but found '{c}'"
  | .notName none => "expected identifier but found end of input"
  | .noNumber => "expected number"
  | .badNumber token => s!"invalid number '{token}'"
  | .badIndexed mark token => s!"expected {mark}<N> operand, found '{token}'"
  | .unknownRegister token => s!"unknown register '{token}'"
  | .unknownOpcode token => s!"unknown op '{token}'"
  | .wideImmediate value => s!"immediate {value} does not fit a byte"
  | .manyBlocks count => s!"expected a single block, found {count}"

/-- The wording of a buffer cause. -/
def BufferCause.message : BufferCause → String
  | .zeroSized => "zero-sized code buffer"
  | .outOfSpace requested left => s!"out of space: {requested} bytes requested, {left} left"
  | .refused reason => reason

/-- The wording of a write cause. -/
def WriteCause.message : WriteCause → String
  | .noSuchDirectory => "No such file or directory (os error 2)"
  | .isDirectory => "Is a directory (os error 21)"
  | .nameTooLong => "File name too long (os error 36)"
  | .zeroInPath => "file name contained an unexpected NUL byte"

/-- The wording of an unsupported request. -/
def UnsupportedCause.message : UnsupportedCause → String
  | .unknownPass name => s!"unknown pass '{name}'"
  | .unknownTarget name => s!"unknown target '{name}'"
  | .missingValue flag => s!"{flag} needs a value"
  | .badOpcodeByte byte => s!"fallback call with bad opcode byte {hex byte.toNat}"
  | .helperOutside op => s!"fallback for {op.name} outside with_fallback_memory"
  | .foreignCode target => s!"cannot execute {target} code on this host"

/-- The wording of two values that should have been equal. -/
def unequal (what : String) (left right : Nat) : String :=
  s!"assertion `left == right` failed: {what}\n  left: {left}\n right: {right}"

/-- The wording of a case that should not arise. -/
def unreachable (what : String) : String := s!"internal error: entered unreachable code: {what}"

/-- The wording of a broken rule. -/
def Violation.message : Violation → String
  | .noConstantOperand op => s!"{op.name} has no constant operand"
  | .notExecutable op => unreachable s!"interpreter reached {op.name} (no interpreter case)"
  | .notBinary op => unreachable s!"unable to evaluate two-operand {op.name}"
  | .notUnary op => unreachable s!"unable to evaluate one-operand {op.name}"
  | .noLowering target op =>
    unreachable s!"{target} backend has no native lowering for {op.name}"
  | .exhausted bank index op? =>
    let place :=
      match op? with
      | some op => s!"IR instruction {index} ({op.name})"
      | none => s!"IR instruction {index}"
    s!"register allocation exhausted: every {bank.name} register is locked at {place}"
  | .flushOfStatic register => s!"flush_native on statically bound {register}"
  | .immediateOnFloat slot => s!"set_imm on float slot {slot}"
  | .integerMapOfFloat slot => s!"map_gpr on float slot {slot}"
  | .floatMapOfInteger slot => s!"map_fpr on integer slot {slot}"
  | .vectorMapOutside slot => s!"map_vec4 outside the float range at slot {slot}"
  | .slotInFreeRegister slot register => s!"slot {slot} points at free register {register}"
  | .laneMismatch slot lane first =>
    unequal s!"slot {slot} has lane {lane} in a register starting at {first}" (first + lane) slot
  | .registerWithoutStatus =>
    "assertion failed: v.status != RegStatus::KnownImmediate && "
      ++ "v.status != RegStatus::InGuestStorage"
  | .occupiedWithoutLane register slot =>
    s!"register {register} occupied by slot {slot} but holds no lane"
  | .maskWidth width => s!"bad logical immediate width {width}"
  | .arithmeticImmediate imm => s!"add/sub immediate {hex imm} out of range"
  | .wideMask => "N=1 bitmask immediate on a 32-bit op"
  | .testBit bit => s!"test bit {bit} out of range"
  | .pairOffset bytes => s!"pair offset {bytes} out of range"
  | .branchRange mnemonic site distance =>
    s!"{mnemonic} at word {site}: displacement {distance} words out of range"
  | .pendingBranches count =>
    unequal s!"{count} branch fixups outstanding at end of code" count 0
  | .notIntegerRegister register => s!"{register} is not an integer register"
  | .notVectorRegister register => s!"{register} is not a vector register"
  | .codeOffset offset => s!"code offset {hex offset} outside the buffer"
  | .codeRange => "code range past the end of the buffer"
  | .zeroInName => "assertion failed: !string.contains(&0)"

/-- The wording of a register that does not exist. -/
def invalidRegisterMessage (register : Nat) : String :=
  s!"Invalid register {register} for operation"

/-- The wording of a fault; an index outside its table and an overflow have none. -/
def Fault.message : Fault → Option String
  | .memory addr size => some s!"Guest memory fault: {size}-byte access at {hex8 addr.toNat}"
  | .parse line cause => some s!"IR parse error at line {line}: {cause.message}"
  | .unknownBlock addr => some s!"No IR available for guest address {hex8 addr.toNat}"
  | .codeBuffer cause => some s!"Code buffer failure: {cause.message}"
  | .invalidRegister register =>
    some s!"Encoding failed: {invalidRegisterMessage register}"
  | .assembly reason => some s!"Encoding failed: Assembly error: {reason}"
  | .poolFull value => some s!"Constant pool full while adding {hex value.toNat}"
  | .object path cause => some s!"Object file export failed: {path}: {cause.message}"
  | .unsupported cause => some s!"Unsupported: {cause.message}"
  | .violation cause => some cause.message
  | .outOfBounds | .overflow => none

/-- A fault that stops the program rather than the request. -/
def Fault.isAbort : Fault → Bool
  | .violation _ | .outOfBounds | .overflow => true
  | _ => false

/-- Fail with a broken rule. -/
def violate {m : Type → Type} [MonadExceptOf Fault m] {α : Type} (cause : Violation) : m α :=
  throwThe Fault (.violation cause)

/-- A number that has to be a double word. -/
def asDouble (n : Nat) : Except Fault Nat :=
  if n < doubleWords then .ok n else .error .overflow

end Dynarec
