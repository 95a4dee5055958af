/-
x86-64 instructions.

One constructor stands for one form of an instruction. Only two kinds of memory operands occur: a
field of the guest state, at a fixed offset from `r14`, and guest memory at `r15 + rax`. How many
bytes an instruction has and what they are is left to the assembler.

The forms are those that `X64Backend`, `X64Target` and `X64Encoder` ask the assembler for.
-/
import Dynarec.Bits

set_option autoImplicit false

namespace Dynarec.Amd64

/-- A register number; vector registers are numbered on their own. -/
abbrev Reg := Fin 16

/-- The accumulator. -/
def rax : Reg := 0

/-- The counter of variable shifts. -/
def rcx : Reg := 1

/-- The third argument of a call. -/
def rdx : Reg := 2

/-- The stack pointer. -/
def rsp : Reg := 4

/-- The second argument of a call. -/
def rsi : Reg := 6

/-- The first argument of a call. -/
def rdi : Reg := 7

/-- The pointer to the guest state. -/
def stateBase : Reg := 14

/-- The pointer to guest memory. -/
def memoryBase : Reg := 15

/-- Vector scratch for masks. -/
def maskScratch : Reg := 14

/-- Vector scratch for results. -/
def resultScratch : Reg := 15

/-- The registers that the caller of a block expects back. -/
def savedRegs : List Reg := [3, 5, 12, 13, 14, 15]

/-- A memory operand. -/
inductive Mem where
  /-- `r14` plus an offset, which counts as signed. -/
  | state (offset : Word)
  /-- `r15` plus `rax`. -/
  | guest
  deriving DecidableEq, Repr

/-! ## Operations -/

/-- Arithmetic that has a register form and an immediate form. -/
inductive AluOp where
  | add | or | and | sub | xor | cmp
  deriving DecidableEq, Repr

/-- Shifts and rotation. -/
inductive ShiftOp where
  | ror | shl | shr | sar
  deriving DecidableEq, Repr

/-- Conditions. -/
inductive Cond where
  | b | e | ne | l | ge | le | g
  deriving DecidableEq, Repr

/-- The size of a store. -/
inductive Size where
  | byte | half | word
  deriving DecidableEq, Repr

/-- Operations on two vector registers: on one lane, on four lanes, and moves of all lanes. -/
inductive SseOp where
  | addss | subss | divss | sqrtss | addps | subps | mulps | divps | xorps | andps | movaps
  | cvtdq2ps
  deriving DecidableEq, Repr

/-- Operations on vector registers with an immediate. -/
inductive ShuffleOp where
  | pshufd | shufps | insertps
  deriving DecidableEq, Repr

/-! ## Instructions -/

/-- An instruction other than a branch. -/
inductive Instr where
  | mov (isWide : Bool) (d s : Reg)
  | movImm (d : Reg) (imm : Word)
  | movImm64 (d : Reg) (imm : UInt64)
  | load (d : Reg) (m : Mem)
  | store (size : Size) (m : Mem) (s : Reg)
  | storeImm (size : Size) (m : Mem) (imm : Word)
  /-- Load a byte or half word, extended to a word. -/
  | loadExtended (isSigned isHalf : Bool) (d : Reg) (m : Mem)
  | alu (op : AluOp) (isWide : Bool) (d s : Reg)
  | aluImm (op : AluOp) (isWide : Bool) (d : Reg) (imm : Word)
  | aluMemImm (op : AluOp) (m : Mem) (imm : Word)
  | test (a b : Reg)
  | neg (d : Reg)
  | not (d : Reg)
  | bswap (d : Reg)
  | shiftImm (op : ShiftOp) (isWide : Bool) (d : Reg) (amount : UInt8)
  /-- Shift by the counter. -/
  | shift (op : ShiftOp) (d : Reg)
  /-- Sign extend the low byte or half of a register. -/
  | extend (isHalf : Bool) (d s : Reg)
  /-- Sign extend a word to 64 bits. -/
  | extendWord (d s : Reg)
  /-- The 64-bit product. -/
  | imul (d s : Reg)
  /-- The position of the highest one bit. -/
  | bsr (d s : Reg)
  | cmov (c : Cond) (d s : Reg)
  /-- The low byte of a register becomes one or zero. -/
  | set (c : Cond) (d : Reg)
  | push (r : Reg)
  | pop (r : Reg)
  | callReg (r : Reg)
  | ret
  | movdTo (x r : Reg)
  | movdFrom (r x : Reg)
  | loadLane (x : Reg) (m : Mem)
  | storeLane (m : Mem) (x : Reg)
  | loadVector (x : Reg) (m : Mem)
  | storeVector (m : Mem) (x : Reg)
  | sse (op : SseOp) (d s : Reg)
  | shuffle (op : ShuffleOp) (d s : Reg) (imm : UInt8)
  /-- Put a word of memory into a lane. -/
  | insertMem (d : Reg) (m : Mem) (imm : UInt8)
  /-- Put a lane into memory. -/
  | extract (m : Mem) (s : Reg) (imm : UInt8)
  deriving DecidableEq, Repr

/-! ## Constants in registers -/

/-- Put a word into a register. -/
def moveConst (d : Reg) (imm : Word) : Instr :=
  if imm = 0 then .alu .xor false d d else .movImm d imm

/-- Put a word into the lowest lane of a vector register; the accumulator is lost. -/
def moveVectorConst (x : Reg) (imm : Word) : List Instr :=
  if imm = 0 then [.sse .xorps x x] else [.movImm rax imm, .movdTo x rax]

end Dynarec.Amd64
