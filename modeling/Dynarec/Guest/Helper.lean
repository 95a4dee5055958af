/-
The interpreter call that compiled code makes for instructions without a lowering of their own.

Compiled code passes the instruction packed into one double word: the opcode byte and the three
operand bytes in the low half, the resolved constant in the high half (`pack_inst`, `unpack_inst`).
The call (`interpret_one`) executes it on the machine of the running block and answers whether the
block goes on, has exited, or has faulted. A fault waits in one place until it is taken
(`take_fallback_fault`); taking it empties the place. A call that cannot be served (a byte that is
no opcode, no memory installed, no state given) is a fault too and leaves the machine alone. An
instruction that stops the program stops it here as well: then there is no answer.
-/
import Dynarec.Guest.Step

set_option autoImplicit false

namespace Dynarec.Helper

open Dynarec.Guest (Machine step)

/-! ## Packed instructions -/

/-- An instruction and its constant in one double word. -/
def pack (i : Inst) (constant : Word) : UInt64 :=
  i.op.code.toUInt64 ||| (i.dest.toUInt64 <<< 8) ||| (i.src1.toUInt64 <<< 16)
    ||| (i.src2.toUInt64 <<< 24) ||| (constant.toUInt64 <<< 32)

/-- The instruction and constant in a double word, unless its low byte is no opcode. -/
def unpack? (w : UInt64) : Option (Inst × Word) :=
  (Opcode.ofCode? w.toUInt8).map fun op =>
    ({ op := op, dest := (w >>> 8).toUInt8, src1 := (w >>> 16).toUInt8,
       src2 := (w >>> 24).toUInt8 }, (w >>> 32).toUInt32)

/-! ## Calls -/

/-- What surrounds a call. -/
inductive Surroundings where
  /-- Memory is installed and a state is given. -/
  | complete
  | noMemory
  | noState
  deriving DecidableEq, Repr

/-- How a call ends. -/
inductive Verdict where
  /-- The block goes on. -/
  | proceed
  /-- The block has exited; the program counter holds the target. -/
  | exit
  /-- The call has faulted; the fault is waiting. -/
  | fault
  deriving DecidableEq, Repr

/-- The number that compiled code tests. -/
def Verdict.code : Verdict → Nat
  | .proceed => 0
  | .exit => 1
  | .fault => 2

/-- The machine of the running block and the fault that waits to be taken. -/
structure Context where
  machine : Machine
  pending : Option Fault := none

namespace Context

/-- A fault is left waiting. -/
def raise (c : Context) (f : Fault) : Verdict × Context := (.fault, { c with pending := some f })

/-- Take the waiting fault. -/
def takeFault (c : Context) : Option Fault × Context := (c.pending, { c with pending := none })

/-- Execute an unpacked instruction. -/
def execute (c : Context) (i : Inst) (constant : Word) : Except Fault (Verdict × Context) :=
  match step i constant c.machine with
  | (.ok none, m) => .ok (.proceed, { c with machine := m })
  | (.ok (some target), m) =>
    .ok (.exit, { c with machine := { m with state := { m.state with pc := target } } })
  | (.error f, m) => if f.isAbort then .error f else .ok (raise { c with machine := m } f)

/-- Call the interpreter with a packed instruction. -/
def call (c : Context) (around : Surroundings) (packed : UInt64) :
    Except Fault (Verdict × Context) :=
  match unpack? packed with
  | none => .ok (c.raise (.unsupported (.badOpcodeByte packed.toUInt8)))
  | some (i, constant) =>
    match around with
    | .complete => c.execute i constant
    | .noMemory | .noState => .ok (c.raise (.unsupported (.helperOutside i.op)))

end Context

end Dynarec.Helper
