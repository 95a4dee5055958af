/-
An assembler.

An instruction is, in this order, an optional prefix byte, an optional extension byte, the opcode, a
byte that names the operands, the rest of a memory operand, and an immediate. The extension byte is
written only when something needs it: a 64-bit operation, a register from 8 on, or one of the low
bytes of registers 4 to 7. Where an immediate fits into one byte the short form is taken, except
that the accumulator has a form of its own, which is taken always.

A branch has a short form, which reaches 127 bytes ahead, and a near form. Which form it gets
depends on the sizes of the branches in between, so the sizes are found in rounds. Every branch
starts larger than either form. A round walks over the code with the addresses of the round before
for what lies ahead, corrected by the bytes that the round has saved so far, and turns each branch
that reaches into a short one and each other into a near one. A short branch stays short; a near one
whose target is far out of reach is not looked at again. Rounds stop when nothing shrinks, or after
five.

Lowering does not depend on these choices: any assembler can take the place of this one.
-/
import Dynarec.Amd64.Assembler

set_option autoImplicit false

namespace Dynarec.Amd64

/-! ## Operands -/

/-- A register or a memory operand. -/
inductive Operand where
  | reg (r : Reg)
  | mem (m : Mem)
  deriving DecidableEq, Repr

/-- The word, read as signed, fits into one byte. -/
def fitsByte (w : Word) : Bool := decide (-128 ≤ Word.signed w ∧ Word.signed w ≤ 127)

/-- The bytes after the opcode: the register field, the operand, and its offset. -/
def operandBytes (field : Nat) : Operand → List UInt8
  | .reg r => [UInt8.ofNat (0xc0 + 8 * (field % 8) + r.val % 8)]
  | .mem .guest => [UInt8.ofNat (0x04 + 8 * (field % 8)), 0x07]
  | .mem (.state offset) =>
    if offset = 0 then [UInt8.ofNat (0x06 + 8 * (field % 8))]
    else if fitsByte offset then [UInt8.ofNat (0x46 + 8 * (field % 8)), offset.toUInt8]
    else UInt8.ofNat (0x86 + 8 * (field % 8)) :: Word.littleEndian offset

/-- The operand needs the low extension bit. -/
def Operand.isExtended : Operand → Bool
  | .reg r => decide (8 ≤ r.val)
  | .mem _ => true

/-- The extension byte, if it is needed. -/
def extension (isWide high low forced : Bool) : List UInt8 :=
  if isWide || high || low || forced then
    [UInt8.ofNat (0x40 + 8 * isWide.toNat + 4 * high.toNat + low.toNat)]
  else []

/-- A form with a register field and an operand. -/
structure Form where
  prefixBytes : List UInt8 := []
  isWide : Bool := false
  /-- The extension byte is needed to name a low byte. -/
  forced : Bool := false
  opcode : List UInt8
  /-- A register number or the rest of the opcode. -/
  field : Nat
  operand : Operand
  immediate : List UInt8 := []

/-- The bytes of a form. -/
def Form.bytes (f : Form) : List UInt8 :=
  f.prefixBytes ++ extension f.isWide (decide (8 ≤ f.field)) f.operand.isExtended f.forced
    ++ f.opcode ++ operandBytes f.field f.operand ++ f.immediate

/-- A form whose register is part of the opcode. -/
def shortForm (isWide : Bool) (opcode : List UInt8) (last : Nat) (r : Reg) : List UInt8 :=
  extension isWide false (decide (8 ≤ r.val)) false ++ opcode ++ [UInt8.ofNat (last + r.val % 8)]

/-! ## Numbers of operations -/

/-- The number of an operation. -/
def AluOp.code : AluOp → Nat
  | .add => 0
  | .or => 1
  | .and => 4
  | .sub => 5
  | .xor => 6
  | .cmp => 7

/-- The number of a shift. -/
def ShiftOp.code : ShiftOp → Nat
  | .ror => 1
  | .shl => 4
  | .shr => 5
  | .sar => 7

/-- The number of a condition. -/
def Cond.code : Cond → Nat
  | .b => 0x2
  | .e => 0x4
  | .ne => 0x5
  | .l => 0xc
  | .ge => 0xd
  | .le => 0xe
  | .g => 0xf

/-- The prefix and opcode of an operation on two vector registers. -/
def SseOp.code : SseOp → List UInt8 × List UInt8
  | .addss => ([0xf3], [0x0f, 0x58])
  | .subss => ([0xf3], [0x0f, 0x5c])
  | .divss => ([0xf3], [0x0f, 0x5e])
  | .sqrtss => ([0xf3], [0x0f, 0x51])
  | .addps => ([], [0x0f, 0x58])
  | .subps => ([], [0x0f, 0x5c])
  | .mulps => ([], [0x0f, 0x59])
  | .divps => ([], [0x0f, 0x5e])
  | .xorps => ([], [0x0f, 0x57])
  | .andps => ([], [0x0f, 0x54])
  | .movaps => ([], [0x0f, 0x28])
  | .cvtdq2ps => ([], [0x0f, 0x5b])

/-- The prefix and opcode of an operation with an immediate. -/
def ShuffleOp.code : ShuffleOp → List UInt8 × List UInt8
  | .pshufd => ([0x66], [0x0f, 0x70])
  | .shufps => ([], [0x0f, 0xc6])
  | .insertps => ([0x66], [0x0f, 0x3a, 0x21])

/-! ## Instructions -/

/-- The low byte of the register can be named only with an extension byte. -/
def needsExtension (r : Reg) : Bool := decide (4 ≤ r.val)

/-- The bytes of arithmetic with an immediate on an operand other than the accumulator. -/
def aluImmBytes (op : AluOp) (isWide : Bool) (operand : Operand) (imm : Word) : List UInt8 :=
  if fitsByte imm then
    Form.bytes { isWide, opcode := [0x83], field := op.code, operand, immediate := [imm.toUInt8] }
  else
    Form.bytes
      { isWide, opcode := [0x81], field := op.code, operand, immediate := Word.littleEndian imm }

/-- The bytes of an instruction. -/
def Instr.encode : Instr → List UInt8
  | .mov isWide d s => Form.bytes { isWide, opcode := [0x89], field := s.val, operand := .reg d }
  | .movImm d imm => shortForm false [] 0xb8 d ++ Word.littleEndian imm
  | .movImm64 d imm => shortForm true [] 0xb8 d ++ littleEndian64 imm
  | .load d m => Form.bytes { opcode := [0x8b], field := d.val, operand := .mem m }
  | .store .byte m s =>
    Form.bytes
      { opcode := [0x88], field := s.val, operand := .mem m, forced := needsExtension s }
  | .store .half m s =>
    Form.bytes { prefixBytes := [0x66], opcode := [0x89], field := s.val, operand := .mem m }
  | .store .word m s => Form.bytes { opcode := [0x89], field := s.val, operand := .mem m }
  | .storeImm .byte m imm =>
    Form.bytes { opcode := [0xc6], field := 0, operand := .mem m, immediate := [imm.toUInt8] }
  | .storeImm .half m imm =>
    Form.bytes
      { prefixBytes := [0x66], opcode := [0xc7], field := 0, operand := .mem m,
        immediate := (Word.littleEndian imm).take 2 }
  | .storeImm .word m imm =>
    Form.bytes
      { opcode := [0xc7], field := 0, operand := .mem m, immediate := Word.littleEndian imm }
  | .loadExtended isSigned isHalf d m =>
    Form.bytes
      { opcode := [0x0f, UInt8.ofNat (0xb6 + 8 * isSigned.toNat + isHalf.toNat)], field := d.val,
        operand := .mem m }
  | .alu op isWide d s =>
    Form.bytes
      { isWide, opcode := [UInt8.ofNat (8 * op.code + 1)], field := s.val, operand := .reg d }
  | .aluImm op isWide d imm =>
    if d = rax then
      extension isWide false false false ++ [UInt8.ofNat (8 * op.code + 5)]
        ++ Word.littleEndian imm
    else aluImmBytes op isWide (.reg d) imm
  | .aluMemImm op m imm => aluImmBytes op false (.mem m) imm
  | .test a b => Form.bytes { opcode := [0x85], field := b.val, operand := .reg a }
  | .neg d => Form.bytes { opcode := [0xf7], field := 3, operand := .reg d }
  | .not d => Form.bytes { opcode := [0xf7], field := 2, operand := .reg d }
  | .bswap d => shortForm false [0x0f] 0xc8 d
  | .shiftImm op isWide d amount =>
    if amount = 1 then
      Form.bytes { isWide, opcode := [0xd1], field := op.code, operand := .reg d }
    else
      Form.bytes
        { isWide, opcode := [0xc1], field := op.code, operand := .reg d, immediate := [amount] }
  | .shift op d => Form.bytes { opcode := [0xd3], field := op.code, operand := .reg d }
  | .extend isHalf d s =>
    Form.bytes
      { opcode := [0x0f, if isHalf then 0xbf else 0xbe], field := d.val, operand := .reg s,
        forced := !isHalf && needsExtension s }
  | .extendWord d s =>
    Form.bytes { isWide := true, opcode := [0x63], field := d.val, operand := .reg s }
  | .imul d s =>
    Form.bytes { isWide := true, opcode := [0x0f, 0xaf], field := d.val, operand := .reg s }
  | .bsr d s => Form.bytes { opcode := [0x0f, 0xbd], field := d.val, operand := .reg s }
  | .cmov c d s =>
    Form.bytes
      { opcode := [0x0f, UInt8.ofNat (0x40 + c.code)], field := d.val, operand := .reg s }
  | .set c d =>
    Form.bytes
      { opcode := [0x0f, UInt8.ofNat (0x90 + c.code)], field := 0, operand := .reg d,
        forced := needsExtension d }
  | .push r => shortForm false [] 0x50 r
  | .pop r => shortForm false [] 0x58 r
  | .callReg r => Form.bytes { opcode := [0xff], field := 2, operand := .reg r }
  | .ret => [0xc3]
  | .movdTo x r =>
    Form.bytes
      { prefixBytes := [0x66], opcode := [0x0f, 0x6e], field := x.val, operand := .reg r }
  | .movdFrom r x =>
    Form.bytes
      { prefixBytes := [0x66], opcode := [0x0f, 0x7e], field := x.val, operand := .reg r }
  | .loadLane x m =>
    Form.bytes
      { prefixBytes := [0xf3], opcode := [0x0f, 0x10], field := x.val, operand := .mem m }
  | .storeLane m x =>
    Form.bytes
      { prefixBytes := [0xf3], opcode := [0x0f, 0x11], field := x.val, operand := .mem m }
  | .loadVector x m => Form.bytes { opcode := [0x0f, 0x10], field := x.val, operand := .mem m }
  | .storeVector m x => Form.bytes { opcode := [0x0f, 0x11], field := x.val, operand := .mem m }
  | .sse op d s =>
    Form.bytes
      { prefixBytes := op.code.1, opcode := op.code.2, field := d.val, operand := .reg s }
  | .shuffle op d s imm =>
    Form.bytes
      { prefixBytes := op.code.1, opcode := op.code.2, field := d.val, operand := .reg s,
        immediate := [imm] }
  | .insertMem d m imm =>
    Form.bytes
      { prefixBytes := [0x66], opcode := [0x0f, 0x3a, 0x21], field := d.val, operand := .mem m,
        immediate := [imm] }
  | .extract m s imm =>
    Form.bytes
      { prefixBytes := [0x66], opcode := [0x0f, 0x3a, 0x17], field := s.val, operand := .mem m,
        immediate := [imm] }

/-! ## Branches -/

/-- The form of a branch. -/
inductive BranchForm where
  /-- Not decided. -/
  | undecided
  | short
  | near (isFar : Bool)
  deriving DecidableEq, Repr

/-- An item whose bytes are known up to the form of its branch. -/
inductive Piece where
  | code (bytes : List UInt8)
  /-- A branch to a label, under a condition or always. -/
  | branch (c : Option Cond) (target : Label) (form : BranchForm)
  /-- The next piece is what the label names. -/
  | label (l : Label)
  deriving DecidableEq, Repr

/-- The piece of an item, before any round. -/
def Piece.ofItem : Item → Piece
  | .instr i => .code i.encode
  | .branch c l => .branch c l .undecided
  | .label l => .label l

/-- The number of bytes of a branch. -/
def BranchForm.size (c : Option Cond) : BranchForm → Nat
  | .undecided => if c.isSome then 8 else 6
  | .short => 2
  | .near _ => if c.isSome then 6 else 5

/-- The number of bytes of a piece. -/
def Piece.size : Piece → Nat
  | .code bytes => bytes.length
  | .branch c _ form => form.size c
  | .label _ => 0

/-! ## Addresses -/

/-- The addresses of the labels, where `start` is the address of the first piece. -/
def addressesFrom (start : Nat) (addresses : Array Nat) : List Piece → Array Nat
  | [] => addresses
  | .label l :: rest => addressesFrom start (addresses.setIfInBounds l start) rest
  | p :: rest => addressesFrom (start + p.size) addresses rest

/-- The addresses of `count` labels. -/
def addresses (count : Nat) (pieces : List Piece) : Array Nat :=
  addressesFrom 0 (Array.replicate count 0) pieces

/-! ## Rounds -/

/-- What a round knows when it comes to a piece. -/
structure Round where
  /-- The address of the piece. -/
  ip : Nat := 0
  /-- The bytes saved so far in this round. -/
  gained : Nat := 0

/-- The form that a branch gets in a round, given the address of its target. -/
def nextForm (r : Round) (target : Nat) : BranchForm → BranchForm
  | .short => .short
  | .near true => .near true
  | .undecided | .near false =>
    let ahead : Int := (target : Int) - ((r.ip : Int) + 2)
    let diff := if 0 ≤ ahead then ahead - r.gained else ahead
    if -128 ≤ diff ∧ diff ≤ 127 then .short
    else .near (decide (diff < 15 * (-128) ∨ 15 * 127 < diff))

/-- A piece in a round: the piece afterwards and what the round knows then. -/
def roundStep (targets : Array Nat) (r : Round) : Piece → Piece × Round
  | .branch c l form =>
    let form' := nextForm r (targets.getD l 0) form
    (.branch c l form',
      { ip := r.ip + form'.size c, gained := r.gained + (form.size c - form'.size c) })
  | p => (p, { r with ip := r.ip + p.size })

/-- A round over the code: the code afterwards and the bytes saved. -/
def roundFrom (targets : Array Nat) (r : Round) : List Piece → List Piece × Nat
  | [] => ([], r.gained)
  | p :: rest =>
    let (p, r) := roundStep targets r p
    let (rest, gained) := roundFrom targets r rest
    (p :: rest, gained)

/-- At most `fuel` rounds, until nothing shrinks. -/
def relax (labels : Nat) : Nat → List Piece → List Piece
  | 0, pieces => pieces
  | fuel + 1, pieces =>
    match roundFrom (addresses labels pieces) {} pieces with
    | (pieces, 0) => pieces
    | (pieces, _) => relax labels fuel pieces

/-! ## Bytes -/

/-- The bytes of a branch at an address. -/
def branchBytes (c : Option Cond) (form : BranchForm) (ip target : Nat) : List UInt8 :=
  let distance := UInt32.ofInt ((target : Int) - ((ip + form.size c : Nat) : Int))
  match form, c with
  | .short, some c => [UInt8.ofNat (0x70 + c.code), distance.toUInt8]
  | .short, none => [0xeb, distance.toUInt8]
  | _, some c => [0x0f, UInt8.ofNat (0x80 + c.code)] ++ Word.littleEndian distance
  | _, none => 0xe9 :: Word.littleEndian distance

/-- The bytes of pieces from an address on. -/
def bytesFrom (targets : Array Nat) (ip : Nat) : List Piece → List UInt8
  | [] => []
  | .code bytes :: rest => bytes ++ bytesFrom targets (ip + bytes.length) rest
  | .branch c l form :: rest =>
    branchBytes c form ip (targets.getD l 0) ++ bytesFrom targets (ip + form.size c) rest
  | .label _ :: rest => bytesFrom targets ip rest

/-- The number of labels, if they are numbered from 0. -/
def labelCount (items : List Item) : Nat :=
  items.foldl (fun n item =>
    match item with
    | .label l => max n (l + 1)
    | _ => n) 0

/-- The bytes of items. -/
def assemble : Assemble := fun items =>
  let labels := labelCount items
  let pieces := relax labels 5 (items.map Piece.ofItem)
  .ok (bytesFrom (addresses labels pieces) 0 pieces)

end Dynarec.Amd64
