/-
Code under construction, and branches that are resolved later.

Code is a sequence of words. A branch is laid down with distance zero and hands out a note that
says where it is; resolving the note fills in the distance, counted in words, and touches nothing
but the distance field of that one word. Every note is resolved once, and the code can be taken
only when none is open. A place in the code is a signed double word, and so is the distance to it.

The operations are those of `Arm64Encoder`: `emit`, `fixup` and the branches that use it,
`set_jump_target`, `set_jump_target_to` and `finish`.
-/
import Dynarec.Aarch64.Constant

set_option autoImplicit false

namespace Dynarec.Aarch64

/-- The kinds of branches. -/
inductive BranchKind where
  | cbz | cbnz | cond | tbz | tbnz | jump | call
  deriving DecidableEq, Repr

namespace BranchKind

/-- The name of a kind in messages. -/
def name : BranchKind → String
  | .cbz => "Cbz"
  | .cbnz => "Cbnz"
  | .cond => "BCond"
  | .tbz => "Tbz"
  | .tbnz => "Tbnz"
  | .jump => "B"
  | .call => "Bl"

/-- The lowest bit of the distance field. -/
def position : BranchKind → Nat
  | .cbz | .cbnz | .cond | .tbz | .tbnz => 5
  | .jump | .call => 0

/-- The number of bits of the distance field. -/
def width : BranchKind → Nat
  | .cbz | .cbnz | .cond => 19
  | .tbz | .tbnz => 14
  | .jump | .call => 26

/-- The distance can be written into the field. -/
def reaches (k : BranchKind) (distance : Int) : Bool :=
  decide (-(twoTo (k.width - 1) : Int) ≤ distance ∧ distance < twoTo (k.width - 1))

/-- The bits of the distance field. -/
def fieldMask (k : BranchKind) : Word :=
  UInt32.ofNat ((twoTo k.width - 1) <<< k.position)

/-- A word with a distance in its field. -/
def patch (k : BranchKind) (w : Word) (distance : Int) : Word :=
  (w &&& ~~~k.fieldMask) ||| ((UInt32.ofInt distance <<< UInt32.ofNat k.position) &&& k.fieldMask)

end BranchKind

/-- The kind of a branch. -/
def BranchOp.kind : BranchOp → BranchKind
  | .cbz .. => .cbz
  | .cbnz .. => .cbnz
  | .cond _ => .cond
  | .tbz .. => .tbz
  | .tbnz .. => .tbnz
  | .jump => .jump
  | .call => .call

/-- The note of a branch: its kind and the position of its word. -/
structure Branch where
  kind : BranchKind
  site : Nat
  deriving DecidableEq, Repr

/-- Code under construction. -/
structure Assembler where
  words : Array Word := #[]
  /-- The number of branches that are not resolved. -/
  pending : Nat := 0
  deriving DecidableEq, Repr

namespace Assembler

/-- The position of the next word. -/
def position (a : Assembler) : Nat := a.words.size

/-- Lay down a word. -/
def pushWord (a : Assembler) (w : Word) : Assembler := { a with words := a.words.push w }

/-- Lay down an instruction. -/
def push (a : Assembler) (i : Instr) : Except Fault Assembler := do
  i.check
  return a.pushWord i.encode

/-- Lay down instructions. -/
def pushAll (a : Assembler) (is : List Instr) : Except Fault Assembler := is.foldlM push a

/-- Lay down a branch. -/
def branch (a : Assembler) (op : BranchOp) : Except Fault (Branch × Assembler) := do
  let b : Branch := { kind := op.kind, site := a.position }
  let a ← a.push (.branch op)
  return (b, { a with pending := a.pending + 1 })

/-- Make a branch go to the word at a position. -/
def resolveTo (a : Assembler) (b : Branch) (target : Int) : Except Fault Assembler :=
  let distance := target - (b.site : Int)
  if distance < -(twoTo 63 : Int) then .error .overflow
  else if !b.kind.reaches distance then violate (.branchRange b.kind.name b.site distance)
  else if h : b.site < a.words.size then
    if a.pending = 0 then .error .overflow
    else
      .ok { words := a.words.set b.site (b.kind.patch a.words[b.site] distance),
            pending := a.pending - 1 }
  else .error .outOfBounds

/-- Make a branch go to the next word. -/
def resolve (a : Assembler) (b : Branch) : Except Fault Assembler := a.resolveTo b a.position

/-- Make branches go to the next word. -/
def resolveAll (a : Assembler) (bs : Array Branch) : Except Fault Assembler := bs.foldlM resolve a

/-- Lay down a jump to the word at a position. -/
def jumpTo (a : Assembler) (target : Int) : Except Fault Assembler := do
  let (b, a) ← a.branch .jump
  a.resolveTo b target

/-- The bytes of the code, which must have no open branch. -/
def finish (a : Assembler) : Except Fault (List UInt8) :=
  if a.pending = 0 then .ok (a.words.toList.flatMap Word.littleEndian)
  else violate (.pendingBranches a.pending)

end Assembler

end Dynarec.Aarch64
