/-
Removal of writes that nothing reads.

Walking forward, every write of an integer register opens a question: is it read before the next
write of that register? A read answers yes and an overwrite answers no. Exits observe every
register except the temporaries, so a temporary that is still open at the end of the block was not
read either. Special registers are touched implicitly by many instructions and are not asked about;
writes by instructions with other effects are never removed.

A removed instruction becomes a placeholder, so positions keep their meaning during a walk. Removing
a write may make the write that fed it dead, so the walk is repeated until it finds nothing; each
round that finds something leaves one more placeholder, which bounds the number of rounds. The
placeholders are swept out at the end.

A round is `mark_dead`, with `reads_for_purge` and `has_side_effects`, and the rounds are `run` of
`purge_temps`.
-/
import Dynarec.Block

set_option autoImplicit false

namespace Dynarec.Optimize.DeadWrites

/-- An open question: a write of `reg` by the instruction at `pos`. -/
structure Question where
  reg : UInt8
  pos : Nat
  /-- Exits observe the register. -/
  observed : Bool
  deriving Repr

/-- How a later instruction answers a question. -/
inductive Answer where
  | live
  | dead
  | unanswered
  deriving DecidableEq, Repr

/-- The answer that an instruction gives about an earlier write. A barrier, and an exit for a
register that is no temporary, observe the register without reading it; an exit that only observes
leaves the question about a temporary open. -/
def answer (i : Inst) (q : Question) : Answer :=
  if i.readsGpr q.reg then .live
  else if i.isBarrier || (i.isExit && !Slot.isTemp q.reg.toNat) then
    if !i.isExit || q.observed then .live else .unanswered
  else if q.observed && i.isExit then .live
  else if i.destGpr = some q.reg then .dead
  else .unanswered

/-- A write that is never removed, because the instruction does more than write the register. -/
def hasSideEffects (i : Inst) : Bool :=
  i.op = .store32Conditional || i.op = .load32Linked
    || !i.op.signature.implicitWrites.isEmpty

/-- The question that an instruction opens. -/
def question? (i : Inst) (pos : Nat) : Option Question :=
  match i.destGpr with
  | none => none
  | some reg =>
    if reg = 0 || hasSideEffects i then none
    else if Slot.isTemp reg.toNat then
      if i.isBarrier then none else some { reg := reg, pos := pos, observed := false }
    else if reg.toNat ≤ Slot.lastTemp then some { reg := reg, pos := pos, observed := true }
    else none

/-- The open questions and the positions of the writes found dead. -/
structure Walk where
  questions : List Question := []
  dead : List Nat := []

/-- Walk over one instruction. -/
def Walk.step (w : Walk) (pos : Nat) (i : Inst) : Walk :=
  let dead := w.questions.filter fun q => answer i q = .dead
  let questions := w.questions.filter fun q => answer i q = .unanswered
  { questions := questions ++ (question? i pos).toList
    dead := w.dead ++ dead.map (·.pos) }

/-- The walk over the instructions that start at position `pos`. -/
def Walk.over (w : Walk) (pos : Nat) : List Inst → Walk
  | [] => w
  | i :: rest => (w.step pos i).over (pos + 1) rest

/-- The positions of the dead writes that one walk finds. -/
def deadPositions (insts : List Inst) : List Nat :=
  let w := Walk.over {} 0 insts
  w.dead ++ (w.questions.filter fun q => !q.observed).map (·.pos)

/-- The instructions with placeholders at the given positions. -/
def blank (dead : List Nat) (insts : List Inst) : List Inst :=
  insts.zipIdx.map fun (i, pos) => if dead.contains pos then Inst.nop else i

/-- At most `rounds` walks, stopping at the first that finds nothing. -/
def settle : Nat → List Inst → List Inst
  | 0, insts => insts
  | rounds + 1, insts =>
    match deadPositions insts with
    | [] => insts
    | dead => settle rounds (blank dead insts)

/-- Walks until nothing more is dead: every round but the last adds a placeholder, so there are at
most as many as instructions. -/
def placeholders (insts : List Inst) : List Inst := settle (insts.length + 1) insts

/-- The block without its dead writes. -/
def run (b : Block) : Except Fault Block :=
  Block.appendAll {} b ((placeholders b.insts).filter fun i => i.op ≠ .nop)

end Dynarec.Optimize.DeadWrites
