/-
Running compiled blocks.

Entering a compiled block does what interpreting the block it was made from does, with two
differences: the instruction that does nothing has no code and is passed over, and when the block
exits the program counter is set to the exit target. Code can only be entered by a process that runs
on the architecture it was made for.

A run starts at the program counter and follows exits. It ends when a block runs off its end, a
system call is raised, the downcount is used up, or as many blocks as allowed have run. Whatever a
block did before it failed remains done.

Entering a block is `Jit::execute`, and a run is `Jit::run`.
-/
import Dynarec.Cache
import Dynarec.Guest.Run

set_option autoImplicit false

namespace Dynarec

open Dynarec.Guest (Machine)

/-- The machine with the given program counter. -/
def Guest.Machine.jump (m : Machine) (target : Word) : Machine :=
  { m with state := { m.state with pc := target } }

/-- The instructions of a block that have code. -/
def Block.effective (b : Block) : Block := { b with insts := b.insts.filter (·.op ≠ .nop) }

namespace Cache

/-- Enter the code of an entry: the exit target, if the block exits, and the machine
afterwards. -/
def execute (c : Cache) (e : Entry) (m : Machine) : Except Fault (Option Word) × Machine :=
  if c.platform.enters c.settings.target then
    match Guest.runBlock e.block.effective m with
    | (.ok (some target), m) => (.ok (some target), m.jump target)
    | r => r
  else (.error (.unsupported (.foreignCode c.settings.target.name)), m)

/-- The machine may go on to the next block. -/
def mayContinue (m : Machine) : Bool := m.state.syscall == 0 && 0 < m.state.downcount

/-- Run at most `limit` more blocks after `done` ones. -/
def runFrom (done : Nat) : Nat → Cache → Machine → Except Fault Nat × Cache × Machine
  | 0, c, m => (.ok done, c, m)
  | limit + 1, c, m =>
    match c.compile m.state.pc with
    | (.error f, c) => (.error f, c, m)
    | (.ok entry, c) =>
      match c.execute entry m with
      | (.error f, m) => (.error f, c, m)
      | (.ok none, m) => (.ok (done + 1), c, m)
      | (.ok (some target), m) =>
        if mayContinue m then runFrom (done + 1) limit c (m.jump target)
        else (.ok (done + 1), c, m)

/-- Run at most `limit` blocks: how many have run, the cache, and the machine. -/
def run (c : Cache) (limit : Nat) (m : Machine) : Except Fault Nat × Cache × Machine :=
  runFrom 0 limit c m

end Cache

end Dynarec
