/-
Executing a block.

Instructions run in order until one exits or fails; a block may also run off its end. Execution
does not put the exit target into the program counter: that is the business of whoever entered the
block.

This is `interpret`.
-/
import Dynarec.Block
import Dynarec.Guest.Step

set_option autoImplicit false

namespace Dynarec.Guest

/-- Execute instructions whose constants are in `pool`. -/
def runInsts (pool : Pool) : List Inst → Machine → Except Fault (Option Word) × Machine
  | [], m => (.ok none, m)
  | i :: rest, m =>
    match i.constantIndex.mapM pool.get with
    | .error f => (.error f, m)
    | .ok constant =>
      match step i (constant.getD 0) m with
      | (.ok none, m) => runInsts pool rest m
      | r => r

/-- Execute a block: the exit target if an instruction left it, and the machine afterwards. -/
def runBlock (b : Block) (m : Machine) : Except Fault (Option Word) × Machine :=
  runInsts b.pool b.insts m

end Dynarec.Guest
