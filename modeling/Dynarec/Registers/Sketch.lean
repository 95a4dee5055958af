/-
A small host for studying the engine: four registers of each class, one static binding, and a
readable line for each action instead of code.
-/
import Dynarec.Registers.Host

set_option autoImplicit false

namespace Dynarec.Registers

/-- Four integer registers `g0` to `g3` and four float registers `v0` to `v3`. -/
def sketch : Host where
  gprs := 4
  fprs := 4
  order
    | .gpr, false => [0, 1, 2, 3]
    | .gpr, true => [0, 1, 2]
    | .fpr, _ => [4, 5, 6, 7]
  statics := [{ slot := 29, reg := 3, pointer := true }]
  callerSaved r := r ≤ 1 || 6 ≤ r
  preservesVector r := r = 4
  regName r := if r < 4 then s!"g{r}" else s!"v{r - 4}"

namespace LaneSource

/-- A lane source in words. -/
def describe (h : Host) : LaneSource → String
  | .keep => "keep"
  | .lane r k => s!"{h.regName r}.{k}"
  | .guest s => s!"s{s}"
  | .value w => s!"#{w.toNat}"

end LaneSource

namespace Action

/-- An action in words. -/
def describe (h : Host) : Action → String
  | .load r s lanes => s!"load {h.regName r} <- s{s} x{lanes}"
  | .store r s lane count => s!"store {h.regName r}.{lane} -> s{s} x{count}"
  | .setValue r w => s!"set {h.regName r} = {w.toNat}"
  | .storeValue s w => s!"storeimm s{s} = {w.toNat}"
  | .addBase r => s!"+base {h.regName r}"
  | .removeBase r => s!"-base {h.regName r}"
  | .move d s => s!"mov {h.regName d}, {h.regName s}"
  | .extract d s lane => s!"extract {h.regName d} <- {h.regName s}.{lane}"
  | .compose d sources =>
    let lanes := ", ".intercalate (sources.toList.map (·.describe h))
    s!"compose {h.regName d} <- [{lanes}]"

end Action

end Dynarec.Registers
