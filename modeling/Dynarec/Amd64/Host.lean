/-
x86-64 as a host of the register engine.

Registers 0 to 15 are the integer registers and 16 to 31 the vector registers. Inside a block `r14`
points at the guest state and `r15` at guest memory; `rax`, `rcx`, `rdx`, `xmm14` and `xmm15` are
scratch and never handed out, nor is the stack pointer. Registers that a call keeps come first.
There are no static bindings, and a call may change every vector register.

This is `X64Target`, an instance of `NativeTarget`.
-/
import Dynarec.Amd64.Assembler
import Dynarec.Fault
import Dynarec.Guest.Layout
import Dynarec.Registers.Host

set_option autoImplicit false

namespace Dynarec.Amd64

open Dynarec.Registers (Action Host HostReg LaneSource)

/-- The number of integer registers. -/
def gprCount : Nat := 16

/-- The number of vector registers. -/
def fprCount : Nat := 16

/-- The register is a vector register, or none. -/
def isVector (r : HostReg) : Bool := gprCount ≤ r

/-- The integer registers in the order in which they are handed out. -/
def gprOrder : List HostReg := [3, 12, 13, 6, 7, 8, 9, 10, 11, 5]

/-- The vector registers in the order in which they are handed out. -/
def fprOrder : List HostReg := (List.range 14).map (gprCount + ·)

/-- The names of the integer registers. -/
def gprNames : List String :=
  ["eax", "ecx", "edx", "ebx", "esp", "ebp", "esi", "edi", "r8d", "r9d", "r10d", "r11d", "r12d",
   "r13d", "r14d", "r15d"]

/-- The name of a register. -/
def regName (r : HostReg) : String :=
  match gprNames[r]? with
  | some name => name
  | none => if r < gprCount + fprCount then s!"xmm{r - gprCount}" else "?"

/-- The host. -/
def host : Host where
  gprs := gprCount
  fprs := fprCount
  order
    | .gpr, _ => gprOrder
    | .fpr, _ => fprOrder
  statics := []
  callerSaved r := isVector r || [0, 1, 2, 6, 7, 8, 9, 10, 11].contains r
  preservesVector _ := true
  regName := regName

/-! ## Actions -/

/-- The hardware number of an integer register. -/
def integerReg (r : HostReg) : Except Fault Reg :=
  if h : r < 16 then .ok ⟨r, h⟩ else .error (.invalidRegister r)

/-- The hardware number of a vector register. -/
def vectorReg (r : HostReg) : Except Fault Reg :=
  if h : gprCount ≤ r ∧ r - gprCount < 16 then .ok ⟨r - gprCount, h.2⟩
  else .error (.invalidRegister r)

/-- Instructions that need the hardware number of a register. -/
def withReg (r : Except Fault Reg) (f : Reg → List Instr) : List (Except Fault Instr) :=
  match r with
  | .ok r => (f r).map .ok
  | .error e => [.error e]

/-- Instructions that need the hardware numbers of two registers. -/
def withRegs (d s : Except Fault Reg) (f : Reg → Reg → List Instr) : List (Except Fault Instr) :=
  match d, s with
  | .ok d, .ok s => (f d s).map .ok
  | .error e, _ => [.error e]
  | _, .error e => [.error e]

/-- Instructions that need a slot of the guest state as an operand. -/
def withSlot (s : Slot) (f : Mem → List (Except Fault Instr)) : List (Except Fault Instr) :=
  match Guest.Layout.slotOffset s with
  | .ok offset => f (.state offset)
  | .error e => [.error e]

/-- The selector that puts lane `src` of one register into lane `dst` of another. One that does not
fit into its byte cannot be written down at all. -/
def laneSelector (src dst : Nat) : Except Fault UInt8 :=
  let selector := 64 * src + 16 * dst
  if selector < 256 then .ok (UInt8.ofNat selector)
  else .error (.assembly "Invalid signed immediate")

/-- The instructions that fill lane `lane` of a vector register. -/
def fillLane (d : Reg) (lane : Nat) : LaneSource → List (Except Fault Instr)
  | .keep => []
  | .lane r k =>
    [do
      let s ← vectorReg r
      return .shuffle .insertps d s (← laneSelector k lane)]
  | .guest s => withSlot s fun m => [.ok (.insertMem d m (UInt8.ofNat (16 * lane)))]
  | .value w =>
    if w = 0 then [.ok (.shuffle .insertps d d (UInt8.ofNat (16 * lane + twoTo lane)))]
    else
      [.ok (.movImm rax w), .ok (.movdTo resultScratch rax),
       .ok (.shuffle .insertps d resultScratch (UInt8.ofNat (16 * lane)))]

/-- The instructions of an action, in order; one that needs a register or a lane that does not
exist, or a slot too far away, is a fault in its place. -/
def spell : Action → List (Except Fault Instr)
  | .load r s lanes =>
    withSlot s fun m =>
      if isVector r then
        withReg (vectorReg r) fun x => [if lanes = 4 then .loadVector x m else .loadLane x m]
      else withReg (integerReg r) fun x => [.load x m]
  | .store r s lane count =>
    withSlot s fun m =>
      if isVector r then
        withReg (vectorReg r) fun x =>
          [if count = 4 then .storeVector m x
           else if lane = 0 then .storeLane m x
           else .extract m x (UInt8.ofNat lane)]
      else withReg (integerReg r) fun x => [.store .word m x]
  | .setValue r w =>
    if isVector r then withReg (vectorReg r) fun x => moveVectorConst x w
    else withReg (integerReg r) fun x => [moveConst x w]
  | .storeValue s w => withSlot s fun m => [.ok (.storeImm .word m w)]
  | .addBase r =>
    withReg (integerReg r) fun x => [.mov false x x, .alu .add true x memoryBase]
  | .removeBase r => withReg (integerReg r) fun x => [.alu .sub true x memoryBase]
  | .move d s =>
    match isVector d, isVector s with
    | false, false => withRegs (integerReg d) (integerReg s) fun d s => [.mov false d s]
    | true, true => withRegs (vectorReg d) (vectorReg s) fun d s => [.sse .movaps d s]
    | true, false => withRegs (vectorReg d) (integerReg s) fun d s => [.movdTo d s]
    | false, true => withRegs (integerReg d) (vectorReg s) fun d s => [.movdFrom d s]
  | .extract d s lane =>
    withRegs (vectorReg d) (vectorReg s) fun d s => [.shuffle .pshufd d s (UInt8.ofNat lane)]
  | .compose d sources =>
    match vectorReg d with
    | .error e => [.error e]
    | .ok x => sources.toList.zipIdx.flatMap fun (source, lane) => fillLane x lane source

/-- Lay down instructions up to the first fault. -/
def Assembler.pushUntil (a : Assembler) :
    List (Except Fault Instr) → Assembler × Except Fault Unit
  | [] => (a, .ok ())
  | .error e :: _ => (a, .error e)
  | .ok i :: rest => (a.push i).pushUntil rest

/-- Lay down the instructions of an action. -/
def Assembler.perform (a : Assembler) (action : Action) : Assembler × Except Fault Unit :=
  a.pushUntil (spell action)

/-- Lay down the instructions of actions. -/
def Assembler.performAll (a : Assembler) (actions : Array Action) : Except Fault Assembler :=
  actions.foldlM (fun a action =>
    match a.perform action with
    | (a, .ok ()) => .ok a
    | (_, .error e) => .error e) a

end Dynarec.Amd64
