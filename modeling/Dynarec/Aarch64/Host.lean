/-
AArch64 as a host of the register engine.

Registers 0 to 31 are the integer registers and 32 to 63 the vector registers. Inside a block X27
points at the guest state and X28 at guest memory; W16, W17 and V0 to V3 are scratch and never
handed out, nor are the frame pointer, the return address and the stack pointer. Registers that a
call keeps come first. With static bindings, W19 to W24 hold the guest's stack pointer, its
argument registers and its return address. A call keeps only the lower half of V8 to V15, so a
group of four lanes does not survive there.

Guest registers are words at fixed offsets from X27. A group is loaded and stored at once; a single
lane other than the lowest is copied into V3 before it is stored.

This is `Arm64Target`, an instance of `NativeTarget`.
-/
import Dynarec.Aarch64.Assembler
import Dynarec.Guest.Layout
import Dynarec.Registers.Host

set_option autoImplicit false

namespace Dynarec.Aarch64

open Dynarec.Registers (Action Bank Binding Host HostReg LaneSource)

/-! ## Register roles -/

/-- The pointer to the guest state. -/
def stateBase : Reg := 27

/-- The pointer to guest memory. -/
def memoryBase : Reg := 28

/-- Scratch for addresses. -/
def scratch1 : Reg := 16

/-- Scratch for values. -/
def scratch2 : Reg := 17

/-- Vector scratch for shuffles. -/
def vectorScratch : Reg := 0

/-- Vector scratch for single lanes. -/
def laneScratch : Reg := 3

/-- The number of integer registers. -/
def gprCount : Nat := 32

/-- The number of vector registers. -/
def fprCount : Nat := 32

/-! ## The description -/

/-- The engine's number of a vector register. -/
def vectorNumber (v : Nat) : HostReg := gprCount + v

/-- The register is a vector register, or none. -/
def isVector (r : HostReg) : Bool := gprCount ≤ r

/-- The integer registers in the order in which they are handed out. -/
def gprOrder : List HostReg :=
  [19, 20, 21, 22, 23, 24, 25, 26, 0, 1, 2, 3, 4, 5, 6, 7, 8, 9, 10, 11, 12, 13, 14, 15]

/-- The vector registers in the order in which they are handed out. -/
def fprOrder : List HostReg :=
  [8, 9, 10, 11, 12, 13, 14, 15, 16, 17, 18, 19, 20, 21, 22, 23, 24, 25, 26, 27, 28, 29, 30, 31, 4,
   5, 6, 7].map vectorNumber

/-- The static bindings. -/
def bindings : List Binding :=
  [{ slot := 29, reg := 19, pointer := true }, { slot := 2, reg := 20, pointer := false },
   { slot := 3, reg := 21, pointer := false }, { slot := 4, reg := 22, pointer := false },
   { slot := 5, reg := 23, pointer := false }, { slot := 31, reg := 24, pointer := false }]

/-- A call may change the register. -/
def isCallerSaved (r : HostReg) : Bool :=
  if isVector r then !(8 ≤ r - gprCount && r - gprCount ≤ 15) else r ≤ 18 || r = 30

/-- The name of a register. -/
def regName (r : HostReg) : String :=
  if r < 31 then s!"w{r}"
  else if r = 31 then "wzr"
  else if r < gprCount + fprCount then s!"v{r - gprCount}"
  else "?"

/-- The host. -/
def host : Host where
  gprs := gprCount
  fprs := fprCount
  order
    | .gpr, false => gprOrder
    | .gpr, true => gprOrder.drop 6
    | .fpr, _ => fprOrder
  statics := bindings
  callerSaved := isCallerSaved
  preservesVector r := !isVector r
  regName := regName

/-! ## Actions -/

/-- The hardware number of an integer register. -/
def integerReg (r : HostReg) : Except Fault Reg :=
  if r < gprCount then .ok (UInt8.ofNat r) else violate (.notIntegerRegister r)

/-- The hardware number of a vector register. -/
def vectorReg (r : HostReg) : Except Fault Reg :=
  if gprCount ≤ r ∧ r < gprCount + fprCount then .ok (UInt8.ofNat (r - gprCount))
  else violate (.notVectorRegister r)

/-- Whether a call may change a register that exists. -/
def callerSaved? (r : HostReg) : Except Fault Bool := do
  if isVector r then discard (vectorReg r)
  return isCallerSaved r

/-- A sequence, or its fault in its place. -/
def spread : Sequence → List (Except Fault Instr)
  | .ok is => is.map .ok
  | .error e => [.error e]

/-- Instructions that need the hardware number of a register. -/
def withReg (r : Except Fault Reg) (f : Reg → List (Except Fault Instr)) :
    List (Except Fault Instr) :=
  match r with
  | .ok r => f r
  | .error e => [.error e]

/-- Instructions that need the offset of a slot. -/
def withSlot (s : Slot) (f : Word → List (Except Fault Instr)) : List (Except Fault Instr) :=
  match Guest.Layout.slotOffset s with
  | .ok offset => f offset
  | .error e => [.error e]

/-- Access the guest state at an offset. -/
def accessState (op : MemOp) (rt : Reg) (offset : Word) : List (Except Fault Instr) :=
  spread (accessAt op rt stateBase offset scratch1)

/-- The instructions that fill lane `lane` of a vector register. -/
def fillLane (d : Reg) (lane : UInt8) : LaneSource → List (Except Fault Instr)
  | .keep => []
  | .lane r k => withReg (vectorReg r) fun v => [.ok (.putLane d lane v (UInt8.ofNat k))]
  | .guest s =>
    withSlot s fun offset =>
      accessState .ldrS laneScratch offset ++ [.ok (.putLane d lane laneScratch 0)]
  | .value w =>
    if w = 0 then [.ok (.putInt d lane zr)]
    else spread (moveConst scratch1 w) ++ [.ok (.putInt d lane scratch1)]

/-- The instructions of an action, in order; one that needs a register that does not exist, or a
slot too far away, is a fault in its place. -/
def spell : Action → List (Except Fault Instr)
  | .load r s lanes =>
    withSlot s fun offset =>
      if isVector r then
        withReg (vectorReg r) fun v => accessState (if lanes = 4 then .ldrQ else .ldrS) v offset
      else accessState .ldrW (UInt8.ofNat r) offset
  | .store r s lane count =>
    withSlot s fun offset =>
      if !isVector r then accessState .strW (UInt8.ofNat r) offset
      else
        withReg (vectorReg r) fun v =>
          if count = 4 then accessState .strQ v offset
          else if lane = 0 then accessState .strS v offset
          else
            .ok (.takeLane laneScratch v (UInt8.ofNat lane)) :: accessState .strS laneScratch offset
  | .setValue r w =>
    if isVector r then
      spread (moveConst scratch1 w)
        ++ withReg (vectorReg r) fun v => [.ok (.fpFromInt v scratch1)]
    else spread (moveConst (UInt8.ofNat r) w)
  | .storeValue s w =>
    withSlot s fun offset =>
      if w = 0 then accessState .strW zr offset
      else spread (moveConst scratch2 w) ++ accessState .strW scratch2 offset
  | .addBase r => withReg (integerReg r) fun x => [.ok (.addLow x memoryBase x)]
  | .removeBase r => withReg (integerReg r) fun x => [.ok (.add .sub true x x memoryBase)]
  | .move d s =>
    match isVector d, isVector s with
    | false, false => [.ok (.mov false (UInt8.ofNat d) (UInt8.ofNat s))]
    | true, false => withReg (vectorReg d) fun v => [.ok (.fpFromInt v (UInt8.ofNat s))]
    | false, true => withReg (vectorReg s) fun v => [.ok (.fpToInt (UInt8.ofNat d) v)]
    | true, true =>
      [do
        let d ← vectorReg d
        let s ← vectorReg s
        return .vecMov d s]
  | .extract d s lane =>
    [do
      let d ← vectorReg d
      let s ← vectorReg s
      return .takeLane d s (UInt8.ofNat lane)]
  | .compose d sources =>
    match vectorReg d with
    | .error e => [.error e]
    | .ok v =>
      sources.toList.zipIdx.flatMap fun (source, lane) => fillLane v (UInt8.ofNat lane) source

/-- Lay down instructions up to the first fault. -/
def Assembler.pushUntil (a : Assembler) :
    List (Except Fault Instr) → Assembler × Except Fault Unit
  | [] => (a, .ok ())
  | .error e :: _ => (a, .error e)
  | .ok i :: rest =>
    match a.push i with
    | .error e => (a, .error e)
    | .ok a => a.pushUntil rest

/-- Lay down the instructions of an action. -/
def Assembler.perform (a : Assembler) (action : Action) : Assembler × Except Fault Unit :=
  a.pushUntil (spell action)

/-- Lay down the instructions of actions. -/
def Assembler.performAll (a : Assembler) (actions : Array Action) : Except Fault Assembler :=
  actions.foldlM (fun a action =>
    match a.perform action with
    | (a, .ok ()) => .ok a
    | (_, .error e) => .error e) a

end Dynarec.Aarch64
