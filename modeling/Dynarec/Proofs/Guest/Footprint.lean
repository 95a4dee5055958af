/-
The footprint of an instruction: the signature table against the meaning of each opcode.

Optimiser, lookahead and register engine never look at what an instruction does; they ask
`readSlots` and `writeSlots`, which come from the signature of its opcode. This file proves that the
two lists bound the instruction's behaviour. The argument runs over the effect, not over the
machine:

* `effect_congr`: the effect is a function of the slots in `readSlots`, the control words and the
  memory;
* `effect_within`: the slots that the effect lists are those of `writeSlots`, and a control word or
  the memory changes only under the opcodes made for it.

Carrying out an effect is the same for all opcodes, so what one step does (`step_frame`,
`step_congr`, `step_transfer`) follows without another look at the table.

A slot of `writeSlots` need not be written: a conditional move may leave it, and so may a linked
load or a conditional store into slot zero. `Effect.Within.covers` says that such a slot is read or
is slot zero. Nor is it written by an instruction that faults, so two machines that agree on
everything read may still differ there afterwards (`written_slots_differ_after_fault`).
-/
import Dynarec.Guest.Step

set_option autoImplicit false
set_option maxRecDepth 2048

namespace Dynarec

/-- The opcodes that store to memory. -/
def Opcode.isStore : Opcode → Bool
  | .store8 | .store16 | .store32 | .store32Left | .store32Right | .store32Conditional
  | .storeFloat | .storeVec4 => true
  | _ => false

/-! ## Operands in their own range

Float fields can name slots past the float registers, even past the register file, and integer
fields can name float slots. Optimisations are only meant for instructions that do neither. -/

/-- The registers that a field names are of the class that the field is for. -/
def OperandKind.fits (kind : OperandKind) (value : UInt8) : Bool :=
  match kind with
  | .gpr => Slot.isInteger value.toNat
  | .fpr => Slot.ofFloat value < Slot.floatEnd
  | .vec4 => Slot.ofFloat value + 4 ≤ Slot.floatEnd
  | .unused | .const | .imm | .vfpuCtrl => true

/-- All three fields name registers of their own class. -/
def Inst.fits (i : Inst) : Bool := i.operands.all fun p => p.1.fits p.2

theorem OperandKind.slot_lt {kind : OperandKind} {value : UInt8} {k : Slot}
    (h : kind.fits value = true) (hk : k ∈ kind.slots value) : k < 256 := by
  cases kind with
  | gpr =>
    rw [List.mem_singleton.mp hk]
    exact value.toNat_lt
  | fpr =>
    rw [List.mem_singleton.mp hk]
    have hlt : Slot.ofFloat value < 208 := of_decide_eq_true h
    exact Nat.lt_trans hlt (by decide)
  | vec4 =>
    have hlt : Slot.ofFloat value + 4 ≤ 208 := of_decide_eq_true h
    simp only [OperandKind.slots, List.mem_cons, List.not_mem_nil, or_false] at hk
    unfold Slot at *
    omega
  | vfpuCtrl =>
    rw [List.mem_singleton.mp hk]
    have hle : (value &&& 15).toNat ≤ 15 := by
      rw [UInt8.toNat_and]
      exact Nat.and_le_right
    exact Nat.lt_of_le_of_lt (Nat.add_le_add_left hle 208) (by decide)
  | unused | const | imm => exact absurd hk List.not_mem_nil

theorem Opcode.implicit_lt (op : Opcode) {k : Slot}
    (hk : k ∈ op.signature.implicitReads ∨ k ∈ op.signature.implicitWrites) : k < 256 := by
  have hall : ∀ j ∈ op.signature.implicitReads ++ op.signature.implicitWrites, j < 256 := by
    cases op <;> decide
  exact hall k (List.mem_append.mpr hk)

namespace Inst

variable {i : Inst} {k : Slot}

theorem fits_iff : i.fits = true ↔ i.op.signature.dest.fits i.dest = true
    ∧ i.op.signature.src1.fits i.src1 = true ∧ i.op.signature.src2.fits i.src2 = true := by
  simp only [fits, operands, List.all_cons, List.all_nil, Bool.and_true, Bool.and_eq_true]

theorem readSlot_lt (h : i.fits = true) (hk : k ∈ i.readSlots) : k < 256 := by
  obtain ⟨hdest, hsrc1, hsrc2⟩ := fits_iff.mp h
  simp only [readSlots, List.mem_append] at hk
  rcases hk with ((hk | hk) | hk) | hk
  · exact OperandKind.slot_lt hsrc1 hk
  · exact OperandKind.slot_lt hsrc2 hk
  · split at hk
    · exact absurd hk List.not_mem_nil
    · exact OperandKind.slot_lt hdest hk
  · exact i.op.implicit_lt (Or.inl hk)

theorem writeSlot_lt (h : i.fits = true) (hk : k ∈ i.writeSlots) : k < 256 := by
  obtain ⟨hdest, -, -⟩ := fits_iff.mp h
  simp only [writeSlots, List.mem_append] at hk
  rcases hk with hk | hk
  · split at hk
    · exact absurd hk List.not_mem_nil
    · exact OperandKind.slot_lt hdest hk
  · exact i.op.implicit_lt (Or.inr hk)

end Inst

namespace Guest

/-! ## Slots of a state -/

namespace State

/-- An integer operand is a slot. -/
theorem reg_eq_slot (s : State) (r : UInt8) : s.reg r = s.slot r.toNat := by
  have h : r.toNat < 256 := r.toNat_lt
  rw [State.slot, Vector.getElem?_eq_getElem h]
  rfl

/-- A checked read is an unchecked one inside the register file. -/
theorem slot?_eq (s : State) (n : Slot) :
    s.slot? n = if n < 256 then .ok (s.slot n) else .error .outOfBounds := by
  unfold State.slot? State.slot
  by_cases h : n < 256
  · rw [Vector.getElem?_eq_getElem h, if_pos h]
    rfl
  · rw [Vector.getElem?_eq_none (Nat.le_of_not_lt h), if_neg h]

theorem float_eq {s : State} {f : UInt8} (h : Slot.ofFloat f < 256) :
    s.float f = .ok (s.slot (Slot.ofFloat f)) := by
  rw [float, slot?_eq, if_pos h]

/-- Past the register file there is nothing. -/
theorem slot_of_ge (s : State) {n : Slot} (h : 256 ≤ n) : s.slot n = 0 := by
  rw [State.slot, Vector.getElem?_eq_none h]
  rfl

theorem slot_setSlot (s : State) (n k : Slot) (w : Word) :
    (s.setSlot n w).slot k = if k = n ∧ n < 256 then w else s.slot k := by
  unfold State.setSlot State.slot
  by_cases hkn : k = n
  · subst hkn
    by_cases hk : k < 256
    · rw [Vector.getElem?_setIfInBounds_self_of_lt hk, if_pos ⟨rfl, hk⟩]
      rfl
    · rw [Vector.getElem?_eq_none (Nat.le_of_not_lt hk),
        Vector.getElem?_eq_none (Nat.le_of_not_lt hk), if_neg (fun h => hk h.2)]
  · rw [Vector.getElem?_setIfInBounds_ne (Ne.symm hkn), if_neg (fun h => hkn h.1)]

theorem slot_setSlot_ne (s : State) {n k : Slot} (w : Word) (h : k ≠ n) :
    (s.setSlot n w).slot k = s.slot k := by
  rw [slot_setSlot, if_neg (fun hk => h hk.1)]

theorem setSlots_cons (s : State) (p : Slot × Word) (l : List (Slot × Word)) :
    s.setSlots (p :: l) = (s.setSlot p.1 p.2).setSlots l := rfl

/-- Writing slots leaves the control words alone. -/
theorem setSlots_control (l : List (Slot × Word)) (s : State) :
    (s.setSlots l).pc = s.pc ∧ (s.setSlots l).downcount = s.downcount
      ∧ (s.setSlots l).syscall = s.syscall := by
  induction l generalizing s with
  | nil => exact ⟨rfl, rfl, rfl⟩
  | cons p l ih =>
    rw [setSlots_cons]
    exact ih (s.setSlot p.1 p.2)

theorem slot_setSlots_of_not_mem (l : List (Slot × Word)) (s : State) {k : Slot}
    (h : k ∉ l.map Prod.fst) : (s.setSlots l).slot k = s.slot k := by
  induction l generalizing s with
  | nil => rfl
  | cons p l ih =>
    rw [List.map_cons, List.mem_cons, not_or] at h
    rw [setSlots_cons, ih _ h.2, slot_setSlot_ne _ _ h.1]

/-- What is written does not depend on what was there. -/
theorem slot_setSlots_of_mem (l : List (Slot × Word)) (s t : State) {k : Slot}
    (h : k ∈ l.map Prod.fst) : (s.setSlots l).slot k = (t.setSlots l).slot k := by
  induction l generalizing s t with
  | nil => exact absurd h List.not_mem_nil
  | cons p l ih =>
    rw [setSlots_cons, setSlots_cons]
    by_cases hl : k ∈ l.map Prod.fst
    · exact ih _ _ hl
    · rw [List.map_cons, List.mem_cons] at h
      obtain rfl : k = p.1 := h.resolve_right hl
      rw [slot_setSlots_of_not_mem _ _ hl, slot_setSlots_of_not_mem _ _ hl, slot_setSlot,
        slot_setSlot]
      split
      · rfl
      · -- the write is past the register file and did nothing
        rename_i hp
        have hge : 256 ≤ p.1 := by simpa using hp
        rw [slot_of_ge _ hge, slot_of_ge _ hge]

/-- States with the same slots and control words are the same. -/
theorem ext_slots {s t : State} (h : ∀ k, s.slot k = t.slot k) (hpc : s.pc = t.pc)
    (hd : s.downcount = t.downcount) (hs : s.syscall = t.syscall) : s = t := by
  obtain ⟨regs, pc, downcount, syscall⟩ := s
  obtain ⟨regs', pc', downcount', syscall'⟩ := t
  have hregs : regs = regs' := by
    refine Vector.ext fun k hk => ?_
    have hkk := h k
    simpa only [State.slot, Vector.getElem?_eq_getElem hk, Option.getD_some] using hkk
  simp only at hpc hd hs
  rw [hregs, hpc, hd, hs]

/-- Writing back what is there. -/
theorem setSlot_slot (s : State) (k : Slot) : s.setSlot k (s.slot k) = s := by
  refine ext_slots (fun j => ?_) rfl rfl rfl
  rw [slot_setSlot]
  split
  · rename_i h
    rw [h.1]
  · rfl

end State

/-- The machine with a word in an integer slot given by its byte. -/
def Machine.setReg (m : Machine) (r : UInt8) (w : Word) : Machine :=
  { m with state := m.state.setSlot r.toNat w }

/-- The machine with a word in a float register. -/
def Machine.setFloat (m : Machine) (f : UInt8) (w : Word) : Machine :=
  { m with state := m.state.setSlot (Slot.ofFloat f) w }

theorem Machine.slot_setReg (m : Machine) (r q : UInt8) (w : Word) :
    (m.setReg r w).state.slot q.toNat = if q = r then w else m.state.slot q.toNat := by
  rw [setReg, State.slot_setSlot]
  by_cases h : q = r
  · rw [if_pos ⟨congrArg UInt8.toNat h, r.toNat_lt⟩, if_pos h]
  · rw [if_neg fun hk => h (UInt8.toNat_inj.mp hk.1), if_neg h]

theorem Machine.setReg_slot (m : Machine) (r : UInt8) :
    m.setReg r (m.state.slot r.toNat) = m := by
  rw [setReg, State.setSlot_slot]

/-! ## What an effect depends on -/

/-- Two machines agree on some slots, on the control words and on the whole memory. -/
structure Agree (slots : List Slot) (m n : Machine) : Prop where
  slot : ∀ k ∈ slots, m.state.slot k = n.state.slot k
  pc : m.state.pc = n.state.pc
  downcount : m.state.downcount = n.state.downcount
  syscall : m.state.syscall = n.state.syscall
  memory : m.memory = n.memory

theorem Agree.mono {slots slots' : List Slot} {m n : Machine} (h : Agree slots m n)
    (hs : ∀ k ∈ slots', k ∈ slots) : Agree slots' m n :=
  ⟨fun k hk => h.slot k (hs k hk), h.pc, h.downcount, h.syscall, h.memory⟩

/-- Another word in a slot outside the list. -/
theorem Agree.setSlot {slots : List Slot} (m : Machine) {k : Slot} (w : Word) (h : k ∉ slots) :
    Agree slots m { m with state := m.state.setSlot k w } := by
  refine ⟨fun j hj => (State.slot_setSlot_ne m.state w ?_).symm, rfl, rfl, rfl, rfl⟩
  rintro rfl
  exact h hj

/-- **An effect is a function of what is read.** The case split is over the opcode; in each case
the hypothesis becomes one equation for every register that the opcode reads. -/
theorem effect_congr (i : Inst) (c : Word) {m n : Machine} (h : Agree i.readSlots m n) :
    effect i c m = effect i c n := by
  obtain ⟨hslot, hpc, hdown, -, hmem⟩ := h
  obtain ⟨op, dest, src1, src2⟩ := i
  cases op <;>
    simp only [Inst.readSlots, Opcode.signature, OperandKind.slots, List.nil_append,
      List.cons_append, List.append_nil, reduceIte, reduceCtorEq, List.mem_cons, List.not_mem_nil,
      or_false, forall_eq_or_imp, forall_eq, false_imp_iff, implies_true] at hslot <;>
    simp only [effect, effectOther, Opcode.binary?, Opcode.unary?, Opcode.exitCondition?,
      secondOperand, Opcode.signature, floatUnary, floatBinary, lanesUnary, lanesBinary,
      State.float, State.lanes, State.product, State.slot?_eq, State.reg_eq_slot,
      hslot, hpc, hdown, hmem]

/-! ## What an effect lists -/

/-- An effect stays within the signature of its instruction. -/
structure Effect.Within (e : Effect) (i : Inst) : Prop where
  slots : ∀ p ∈ e.slots, p.1 ∈ i.writeSlots
  /-- What the signature calls written is written, or else was read or is slot zero. -/
  covers : ∀ k ∈ i.writeSlots, k ∈ e.slots.map Prod.fst ∨ k ∈ i.readSlots ∨ k = 0
  pc : i.op ≠ .setPC → i.op ≠ .setPCConst → e.pc = none
  downcount : i.op ≠ .downcount → e.downcount = none
  syscall : i.op ≠ .syscall → e.syscall = none
  stores : i.op.isStore = false → e.stores = []
  exit : i.isExit = false → e.exit = none

/-- The usual case: exactly the slots of the signature are written, and nothing else happens. -/
theorem Effect.within_slots {i : Inst} {l : List (Slot × Word)}
    (h : l.map Prod.fst = i.writeSlots) : ({ slots := l } : Effect).Within i where
  slots _ hp := h ▸ List.mem_map_of_mem hp
  covers _ hk := Or.inl (by rw [h]; exact hk)
  pc _ _ := rfl
  downcount _ := rfl
  syscall _ := rfl
  stores _ := rfl
  exit _ := rfl

/-- An instruction that writes no slot and stores. -/
theorem Effect.within_stores {i : Inst} {l : List (Word × List UInt8)} (h : i.writeSlots = [])
    (hs : i.op.isStore = true) : ({ stores := l } : Effect).Within i where
  slots _ hp := absurd hp List.not_mem_nil
  covers _ hk := absurd (h ▸ hk) List.not_mem_nil
  pc _ _ := rfl
  downcount _ := rfl
  syscall _ := rfl
  stores hn := absurd hs (by rw [hn]; decide)
  exit _ := rfl

/-- An instruction that writes no slot and does not store. -/
theorem Effect.within_control {i : Inst} {e : Effect} (h : i.writeSlots = []) (he : e.slots = [])
    (hm : e.stores = []) (hpc : i.op ≠ .setPC → i.op ≠ .setPCConst → e.pc = none)
    (hd : i.op ≠ .downcount → e.downcount = none) (hs : i.op ≠ .syscall → e.syscall = none)
    (hx : i.isExit = false → e.exit = none) : e.Within i where
  slots _ hp := absurd (he ▸ hp) List.not_mem_nil
  covers _ hk := absurd (h ▸ hk) List.not_mem_nil
  pc := hpc
  downcount := hd
  syscall := hs
  stores _ := hm
  exit := hx

/-- An instruction that writes no slot and may leave the block. -/
theorem Effect.within_exit {i : Inst} {target : Option Word} (h : i.writeSlots = [])
    (hx : i.isExit = true) : ({ exit := target } : Effect).Within i :=
  within_control h rfl rfl (fun _ _ => rfl) (fun _ => rfl) (fun _ => rfl)
    (fun hn => absurd hx (by rw [hn]; decide))

/-- An instruction that has left its destination alone, which it reads. -/
theorem Effect.within_unwritten {i : Inst} (h : ∀ k ∈ i.writeSlots, k ∈ i.readSlots) :
    ({} : Effect).Within i where
  slots _ hp := absurd hp List.not_mem_nil
  covers k hk := Or.inr (Or.inl (h k hk))
  pc _ _ := rfl
  downcount _ := rfl
  syscall _ := rfl
  stores _ := rfl
  exit _ := rfl

/-- Every effect that a computation may give has a property. -/
def Yields (P : Effect → Prop) (x : Except Fault Effect) : Prop := ∀ e, x = .ok e → P e

section Yields

variable {P : Effect → Prop}

theorem yields_ok {e : Effect} (h : P e) : Yields P (.ok e) :=
  fun _ he => Except.ok.inj he ▸ h

theorem yields_error {f : Fault} : Yields P (.error f) :=
  fun _ he => nomatch he

theorem yields_bind {α : Type} {x : Except Fault α} {f : α → Except Fault Effect}
    (h : ∀ a, Yields P (f a)) : Yields P (x >>= f) := by
  cases x with
  | error g => exact yields_error
  | ok a => exact h a

theorem yields_float {f : UInt8} {w : Word} (h : P { slots := [(Slot.ofFloat f, w)] }) :
    Yields P (Effect.float f w) := by
  simp only [Effect.float]
  split
  · exact yields_ok h
  · exact yields_error

theorem yields_lanes {f : UInt8} {v : Lanes}
    (h : P { slots := [(Slot.ofFloat f, v.get 0), (Slot.ofFloat f + 1, v.get 1),
      (Slot.ofFloat f + 2, v.get 2), (Slot.ofFloat f + 3, v.get 3)] }) :
    Yields P (Effect.lanes f v) := by
  simp only [Effect.lanes]
  split
  · exact yields_ok h
  · exact yields_error

end Yields

/-- **An effect stays within the signature.** One group of opcodes for each shape of effect; only
the conditional moves, the linked load and the conditional store have a shape of their own. -/
theorem effect_within (i : Inst) (c : Word) (m : Machine) :
    Yields (·.Within i) (effect i c m) := by
  obtain ⟨op, dest, src1, src2⟩ := i
  cases op
  case nop => exact yields_error
  -- an integer result, the product register, or a control register
  case mov | setConst | add | sub | neg | not | and | or | xor | addConst | subConst | andConst
    | orConst | xorConst | ext8to32 | ext16to32 | bSwap16 | bSwap32 | clz | reverseBits | shl | shr
    | sar | ror | shlImm | shrImm | sarImm | rorImm | slt | sltConst | sltU | sltUConst | max | min
    | mtLo | mtHi | mfLo | mfHi | mult | multU | madd | maddU | msub | msubU | div | divU
    | fpCondFromReg | fpCondToReg | setCtrlVFPU | setCtrlVFPUReg =>
    exact yields_ok (Effect.within_slots rfl)
  case load8 | load8Ext | load16 | load16Ext | load32 | load32Left | load32Right | fMovToGPR =>
    exact yields_bind fun _ => yields_ok (Effect.within_slots rfl)
  case fCmp => exact yields_bind fun _ => yields_bind fun _ => yields_ok (Effect.within_slots rfl)
  -- a float result
  case setConstF | fMovFromGPR => exact yields_float (Effect.within_slots rfl)
  case loadFloat | fSqrt | fNeg | fAbs | fMov | fRound | fTrunc | fCeil | fFloor | fCvtWS
    | fCvtSW =>
    exact yields_bind fun _ => yields_float (Effect.within_slots rfl)
  case fAdd | fSub | fMul | fDiv | fMin | fMax | vec4Dot =>
    exact yields_bind fun _ => yields_bind fun _ => yields_float (Effect.within_slots rfl)
  -- four lanes
  case vec4Init => exact yields_lanes (Effect.within_slots rfl)
  case vec4Shuffle | vec4Mov | vec4Neg | vec4Abs | vec4ClampToZero =>
    exact yields_bind fun _ => yields_lanes (Effect.within_slots rfl)
  case vec4Blend | vec4Add | vec4Sub | vec4Mul | vec4Div | vec4Scale =>
    exact yields_bind fun _ => yields_bind fun _ => yields_lanes (Effect.within_slots rfl)
  case loadVec4 =>
    exact yields_bind fun _ => yields_bind fun _ => yields_bind fun _ => yields_bind fun _ =>
      yields_lanes (Effect.within_slots rfl)
  -- memory
  case store8 | store16 | store32 => exact yields_ok (Effect.within_stores rfl rfl)
  case store32Left | store32Right | storeFloat | storeVec4 =>
    exact yields_bind fun _ => yields_ok (Effect.within_stores rfl rfl)
  -- control words and exits
  case setPC =>
    exact yields_ok (Effect.within_control rfl rfl rfl (fun h _ => absurd rfl h) (fun _ => rfl)
      (fun _ => rfl) (fun _ => rfl))
  case setPCConst =>
    exact yields_ok (Effect.within_control rfl rfl rfl (fun _ h => absurd rfl h) (fun _ => rfl)
      (fun _ => rfl) (fun _ => rfl))
  case downcount =>
    exact yields_ok (Effect.within_control rfl rfl rfl (fun _ _ => rfl) (fun h => absurd rfl h)
      (fun _ => rfl) (fun _ => rfl))
  case syscall =>
    exact yields_ok (Effect.within_control rfl rfl rfl (fun _ _ => rfl) (fun _ => rfl)
      (fun h => absurd rfl h) (fun h => nomatch h))
  case exitToConst | exitToReg | exitToPC => exact yields_ok (Effect.within_exit rfl rfl)
  case exitToConstIfEq | exitToConstIfNeq | exitToConstIfGtZ | exitToConstIfGeZ
    | exitToConstIfLtZ | exitToConstIfLeZ =>
    refine yields_ok ?_
    split
    · exact Effect.within_exit rfl rfl
    · exact Effect.within_exit rfl rfl
  -- the destination of a conditional move is its third source
  case movZ | movNZ =>
    have hread : ∀ k ∈ [dest.toNat], k ∈ [src1.toNat, src2.toNat, dest.toNat] := by
      simp only [List.mem_cons, List.not_mem_nil, or_false, forall_eq, or_true]
    refine yields_ok ?_
    split
    · first | exact Effect.within_slots rfl | exact Effect.within_unwritten hread
    · first | exact Effect.within_slots rfl | exact Effect.within_unwritten hread
  case load32Linked =>
    refine yields_bind fun w => yields_ok ?_
    by_cases hd : dest = 0
    · subst hd
      refine ⟨fun p hp => ?_, fun k hk => ?_, fun _ _ => rfl, fun _ => rfl, fun _ => rfl,
        fun _ => rfl, fun _ => rfl⟩
      · rw [List.mem_singleton.mp hp]
        exact List.mem_cons_of_mem _ (List.mem_singleton.mpr rfl)
      · rcases List.mem_cons.mp hk with rfl | hk
        · exact Or.inr (Or.inr rfl)
        · exact Or.inl hk
    · rw [if_neg hd]
      exact Effect.within_slots rfl
  case store32Conditional =>
    refine yields_ok ⟨?_, ?_, fun _ _ => rfl, fun _ => rfl, fun _ => rfl, (fun h => nomatch h),
      fun _ => rfl⟩
    · intro p hp
      dsimp only at hp
      split at hp
      · exact absurd hp List.not_mem_nil
      · rw [List.mem_singleton.mp hp]
        exact List.mem_singleton.mpr rfl
    · intro k hk
      rw [List.mem_singleton.mp hk]
      exact Or.inr (Or.inl (by simp [Inst.readSlots, Opcode.signature, OperandKind.slots]))

/-! ## Carrying out an effect -/

/-- What an instruction leaves alone. -/
structure Frame (i : Inst) (m m' : Machine) : Prop where
  slot : ∀ k, k ∉ i.writeSlots → m'.state.slot k = m.state.slot k
  pc : i.op ≠ .setPC → i.op ≠ .setPCConst → m'.state.pc = m.state.pc
  downcount : i.op ≠ .downcount → m'.state.downcount = m.state.downcount
  syscall : i.op ≠ .syscall → m'.state.syscall = m.state.syscall
  memory : i.op.isStore = false → m'.memory = m.memory

theorem Effect.slot_onState_of_not_mem (e : Effect) (s : State) {k : Slot}
    (h : k ∉ e.slots.map Prod.fst) : (e.onState s).slot k = s.slot k :=
  State.slot_setSlots_of_not_mem e.slots s h

theorem Effect.slot_onState_of_mem (e : Effect) (s t : State) {k : Slot}
    (h : k ∈ e.slots.map Prod.fst) : (e.onState s).slot k = (e.onState t).slot k :=
  State.slot_setSlots_of_mem e.slots s t h

theorem Effect.onState_pc (e : Effect) (s : State) : (e.onState s).pc = e.pc.getD s.pc := by
  simp only [Effect.onState, (State.setSlots_control e.slots s).1]

theorem Effect.onState_downcount (e : Effect) (s : State) :
    (e.onState s).downcount = e.downcount.getD s.downcount := by
  simp only [Effect.onState, (State.setSlots_control e.slots s).2.1]

theorem Effect.onState_syscall (e : Effect) (s : State) :
    (e.onState s).syscall = e.syscall.getD s.syscall := by
  simp only [Effect.onState, (State.setSlots_control e.slots s).2.2]

/-- An effect that is carried out has done all its stores. -/
theorem Effect.apply_eq_ok {e : Effect} {m m' : Machine} {t : Option Word}
    (h : e.apply m = (.ok t, m')) :
    t = e.exit ∧ m'.state = e.onState m.state
      ∧ storeAll e.stores m.memory = (.ok (), m'.memory) := by
  unfold Effect.apply at h
  split at h
  · rename_i memory hs
    obtain ⟨rfl, rfl⟩ := Prod.mk.inj h |>.imp (fun h => (Except.ok.inj h).symm) Eq.symm
    exact ⟨rfl, rfl, hs⟩
  · exact absurd (Prod.mk.inj h).1 (by simp)

/-- An effect that faults has only touched memory. -/
theorem Effect.apply_eq_error {e : Effect} {m m' : Machine} {f : Fault}
    (h : e.apply m = (.error f, m')) :
    m'.state = m.state ∧ storeAll e.stores m.memory = (.error f, m'.memory) := by
  unfold Effect.apply at h
  split at h
  · exact absurd (Prod.mk.inj h).1 (by simp)
  · rename_i g memory hs
    obtain ⟨hg, rfl⟩ := Prod.mk.inj h
    cases hg
    exact ⟨rfl, hs⟩

/-! ## One step -/

variable {i : Inst} {c : Word} {m n m' : Machine} {t : Option Word} {f : Fault}

/-- A step that succeeds carries out its effect. -/
theorem step_eq_ok (h : step i c m = (.ok t, m')) :
    ∃ e, effect i c m = .ok e ∧ t = e.exit ∧ m'.state = e.onState m.state
      ∧ storeAll e.stores m.memory = (.ok (), m'.memory) := by
  unfold step at h
  split at h
  · rename_i e he
    exact ⟨e, he, Effect.apply_eq_ok h⟩
  · exact absurd (Prod.mk.inj h).1 (by simp)

/-- A step whose only effect is a word in an integer slot. -/
theorem step_gpr {r : UInt8} {w : Word} (h : effect i c m = .ok (Effect.gpr r w)) :
    step i c m = (.ok none, m.setReg r w) := by
  rw [step, h]
  rfl

/-- A step whose only effect is a word in a float register of the file. -/
theorem step_float {w : Word} (hd : Slot.ofFloat i.dest < 256)
    (h : effect i c m = Effect.float i.dest w) : step i c m = (.ok none, m.setFloat i.dest w) := by
  have hok : Effect.float i.dest w = .ok { slots := [(Slot.ofFloat i.dest, w)] } := if_pos hd
  rw [step, h, hok]
  rfl

/-- A step with a result from two integer operands. -/
theorem step_binary {f : Word → Word → Word} (h : i.op.binary? = some f) (c : Word) (m : Machine) :
    step i c m = (.ok none,
      m.setReg i.dest (f (m.state.reg i.src1) (secondOperand i c m.state))) :=
  step_gpr (by rw [effect, h])

/-- A step with a result from one integer operand. -/
theorem step_unary {f : Word → Word} (h : i.op.binary? = none) (h' : i.op.unary? = some f)
    (c : Word) (m : Machine) :
    step i c m = (.ok none, m.setReg i.dest (f (m.state.reg i.src1))) :=
  step_gpr (by rw [effect, h, h'])

/-- Only an instruction with the exit flag leaves the block. -/
theorem step_exit (hx : i.isExit = false) (h : step i c m = (.ok t, m')) : t = none := by
  obtain ⟨e, he, rfl, -, -⟩ := step_eq_ok h
  exact (effect_within i c m e he).exit hx

/-- A step that fails leaves every register and control word as it was. -/
theorem step_error_state (h : step i c m = (.error f, m')) : m'.state = m.state := by
  unfold step at h
  split at h
  · exact (Effect.apply_eq_error h).1
  · rw [← (Prod.mk.inj h).2]

/-- **The frame of a step.** A step that succeeds changes only the slots of `writeSlots`, and a
control word or the memory only under the opcodes made for it. -/
theorem step_frame (h : step i c m = (.ok t, m')) : Frame i m m' := by
  obtain ⟨e, he, -, hstate, hmem⟩ := step_eq_ok h
  have hw : e.Within i := effect_within i c m e he
  refine ⟨fun k hk => ?_, fun h1 h2 => ?_, fun h1 => ?_, fun h1 => ?_, fun h1 => ?_⟩
  · rw [hstate]
    refine e.slot_onState_of_not_mem _ fun hmem => ?_
    obtain ⟨p, hp, rfl⟩ := List.mem_map.mp hmem
    exact hk (hw.slots p hp)
  · rw [hstate, e.onState_pc, hw.pc h1 h2, Option.getD_none]
  · rw [hstate, e.onState_downcount, hw.downcount h1, Option.getD_none]
  · rw [hstate, e.onState_syscall, hw.syscall h1, Option.getD_none]
  · rw [hw.stores h1] at hmem
    exact (Prod.mk.inj hmem).2.symm

/-- **The dependence of a step.** A step that succeeds on one machine succeeds on every other that
agrees with it on the slots read and on slot zero: with the same outcome, memory and control words,
and with the same words in the slots written. -/
theorem step_transfer (h : Agree (0 :: i.readSlots) m n) (hm : step i c m = (.ok t, m')) :
    ∃ n', step i c n = (.ok t, n') ∧ Agree i.writeSlots m' n' := by
  obtain ⟨e, he, rfl, hstate, hmem⟩ := step_eq_ok hm
  have hw : e.Within i := effect_within i c m e he
  have he' : effect i c n = .ok e := by
    rw [← effect_congr i c (h.mono fun k hk => List.mem_cons_of_mem 0 hk), he]
  refine ⟨{ state := e.onState n.state, memory := m'.memory }, ?_, ?_, ?_, ?_, ?_, rfl⟩
  · simp only [step, he', Effect.apply, ← h.memory, hmem]
  · intro k hk
    rw [hstate]
    by_cases hl : k ∈ e.slots.map Prod.fst
    · exact e.slot_onState_of_mem _ _ hl
    · -- not written after all, so the slot was read or is slot zero
      rw [e.slot_onState_of_not_mem _ hl, e.slot_onState_of_not_mem _ hl]
      rcases (hw.covers k hk).resolve_left hl with hr | rfl
      · exact h.slot k (List.mem_cons_of_mem 0 hr)
      · exact h.slot 0 List.mem_cons_self
  · rw [hstate, e.onState_pc, e.onState_pc, h.pc]
  · rw [hstate, e.onState_downcount, e.onState_downcount, h.downcount]
  · rw [hstate, e.onState_syscall, e.onState_syscall, h.syscall]

/-- A step that fails on one machine fails in the same way on every other that agrees with it on
the slots read, and leaves the same memory. -/
theorem step_transfer_error (h : Agree i.readSlots m n) (hm : step i c m = (.error f, m')) :
    ∃ n', step i c n = (.error f, n') ∧ n'.memory = m'.memory := by
  have heq := effect_congr i c h
  unfold step at hm ⊢
  rw [← heq]
  split at hm
  · rename_i e he
    refine ⟨{ n with memory := m'.memory }, ?_, rfl⟩
    simp only [Effect.apply, ← h.memory, (Effect.apply_eq_error hm).2]
  · refine ⟨n, ?_, ?_⟩
    · rw [(Prod.mk.inj hm).1]
    · rw [← (Prod.mk.inj hm).2, h.memory]

/-- **The signature table is sound for execution.** *Frame*: an instruction that succeeds changes
only the slots of `writeSlots`, and the program counter, the downcount, the system call number and
the memory only under the opcodes made for that. *Dependence*: on machines that agree on
`readSlots`, on slot zero, on the control words and on the memory it has the same outcome and leaves
the same memory; if the outcome is no fault, the slots of `writeSlots` are the same afterwards, and
if it is one, each machine keeps its own registers. -/
theorem step_footprint (i : Inst) (c : Word) :
    (∀ m t m', step i c m = (.ok t, m') → Frame i m m') ∧
    ∀ m n, Agree (0 :: i.readSlots) m n →
      (step i c m).1 = (step i c n).1 ∧ (step i c m).2.memory = (step i c n).2.memory ∧
      (∀ t, (step i c m).1 = .ok t → ∀ k ∈ i.writeSlots,
        (step i c m).2.state.slot k = (step i c n).2.state.slot k) ∧
      ∀ f, (step i c m).1 = .error f →
        (step i c m).2.state = m.state ∧ (step i c n).2.state = n.state := by
  refine ⟨fun m t m' h => step_frame h, fun m n h => ?_⟩
  rcases hm : step i c m with ⟨f | t, m'⟩
  · obtain ⟨n', hn, hmemory⟩ :=
      step_transfer_error (h.mono fun k hk => List.mem_cons_of_mem 0 hk) hm
    rw [hn]
    exact ⟨rfl, hmemory.symm, fun t ht => (nomatch ht),
      fun _ _ => ⟨step_error_state hm, step_error_state hn⟩⟩
  · obtain ⟨n', hn, hagree⟩ := step_transfer h hm
    rw [hn]
    exact ⟨rfl, hagree.memory, fun _ _ => hagree.slot, fun f hf => nomatch hf⟩

/-- Slot 9 is not among what a multiply-add reads, so the product does not depend on it. -/
theorem step_footprint_madd :
    let i : Inst := { op := .madd, src1 := 4, src2 := 5 }
    let m : Machine := { state := ({} : State).setSlot 4 3, memory := Memory.zeroed 0 }
    let n : Machine := { m with state := m.state.setSlot 9 1 }
    Agree (0 :: i.readSlots) m n ∧
      ∀ k ∈ i.writeSlots, (step i 0 m).2.state.slot k = (step i 0 n).2.state.slot k := by
  intro i m n
  have h : Agree (0 :: i.readSlots) m n := Agree.setSlot m 1 (by decide)
  exact ⟨h, ((step_footprint i 0).2 m n h).2.2.1 none rfl⟩

/-- **Agreement on what is read is not enough for what is written when the instruction faults.** A
load outside an empty memory leaves its destination alone, and the two machines differ there. -/
theorem written_slots_differ_after_fault :
    ¬ ∀ (i : Inst) (c : Word) (m n : Machine), i.op ≠ .nop →
      (∀ k ∈ i.readSlots ++ i.writeSlots, k < Slot.count) → Agree (0 :: i.readSlots) m n →
      ∀ k ∈ i.writeSlots, (step i c m).2.state.slot k = (step i c n).2.state.slot k := by
  intro h
  have hslot := h { op := .load32, dest := 5, src1 := 4 } 0
    { state := {}, memory := Memory.zeroed 0 }
    { state := ({} : State).setSlot 5 1, memory := Memory.zeroed 0 }
    (by decide) (by decide) (Agree.setSlot _ 1 (by decide)) 5 (by decide)
  exact absurd hslot (by decide)

end Guest

end Dynarec
