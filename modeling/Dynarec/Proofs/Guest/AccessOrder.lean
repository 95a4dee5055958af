/-
One access after the other.

`step` works out what a memory instruction will do and then does it. In `interpret_single` reads,
writes and changes of registers follow each other, as they do in `access?`. Both come to the same
(`step_eq_outcome`), also where an access is refused: an instruction reads before it changes
anything, and it stores before it changes a register. What is read is compared step by step
(`carryOut_read`), and what is left after the last read is a change of the machine.
-/
import Dynarec.Guest.Access
import Dynarec.Proofs.Guest.Code

set_option autoImplicit false

namespace Dynarec.Guest

open MachineM

/-- What steps on a machine come to for an instruction that does not exit. -/
def MachineM.outcome (x : MachineM Unit) (m : Machine) : Outcome :=
  match x.run.run m with
  | (.ok (), m) => (.ok none, m)
  | (.error f, m) => (.error f, m)

/-- What an instruction comes to that has the effect, or fails to have one. -/
def carryOut (r : Except Fault Effect) (m : Machine) : Outcome :=
  match r with
  | .ok e => e.apply m
  | .error f => (.error f, m)

theorem step_eq_carryOut (i : Inst) (c : Word) (m : Machine) :
    step i c m = carryOut (effect i c m) m := rfl

/-! ## Steps on a machine -/

section

variable {α : Type} {i : Inst} {c : Word} {m : Machine}

theorem run_get (m : Machine) : (get : MachineM Machine).run.run m = (.ok m, m) := rfl

theorem run_read (f : Machine → Except Fault α) (m : Machine) :
    (MachineM.read f).run.run m = (f m, m) := by
  unfold MachineM.read
  rw [run_bind, run_get]
  dsimp only
  cases f m <;> rfl

theorem run_write (addr : Word) (data : List UInt8) (m : Machine) :
    (write addr data).run.run m =
      match m.memory.write addr data with
      | .ok memory => (.ok (), { m with memory := memory })
      | .error f => (.error f, m) := by
  unfold write
  rw [run_bind, run_read]
  cases m.memory.write addr data <;> rfl

theorem outcome_get (k : Machine → MachineM Unit) : (get >>= k).outcome m = (k m).outcome m := rfl

theorem outcome_place (k : Word × Word → MachineM Unit) :
    (place i c >>= k).outcome m
      = (k (m.state.reg i.src1 + c, m.state.reg i.dest)).outcome m := rfl

/-- A refused read ends both; otherwise both go on with what was read. -/
theorem carryOut_read {f : Machine → Except Fault α} {r : Except Fault α}
    {g : α → Except Fault Effect} {k : α → MachineM Unit} (hf : f m = r)
    (h : ∀ a, carryOut (g a) m = (k a).outcome m) :
    carryOut (r >>= g) m = (MachineM.read f >>= k).outcome m := by
  unfold outcome
  rw [run_bind, run_read, hf]
  cases r with
  | error fault => rfl
  | ok a => exact h a

/-- A refused store ends both; otherwise both go on with the memory that was written. -/
theorem carryOut_write {slots : List (Slot × Word)} {addr : Word} {data : List UInt8}
    {rest : List (Word × List UInt8)} {k : Unit → MachineM Unit}
    (h : ∀ memory, carryOut (.ok { stores := rest, slots := slots }) { m with memory := memory }
      = (k ()).outcome { m with memory := memory }) :
    carryOut (.ok { stores := (addr, data) :: rest, slots := slots }) m
      = (write addr data >>= k).outcome m := by
  unfold outcome
  rw [run_bind, run_write]
  simp only [carryOut, Effect.apply, storeAll]
  cases m.memory.write addr data with
  | error fault => rfl
  | ok memory => exact h memory

theorem carryOut_store (addr : Word) (data : List UInt8) :
    carryOut (.ok (Effect.store addr data)) m = (write addr data).outcome m := by
  rw [← bind_pure (write addr data)]
  exact carryOut_write fun _ => rfl

theorem carryOut_float (f : UInt8) (w : Word) :
    carryOut (Effect.float f w) m = (putFloat f w).outcome m := by
  unfold Effect.float putFloat
  by_cases hslot : Slot.ofFloat f < Slot.count
  · simp only [hslot, if_true]
    rfl
  · simp only [hslot, if_false]
    rfl

theorem carryOut_lanes (f : UInt8) (x y z w : Word) :
    carryOut (Effect.lanes f #v[x, y, z, w]) m = (putLanes f [x, y, z, w]).outcome m := by
  unfold Effect.lanes putLanes
  by_cases hslot : Slot.ofFloat f + 3 < Slot.count
  · simp only [hslot, if_true]
    rfl
  · simp only [hslot, if_false]
    rfl

/-! ## Instructions of one shape -/

theorem step_loadWith {readAt : Memory → Word → Except Fault α} {f : Word → Word → α → Word}
    (heffect : effect i c m = (do
      let a ← readAt m.memory (m.state.reg i.src1 + c)
      return Effect.gpr i.dest (f (m.state.reg i.src1 + c) (m.state.reg i.dest) a))) :
    step i c m = (loadWith i c readAt f).outcome m := by
  rw [step_eq_carryOut, heffect, loadWith, outcome_place]
  exact carryOut_read rfl fun _ => rfl

theorem step_storeLow {count : Nat}
    (heffect : effect i c m = .ok (Effect.store (m.state.reg i.src1 + c)
      ((Word.littleEndian (m.state.reg i.dest)).take count))) :
    step i c m = (storeLow i c count).outcome m := by
  rw [step_eq_carryOut, heffect, storeLow, outcome_place]
  exact carryOut_store _ _

theorem step_spliceWith {f : Word → Word → Word → Word}
    (heffect : effect i c m = (do
      let mem ← m.memory.read32 (aligned (m.state.reg i.src1 + c))
      return Effect.store (aligned (m.state.reg i.src1 + c))
        (Word.littleEndian (f (m.state.reg i.src1 + c) (m.state.reg i.dest) mem)))) :
    step i c m = (spliceWith i c f).outcome m := by
  rw [step_eq_carryOut, heffect, spliceWith, outcome_place]
  exact carryOut_read rfl fun _ => carryOut_store _ _

theorem step_loadLinked
    (heffect : effect i c m = (do
      let w ← m.memory.read32 (m.state.reg i.src1 + c)
      let loaded := if i.dest = 0 then [] else [(i.dest.toNat, w)]
      return { slots := loaded ++ [(Slot.llBit, 1)] })) :
    step i c m = (loadLinked i c).outcome m := by
  rw [step_eq_carryOut, heffect, loadLinked, outcome_place]
  refine carryOut_read rfl fun w => ?_
  by_cases hdest : i.dest = 0
  · simp only [hdest, if_true, ne_eq, not_true, if_false]
    rfl
  · simp only [hdest, if_false, ne_eq, not_false_eq_true, if_true]
    rfl

theorem step_loadFloat
    (heffect : effect i c m = (do
      Effect.float i.dest (← m.memory.read32 (m.state.reg i.src1 + c)))) :
    step i c m = (loadFloat i c).outcome m := by
  rw [step_eq_carryOut, heffect, loadFloat, outcome_place]
  exact carryOut_read rfl fun w => carryOut_float _ w

theorem step_loadLanes
    (heffect : effect i c m = (do
      let v : Lanes := #v[← m.memory.read32 (m.state.reg i.src1 + c),
        ← m.memory.read32 (m.state.reg i.src1 + c + 4),
        ← m.memory.read32 (m.state.reg i.src1 + c + 8),
        ← m.memory.read32 (m.state.reg i.src1 + c + 12)]
      Effect.lanes i.dest v)) :
    step i c m = (loadLanes i c).outcome m := by
  rw [step_eq_carryOut, heffect, loadLanes, outcome_place]
  exact carryOut_read rfl fun _ => carryOut_read rfl fun _ => carryOut_read rfl fun _ =>
    carryOut_read rfl fun _ => carryOut_lanes _ _ _ _ _

theorem step_storeConditional
    (heffect : effect i c m =
      let linked := m.state.slot Slot.llBit != 0
      .ok {
        stores := if linked then
          [(m.state.reg i.src1 + c, Word.littleEndian (m.state.reg i.dest))] else []
        slots := if i.dest = 0 then [] else [(i.dest.toNat, Word.ofBool linked)] }) :
    step i c m = (storeConditional i c).outcome m := by
  rw [step_eq_carryOut, heffect, storeConditional, outcome_get]
  dsimp only
  by_cases hlink : m.state.slot Slot.llBit = 0
  · rw [if_neg (not_not.mpr hlink), hlink]
    by_cases hdest : i.dest = 0
    · rw [if_pos hdest, if_neg (not_not.mpr hdest)]
      rfl
    · rw [if_neg hdest, if_pos hdest]
      rfl
  · have hset : (m.state.slot Slot.llBit != 0) = true := bne_iff_ne.mpr hlink
    rw [if_pos hlink, hset, if_pos rfl, outcome_place]
    refine carryOut_write fun memory => ?_
    by_cases hdest : i.dest = 0
    · rw [if_pos hdest, if_neg (not_not.mpr hdest)]
      rfl
    · rw [if_neg hdest, if_pos hdest]
      rfl

theorem step_storeFloat
    (heffect : effect i c m = (do
      return Effect.store (m.state.reg i.src1 + c)
        (Word.littleEndian (← m.state.float i.dest)))) :
    step i c m = (storeFloat i c).outcome m := by
  rw [step_eq_carryOut, heffect, storeFloat, outcome_place]
  exact carryOut_read rfl fun _ => carryOut_store _ _

theorem step_storeLanes
    (heffect : effect i c m = (do
      let v ← m.state.lanes i.dest
      return { stores := [(m.state.reg i.src1 + c, Word.littleEndian (v.get 0)),
        (m.state.reg i.src1 + c + 4, Word.littleEndian (v.get 1)),
        (m.state.reg i.src1 + c + 8, Word.littleEndian (v.get 2)),
        (m.state.reg i.src1 + c + 12, Word.littleEndian (v.get 3))] })) :
    step i c m = (storeLanes i c).outcome m := by
  rw [step_eq_carryOut, heffect, storeLanes, outcome_place]
  refine carryOut_read rfl fun v => ?_
  generalize m.state.reg i.src1 + c = addr
  have hwords : (List.finRange 4).forM (fun k : Fin 4 =>
      write (addr + 4 * UInt32.ofNat k) (Word.littleEndian (v.get k))) =
      (do write addr (Word.littleEndian (v.get 0))
          write (addr + 4) (Word.littleEndian (v.get 1))
          write (addr + 8) (Word.littleEndian (v.get 2))
          write (addr + 12) (Word.littleEndian (v.get 3))
          pure ()) := by
    have hrange : List.finRange 4 = [0, 1, 2, 3] := by decide
    rw [hrange]
    show (do write (addr + 0) (Word.littleEndian (v.get 0))
             write (addr + 4) (Word.littleEndian (v.get 1))
             write (addr + 8) (Word.littleEndian (v.get 2))
             write (addr + 12) (Word.littleEndian (v.get 3))
             pure ()) = _
    rw [UInt32.add_zero]
  rw [hwords]
  exact carryOut_write fun _ => carryOut_write fun _ => carryOut_write fun _ => carryOut_write
    fun _ => rfl

end

/-- **An instruction that accesses memory does one thing after the other.** Working out its effect
and carrying it out leaves the machine as its steps do, whether one of them fails or not. -/
theorem step_eq_outcome {i : Inst} {c : Word} {x : MachineM Unit} (h : access? i c = some x)
    (m : Machine) : step i c m = x.outcome m := by
  obtain ⟨op, d, s₁, s₂⟩ := i
  cases op with
  | load8 | load8Ext | load16 | load16Ext | load32 | load32Left | load32Right =>
    cases h
    exact step_loadWith rfl
  | load32Linked =>
    cases h
    exact step_loadLinked rfl
  | loadFloat =>
    cases h
    exact step_loadFloat rfl
  | loadVec4 =>
    cases h
    exact step_loadLanes rfl
  | store8 | store16 | store32 =>
    cases h
    exact step_storeLow rfl
  | store32Left | store32Right =>
    cases h
    exact step_spliceWith rfl
  | store32Conditional =>
    cases h
    exact step_storeConditional rfl
  | storeFloat =>
    cases h
    exact step_storeFloat rfl
  | storeVec4 =>
    cases h
    exact step_storeLanes rfl
  | _ => cases h

end Dynarec.Guest
