/-
Machines that differ in slots which do not matter.

Optimisations may leave other words in slots that nobody looks at again: a temporary after the end
of its block, a register whose next use is an overwrite. `AgreeBut P` is agreement on everything
except the slots in `P`. An instruction that reads none of them takes such machines to such machines
again, and the slots that it writes leave the set (`AgreeBut.step`).

At the end of a block only the temporaries may differ: `Alike`. Placeholders, which never run, are
left out of what is compared (`runCode_sweep`).
-/
import Dynarec.Proofs.Guest.Code
import Dynarec.Proofs.Guest.Footprint

set_option autoImplicit false

namespace Dynarec.Guest

/-! ## Agreement outside some slots -/

/-- Two machines agree on everything except the slots in `P`. -/
structure AgreeBut (P : Slot → Prop) (m n : Machine) : Prop where
  slot : ∀ k, ¬P k → m.state.slot k = n.state.slot k
  pc : m.state.pc = n.state.pc
  downcount : m.state.downcount = n.state.downcount
  syscall : m.state.syscall = n.state.syscall
  memory : m.memory = n.memory

namespace AgreeBut

variable {P Q : Slot → Prop} {m n o m' : Machine} {i : Inst} {c : Word} {t : Option Word}

theorem refl (P : Slot → Prop) (m : Machine) : AgreeBut P m m :=
  ⟨fun _ _ => rfl, rfl, rfl, rfl, rfl⟩

theorem trans (h : AgreeBut P m n) (h' : AgreeBut P n o) : AgreeBut P m o :=
  ⟨fun k hk => (h.slot k hk).trans (h'.slot k hk), h.pc.trans h'.pc,
    h.downcount.trans h'.downcount, h.syscall.trans h'.syscall, h.memory.trans h'.memory⟩

theorem mono (h : AgreeBut P m n) (hPQ : ∀ k, P k → Q k) : AgreeBut Q m n :=
  ⟨fun k hk => h.slot k fun hP => hk (hPQ k hP), h.pc, h.downcount, h.syscall, h.memory⟩

/-- Slots in which nothing is in doubt. -/
theorem agree (h : AgreeBut P m n) {slots : List Slot} (hs : ∀ k ∈ slots, ¬P k) :
    Agree slots m n :=
  ⟨fun k hk => h.slot k (hs k hk), h.pc, h.downcount, h.syscall, h.memory⟩

/-- **An instruction that reads none of the slots in doubt.** It does the same on both machines, and
what it writes is no longer in doubt. -/
theorem step (h : AgreeBut P m n) (hzero : ¬P 0) (hread : ∀ k ∈ i.readSlots, ¬P k)
    (hm : Guest.step i c m = (.ok t, m')) :
    ∃ n', Guest.step i c n = (.ok t, n') ∧ AgreeBut (fun k => P k ∧ k ∉ i.writeSlots) m' n' := by
  have hagree : Agree (0 :: i.readSlots) m n := by
    refine h.agree fun k hk => ?_
    rcases List.mem_cons.mp hk with rfl | hk
    · exact hzero
    · exact hread k hk
  obtain ⟨n', hn, hw⟩ := step_transfer hagree hm
  refine ⟨n', hn, fun k hk => ?_, hw.pc, hw.downcount, hw.syscall, hw.memory⟩
  by_cases hwrite : k ∈ i.writeSlots
  · exact hw.slot k hwrite
  · rw [(step_frame hm).slot k hwrite, (step_frame hn).slot k hwrite]
    exact h.slot k fun hP => hk ⟨hP, hwrite⟩

end AgreeBut

/-- Two machines differ in temporaries only. -/
abbrev Alike : Machine → Machine → Prop := AgreeBut fun k => Slot.isTemp k = true

/-! ## Placeholders -/

/-- The instructions that do something. -/
def sweep (insts : List Inst) : List Inst := insts.filter (·.op ≠ .nop)

theorem sweep_cons_nop {i : Inst} (h : i.op = .nop) (rest : List Inst) :
    sweep (i :: rest) = sweep rest :=
  List.filter_cons_of_neg (by simp only [h, ne_eq, not_true_eq_false, decide_false,
    Bool.false_eq_true, not_false_eq_true])

theorem sweep_cons {i : Inst} (h : i.op ≠ .nop) (rest : List Inst) :
    sweep (i :: rest) = i :: sweep rest :=
  List.filter_cons_of_pos (decide_eq_true h)

theorem mem_of_mem_sweep {i : Inst} {insts : List Inst} (h : i ∈ sweep insts) :
    i ∈ insts ∧ i.op ≠ .nop := by
  obtain ⟨hi, hop⟩ := List.mem_filter.mp h
  exact ⟨hi, of_decide_eq_true hop⟩

/-- A placeholder cannot be executed. -/
theorem step_nop {i : Inst} (h : i.op = .nop) (c : Word) (m : Machine) :
    ∃ f, step i c m = (.error f, m) := by
  obtain ⟨op, dest, src1, src2⟩ := i
  cases h
  exact ⟨_, rfl⟩

/-- Code that ends without a fault meets no placeholder before its end. -/
theorem runCode_sweep (p : Pool) (insts : List Inst) {m m' : Machine} {t : Option Word}
    (h : runCode (p.resolve insts) m = (.ok t, m')) :
    runCode (p.resolve (sweep insts)) m = (.ok t, m') := by
  induction insts generalizing m with
  | nil => exact h
  | cons i rest ih =>
    by_cases hnop : i.op = .nop
    · obtain ⟨f, hf⟩ := step_nop hnop (p.constant i) m
      rw [Pool.resolve, List.map_cons, runCode, hf] at h
      cases h
    · rw [sweep_cons hnop]
      simp only [Pool.resolve, List.map_cons, runCode] at h ih ⊢
      obtain ⟨m₁, hstep, hrest⟩ | ⟨ht, hstep⟩ := Outcome.andThen_eq_ok h
      · rw [hstep]
        exact ih hrest
      · obtain ⟨u, rfl⟩ := Option.ne_none_iff_exists'.mp ht
        rw [hstep]
        rfl

end Dynarec.Guest
