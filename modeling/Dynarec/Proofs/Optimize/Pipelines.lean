/-
Pipelines keep what can be observed.

Every pass but the narrowing of loads turns an admissible block into an admissible block that
refines it, whatever the passes before it were. So any list of them does, in any order and with any
repetitions (`runPasses_refines`).
-/
import Dynarec.Proofs.Optimize.DeadWrites
import Dynarec.Proofs.Optimize.FoldingGrowth
import Dynarec.Proofs.Optimize.LocalRewrites

set_option autoImplicit false

namespace Dynarec.Optimize

open Guest

variable {b b' : Block} {cap : Nat}

/-- The output of the removal of dead writes: instructions of the block, none a placeholder. -/
theorem DeadWrites.run_insts (h : DeadWrites.run b = .ok b') :
    List.Forall₂ Resembles (sweep (placeholders b.insts)) b'.insts ∧ ∀ j ∈ b'.insts, j.op ≠ .nop := by
  rw [run_eq] at h
  obtain ⟨js, hjs, hinsts⟩ := appendAll_insts _ h
  replace hinsts : b'.insts = js := hinsts
  rw [hinsts]
  refine ⟨hjs, forall_of_resembles (fun i j hij hi => by rwa [hij.op]) hjs fun i hi => ?_⟩
  exact (mem_of_mem_sweep hi).2

/-- Removing dead writes changes temporaries only. -/
theorem DeadWrites.run_refines (hb : Admissible b) (h : DeadWrites.run b = .ok b') :
    Admissible b' ∧ Refines b b' := by
  obtain ⟨b₁, h₁, htidy, hrun⟩ := run_alike hb.inRange
  cases h.symm.trans h₁
  obtain ⟨hjs, hop⟩ := run_insts h
  have heffective : b'.effective = b' :=
    congrArg (fun insts => Block.mk insts b'.pool) (sweep_eq_self hop)
  refine ⟨⟨htidy.inRange, ?_⟩, fun m t m' _ hm => ?_⟩
  · exact eligible_of_resembles hjs fun i hi => hb.eligible i (mem_of_mem_sweep_placeholders hi)
  · rw [runBlock_effective hb.inRange] at hm
    rw [heffective]
    exact hrun m t m' hm

/-- **One pass.** -/
theorem Pass.output_refines {p : Pass} (hp : p ≠ .narrowLoads) (hb : Admissible b)
    (h : p.output cap b = .ok b') : Admissible b' ∧ Refines b b' := by
  cases p with
  | floatMoves => exact FloatMoves.run_refines hb h
  | constantPropagation => exact ConstantPropagation.run_refines hb h
  | deadWrites => exact DeadWrites.run_refines hb h
  | narrowLoads => exact absurd rfl hp
  | twoOperand => exact TwoOperand.run_refines hb h
  | storeReload => exact StoreReload.run_refines hb h

/-- **Passes one after the other.** -/
theorem Pipeline.runPasses_refines (passes : List Pass) {stats : Statistics}
    {r : Block × Statistics} (hp : ∀ p ∈ passes, p ≠ .narrowLoads) (hb : Admissible b)
    (h : runPasses cap passes (b, stats) = .ok r) : Admissible r.1 ∧ Refines b r.1 := by
  induction passes generalizing b stats with
  | nil =>
    cases h
    exact ⟨hb, Refines.refl b⟩
  | cons p passes ih =>
    obtain ⟨⟨b₁, changed⟩, h₁, h⟩ := bind_eq_ok.mp h
    obtain ⟨b₂, hout, heq⟩ := bind_eq_ok.mp h₁
    cases pure_eq_ok.mp heq
    obtain ⟨hb₁, href⟩ := Pass.output_refines (hp p List.mem_cons_self) hb hout
    obtain ⟨hr, href'⟩ := ih (fun q hq => hp q (List.mem_cons_of_mem p hq)) hb₁ h
    exact ⟨hr, href.trans href'⟩

/-- **A pipeline keeps what can be observed.** Both what it makes of a block and the copy that it
starts from, which is all that the pipeline without passes makes, are admissible, and the first
refines the second. -/
theorem Pipeline.run_refines {p : Pipeline} {stats : Statistics} {r : Block × Statistics}
    (hp : ∀ q ∈ p.passes, q ≠ .narrowLoads) (hb : Admissible b) (h : p.run cap b stats = .ok r) :
    ∃ copy stats', ({} : Pipeline).run cap b stats = .ok (copy, stats') ∧ Admissible copy
      ∧ (WritesFirst b → WritesFirst copy) ∧ Admissible r.1 ∧ Refines copy r.1 := by
  obtain ⟨copy, hcopy, h⟩ := bind_eq_ok.mp h
  obtain ⟨⟨out, stats'⟩, hpasses, h⟩ := bind_eq_ok.mp h
  cases pure_eq_ok.mp h
  obtain ⟨hadm, hwrites⟩ := copy_spec hb hcopy
  obtain ⟨hout, href⟩ := runPasses_refines p.passes hp hadm hpasses
  refine ⟨copy, stats.optimized b.size copy.size, ?_, hadm, hwrites, hout, href⟩
  exact bind_eq_ok.mpr ⟨copy, hcopy, rfl⟩

end Dynarec.Optimize
