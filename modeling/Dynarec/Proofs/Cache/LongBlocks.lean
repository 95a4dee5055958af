/-
Blocks that a pass makes too long.

What passes, cache and interpreter do with a block that ends in counts is known from the
instructions before the counts: a count is taken over by copying and splitting (`foldlM_counts`), it
reads and writes no slot (`admissible_counting`, `writesFirst_counting`), and it goes on to the next
(`runBlock_counting`). So there are as many counts as one likes for nothing, and with them a block
can be made that is just in branch range before a move is put into it and no longer in range
afterwards.
-/
import Dynarec.Proofs.Cache.OptimizedRuns
import Dynarec.Proofs.Codegen.CountDowns

set_option autoImplicit false

namespace Dynarec

open Guest Optimize
open Dynarec.Aarch64 (count counting)

/-! ## Passes and counts -/

section

variable {pre : List Inst} {n : Nat}

/-- A step that takes a count over as it is takes all of them over. -/
theorem foldlM_counts {step : Block → Inst → Except Fault Block}
    (hstep : ∀ out : Block, out.pool = ⟨[1]⟩ → step out count = .ok (out.push count))
    {out : Block} (hout : out.pool = ⟨[1]⟩) (n : Nat) :
    (List.replicate n count).foldlM step out =
      .ok { out with insts := out.insts ++ List.replicate n count } := by
  induction n generalizing out with
  | zero => simp [pure, Except.pure]
  | succ n ih =>
    rw [List.replicate_succ, List.foldlM_cons, hstep out hout]
    show (List.replicate n count).foldlM step (out.push count) = _
    have hpush : (out.push count).pool = ⟨[1]⟩ := hout
    rw [ih hpush]
    simp [Block.push]

theorem append_count {source : Block} (hsource : source.pool = ⟨[1]⟩) (out : Block)
    (hout : out.pool = ⟨[1]⟩) : out.append source count = .ok (out.push count) := by
  obtain ⟨insts, pool⟩ := out
  obtain ⟨insts', pool'⟩ := source
  cases hout
  cases hsource
  rfl

/-- The instructions before the counts are copied as they are. -/
def Copies (pre : List Inst) : Prop :=
  ∀ insts, Block.appendAll {} ⟨insts, ⟨[1]⟩⟩ pre = .ok ⟨pre, ⟨[1]⟩⟩

/-- The instructions before the counts are split into `pre'`. -/
def Splits (pre pre' : List Inst) : Prop :=
  ∀ insts, pre.foldlM (TwoOperand.step ⟨insts, ⟨[1]⟩⟩) {} = .ok ⟨pre', ⟨[1]⟩⟩

variable {pre' : List Inst}

theorem Copies.copy_counting (h : Copies pre) (n : Nat) :
    (counting pre n).copy = .ok (counting pre n) := by
  unfold Block.copy Block.appendAll
  have hinsts : (counting pre n).insts = pre ++ List.replicate n count := rfl
  rw [hinsts, List.foldlM_append]
  exact bind_eq_ok.mpr ⟨_, h _, foldlM_counts (append_count rfl) rfl n⟩

theorem Copies.run_plain (h : Copies pre) (cap n : Nat) :
    ∃ stats, Pipeline.run {} cap (counting pre n) {} = .ok (counting pre n, stats) := by
  unfold Pipeline.run
  rw [h.copy_counting]
  exact ⟨_, rfl⟩

theorem Splits.run_counting (h : Splits pre pre') (n : Nat) :
    TwoOperand.run (counting pre n) = .ok (counting pre' n) := by
  unfold TwoOperand.run
  have hinsts : (counting pre n).insts = pre ++ List.replicate n count := rfl
  -- a count has no destination, so it is not split
  have hstep : ∀ out : Block, out.pool = ⟨[1]⟩ →
      TwoOperand.step (counting pre n) out count = .ok (out.push count) :=
    fun out hout => append_count rfl out hout
  rw [hinsts, List.foldlM_append]
  exact bind_eq_ok.mpr ⟨_, h _, foldlM_counts hstep rfl n⟩

theorem Splits.run_pipeline (hcopies : Copies pre) (h : Splits pre pre') (cap n : Nat) :
    ∃ stats, Pipeline.run { passes := [.twoOperand] } cap (counting pre n) {}
      = .ok (counting pre' n, stats) := by
  have hsplit : Pass.run .twoOperand cap (counting pre n)
      = .ok (counting pre' n, counting pre' n != counting pre n) :=
    Pass.run_of_output (p := .twoOperand) (h.run_counting n)
  refine ⟨_, bind_eq_ok.mpr ⟨_, hcopies.copy_counting n, bind_eq_ok.mpr
    ⟨_, bind_eq_ok.mpr ⟨_, hsplit, rfl⟩, rfl⟩⟩⟩

/-! ## Admissible blocks -/

theorem mem_counting {i : Inst} (h : i ∈ (counting pre n).insts) : i ∈ pre ∨ i = count :=
  (List.mem_append.mp h).imp_right fun h => (List.mem_replicate.mp h).2

theorem admissible_counting (n : Nat)
    (hpre : ∀ i ∈ pre, (i.fits = true ∧ 0 ∉ i.writeSlots ∧
      (i.op = .fAdd ∨ i.op = .fMul → i.src2 = i.dest → i.src1 = i.dest)) ∧
      i.constantIndex.getD 0 = 0) : Admissible (counting pre n) := by
  have hcount : ConstantPropagation.Eligible count := ⟨by decide, by decide, by decide⟩
  refine ⟨fun i hi k hk => ?_, fun i hi => ?_⟩
  · have hzero : k = 0 := by
      obtain hi | rfl := mem_counting hi
      · have hfirst := (hpre i hi).2
        rwa [Option.mem_def.mp hk, Option.getD_some] at hfirst
      · cases hk
        rfl
    rw [hzero]
    exact Nat.one_pos
  · obtain hi | rfl := mem_counting hi
    · obtain ⟨⟨hfits, hzero, hordered⟩, -⟩ := hpre i hi
      exact ⟨hfits, hzero, hordered⟩
    · exact hcount

theorem readsWritten_counts (n : Nat) (written : List Slot) :
    ReadsWritten written (List.replicate n count) := by
  induction n generalizing written with
  | zero => exact trivial
  | succ n ih => exact ⟨fun k hk => absurd hk List.not_mem_nil, ih _⟩

/-! ## Running counts -/

/-- Code runs off its end if each of its instructions goes on to the next. -/
theorem runCode_goesOn {code : List (Inst × Word)}
    (h : ∀ x ∈ code, ∀ m, ∃ m', step x.1 x.2 m = (.ok none, m')) (m : Machine) :
    ∃ m', runCode code m = (.ok none, m') := by
  induction code generalizing m with
  | nil => exact ⟨m, rfl⟩
  | cons x rest ih =>
    obtain ⟨m₁, hstep⟩ := h x List.mem_cons_self m
    obtain ⟨m', hrun⟩ := ih (fun y hy => h y (List.mem_cons_of_mem x hy)) m₁
    refine ⟨m', ?_⟩
    show Outcome.andThen (step x.1 x.2 m) _ = _
    rw [hstep]
    exact hrun

/-- A block runs off its end if the instructions before its counts go on. -/
theorem runBlock_counting (n : Nat) (hb : (counting pre n).InRange)
    (hpre : ∀ i ∈ pre, i.op ≠ .nop ∧ ∀ c m, ∃ m', step i c m = (.ok none, m')) (m : Machine) :
    ∃ m', runBlock (counting pre n).effective m = (.ok none, m') := by
  have hgo : ∀ i ∈ (counting pre n).insts,
      i.op ≠ .nop ∧ ∀ c m, ∃ m', step i c m = (.ok none, m') := by
    intro i hi
    obtain hi | rfl := mem_counting hi
    · exact hpre i hi
    · exact ⟨by decide, fun _ _ => ⟨_, rfl⟩⟩
  rw [runBlock_effective hb]
  refine runCode_goesOn (fun x hx => ?_) m
  obtain ⟨i, hi, rfl⟩ := List.mem_map.mp hx
  exact (hgo i (mem_of_mem_sweep hi).1).2 _

end

/-! ## One move too many -/

/-- Two instructions that are lowered as calls, and between them a sum, which a pass splits. -/
def summing : List Inst := [count, ⟨.div, 0, 2, 3⟩, ⟨.add, 1, 2, 3⟩, ⟨.div, 0, 2, 3⟩]

/-- The instructions with the sum split. -/
def summed : List Inst :=
  [count, ⟨.div, 0, 2, 3⟩, ⟨.mov, 1, 2, 0⟩, ⟨.add, 1, 1, 3⟩, ⟨.div, 0, 2, 3⟩]

/-- The block with as many counts as the branch after the first call can reach over. -/
def long : Block := counting summing 87376

/-- The block as the only one of a catalog. -/
def longCatalog : Catalog := { entries := [(0x1000, long)] }

/-- The pass that splits, and two megabytes for code. -/
def longSettings : Settings where
  target := .aarch64
  pipeline := { passes := [.twoOperand] }
  useStatics := false
  codeSize := 2097152

/-- A process on AArch64. -/
def longHost : Platform := { Amd64.process 0x555555554000 with host := .aarch64 }

/-- A machine about to enter the block. -/
def longStart : Machine where
  state := { pc := 0x1000 }
  memory := { bytes := #[] }

/-- The words before the counts, and the branches of the two calls. The move stands between them. -/
theorem precedes_long :
    Aarch64.Precedes longHost.helper longSettings.plain summing 87375 38
        [⟨.cbnz, 24⟩, ⟨.cbnz, 37⟩] ∧
      Aarch64.Precedes longHost.helper longSettings summed 87375 39
        [⟨.cbnz, 24⟩, ⟨.cbnz, 38⟩] := by
  decide +kernel

theorem admissible_long : Admissible long := admissible_counting 87376 (by decide)

theorem admissible_longSplit : Admissible (counting summed 87376) :=
  admissible_counting 87376 (by decide)

theorem writesFirst_long : WritesFirst long :=
  ⟨by decide, by decide, by decide, by decide, readsWritten_counts 87376 _⟩

theorem copies_summing : Copies summing := fun _ => rfl

theorem splits_summing : Splits summing summed := fun _ => rfl

theorem fetch_long : longCatalog.fetch 0x1000 = .ok long := copies_summing.copy_counting 87376

theorem run_plain_long : ∃ stats,
    longSettings.plain.pipeline.run longSettings.plain.constantCap long {} = .ok (long, stats) :=
  copies_summing.run_plain _ 87376

theorem run_long : ∃ stats, longSettings.pipeline.run longSettings.constantCap long {}
    = .ok (counting summed 87376, stats) :=
  splits_summing.run_pipeline copies_summing _ 87376

/-- Without the move the branch goes over 262143 words, which is as far as it reaches. -/
theorem exists_compile_long : ∃ compiled,
    Codegen.compile longHost longSettings.plain long = .ok compiled ∧
      alignUp CodeBuffer.blockUnit compiled.code.length ≤ 2097152 := by
  obtain ⟨hiff, hlength⟩ := precedes_long.1.exists_compile_iff admissible_long.inRange
    fun i hi => (admissible_long.eligible i hi).fits
  obtain ⟨compiled, hcompiled⟩ := hiff.mpr (by decide)
  refine ⟨compiled, hcompiled, ?_⟩
  rw [hlength compiled hcompiled]
  decide

/-- With the move it would have to go over 262144 words. -/
theorem compile_longSplit (compiled : Codegen.Compiled) :
    Codegen.compile longHost longSettings (counting summed 87376) ≠ .ok compiled := by
  obtain ⟨hiff, -⟩ := precedes_long.2.exists_compile_iff admissible_longSplit.inRange
    fun i hi => (admissible_longSplit.eligible i hi).fits
  exact fun h => absurd (hiff.mp ⟨compiled, h⟩) (by decide)

theorem codeBytes_long : longCatalog.codeBytes longHost longSettings.plain ≤ 2097152 := by
  obtain ⟨compiled, hcompiled, hlength⟩ := exists_compile_long
  obtain ⟨stats, hrun⟩ := run_plain_long
  have haddresses : longCatalog.addresses = [0x1000] := rfl
  rw [Catalog.codeBytes, haddresses, List.map_singleton, List.sum_singleton,
    Cache.bytesAt_eq fetch_long hrun hcompiled]
  exact hlength

/-- Every instruction before the counts goes on. -/
theorem runBlock_long (m : Machine) : ∃ m', runBlock long.effective m = (.ok none, m') := by
  refine runBlock_counting 87376 admissible_long.inRange (fun i hi => ?_) m
  simp only [summing, List.mem_cons, List.not_mem_nil, or_false] at hi
  obtain rfl | rfl | rfl | rfl := hi
  all_goals exact ⟨by decide, fun _ _ => ⟨_, rfl⟩⟩

namespace Cache

/-- The plain block is compiled and goes off its end. -/
theorem exists_run_plain {c : Cache} (h : create longHost longCatalog longSettings.plain = .ok c)
    (htwice : c.buffer.mapping = .twice) : ∃ c' m', c.run 1 longStart = (.ok 1, c', m') := by
  have hf := faithful_create h
  have hroom := roomy_create h codeBytes_long
  obtain ⟨stats, hrun⟩ := run_plain_long
  obtain ⟨compiled, hcompiled, -⟩ := exists_compile_long
  have hsource := fetch_long
  rw [← hf.source] at hsource
  rw [← hf.choice] at hrun hcompiled
  rw [← hf.host] at hcompiled
  obtain ⟨e, c', hcompile, -⟩ := hroom.exists_compile htwice hsource hrun hcompiled
  obtain ⟨⟨source, stats', hfetch, hblock⟩, hf'⟩ := hf.compile hcompile
  -- the entry is made from the block itself
  cases fetch_long.symm.trans hfetch
  obtain ⟨_, hplain⟩ := run_plain_long
  obtain ⟨m', hm'⟩ := runBlock_long longStart
  have heq : e.block = long := congrArg Prod.fst (Except.ok.inj (hblock.symm.trans hplain))
  rw [← heq] at hm'
  have hexecute := execute_of_runBlock (c := c') (by rw [hf'.host, hf'.choice]; rfl) hm'
  refine ⟨c', m', ?_⟩
  unfold run runFrom
  have hpc : longStart.state.pc = 0x1000 := rfl
  rw [hpc, hcompile]
  dsimp only
  rw [hexecute]
  rfl

/-- With the sum split there is no code to run. -/
theorem exists_run_error {c : Cache} (h : create longHost longCatalog longSettings = .ok c) :
    ∃ f, c.run 1 longStart = (.error f, c, longStart) := by
  have hf := faithful_create h
  obtain ⟨stats, hrun⟩ := run_long
  cases hcompile : Codegen.compile longHost longSettings (counting summed 87376) with
  | ok compiled => exact absurd hcompile (compile_longSplit compiled)
  | error f =>
    have hsource := fetch_long
    rw [← hf.source] at hsource
    rw [← hf.choice] at hrun hcompile
    rw [← hf.host] at hcompile
    refine ⟨f, ?_⟩
    unfold run runFrom
    have hpc : longStart.state.pc = 0x1000 := rfl
    rw [hpc, compile_of_error (lookup_create h 0x1000) hsource hrun hcompile]

/-- **A pass can make a block too long.** On a process on AArch64 take the block with its counts,
and the pass that splits sums. The plain block compiles, there is room for it, and the run without
passes goes through it. The block with the sum split does not compile, and the run with the pass
fails. -/
theorem optimized_run_out_of_range :
    (∀ b ∈ longCatalog.values, Admissible b ∧ WritesFirst b) ∧
    longSettings.pipeline.passes = [.twoOperand] ∧
    longHost.enters longSettings.target = true ∧
    longCatalog.codeBytes longHost longSettings.plain ≤ longSettings.codeSize ∧
    longStart.state.slot 0 = 0 ∧
    (∃ b, longCatalog.Makes longSettings 0x1000 b ∧
      ∀ compiled, Codegen.compile longHost longSettings b ≠ .ok compiled) ∧
    ∃ c₀ c₁ c₀' m' f, create longHost longCatalog longSettings.plain = .ok c₀ ∧
      create longHost longCatalog longSettings = .ok c₁ ∧ c₀.run 1 longStart = (.ok 1, c₀', m') ∧
      c₁.run 1 longStart = (.error f, c₁, longStart) := by
  obtain ⟨stats, hrun⟩ := run_long
  have hmakes : longCatalog.Makes longSettings 0x1000 (counting summed 87376) :=
    ⟨long, stats, fetch_long, hrun⟩
  refine ⟨fun b hb => ?_, rfl, rfl, codeBytes_long, rfl, ⟨_, hmakes, compile_longSplit⟩, ?_⟩
  · cases List.mem_singleton.mp hb
    exact ⟨admissible_long, writesFirst_long⟩
  obtain ⟨c₀, h₀, htwice⟩ : ∃ c, create longHost longCatalog longSettings.plain = .ok c ∧
      c.buffer.mapping = .twice := ⟨_, rfl, rfl⟩
  obtain ⟨c₁, h₁⟩ : ∃ c, create longHost longCatalog longSettings = .ok c := ⟨_, rfl⟩
  obtain ⟨c₀', m', hplain⟩ := exists_run_plain h₀ htwice
  obtain ⟨f, hfails⟩ := exists_run_error h₁
  exact ⟨c₀, c₁, c₀', m', f, h₀, h₁, hplain, hfails⟩

end Cache

end Dynarec
