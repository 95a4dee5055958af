/-
Optimising does not change runs.

Two caches work on the same catalog, one without passes and one with any pipeline whose passes keep
what can be observed. Block by block their runs stay in step: the machines differ in temporaries
only, and since no block reads a temporary that it has not written, the difference does not reach
the next block. The optimised blocks compile, because the pipeline keeps them admissible and every
admissible block in branch range does.

That the optimised blocks are in branch range has to be asked for. A pass may make code longer, and
where the plain code of a block is just short enough for a branch the optimised code is not.
-/
import Dynarec.Amd64.Process
import Dynarec.Proofs.Cache.Compilation
import Dynarec.Proofs.Codegen.BranchTargets
import Dynarec.Proofs.Codegen.Totality
import Dynarec.Proofs.Optimize.CanonicalPools
import Dynarec.Proofs.Optimize.Pipelines

set_option autoImplicit false
set_option maxRecDepth 2048

namespace Dynarec

open Guest Optimize

/-! ## Slots that a block leaves alone -/

namespace Guest

/-- A slot that no instruction writes keeps its word. -/
theorem runCode_slot (p : Pool) {insts : List Inst} {k : Slot} {m m' : Machine} {t : Option Word}
    (hk : ∀ i ∈ insts, k ∉ i.writeSlots) (h : runCode (p.resolve insts) m = (.ok t, m')) :
    m'.state.slot k = m.state.slot k := by
  induction insts generalizing m with
  | nil =>
    cases h
    rfl
  | cons i rest ih =>
    simp only [Pool.resolve, List.map_cons, runCode] at h ih
    have hi := hk i List.mem_cons_self
    obtain ⟨m₁, hstep, hrest⟩ | ⟨-, hstep⟩ := Outcome.andThen_eq_ok h
    · rw [ih (fun j hj => hk j (List.mem_cons_of_mem i hj)) hrest]
      exact (step_frame hstep).slot k hi
    · exact (step_frame hstep).slot k hi

theorem Alike.jump {m n : Machine} (h : Alike m n) (target : Word) :
    Alike (m.jump target) (n.jump target) :=
  ⟨h.slot, rfl, h.downcount, h.syscall, h.memory⟩

end Guest

/-- An admissible block leaves zero in slot zero. -/
theorem Optimize.Admissible.slot_zero {b : Block} (hb : Admissible b) {m m' : Machine}
    {t : Option Word} (h : runBlock b.effective m = (.ok t, m')) :
    m'.state.slot 0 = m.state.slot 0 := by
  rw [runBlock_effective hb.inRange] at h
  exact runCode_slot b.pool (fun i hi => (hb.eligible i (mem_of_mem_sweep hi).1).zero) h

/-! ## Blocks that compile -/

namespace Codegen

/-- The branches of the code of a block reach where they go. -/
def InBranchRange (p : Platform) (s : Settings) (b : Block) : Prop :=
  match s.target with
  | .aarch64 => Aarch64.InBranchRange p.helper s b
  | .amd64 => Amd64.InBranchRange p.helper s b

/-- **Every block in branch range compiles.** -/
theorem exists_compile {p : Platform} {s : Settings} {b : Block} (haccepts : p.assemble.Accepts)
    (hb : b.InRange) (hfits : ∀ i ∈ b.insts, i.fits = true) (hrange : InBranchRange p s b) :
    ∃ c, compile p s b = .ok c := by
  unfold InBranchRange at hrange
  unfold compile
  cases htarget : s.target with
  | aarch64 =>
    rw [htarget] at hrange
    obtain ⟨c, st, hrun, -⟩ := Aarch64.yields_lowerBlock hb hfits hrange
    exact ⟨c, congrArg (Prod.fst <$> ·) hrun⟩
  | amd64 =>
    rw [htarget] at hrange
    exact Amd64.exists_compile haccepts hb hfits hrange

end Codegen

/-! ## Catalogs that can be optimised -/

/-- The blocks of the catalog and the pipeline go together: the operands of every instruction are in
their own range, temporaries are written before they are read, no pass narrows loads, the pipeline
succeeds on every block, and the branches of what it makes are in reach. -/
structure Catalog.Optimizable (p : Platform) (catalog : Catalog) (s : Settings) : Prop where
  admissible : ∀ b ∈ catalog.values, Admissible b
  writesFirst : ∀ b ∈ catalog.values, WritesFirst b
  passes : ∀ p ∈ s.pipeline.passes,
    p ∈ [.floatMoves, .constantPropagation, .deadWrites, .storeReload, .twoOperand]
  succeeds : ∀ a source, catalog.fetch a = .ok source →
    ∃ r, s.pipeline.run s.constantCap source {} = .ok r
  inBranchRange : ∀ a b, catalog.Makes s a b → Codegen.InBranchRange p s b

/-- The settings without passes. -/
def Settings.plain (s : Settings) : Settings := { s with pipeline := {} }

namespace Catalog.Optimizable

variable {p : Platform} {catalog : Catalog} {s : Settings} {a : Word} {b₀ b₁ source : Block}
  {m n m' : Machine} {t : Option Word}

/-- What is fetched is a copy of a block of the catalog. -/
theorem fetched (h : catalog.Optimizable p s) (hf : catalog.fetch a = .ok source) :
    Admissible source ∧ WritesFirst source := by
  unfold Catalog.fetch at hf
  split at hf
  · rename_i b hb
    have hmem := AddressMap.mem_values_of_get? hb
    obtain ⟨hadm, hwrites⟩ := copy_spec (h.admissible b hmem) hf
    exact ⟨hadm, hwrites (h.writesFirst b hmem)⟩
  · cases hf

theorem not_narrowLoads (h : catalog.Optimizable p s) :
    ∀ p ∈ s.pipeline.passes, p ≠ .narrowLoads := by
  rintro p hp rfl
  exact absurd (h.passes _ hp) (by decide)

/-- The block of the plain run and the optimised one. -/
theorem blocks (h : catalog.Optimizable p s) (h₀ : catalog.Makes s.plain a b₀)
    (h₁ : catalog.Makes s a b₁) :
    Admissible b₀ ∧ WritesFirst b₀ ∧ Admissible b₁ ∧ Refines b₀ b₁ := by
  obtain ⟨source, stats, hsource, hrun₁⟩ := h₁
  obtain ⟨source', stats₀, hsource', hrun₀⟩ := h₀
  -- both were made from the one block that the catalog has there
  cases hsource.symm.trans hsource'
  obtain ⟨hadm, hwrites⟩ := h.fetched hsource
  obtain ⟨copy, stats', hcopy, hadm₀, hwrites₀, hadm₁, href⟩ :=
    Pipeline.run_refines h.not_narrowLoads hadm hrun₁
  cases hrun₀.symm.trans hcopy
  exact ⟨hadm₀, hwrites₀ hwrites, hadm₁, href⟩

/-- **One block.** The optimised block ends as the plain one does, and the machines still differ in
temporaries only. -/
theorem runBlock_agrees (h : catalog.Optimizable p s) (h₀ : catalog.Makes s.plain a b₀)
    (h₁ : catalog.Makes s a b₁) (hzero : m.state.slot 0 = 0) (halike : Alike m n)
    (hm : runBlock b₀.effective m = (.ok t, m')) :
    ∃ n', runBlock b₁.effective n = (.ok t, n') ∧ Alike m' n' ∧ m'.state.slot 0 = 0 := by
  obtain ⟨hadm, hwrites, -, href⟩ := h.blocks h₀ h₁
  -- first the plain block on the other machine, then the optimised block on that machine
  obtain ⟨n₁, hn₁, halike₁⟩ := runBlock_alike hadm.inRange hwrites halike hm
  have hzero' : n.state.slot 0 = 0 := (halike.slot 0 (by decide)).symm.trans hzero
  obtain ⟨n₂, hn₂, halike₂⟩ := href n t n₁ hzero' hn₁
  exact ⟨n₂, hn₂, halike₁.trans halike₂, (hadm.slot_zero hm).trans hzero⟩

/-- A block that the plain cache has is in the optimised one. -/
theorem exists_compile {c₀ c₁ c₀' : Cache} {e₀ : Entry} (h : catalog.Optimizable p s)
    (haccepts : p.assemble.Accepts) (hc : c₁.Faithful p catalog s) (hroom : c₁.Roomy)
    (hstep : Cache.InStep c₀ c₁) (hcompile : c₀.compile a = (.ok e₀, c₀'))
    (h₀ : catalog.Makes s.plain a e₀.block) :
    ∃ e₁ c₁', c₁.compile a = (.ok e₁, c₁') ∧ Cache.InStep c₀' c₁' := by
  obtain ⟨source, stats₀, hsource, hrun₀⟩ := h₀
  obtain ⟨⟨b₁, stats⟩, hrun⟩ := h.succeeds a source hsource
  have hmade : catalog.Makes s a b₁ := ⟨source, stats, hsource, hrun⟩
  obtain ⟨-, -, hadm, -⟩ := h.blocks ⟨source, stats₀, hsource, hrun₀⟩ hmade
  obtain ⟨compiled, hcompiled⟩ := Codegen.exists_compile haccepts hadm.inRange
    (fun i hi => (hadm.eligible i hi).fits) (h.inBranchRange a b₁ hmade)
  rw [← hc.source] at hsource
  rw [← hc.choice] at hrun
  rw [← hc.choice, ← hc.host] at hcompiled
  exact hstep.exists_compile hcompile hroom hsource hrun hcompiled

end Catalog.Optimizable

/-! ## Runs -/

namespace Cache

variable {p : Platform} {catalog : Catalog} {s : Settings} {c₀ c₁ c : Cache} {m n m' : Machine}
  {e : Entry}

/-- Code that has been entered is made for the process, and did what its block does. -/
theorem execute_eq_ok {t : Option Word} (h : c.execute e m = (.ok t, m')) :
    c.platform.enters c.settings.target = true ∧ ∃ m₁, runBlock e.block.effective m = (.ok t, m₁) ∧
      m' = (t.map m₁.jump).getD m₁ := by
  unfold execute at h
  split at h
  · next henters =>
    refine ⟨henters, ?_⟩
    split at h
    · next target m₁ hrun =>
      cases h
      exact ⟨m₁, hrun, rfl⟩
    · next hne =>
      cases t with
      | none => exact ⟨m', h, rfl⟩
      | some target => exact absurd h (hne target m')
  · cases h

theorem execute_of_runBlock {t : Option Word}
    (henters : c.platform.enters c.settings.target = true)
    (h : runBlock e.block.effective m = (.ok t, m')) :
    c.execute e m = (.ok t, (t.map m'.jump).getD m') := by
  unfold execute
  rw [if_pos henters, h]
  cases t <;> rfl

theorem mayContinue_congr (h : Alike m n) : mayContinue m = mayContinue n := by
  unfold mayContinue
  rw [h.syscall, h.downcount]

/-- **Runs stay in step.** The induction is on the number of blocks left; it carries that both
caches hold what their settings make of the catalog, at the same addresses, and that the machines
differ in temporaries only. -/
theorem runFrom_agrees (h : catalog.Optimizable p s) (haccepts : p.assemble.Accepts)
    (limit done : Nat) (h₀ : c₀.Faithful p catalog s.plain) (h₁ : c₁.Faithful p catalog s)
    (hroom : c₁.Roomy) (hstep : InStep c₀ c₁) (hzero : m.state.slot 0 = 0) (halike : Alike m n)
    {k : Nat} {c₀' : Cache} (hrun : runFrom done limit c₀ m = (.ok k, c₀', m')) :
    ∃ c₁' n', runFrom done limit c₁ n = (.ok k, c₁', n') ∧ Alike m' n' := by
  induction limit generalizing done c₀ c₁ m n with
  | zero =>
    cases hrun
    exact ⟨c₁, n, rfl, halike⟩
  | succ limit ih =>
    unfold runFrom at hrun
    rcases hcompile : c₀.compile m.state.pc with ⟨f | e₀, d₀⟩
    · rw [hcompile] at hrun
      cases hrun
    · rw [hcompile] at hrun
      obtain ⟨hmade₀, hd₀⟩ := h₀.compile hcompile
      rcases hexecute : d₀.execute e₀ m with ⟨out, m₁⟩
      simp only [hexecute] at hrun
      cases out with
      | error f => cases hrun
      | ok t =>
        obtain ⟨henters, m₂, hblock, rfl⟩ := execute_eq_ok hexecute
        rw [hd₀.host, hd₀.choice] at henters
        -- the other cache goes through the same steps
        obtain ⟨e₁, d₁, hcompile₁, hstep₁⟩ :=
          h.exists_compile haccepts h₁ hroom hstep hcompile hmade₀
        obtain ⟨hmade₁, hd₁⟩ := h₁.compile hcompile₁
        obtain ⟨n₂, hblock₁, halike₂, hzero₂⟩ :=
          h.runBlock_agrees hmade₀ hmade₁ hzero halike hblock
        have hexecute₁ :=
          execute_of_runBlock (c := d₁) (by rw [hd₁.host, hd₁.choice]; exact henters) hblock₁
        unfold runFrom
        rw [← halike.pc, hcompile₁]
        simp only [hexecute₁]
        cases t with
        | none =>
          cases hrun
          exact ⟨d₁, n₂, rfl, halike₂⟩
        | some target =>
          simp only [Option.map_some, Option.getD_some] at hrun ⊢
          have hjump := halike₂.jump target
          -- whether to go on depends on what is the same in both machines
          rw [← mayContinue_congr hjump]
          split at hrun
          · rename_i hgo
            rw [if_pos hgo]
            exact ih (m := (m₂.jump target).jump target) (done + 1) hd₀ hd₁
              (hroom.compile hcompile₁) hstep₁ hzero₂ (hjump.jump target) hrun
          · rename_i hstop
            rw [if_neg hstop]
            cases hrun
            exact ⟨d₁, n₂.jump target, rfl, hjump⟩

end Cache

/-! ## A loop that waits

The blocks of the example below need no registers, so that their code can be written down. -/

namespace Amd64

open Codegen Registers

/-- Nothing lives in a register, no value is known, and nothing has been asked for. -/
structure Quiet (e : Engine) : Prop where
  residence : ∀ s, e.residence s = .guest
  holding : ∀ r, e.holding r = none
  actions : e.actions = #[]

variable {e : Engine} {st : LowerState} {asm asm' : Assembler} {exit : Label}

theorem Quiet.beginInst (h : Quiet e) (k : Nat) : Quiet (e.beginInst k) :=
  have halike := e.alike_beginInst k
  ⟨fun s => (halike.residence s).trans (h.residence s),
    fun r => (halike.holding r).trans (h.holding r), h.actions⟩

/-- There is nothing to store. -/
theorem Quiet.yields_flushAll (h : Quiet e) : Yields flushAll e fun _ e' => e' = e := by
  have hknown : ∀ s, Yields (flushKnown s) e fun _ e' => e' = e := fun s =>
    ⟨(), e, flushKnown_of_unknown fun _ => h.residence s ▸ Residence.noConfusion, rfl⟩
  unfold flushAll
  refine yields_bind ((yields_forM (I := fun d => d = e) _ (fun s _ d hd => hd ▸ hknown s) rfl).mono
    fun _ d hd => ?_)
  unfold forHoldings
  refine yields_get (yields_forM (I := fun d => d = e) _ (fun r _ d hd => ?_) hd)
  rw [hd]
  refine yields_get ?_
  simp only [h.holding r]
  exact yields_pure rfl

/-- The engine is quiet, and this code has been laid down. -/
structure Laid (asm : Assembler) (exit : Label) (st : LowerState) : Prop where
  quiet : Quiet st.engine
  asm : st.asm = asm
  exit : st.exit = exit

theorem Laid.yields_flushAll (h : Laid asm exit st) :
    Yields (withEngine Registers.flushAll) st fun _ st' => Laid asm exit st' := by
  obtain ⟨u, e', hop, rfl⟩ := h.quiet.yields_flushAll
  have hasm : st.asm.performAll st.engine.actions = .ok st.asm := by
    rw [h.quiet.actions]
    rfl
  exact yields_withEngine hop hasm
    ⟨⟨h.quiet.residence, h.quiet.holding, rfl⟩, h.asm, h.exit⟩

theorem Laid.yields_modify {f : Assembler → Assembler} (h : Laid asm exit st) :
    Yields (modify fun st : LowerState => { st with asm := f st.asm } : LowerM Unit) st
      fun _ st' => Laid (f asm) exit st' :=
  Registers.yields_modify (P := fun _ st' => Laid (f asm) exit st')
    ⟨h.quiet, congrArg f h.asm, h.exit⟩

/-- What the instructions of a loop that waits lay down: nothing for a move of a register to itself,
one instruction to count down, and an exit. -/
def waitCode (exit : Label) (asm : Assembler) (i : Inst) (c : Word) : Assembler :=
  match i.op with
  | .downcount => asm.push (.aluMemImm .sub (stateField Guest.Layout.downcount) c)
  | .exitToConst =>
    ((asm.push (.storeImm .word (stateField Guest.Layout.pc) c)).push (moveConst rax 1)).branch none
      exit
  | _ => asm

/-- The instructions of a loop that waits. -/
inductive Waits : Inst → Prop
  | stay (r k : UInt8) : Waits ⟨.mov, r, r, k⟩
  | count (d j k : UInt8) : Waits ⟨.downcount, d, j, k⟩
  | again (d j k : UInt8) : Waits ⟨.exitToConst, d, j, k⟩

theorem Laid.yields_lowerNative {i : Inst} (hi : Waits i) (h : Laid asm exit st) (c : Word) :
    Yields (lowerNative i c) st fun _ st' => Laid (waitCode exit asm i c) exit st' := by
  cases hi with
  | stay r k =>
    show Yields (moveSlot r.toNat r.toNat) st fun _ st' => Laid asm exit st'
    unfold moveSlot
    rw [if_neg (not_not.mpr rfl)]
    exact yields_pure h
  | count d j k => exact h.yields_modify (f := fun asm => asm.push _)
  | again d j k =>
    refine yields_bind (h.yields_flushAll.mono fun _ _ h => ?_)
    refine yields_bind ((h.yields_modify (f := fun asm => asm.push _)).mono fun _ _ h => ?_)
    refine yields_bind ((h.yields_modify (f := fun asm => asm.push _)).mono fun _ _ h => ?_)
    exact Registers.yields_modify ⟨h.quiet, by rw [h.asm, h.exit]; rfl, h.exit⟩

theorem Quiet.check (h : Quiet e) : e.check = .ok () := by
  have hslot : ∀ s, e.slotFault s = none := fun s => by
    unfold Engine.slotFault
    rw [h.residence]
    rfl
  have hreg : ∀ r, e.regFault r = none := fun r => by
    unfold Engine.regFault
    rw [h.holding]
  unfold Engine.check
  rw [List.findSome?_eq_none_iff.mpr fun s _ => hslot s,
    List.findSome?_eq_none_iff.mpr fun r _ => hreg r]

/-- The code of a loop that waits. -/
theorem Laid.yields_walk (helper : UInt64) {b : Block} {insts : List Inst}
    (hi : ∀ i ∈ insts, Waits i)
    (hrange : ∀ i ∈ insts, ∀ k, i.constantIndex = some k → k.toNat < b.pool.size)
    (h : Laid asm exit st) (k : Nat) :
    Yields ((lowering helper).walk b k insts) st fun _ st' =>
      Laid (insts.foldl (fun asm i => waitCode exit asm i (b.pool.constant i)) asm) exit st' := by
  induction insts generalizing asm st k with
  | nil => exact yields_pure h
  | cons i rest ih =>
    have hwait := hi i List.mem_cons_self
    have hop : i.op ≠ .nop := by cases hwait <;> exact fun h => nomatch h
    have hnative : ((lowering helper).isNative i.op && !i.mixesLanes) = true := by
      cases hwait <;> rfl
    unfold Lowering.walk
    rw [if_neg hop]
    refine yields_bind (Registers.yields_modify ?_)
    replace h : Laid asm exit { st with engine := st.engine.beginInst k } :=
      ⟨h.quiet.beginInst k, h.asm, h.exit⟩
    refine yields_lift (Block.constantOf_eq (hrange i List.mem_cons_self)) ?_
    simp only
    rw [hnative, if_pos rfl, Pool.constant_getD]
    refine yields_bind ((h.yields_lowerNative hwait _).mono fun _ st₁ h₁ => ?_)
    refine yields_bind (yields_get (yields_except h₁.quiet.check ?_))
    refine yields_bind ((ih (fun j hj => hi j (List.mem_cons_of_mem i hj))
      (fun j hj => hrange j (List.mem_cons_of_mem i hj)) h₁ (k + 1)).mono fun _ st₂ h₂ => ?_)
    exact yields_pure h₂

/-- All that is laid down for a loop that waits. -/
def waitingAsm (b : Block) : Assembler :=
  let (exit, asm) := Assembler.newLabel {}
  let asm := asm.pushAll (prologue ++ [.mov true stateBase rdi, .mov true memoryBase rsi])
  let asm := b.insts.foldl (fun asm i => waitCode exit asm i (b.pool.constant i)) asm
  ((asm.push (.alu .xor false rax rax)).place exit).pushAll epilogue

theorem lowerItems_waiting (helper : UInt64) (s : Settings) {b : Block} (hb : b.InRange)
    (hi : ∀ i ∈ b.insts, Waits i) :
    Yields (lowerItems helper b) (initial s b) fun _ st => st.asm = waitingAsm b := by
  have hquiet : Quiet (initial s b).engine := by
    have hfresh := fresh_start (e := Engine.new host (policy s)) b.insts amd64_sane
    exact ⟨fun t => congrArg SlotState.residence (hfresh.noSlot t List.not_mem_nil),
      fun r => hfresh.noReg r List.not_mem_nil, rfl⟩
  have h : Laid (Assembler.newLabel {}).2 (Assembler.newLabel {}).1 (initial s b) :=
    ⟨hquiet, rfl, rfl⟩
  refine yields_bind ((h.yields_modify (f := fun asm => asm.pushAll _)).mono fun _ _ h => ?_)
  refine yields_bind ((h.yields_walk helper hi hb 0).mono fun _ st h => ?_)
  refine yields_bind (Registers.yields_modify ?_)
  replace h : Laid _ _ { st with engine := st.engine.releaseLocks } :=
    ⟨h.quiet.beginInst st.engine.index, h.asm, h.exit⟩
  refine yields_bind (h.yields_flushAll.mono fun _ _ h => ?_)
  refine yields_bind ((h.yields_modify (f := fun asm => asm.push _)).mono fun _ st h => ?_)
  refine yields_bind (Registers.yields_modify ?_)
  replace h : Laid _ _ { st with asm := st.asm.place st.exit } :=
    ⟨h.quiet, by rw [h.asm, h.exit], h.exit⟩
  refine yields_bind ((h.yields_modify (f := fun asm => asm.pushAll _)).mono fun _ _ h => ?_)
  exact yields_pure h.asm

theorem inBranchRange_waiting {helper : UInt64} {s : Settings} {b : Block} (hb : b.InRange)
    (hi : ∀ i ∈ b.insts, Waits i) (hsize : 15 * (waitingAsm b).items.size < 2 ^ 31) :
    InBranchRange helper s b := by
  intro lowered st hrun
  obtain ⟨_, _, hrun', hasm⟩ := lowerItems_waiting helper s hb hi
  cases hrun.symm.trans hrun'
  rw [hasm]
  exact hsize

theorem compile_waiting {assemble : Assemble} (helper : UInt64) (s : Settings) {b : Block}
    {bytes : List UInt8} (hb : b.InRange) (hi : ∀ i ∈ b.insts, Waits i)
    (hbytes : assemble (waitingAsm b).items.toList = .ok bytes) :
    ∃ compiled, compile assemble helper s b = .ok compiled ∧ compiled.code = bytes := by
  obtain ⟨lowered, st, hrun, hasm⟩ := lowerItems_waiting helper s hb hi
  have hfinish : st.asm.finish assemble = .ok bytes := by
    rw [Assembler.finish, hasm, hbytes]
    rfl
  exact ⟨_, compile_of_finish hrun hfinish, rfl⟩

/-- This assembler takes any code. -/
theorem accepts_assemble : Assemble.Accepts assemble := fun _ _ _ => ⟨_, rfl⟩

end Amd64

/-- A block that counts down and starts over. -/
def spinning : Block where
  insts := [⟨.mov, 1, 1, 0⟩, ⟨.downcount, 0, 0, 0⟩, ⟨.exitToConst, 1, 0, 0⟩]
  pool := ⟨[1, 0x1000]⟩

/-- The block without the move, which does nothing. -/
def spun : Block := { spinning with insts := spinning.insts.tail }

/-- The block as the only one of a catalog. -/
def spin : Catalog := { entries := [(0x1000, spinning)] }

/-- All passes that keep what can be observed, and one page for code. -/
def spinSettings : Settings where
  target := .amd64
  pipeline :=
    { passes := [.floatMoves, .constantPropagation, .deadWrites, .storeReload, .twoOperand] }
  useStatics := false
  codeSize := 4096

/-- A machine about to enter the block. -/
def spinStart : Machine where
  state := { pc := 0x1000, downcount := 10 }
  memory := { bytes := #[] }

/-- A process on x86-64 that runs it. -/
def spinHost : Platform := Amd64.process 0x555555554000

theorem fetch_spin {a : Word} {source : Block} (h : spin.fetch a = .ok source) :
    a = 0x1000 ∧ source = spinning := by
  unfold Catalog.fetch at h
  split at h
  · next b hb =>
    have hmem := AddressMap.mem_entries_of_get? hb
    cases List.mem_singleton.mp hmem
    have hcopy : spinning.copy = .ok spinning := by rfl
    exact ⟨rfl, Except.ok.inj (h.symm.trans hcopy)⟩
  · cases h

theorem spinning_of_spinning :
    spinSettings.plain.pipeline.run spinSettings.plain.constantCap spinning {}
      = .ok (spinning, ({} : Statistics).optimized 3 3) := by rfl

/-- Folding drops the move, which does nothing, and takes the rest over. -/
theorem fold_spinning : ConstantPropagation.run 128 spinning = .ok spun := by
  have hleave : ConstantPropagation.Folding.fold { out := ⟨[⟨.downcount, 0, 0, 0⟩], ⟨[1]⟩⟩ }
      ⟨.exitToConst, 1, 0, 0⟩ (some 0x1000) = .ok { out := spun } := by
    show (ConstantPropagation.Folding.flushAll _ >>=
      fun s => s.emit ⟨.exitToConst, 1, 0, 0⟩ (some 0x1000)) = _
    rw [ConstantPropagation.flushAll_start]
    rfl
  have hwalk : ConstantPropagation.walk spinning 130 spinning.insts {} = .ok { out := spun } := by
    unfold spinning
    rw [ConstantPropagation.walk, if_neg (by decide)]
    refine bind_eq_ok.mpr ⟨_, rfl, bind_eq_ok.mpr ⟨_, rfl, ?_⟩⟩
    rw [ConstantPropagation.walk, if_neg (by decide)]
    refine bind_eq_ok.mpr ⟨_, rfl, bind_eq_ok.mpr ⟨_, rfl, ?_⟩⟩
    rw [ConstantPropagation.walk, if_neg (by decide)]
    exact bind_eq_ok.mpr ⟨_, rfl, bind_eq_ok.mpr ⟨_, hleave, rfl⟩⟩
  exact bind_eq_ok.mpr ⟨130, rfl, bind_eq_ok.mpr ⟨_, hwalk,
    bind_eq_ok.mpr ⟨_, ConstantPropagation.flushAll_start spun, rfl⟩⟩⟩

/-- Folding is the only pass that finds something to do. -/
theorem spun_of_spinning : ∃ stats,
    spinSettings.pipeline.run spinSettings.constantCap spinning {} = .ok (spun, stats) := by
  have hmoves : Pass.floatMoves.output 128 spinning = .ok spinning := rfl
  have hdead : Pass.deadWrites.output 128 spun = .ok spun := rfl
  have hreload : Pass.storeReload.output 128 spun = .ok spun := rfl
  have hsplit : Pass.twoOperand.output 128 spun = .ok spun := rfl
  exact ⟨_, bind_eq_ok.mpr ⟨_, rfl, bind_eq_ok.mpr ⟨_, bind_eq_ok.mpr ⟨_, Pass.run_of_output hmoves,
    bind_eq_ok.mpr ⟨_, Pass.run_of_output (p := .constantPropagation) fold_spinning,
    bind_eq_ok.mpr ⟨_, Pass.run_of_output hdead, bind_eq_ok.mpr ⟨_, Pass.run_of_output hreload,
    bind_eq_ok.mpr ⟨_, Pass.run_of_output hsplit, rfl⟩⟩⟩⟩⟩, rfl⟩⟩⟩

/-- The instructions of either block wait. -/
theorem waits_spin {b : Block} (hb : b = spinning ∨ b = spun) :
    b.InRange ∧ ∀ i ∈ b.insts, Amd64.Waits i := by
  have hwaits : ∀ i ∈ spinning.insts, Amd64.Waits i := by
    intro i hi
    simp only [spinning, List.mem_cons, List.not_mem_nil, or_false] at hi
    obtain rfl | rfl | rfl := hi
    · exact .stay 1 0
    · exact .count 0 0 0
    · exact .again 1 0 0
  obtain rfl | rfl := hb
  · exact ⟨by decide, hwaits⟩
  · exact ⟨by decide, fun i hi => hwaits i (List.mem_of_mem_tail hi)⟩

/-- The code of either block takes up less than a page. -/
theorem assemble_spin {b : Block} (hb : b = spinning ∨ b = spun) :
    ∃ bytes, Amd64.assemble (Amd64.waitingAsm b).items.toList = .ok bytes ∧
      alignUp CodeBuffer.blockUnit bytes.length ≤ 4096 := by
  have h : ((Amd64.assemble (Amd64.waitingAsm b).items.toList).toOption.map fun bytes =>
      decide (alignUp CodeBuffer.blockUnit bytes.length ≤ 4096)) = some true := by
    obtain rfl | rfl := hb <;> decide
  cases hbytes : Amd64.assemble (Amd64.waitingAsm b).items.toList with
  | error reason =>
    rw [hbytes] at h
    cases h
  | ok bytes =>
    rw [hbytes] at h
    exact ⟨bytes, rfl, of_decide_eq_true (Option.some.inj h)⟩

/-- Either block compiles, and there is room for it in a page. -/
theorem codeBytes_spin (s : Settings) (htarget : s.target = .amd64) {b : Block} {stats : Statistics}
    (hrun : s.pipeline.run s.constantCap spinning {} = .ok (b, stats))
    (hb : b = spinning ∨ b = spun) :
    (∃ compiled, Codegen.compile spinHost s b = .ok compiled) ∧
      spin.codeBytes spinHost s ≤ 4096 := by
  obtain ⟨hrange, hwaits⟩ := waits_spin hb
  obtain ⟨bytes, hbytes, hlength⟩ := assemble_spin hb
  obtain ⟨compiled, hcompiled, rfl⟩ :=
    Amd64.compile_waiting spinHost.helper s hrange hwaits hbytes
  have hcompile : Codegen.compile spinHost s b = .ok compiled := by
    unfold Codegen.compile
    rw [htarget]
    exact hcompiled
  have hsum : spin.codeBytes spinHost s = spin.bytesAt spinHost s 0x1000 + 0 := rfl
  have hfetch : spin.fetch 0x1000 = .ok spinning := by rfl
  refine ⟨⟨compiled, hcompile⟩, ?_⟩
  rw [hsum, Cache.bytesAt_eq hfetch hrun hcompile]
  exact hlength

theorem spin_optimizable : spin.Optimizable spinHost spinSettings := by
  have hvalues : ∀ b ∈ spin.values, b = spinning := fun b hb => List.mem_singleton.mp hb
  refine ⟨fun b hb => ?_, fun b hb => ?_, by decide, fun a source hf => ?_, ?_⟩
  · rw [hvalues b hb]
    refine ⟨by decide, fun i hi => ?_⟩
    have hall : ∀ i ∈ spinning.insts, i.fits = true ∧ 0 ∉ i.writeSlots ∧
      (i.op = .fAdd ∨ i.op = .fMul → i.src2 = i.dest → i.src1 = i.dest) := by decide
    obtain ⟨hfits, hzero, hordered⟩ := hall i hi
    exact ⟨hfits, hzero, hordered⟩
  · rw [hvalues b hb]
    decide
  · obtain ⟨-, rfl⟩ := fetch_spin hf
    obtain ⟨stats, h⟩ := spun_of_spinning
    exact ⟨_, h⟩
  · rintro a b ⟨source, stats, hsource, hrun⟩
    obtain ⟨-, rfl⟩ := fetch_spin hsource
    obtain ⟨_, hspun⟩ := spun_of_spinning
    cases hrun.symm.trans hspun
    obtain ⟨hrange, hwaits⟩ := waits_spin (Or.inr rfl)
    exact Amd64.inBranchRange_waiting hrange hwaits (by decide)

theorem runBlock_spinning (m : Machine) :
    ∃ m', runBlock spinning.effective m = (.ok (some 0x1000), m') ∧
      m'.state.downcount = m.state.downcount - 1 ∧ m'.state.syscall = m.state.syscall :=
  ⟨_, rfl, rfl, rfl⟩

/-- A round of the loop without passes. -/
theorem spin_round {c : Cache} {m : Machine} (hf : c.Faithful spinHost spin spinSettings.plain)
    (hroom : c.Roomy) (hmapping : c.buffer.mapping = .twice) (hpc : m.state.pc = 0x1000) :
    ∃ e c' m', c.compile m.state.pc = (.ok e, c') ∧ c'.Faithful spinHost spin spinSettings.plain ∧
      c'.Roomy ∧ c'.buffer.mapping = .twice ∧ c'.execute e m = (.ok (some 0x1000), m') ∧
      m'.state.downcount = m.state.downcount - 1 ∧ m'.state.syscall = m.state.syscall := by
  obtain ⟨e, c', hcompile, hmapping'⟩ : ∃ e c', c.compile 0x1000 = (.ok e, c') ∧
      c'.buffer.mapping = .twice := by
    have hrun := spinning_of_spinning
    obtain ⟨⟨compiled, hcompiled⟩, -⟩ := codeBytes_spin spinSettings.plain rfl hrun (Or.inl rfl)
    have hsource : spin.fetch 0x1000 = .ok spinning := by rfl
    rw [← hf.source] at hsource
    rw [← hf.choice] at hrun hcompiled
    rw [← hf.host] at hcompiled
    exact hroom.exists_compile hmapping hsource hrun hcompiled
  obtain ⟨⟨source, stats, hfetch, hblock⟩, hf'⟩ := hf.compile hcompile
  obtain ⟨-, rfl⟩ := fetch_spin hfetch
  have heq : e.block = spinning :=
    (congrArg Prod.fst (Except.ok.inj (spinning_of_spinning.symm.trans hblock))).symm
  obtain ⟨m₁, hrun₁, hdowncount, hsyscall⟩ := runBlock_spinning m
  rw [← heq] at hrun₁
  refine ⟨e, c', m₁.jump 0x1000, by rw [hpc]; exact hcompile, hf', hroom.compile hcompile,
    hmapping', ?_, hdowncount, hsyscall⟩
  exact Cache.execute_of_runBlock (by rw [hf'.host, hf'.choice]; rfl) hrun₁

/-! ## Whole runs -/

namespace Cache

/-- **Optimising does not change runs.** Take a catalog and settings that go together, on any
process whose assembler takes well-formed code, and a buffer that has room for the code of all
blocks. If the run without passes succeeds, the run with them succeeds, after as many blocks, with
the same memory, program counter, downcount, system call and slots other than temporaries. -/
theorem optimized_run_agrees (p : Platform) (haccepts : p.assemble.Accepts) (catalog : Catalog)
    (s : Settings) (h : catalog.Optimizable p s) (hroom : catalog.codeBytes p s ≤ s.codeSize)
    (c₀ c₁ : Cache) (h₀ : create p catalog { s with pipeline := {} } = .ok c₀)
    (h₁ : create p catalog s = .ok c₁) (limit : Nat) (m : Machine) (hzero : m.state.slot 0 = 0)
    (k : Nat) (c₀' : Cache) (m' : Machine) (hrun : c₀.run limit m = (.ok k, c₀', m')) :
    ∃ c₁' n', c₁.run limit m = (.ok k, c₁', n') ∧ Alike m' n' :=
  runFrom_agrees h haccepts limit 0 (faithful_create h₀) (faithful_create h₁)
    (roomy_create h₁ hroom) (inStep_create h₀ h₁ rfl) hzero (AgreeBut.refl _ m) hrun

end Cache

/-- Optimising does not change the first two rounds of the loop, although it drops the move. -/
theorem optimized_run_agrees_spin : ∃ c₀ c₁ c₀' m',
    Cache.create spinHost spin spinSettings.plain = .ok c₀ ∧
    Cache.create spinHost spin spinSettings = .ok c₁ ∧ c₀.run 2 spinStart = (.ok 2, c₀', m') ∧
    ∃ c₁' n', c₁.run 2 spinStart = (.ok 2, c₁', n') ∧ Alike m' n' := by
  have hcreate : ∀ s : Settings, s.codeSize = 4096 →
      ∃ c, Cache.create spinHost spin s = .ok c ∧ c.buffer.mapping = .twice := by
    intro s hs
    unfold Cache.create
    rw [hs]
    exact ⟨_, rfl, rfl⟩
  obtain ⟨c₀, h₀, htwice₀⟩ := hcreate spinSettings.plain rfl
  obtain ⟨c₁, h₁, -⟩ := hcreate spinSettings rfl
  have hroom₀ := (codeBytes_spin spinSettings.plain rfl spinning_of_spinning (Or.inl rfl)).2
  obtain ⟨stats, hspun⟩ := spun_of_spinning
  have hroom₁ := (codeBytes_spin spinSettings rfl hspun (Or.inr rfl)).2
  obtain ⟨e₁, d₁, m₁, hcompile₁, hf₁, hr₁, htwice₁, hexecute₁, hdown₁, hsys₁⟩ :=
    spin_round (m := spinStart) (Cache.faithful_create h₀) (Cache.roomy_create h₀ hroom₀) htwice₀
      rfl
  obtain ⟨e₂, d₂, m₂, hcompile₂, hf₂, hr₂, -, hexecute₂, hdown₂, hsys₂⟩ :=
    spin_round (m := m₁.jump 0x1000) hf₁ hr₁ htwice₁ rfl
  have hgo : ∀ {m : Machine} {d : Int32}, m.state.syscall = 0 → m.state.downcount = d → 0 < d →
      Cache.mayContinue m = true := by
    intro m d hs hd hpos
    unfold Cache.mayContinue
    rw [hs, hd]
    exact decide_eq_true hpos
  have hrun : c₀.run 2 spinStart = (.ok 2, d₂, m₂.jump 0x1000) := by
    unfold Cache.run Cache.runFrom
    rw [hcompile₁]
    simp only [hexecute₁]
    rw [if_pos (hgo hsys₁ hdown₁ (by decide))]
    unfold Cache.runFrom
    rw [hcompile₂]
    simp only [hexecute₂]
    rw [if_pos (hgo (hsys₂.trans hsys₁) hdown₂ ?_)]
    · rfl
    · show (0 : Int32) < m₁.state.downcount - 1
      rw [hdown₁]
      decide
  exact ⟨c₀, c₁, _, _, h₀, h₁, hrun, Cache.optimized_run_agrees spinHost Amd64.accepts_assemble spin
    spinSettings spin_optimizable hroom₁ c₀ c₁ h₀ h₁ 2 spinStart rfl 2 _ _ hrun⟩

end Dynarec
