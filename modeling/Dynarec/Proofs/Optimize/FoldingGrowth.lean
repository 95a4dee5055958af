/-
Constant propagation among placeholders.

The fold appends to the block being built and never looks at the instructions that are already
there. `Grows x` says this of a step `x` that is started with any list of instructions: it fails or
appends, and which of the two, what it appends and what it then knows does not depend on the list.
What is appended is eligible and not a placeholder. A step that is composed as the fold is grows
(`Composed.grows`): an eligible instruction has only eligible ones appended for it, as long as only
integer slots are known.

So the fold may be followed on the block built so far without its placeholders, and there each
instruction is simulated as before. A placeholder of the block read becomes one of the block built;
all that is left of it is that everything was flushed.
-/
import Dynarec.Proofs.Optimize.FoldingSteps
import Dynarec.Proofs.Optimize.Refinement

set_option autoImplicit false

namespace Dynarec.Optimize.ConstantPropagation

open Guest

namespace Folding

/-! ## Building on another list -/

/-- The state with another list of instructions built so far. -/
def onto (s : Folding) (l : List Inst) : Folding := { s with out := { s.out with insts := l } }

/-- Only integer slots are known. -/
def Tame (s : Folding) : Prop := ∀ r : UInt8, Slot.isInteger r.toNat = false → s.value? r = none

/-- Started on any list of instructions, the step fails, or it appends the same instructions and
ends in the same state. -/
def Grows (x : List Inst → Except Fault Folding) : Prop :=
  (∃ f, ∀ l, x l = .error f) ∨
    ∃ s new, Tame s ∧ (∀ j ∈ new, Appendable j) ∧ ∀ l, x l = .ok (s.onto (l ++ new))

variable {s s' t : Folding} {i : Inst} {p : Inst × Option Word}
  {v? : Option Word} {l : List (Inst × Option Word)} {k : Folding → Except Fault Folding}

/-- What a step that grows has done. -/
theorem Grows.spec (h : Grows fun l => k (s.onto l)) (hk : k s = .ok s') :
    Tame s' ∧ ∃ new, (∀ j ∈ new, Appendable j) ∧
      s'.out.insts = s.out.insts ++ new ∧ ∀ l, k (s.onto l) = .ok (s'.onto (l ++ new)) := by
  rcases h with ⟨f, hf⟩ | ⟨t, new, ht, hnew, hok⟩
  · exact nomatch hk.symm.trans (hf s.out.insts)
  · have hs' : s' = t.onto (s.out.insts ++ new) := Except.ok.inj (hk.symm.trans (hok s.out.insts))
    rw [hs']
    exact ⟨ht, new, hnew, rfl, hok⟩

/-! ## Appending -/

/-- Appending depends on the pool only. -/
theorem pushWith_uniform (p : Pool) (i : Inst) (c? : Option Word) :
    (∃ f, ∀ l, Block.pushWith ⟨l, p⟩ i c? = .error f) ∨
      ∃ j p', Resembles i j ∧ ∀ l, Block.pushWith ⟨l, p⟩ i c? = .ok ⟨l ++ [j], p'⟩ := by
  cases c? with
  | none => exact Or.inr ⟨i, p, Resembles.refl i, fun _ => rfl⟩
  | some c =>
    have hpush : ∀ l, Block.pushWith ⟨l, p⟩ i (some c) = (p.intern c >>= fun q =>
        i.setConstantIndex q.1 >>= fun j => .ok ⟨l ++ [j], q.2⟩) :=
      fun l => Block.pushWith_some ⟨l, p⟩ i c
    cases hk : p.intern c with
    | error f => exact Or.inl ⟨f, fun l => by rw [hpush, hk]; rfl⟩
    | ok q =>
      cases hf : i.op.constField? with
      | none =>
        have hset : i.setConstantIndex q.1 = .error (.violation (.noConstantOperand i.op)) := by
          rw [Inst.setConstantIndex, hf]
          rfl
        refine Or.inl ⟨.violation (.noConstantOperand i.op), fun l => ?_⟩
        rw [hpush, hk]
        show (i.setConstantIndex q.1 >>= fun j => .ok (Block.mk (l ++ [j]) q.2)) = _
        rw [hset]
        rfl
      | some f =>
        have hset : i.setConstantIndex q.1 = .ok (i.setField f q.1) := by
          rw [Inst.setConstantIndex, hf]
        refine Or.inr ⟨i.setField f q.1, q.2, Or.inr ⟨f, q.1, hf, rfl⟩, fun l => ?_⟩
        rw [hpush, hk]
        show (i.setConstantIndex q.1 >>= fun j => .ok (Block.mk (l ++ [j]) q.2)) = _
        rw [hset]
        rfl

/-- Appending several instructions depends on the pool only, and adds instructions like them. -/
theorem pushAll_uniform (hl : ∀ q ∈ l, Appendable q.1) (pool : Pool) :
    (∃ f, ∀ is, Block.pushAll ⟨is, pool⟩ l = .error f) ∨
      ∃ new pool', (∀ j ∈ new, Appendable j) ∧
        ∀ is, Block.pushAll ⟨is, pool⟩ l = .ok ⟨is ++ new, pool'⟩ := by
  induction l generalizing pool with
  | nil =>
    refine Or.inr ⟨[], pool, fun _ hj => absurd hj List.not_mem_nil, fun is => ?_⟩
    rw [List.append_nil]
    rfl
  | cons q l ih =>
    obtain ⟨hq, hl⟩ := List.forall_mem_cons.mp hl
    rcases pushWith_uniform pool q.1 q.2 with ⟨f, hf⟩ | ⟨j, pool₁, hj, hok⟩
    · exact Or.inl ⟨f, fun is => by rw [Block.pushAll_cons, hf]; rfl⟩
    · have hcons : ∀ is, Block.pushAll ⟨is, pool⟩ (q :: l) = Block.pushAll ⟨is ++ [j], pool₁⟩ l :=
        fun is => by rw [Block.pushAll_cons, hok]; rfl
      rcases ih hl pool₁ with ⟨f, hf⟩ | ⟨new, pool', hnew, hall⟩
      · exact Or.inl ⟨f, fun is => (hcons is).trans (hf _)⟩
      · have happendable : Appendable j := ⟨hj.eligible hq.1, by rw [hj.op]; exact hq.2⟩
        refine Or.inr ⟨j :: new, pool', List.forall_mem_cons.mpr ⟨happendable, hnew⟩, fun is => ?_⟩
        rw [hcons, hall, List.append_assoc]
        rfl

/-! ## Knowledge -/

theorem tame_forget (hs : Tame s) (r : UInt8) : Tame (s.forget r) := by
  intro q hq
  by_cases hr : r = 0
  · rw [forget, if_pos hr]
    exact hs q hq
  · rw [value?_forget hr]
    split
    · rfl
    · exact hs q hq

theorem tame_learn (hs : Tame s) {r : UInt8} (hr : Slot.isInteger r.toNat = true) (w : Word) :
    Tame (s.learn r w) := by
  intro q hq
  by_cases hr0 : r = 0
  · rw [learn, if_pos hr0]
    exact hs q hq
  · rw [value?_learn hr0, if_neg]
    · exact hs q hq
    · rintro rfl
      cases hr.symm.trans hq

/-- A register set to a constant. -/
theorem eligible_setConst {r : UInt8} (hr : r ≠ 0) (hint : Slot.isInteger r.toNat = true) :
    Eligible { op := .setConst, dest := r } := by
  refine ⟨Inst.fits_iff.mpr ⟨hint, rfl, rfl⟩, fun h0 => hr ?_, fun hop => ?_⟩
  · exact UInt8.toNat_inj.mp (List.mem_singleton.mp h0).symm
  · rcases hop with h | h <;> cases h

/-- Only integer slots are known afterwards, and what was appended for an instruction may be. -/
theorem Did.tame (h : Did p v? s l t) (hp : Appendable p.1) (hs : Tame s) :
    Tame t ∧ ∀ q ∈ l, Appendable q.1 := by
  induction h with
  | nothing s => exact ⟨hs, List.forall_mem_nil _⟩
  | andThen _ _ ih ih' =>
    obtain ⟨ht, hl⟩ := ih hs
    obtain ⟨hu, hl'⟩ := ih' ht
    exact ⟨hu, List.forall_mem_append.mpr ⟨hl, hl'⟩⟩
  | learn s hr => exact ⟨tame_learn hs (hr hp) _, List.forall_mem_nil _⟩
  | forget s r => exact ⟨tame_forget hs r, List.forall_mem_nil _⟩
  | setDrop s drop => exact ⟨hs, List.forall_mem_nil _⟩
  | append s hq => exact ⟨hs, List.forall_mem_singleton.mpr (hq.appendable hp)⟩
  | @flush s r w hr hw =>
    -- what is flushed is known, so it is the value of an integer slot
    have hint : Slot.isInteger r.toNat = true := by
      by_contra hn
      exact nomatch hw.symm.trans (hs r (Bool.eq_false_iff.mpr hn))
    exact ⟨hs, List.forall_mem_singleton.mpr ⟨eligible_setConst hr hint, nofun⟩⟩

/-! ## Steps that grow -/

/-- **A step that is composed as the fold is grows.** -/
theorem Composed.grows (h : Composed p v? s fun b => k (s.on b)) (hp : Appendable p.1)
    (hs : Tame s) : Grows fun is => k (s.onto is) := by
  obtain ⟨l, t, hdid, hk⟩ := h
  obtain ⟨ht, hl⟩ := hdid.tame hp hs
  have honto : ∀ is, k (s.onto is) =
      Block.pushAll ⟨is, s.out.pool⟩ l >>= fun b => .ok (t.on b) := fun is => hk ⟨is, s.out.pool⟩
  rcases pushAll_uniform hl s.out.pool with ⟨f, hf⟩ | ⟨new, pool, hnew, hok⟩
  · exact Or.inl ⟨f, fun is => (honto is).trans (by rw [hf]; rfl)⟩
  · exact Or.inr ⟨t.on ⟨[], pool⟩, new, ht, hnew, fun is => (honto is).trans (by rw [hok]; rfl)⟩

theorem grows_flushAll (hs : Tame s) : Grows fun is => (s.onto is).flushAll := by
  have h : Composed ({ op := .exitToConst }, none) none s fun b => (s.on b).flushAll :=
    composed_flushAll
  exact h.grows appendable_exit hs

/-- **One instruction.** -/
theorem grows_fold (hs : Tame s) (hi : Eligible i) (hop : i.op ≠ .nop) (c? : Option Word) :
    Grows fun is => (s.onto is).fold i c? := by
  obtain ⟨_, h⟩ := composed_fold s i c?
  exact h.grows (k := fun s => s.fold i c?) ⟨hi, hop⟩ hs

/-! ## Without placeholders -/

/-- The state without the placeholders in the block built so far. -/
def swept (s : Folding) : Folding := s.onto (sweep s.out.insts)

/-- A step that grows does the same without placeholders. -/
theorem Grows.swept (h : Grows fun l => k (s.onto l)) (hk : k s = .ok s') :
    (Tame s' ∧ ((∀ j ∈ s.out.insts, Eligible j) → ∀ j ∈ s'.out.insts, Eligible j))
      ∧ k s.swept = .ok s'.swept := by
  obtain ⟨hs', new, hnew, hinsts, hl⟩ := h.spec hk
  refine ⟨⟨hs', fun hall j hj => ?_⟩, ?_⟩
  · rw [hinsts] at hj
    exact (List.mem_append.mp hj).elim (hall j) fun hj => (hnew j hj).1
  · have hsweep : sweep s'.out.insts = sweep s.out.insts ++ new := by
      rw [hinsts, sweep_append, sweep_eq_self fun j hj => (hnew j hj).2]
    rw [Folding.swept, hl, Folding.swept, hsweep]

theorem swept_push_nop (hop : i.op = .nop) : (s.push i).swept = s.swept :=
  congrArg (fun b => { s with out := b }) (push_effective_nop hop)

/-- A placeholder flushes everything and is passed on. -/
theorem fold_nop (hop : i.op = .nop) (h : s.fold i none = .ok s') :
    ∃ t, s.flushAll = .ok t ∧ s' = t.push i := by
  obtain ⟨op, dest, src1, src2⟩ := i
  cases hop
  obtain ⟨t, ht, h⟩ := bind_eq_ok.mp h
  exact ⟨t, ht, (Except.ok.inj h).symm⟩

end Folding

open Folding

variable {s : Folding} {source b b' : Block} {i : Inst}

/-- Instructions are taken over without their placeholders. -/
theorem appendAll_effective (is : List Inst) (h : b.appendAll source is = .ok b') :
    b.effective.appendAll source (sweep is) = .ok b'.effective := by
  induction is generalizing b with
  | nil =>
    cases pure_eq_ok.mp h
    rfl
  | cons i is ih =>
    obtain ⟨b₁, h₁, h⟩ := bind_eq_ok.mp h
    by_cases hop : i.op = .nop
    · rw [sweep_cons_nop hop, ← append_effective_nop hop h₁]
      exact ih h
    · rw [sweep_cons hop]
      exact bind_eq_ok.mpr ⟨b₁.effective, append_effective hop h₁, ih h⟩

theorem eligible_appendAll {is : List Inst} (h : b.appendAll source is = .ok b')
    (hi : ∀ i ∈ is, Eligible i) (hb : ∀ j ∈ b.insts, Eligible j) : ∀ j ∈ b'.insts, Eligible j := by
  obtain ⟨js, hjs, hinsts⟩ := appendAll_insts is h
  intro j hj
  rw [hinsts] at hj
  exact (List.mem_append.mp hj).elim (hb j) (eligible_of_resembles hjs hi j)

/-- **The walk among placeholders.** What is built from the instructions still to come runs, without
its placeholders, as they do without theirs. -/
theorem simulates_walk_swept {limit : Nat} {s₁ s₂ : Folding} (insts : List Inst)
    (hi : ∀ i ∈ insts, Eligible i)
    (hrange : ∀ i ∈ insts, ∀ k, i.constantIndex = some k → k.toNat < source.pool.size)
    (hs : Tame s) (hall : ∀ j ∈ s.out.insts, Eligible j)
    (h : walk source limit insts s = .ok s₁) (hlast : s₁.flushAll = .ok s₂) :
    (∀ j ∈ s₂.out.insts, Eligible j) ∧
      s.swept.out.Simulates s₂.swept.out (Related s.swept) Eq
        (runCode (source.pool.resolve (sweep insts))) := by
  induction insts generalizing s with
  | nil =>
    cases h
    obtain ⟨⟨-, hall₂⟩, hlast'⟩ := (grows_flushAll hs).swept hlast
    obtain ⟨hflush, hsync⟩ := flushed_flushAll hlast'
    refine ⟨hall₂ hall, hflush.then (Block.Simulates.of_silent fun m n hR => ⟨m, rfl, ?_⟩)⟩
    exact (hR.eq_of_synced hsync).symm
  | cons i insts ih =>
    rw [walk] at h
    split at h
    · -- the pool is large: everything is flushed, so the last flush has nothing to do
      obtain ⟨s₃, h₃, h⟩ := bind_eq_ok.mp h
      obtain ⟨b, hb, h⟩ := bind_eq_ok.mp h
      obtain ⟨⟨-, hall₃⟩, h₃'⟩ := (grows_flushAll hs).swept h₃
      obtain ⟨hflush, hsync⟩ := flushed_flushAll h₃'
      have hsync₁ : ∀ r, s₁.Synced r := by
        rw [← pure_eq_ok.mp h]
        exact hsync
      rw [flushAll_of_synced hsync₁] at hlast
      cases hlast
      rw [← pure_eq_ok.mp h]
      refine ⟨eligible_appendAll hb hi (hall₃ hall), hflush.then ?_⟩
      exact simulates_appendAll (s := s₃.swept) (sweep (i :: insts)) hsync
        (fun j hj => hrange j (mem_of_mem_sweep hj).1) (appendAll_effective _ hb)
    · obtain ⟨c?, hc, h⟩ := bind_eq_ok.mp h
      obtain ⟨s₃, h₃, h⟩ := bind_eq_ok.mp h
      rw [Block.constantOf_eq (hrange i List.mem_cons_self)] at hc
      have hrest := fun hs₃ hall₃ => ih (s := s₃) (fun j hj => hi j (List.mem_cons_of_mem i hj))
        (fun j hj => hrange j (List.mem_cons_of_mem i hj)) hs₃ hall₃ h
      by_cases hop : i.op = .nop
      · -- all that is left of a placeholder is the flush before it
        rw [constantIndex_nop hop] at hc
        cases hc
        obtain ⟨t, ht, rfl⟩ := fold_nop hop h₃
        obtain ⟨⟨htame, hall'⟩, ht'⟩ := (grows_flushAll hs).swept ht
        obtain ⟨heligible, hsim⟩ :=
          hrest htame (eligible_append rfl (hi i List.mem_cons_self) (hall' hall))
        rw [swept_push_nop hop] at hsim
        rw [sweep_cons_nop hop]
        exact ⟨heligible, (flushed_flushAll ht').1.then hsim⟩
      · -- the fold does not look at what is built, so it may be followed without placeholders
        obtain ⟨⟨htame, hall'⟩, h₃'⟩ :=
          (grows_fold hs (hi i List.mem_cons_self) hop c?).swept (k := fun s => s.fold i c?) h₃
        obtain ⟨heligible, hsim⟩ := hrest htame (hall' hall)
        refine ⟨heligible, ?_⟩
        rw [sweep_cons hop]
        have hfold : s.swept.Simulates s₃.swept (step i (source.pool.constant i)) := by
          rw [← source.pool.constant_getD i, Except.ok.inj hc]
          refine simulates_fold (hi i List.mem_cons_self) ?_ h₃'
          rw [← Except.ok.inj hc, Option.map_eq_none_iff]
        exact hfold.trans hsim

/-- **Constant propagation changes nothing**, placeholders left aside. -/
theorem run_refines {cap : Nat} (hb : Admissible b) (h : run cap b = .ok b') :
    Admissible b' ∧ Refines b b' := by
  obtain ⟨limit, -, h⟩ := bind_eq_ok.mp h
  obtain ⟨s₁, h₁, h⟩ := bind_eq_ok.mp h
  obtain ⟨s₂, h₂, h⟩ := bind_eq_ok.mp h
  rw [← pure_eq_ok.mp h]
  have hstart : ∀ m : Machine, m.state.slot 0 = 0 → Related {} m m := fun m => related_start
  have htame : Tame {} := (hstart ⟨{}, ⟨#[]⟩⟩ (Vector.getElem_replicate (by decide))).float
  obtain ⟨heligible, hsim⟩ := simulates_walk_swept b.insts hb.eligible hb.inRange htame
    (fun j hj => absurd hj List.not_mem_nil) h₁ h₂
  exact refines_of_simulates hb.inRange heligible hstart (fun m n hmn => hmn) hsim

end Dynarec.Optimize.ConstantPropagation
