/-
The passes that look at one or two instructions are exact, and once is enough.

What such a pass appends does what the instruction does from the same machine to the same machine
(`Rewrites`), so a block that ends without a fault ends in the same machine after the pass, with no
slot excepted. No operand has to be of the right class for this: an instruction that names a
register outside the file fails, and from there on nothing is promised.

A second run has nothing to do. Each pass rewrites an instruction because of the one that it emitted
last, or because of its own operands, and leaves an output in which no neighbours and no single
instruction ask for another rewriting (`Finished`). Dropping an instruction does not make new
neighbours of that kind, since the instruction that is remembered stays the one emitted last. A run
over such a block takes over every instruction, and a block whose pool is in order of first use is
its own copy.
-/
import Dynarec.Proofs.Optimize.CanonicalPools
import Dynarec.Proofs.Optimize.LocalRewrites
import Mathlib.Data.List.Chain

set_option autoImplicit false

namespace Dynarec

open Guest

variable {source b b' : Block} {i j : Inst}

/-! ## Taking an instruction over -/

/-- A block under construction whose constants all come from another block. -/
structure Block.Grows (source b : Block) : Prop where
  tidy : b.Tidy
  drawn : source.pool.Drawn b.pool

theorem Block.grows_empty (source : Block) : Block.Grows source {} :=
  ⟨Block.tidy_empty, List.nodup_nil, fun _ hv => absurd hv List.not_mem_nil⟩

/-- The instruction comes with the constant that it has in the other block. -/
theorem Block.code_append (hb : b.Tidy)
    (hi : ∀ k, i.constantIndex = some k → k.toNat < source.pool.size)
    (h : b.append source i = .ok b') :
    ∃ j, Optimize.Resembles i j ∧ b'.code = b.code ++ [(j, source.pool.constant i)] := by
  obtain ⟨c?, hc, hp⟩ := bind_eq_ok.mp h
  rw [Block.constantOf_eq hi] at hc
  cases hc
  cases hindex : i.constantIndex with
  | none =>
    rw [hindex] at hp
    cases hp
    have hcode := code_of_grown (b.push i) [] i hb.inRange (List.append_nil _).symm rfl
    refine ⟨i, Optimize.Resembles.refl i, ?_⟩
    simpa [Pool.constant, hindex] using hcode
  | some l =>
    rw [hindex, Option.map_some] at hp
    obtain ⟨f, k, pool, hf, hk, rfl⟩ := pushWith_eq_ok hp
    obtain ⟨-, hget, more, hmore⟩ := Pool.intern_spec hb.bounded hk
    refine ⟨i.setField f k, Or.inr ⟨f, k, hf, rfl⟩, ?_⟩
    have hconst : pool.constant (i.setField f k) = source.pool.constant i := by
      rw [Pool.constant, constantIndex_setField hf, Option.bind_some, hget, Option.getD_some]
    have hcode := code_of_grown { insts := b.insts ++ [i.setField f k], pool := pool } more
      (i.setField f k) hb.inRange hmore rfl
    rwa [hconst] at hcode

/-- Taking an instruction over succeeds. -/
theorem Block.Grows.append (hb : Block.Grows source b)
    (hi : ∀ k, i.constantIndex = some k → k.toNat < source.pool.size) :
    ∃ b' j, b.append source i = .ok b' ∧ Block.Grows source b' ∧ Optimize.Resembles i j
      ∧ b'.code = b.code ++ [(j, source.pool.constant i)] := by
  obtain ⟨b', hb', hdrawn⟩ := Block.append_ok hb.drawn hi
  obtain ⟨j, hij, hcode⟩ := Block.code_append hb.tidy hi hb'
  obtain ⟨c?, hc, hp⟩ := bind_eq_ok.mp hb'
  rw [Block.constantOf_eq hi] at hc
  cases hc
  exact ⟨b', j, hb', ⟨(Block.emits_pushWith_constant hb.tidy hp).tidy, hdrawn⟩, hij, hcode⟩

/-- The instructions of a block, read off its code. -/
theorem Block.insts_eq (b : Block) : b.insts = b.code.map Prod.fst := by
  rw [Block.code, Pool.resolve, List.map_map]
  exact (List.map_id _).symm

namespace Optimize

/-! ## Loops -/

section Loops

variable {σ : Type} {B : σ → Block} {P : σ → Machine → Prop} {f : σ → Inst → Except Fault σ}
  {s s' : σ} {m m' : Machine} {t : Option Word}

/-- A loop succeeds when each round does and keeps up what the next one needs. -/
theorem foldlM_ok {I : σ → Prop} (insts : List Inst)
    (hstep : ∀ i ∈ insts, ∀ s, I s → ∃ s', f s i = .ok s' ∧ I s') (hs : I s) :
    ∃ s', insts.foldlM f s = .ok s' ∧ I s' := by
  induction insts generalizing s with
  | nil => exact ⟨s, rfl, hs⟩
  | cons i rest ih =>
    obtain ⟨s₁, h₁, hs₁⟩ := hstep i List.mem_cons_self s hs
    obtain ⟨s', h', hs'⟩ := ih (fun j hj => hstep j (List.mem_cons_of_mem i hj)) hs₁
    exact ⟨s', bind_eq_ok.mpr ⟨s₁, h₁, h'⟩, hs'⟩

/-- A loop copies when each round takes its instruction over. -/
theorem foldlM_copies {I : σ → List Inst → Prop} (insts : List Inst)
    (hstep : ∀ s i rest b, I s (i :: rest) → (B s).append source i = .ok b →
      ∃ s', f s i = .ok s' ∧ B s' = b ∧ I s' rest)
    (hs : I s insts) (h : (B s).appendAll source insts = .ok b') :
    ∃ s', insts.foldlM f s = .ok s' ∧ B s' = b' := by
  induction insts generalizing s with
  | nil => exact ⟨s, rfl, pure_eq_ok.mp h⟩
  | cons i rest ih =>
    obtain ⟨b₁, h₁, h⟩ := bind_eq_ok.mp h
    obtain ⟨s₁, hs₁, rfl, hI⟩ := hstep s i rest b₁ hs h₁
    obtain ⟨s', hs', hb'⟩ := ih hI h
    exact ⟨s', bind_eq_ok.mpr ⟨s₁, hs₁, hs'⟩, hb'⟩

/-- A block that ends without a fault ends in the same machine after a pass that rewrites one
instruction at a time. -/
theorem runBlock_of_foldlM {I : σ → Prop} (hb : b.InRange) (hB : B s = {}) (hs : I s) (hP : P s m)
    (hstep : ∀ i ∈ b.insts, ∀ s s', I s → f s i = .ok s' →
      I s' ∧ Rewrites b i (P s) (P s') (B s) (B s'))
    (h : b.insts.foldlM f s = .ok s') (hm : runBlock b m = (.ok t, m')) :
    runBlock (B s') m = (.ok t, m') := by
  obtain ⟨-, hsim⟩ := simulates_foldlM (g := fun i => step i (b.pool.constant i)) b.insts
    (fun i hi u u' hu huu' => by
      obtain ⟨hu', hone⟩ := hstep i hi u u' hu huu'
      exact ⟨hu', hone.simulates (hb i hi)⟩) hs h
  rw [runAll_step, hB] at hsim
  rw [runBlock_eq_runCode hb] at hm
  exact runBlock_of_simulates hsim ⟨rfl, hP⟩ (fun m n hmn => hmn.1) hm

end Loops

/-! ## Forwarded floats -/

namespace FloatMoves

variable {p p' : Progress}

/-- The second instruction does not read back what the first has copied. -/
def Apart (x y : Inst) : Prop := forwarded? (some x) y = none

/-- Forwarding looks at nothing that a pool position could change. -/
theorem apart_resembles {x x' y y' : Inst} (hx : Resembles x x') (hy : Resembles y y')
    (h : Apart x y) : Apart x' y' := by
  have hfields : ∀ {i j : Inst}, Resembles i j →
      i.op = .fMovFromGPR ∨ i.op = .fMovToGPR → j = i := by
    rintro i j (rfl | ⟨f, k, hf, -⟩) hop
    · rfl
    · rcases hop with hop | hop <;> rw [hop] at hf <;> exact nomatch hf
  unfold Apart forwarded? at h ⊢
  simp only [ite_eq_right_iff, reduceCtorEq, imp_false, not_and] at h ⊢
  intro hy' hx'
  rw [hy.op] at hy'
  rw [hx.op] at hx'
  rw [hfields hx (Or.inr hx'), hfields hy (Or.inl hy')]
  exact h hy' hx'

/-- What has been built needs no further forwarding, and the last instruction is remembered. -/
structure Finished (source : Block) (p : Progress) : Prop where
  grows : Block.Grows source p.out
  chain : p.out.code.IsChain fun x y => Apart x.1 y.1
  last : ∀ x ∈ p.out.code.getLast?, ∃ q, p.last = some q ∧ Resembles q x.1

theorem finished_emit (hp : Finished source p)
    (hi : ∀ k, i.constantIndex = some k → k.toNat < source.pool.size)
    (happart : ∀ q, p.last = some q → Apart q i) :
    ∃ p', p.emit source i = .ok p' ∧ Finished source p' := by
  obtain ⟨out, j, hout, hgrows, hij, hcode⟩ := hp.grows.append hi
  refine ⟨{ out := out, last := some i }, bind_eq_ok.mpr ⟨out, hout, rfl⟩, hgrows, ?_, ?_⟩
  · show out.code.IsChain _
    rw [hcode, List.isChain_append]
    refine ⟨hp.chain, List.isChain_singleton _, fun x hx y hy => ?_⟩
    obtain ⟨q, hq, hqx⟩ := hp.last x hx
    obtain rfl : (j, source.pool.constant i) = y := by simpa using hy
    exact apart_resembles hqx hij (happart q hq)
  · show ∀ x ∈ out.code.getLast?, _
    rw [hcode, List.getLast?_concat]
    rintro _ ⟨⟩
    exact ⟨i, rfl, hij⟩

theorem finished_step (hp : Finished source p)
    (hi : ∀ k, i.constantIndex = some k → k.toNat < source.pool.size) :
    ∃ p', FloatMoves.step source p i = .ok p' ∧ Finished source p' := by
  unfold FloatMoves.step
  split
  · next f hf =>
    split
    · exact ⟨p, rfl, hp⟩
    · -- a move between float registers reads nothing back
      refine finished_emit hp (fun k hk => nomatch hk) fun q _ => ?_
      simp [Apart, forwarded?]
  · next hnone =>
    refine finished_emit hp hi fun q hq => ?_
    rwa [hq] at hnone

/-- A run over instructions of which none reads its predecessor back takes them over. -/
theorem run_copies (hchain : b.insts.IsChain Apart) (hcopy : b.copy = .ok b) : run b = .ok b := by
  obtain ⟨p, hp, hout⟩ := foldlM_copies (B := Progress.out) (f := FloatMoves.step b)
    (I := fun p rest => (p.last.toList ++ rest).IsChain Apart) (s := {}) b.insts
    (fun p i rest out hrest hout => by
      have hnone : forwarded? p.last i = none := by
        cases hlast : p.last with
        | none => rfl
        | some q =>
          rw [hlast] at hrest
          exact (List.isChain_cons_cons.mp hrest).1
      refine ⟨{ out := out, last := some i }, ?_, rfl, hrest.suffix (List.suffix_append _ _)⟩
      unfold FloatMoves.step
      rw [hnone]
      exact bind_eq_ok.mpr ⟨out, hout, rfl⟩) hchain hcopy
  exact bind_eq_ok.mpr ⟨p, hp, congrArg Except.ok hout⟩

/-- The pass succeeds and leaves its output alone. -/
theorem run_ok (hb : b.InRange) : ∃ out, run b = .ok out ∧ run out = .ok out := by
  obtain ⟨p, hp, hfinished⟩ := foldlM_ok (f := FloatMoves.step b) (I := Finished b) (s := {})
    b.insts (fun i hi p hp => finished_step hp (hb i hi))
    ⟨Block.grows_empty b, List.isChain_nil, (fun _ hx => nomatch hx)⟩
  have hrun : run b = .ok p.out := bind_eq_ok.mpr ⟨p, hp, rfl⟩
  have hcanonical : p.out.Canonical := builds_floatMoves b p.out hrun
  refine ⟨p.out, hrun, run_copies ?_ hcanonical.copy_eq⟩
  rw [Block.insts_eq, List.isChain_map]
  exact hfinished.chain

theorem run_exact (hb : b.InRange) (h : run b = .ok b') {m m' : Machine} {t : Option Word}
    (hm : runBlock b m = (.ok t, m')) : runBlock b' m = (.ok t, m') := by
  obtain ⟨p, hp, hout⟩ := bind_eq_ok.mp h
  rw [← pure_eq_ok.mp hout]
  exact runBlock_of_foldlM (I := fun _ => True) (P := Copied) (s := {}) hb rfl trivial
    (fun q hq => nomatch hq) (fun i _ p p' _ hstep => ⟨trivial, rewrites_step hstep⟩) hp hm

end FloatMoves

/-! ## Split arithmetic -/

namespace TwoOperand

/-- Splitting looks at nothing that a pool position could change. -/
theorem split?_resembles (hij : Resembles i j) (h : split? i = none) : split? j = none := by
  rcases hij with rfl | ⟨f, k, hf, rfl⟩
  · exact h
  · obtain ⟨op, dest, src1, src2⟩ := i
    cases op <;> cases hf <;> rfl

/-- Neither a move nor an update in place is split. -/
theorem split?_split {move update : Inst} (h : split? i = some (move, update)) :
    split? move = none ∧ split? update = none := by
  obtain ⟨op, hop, -, -, -, rfl, rfl⟩ := split?_eq_some h
  constructor
  · rcases moveFor?_cases hop with ⟨rfl, -⟩ | ⟨rfl, -⟩ <;> rfl
  · unfold split?
    split
    · exact if_neg fun hne => hne.1 rfl
    · rfl

theorem finished_step (hb : Block.Grows source b)
    (hi : ∀ k, i.constantIndex = some k → k.toNat < source.pool.size)
    (hsplit : ∀ j ∈ b.insts, split? j = none) :
    ∃ b', TwoOperand.step source b i = .ok b' ∧ Block.Grows source b'
      ∧ ∀ j ∈ b'.insts, split? j = none := by
  have hpush : ∀ (c : Block) (j : Inst), (∀ j ∈ c.insts, split? j = none) → split? j = none →
      ∀ x ∈ (c.push j).insts, split? x = none := fun c j hc hj =>
    List.forall_mem_append.mpr ⟨hc, List.forall_mem_singleton.mpr hj⟩
  unfold TwoOperand.step
  split
  · next move update hsome =>
    obtain ⟨-, -, hmc, huc⟩ := split?_plain hsome
    obtain ⟨hmove, hupdate⟩ := split?_split hsome
    have hgrows : ∀ (c : Block) (j : Inst), Block.Grows source c → j.constantIndex = none →
        Block.Grows source (c.push j) := fun c j hc hj =>
      ⟨(Block.emits_push hc.tidy hj).tidy, hc.drawn⟩
    exact ⟨_, rfl, hgrows _ _ (hgrows _ _ hb hmc) huc, hpush _ _ (hpush _ _ hsplit hmove) hupdate⟩
  · next hnone =>
    obtain ⟨b', j, hb', hgrows, hij, hcode⟩ := hb.append hi
    refine ⟨b', hb', hgrows, ?_⟩
    rw [Block.insts_eq, hcode, List.map_append, ← Block.insts_eq]
    exact List.forall_mem_append.mpr
      ⟨hsplit, List.forall_mem_singleton.mpr (split?_resembles hij hnone)⟩

/-- A run over instructions that are not split takes them over. -/
theorem run_copies (hsplit : ∀ i ∈ b.insts, split? i = none) (hcopy : b.copy = .ok b) :
    run b = .ok b := by
  obtain ⟨out, hout, rfl⟩ := foldlM_copies (B := id) (f := TwoOperand.step b)
    (I := fun _ rest => ∀ i ∈ rest, split? i = none) (s := {}) b.insts
    (fun c i rest out hrest hout => by
      obtain ⟨hi, hrest⟩ := List.forall_mem_cons.mp hrest
      refine ⟨out, ?_, rfl, hrest⟩
      unfold TwoOperand.step
      rw [hi]
      exact hout) hsplit hcopy
  exact hout

/-- The pass succeeds and leaves its output alone. -/
theorem run_ok (hb : b.InRange) : ∃ out, run b = .ok out ∧ run out = .ok out := by
  obtain ⟨out, hrun, -, hsplit⟩ := foldlM_ok (f := TwoOperand.step b)
    (I := fun c => Block.Grows b c ∧ ∀ j ∈ c.insts, split? j = none) (s := {}) b.insts
    (fun i hi c hc => finished_step hc.1 (hb i hi) hc.2)
    ⟨Block.grows_empty b, fun _ hj => absurd hj List.not_mem_nil⟩
  have hcanonical : out.Canonical := builds_twoOperand b out hrun
  exact ⟨out, hrun, run_copies hsplit hcanonical.copy_eq⟩

theorem run_exact (hb : b.InRange) (h : run b = .ok b') {m m' : Machine} {t : Option Word}
    (hm : runBlock b m = (.ok t, m')) : runBlock b' m = (.ok t, m') :=
  runBlock_of_foldlM (B := id) (I := fun _ => True) (P := fun _ _ => True) hb rfl trivial trivial
    (fun _ _ _ _ _ hstep => ⟨trivial, rewrites_step hstep⟩) h hm

end TwoOperand

/-! ## Dropped reloads -/

namespace StoreReload

variable {p p' : Progress}

/-- The second instruction does not reload what the first stores. -/
def Apart (x y : Inst × Word) : Prop :=
  ¬(reload? x.1.op = some y.1.op ∧ y.1.dest = x.1.dest ∧ y.1.src1 = x.1.src1 ∧ y.2 = x.2)

/-- Watched stores and their loads keep their registers where their constant moves. -/
theorem registers_resembles (hij : Resembles i j)
    (h : (reload? i.op).isSome = true ∨ ∃ s : Inst, reload? s.op = some i.op) :
    j.dest = i.dest ∧ j.src1 = i.src1 := by
  rcases hij with rfl | ⟨f, k, hf, rfl⟩
  · exact ⟨rfl, rfl⟩
  · obtain ⟨op, dest, src1, src2⟩ := i
    rcases h with h | ⟨⟨op', _, _, _⟩, h⟩
    · cases op <;> cases h <;> cases hf <;> exact ⟨rfl, rfl⟩
    · cases op' <;> cases h <;> cases hf <;> exact ⟨rfl, rfl⟩

theorem apart_resembles {x y x' y' : Inst} (hx : Resembles x x') (hy : Resembles y y')
    (h : ¬Reload source x y) : Apart (x', source.pool.constant x) (y', source.pool.constant y) := by
  rintro ⟨hop, hdest, hsrc, hconst⟩
  rw [hx.op, hy.op] at hop
  obtain ⟨hxd, hxs⟩ := registers_resembles hx (Or.inl (by rw [hop]; rfl))
  obtain ⟨hyd, hys⟩ := registers_resembles hy (Or.inr ⟨x, hop⟩)
  exact h ⟨hop, hyd ▸ hxd ▸ hdest, hys ▸ hxs ▸ hsrc, hconst⟩

/-- What has been built holds no reload, and a store at its end is watched. -/
structure Finished (source : Block) (p : Progress) : Prop where
  grows : Block.Grows source p.out
  watches : Watches source p
  chain : p.out.code.IsChain Apart
  last : ∀ x ∈ p.out.code.getLast?, (reload? x.1.op).isSome = true →
    ∃ s, p.store = some s ∧ Resembles s x.1 ∧ x.2 = source.pool.constant s

theorem finished_emit (hp : Finished source p)
    (hi : ∀ k, i.constantIndex = some k → k.toNat < source.pool.size)
    (happart : ∀ s, p.store = some s → ¬Reload source s i) :
    ∃ p', p.emit source i = .ok p' ∧ Finished source p' := by
  obtain ⟨out, j, hout, hgrows, hij, hcode⟩ := hp.grows.append hi
  have hemit : p.emit source i
      = .ok { out := out, store := if (reload? i.op).isSome then some i else none } :=
    bind_eq_ok.mpr ⟨out, hout, rfl⟩
  refine ⟨_, hemit, hgrows, (rewrites_emit hi hemit).1, ?_, ?_⟩
  · show out.code.IsChain _
    rw [hcode, List.isChain_append]
    refine ⟨hp.chain, List.isChain_singleton _, fun x hx y hy => ?_⟩
    obtain rfl : (j, source.pool.constant i) = y := by simpa using hy
    by_cases hwatched : (reload? x.1.op).isSome = true
    · obtain ⟨s, hs, hsx, hxs⟩ := hp.last x hx hwatched
      have h := apart_resembles hsx hij (happart s hs)
      rwa [← hxs] at h
    · -- what is no watched store has no reload
      rintro ⟨hop, -⟩
      exact hwatched (Option.isSome_of_eq_some hop)
  · show ∀ x ∈ out.code.getLast?, _
    rw [hcode, List.getLast?_concat]
    rintro _ ⟨⟩ hwatched
    rw [hij.op] at hwatched
    exact ⟨i, if_pos hwatched, hij, rfl⟩

theorem finished_step (hp : Finished source p)
    (hi : ∀ k, i.constantIndex = some k → k.toNat < source.pool.size) :
    ∃ p', StoreReload.step source p i = .ok p' ∧ Finished source p' := by
  unfold StoreReload.step
  split
  · next hnone =>
    refine finished_emit hp hi fun s hs => ?_
    rw [hnone] at hs
    exact nomatch hs
  · next s hs =>
    rw [isReload_eq (hp.watches s hs) hi]
    by_cases hreload : Reload source s i
    · rw [decide_eq_true hreload]
      exact ⟨p, rfl, hp⟩
    · rw [decide_eq_false hreload]
      refine finished_emit hp hi fun s' hs' => ?_
      rw [hs] at hs'
      cases hs'
      exact hreload

/-- A run over instructions without reloads takes them over. -/
theorem run_copies (hb : b.InRange) (hchain : b.insts.IsChain fun x y => ¬Reload b x y)
    (hcopy : b.copy = .ok b) : run b = .ok b := by
  obtain ⟨p, hp, hout⟩ := foldlM_copies (B := Progress.out) (f := StoreReload.step b)
    (I := fun p rest => (∀ i ∈ p.store.toList ++ rest, i ∈ b.insts) ∧
      (p.store.toList ++ rest).IsChain fun x y => ¬Reload b x y) (s := {}) b.insts
    (fun p i rest out hrest hout => by
      obtain ⟨hmem, hrest⟩ := hrest
      have hi : i ∈ b.insts := hmem i (by simp)
      have hstep : StoreReload.step b p i = p.emit b i := by
        unfold StoreReload.step
        split
        · rfl
        · next s hs =>
          rw [hs] at hrest hmem
          rw [isReload_eq (hb s (hmem s (by simp))) (hb i hi),
            decide_eq_false (List.isChain_cons_cons.mp hrest).1]
          rfl
      refine ⟨_, hstep.trans (bind_eq_ok.mpr ⟨out, hout, rfl⟩), rfl, ?_⟩
      have hsuffix : ((if (reload? i.op).isSome then some i else none).toList ++ rest)
          <:+ p.store.toList ++ i :: rest := by
        refine List.IsSuffix.trans ?_ (List.suffix_append _ _)
        split
        · exact List.suffix_rfl
        · exact List.suffix_cons i rest
      exact ⟨fun j hj => hmem j (hsuffix.subset hj), hrest.suffix hsuffix⟩)
    ⟨fun i hi => hi, hchain⟩ hcopy
  exact bind_eq_ok.mpr ⟨p, hp, congrArg Except.ok hout⟩

/-- The pass succeeds and leaves its output alone. -/
theorem run_ok (hb : b.InRange) : ∃ out, run b = .ok out ∧ run out = .ok out := by
  obtain ⟨p, hp, hfinished⟩ := foldlM_ok (f := StoreReload.step b) (I := Finished b) (s := {})
    b.insts (fun i hi p hp => finished_step hp (hb i hi))
    ⟨Block.grows_empty b, (fun _ hs => nomatch hs), List.isChain_nil, (fun _ hx => nomatch hx)⟩
  have hrun : run b = .ok p.out := bind_eq_ok.mpr ⟨p, hp, rfl⟩
  have hcanonical : p.out.Canonical := builds_storeReload b p.out hrun
  refine ⟨p.out, hrun, run_copies hcanonical.inRange ?_ hcanonical.copy_eq⟩
  have hchain := hfinished.chain
  rw [Block.code, Pool.resolve, List.isChain_map] at hchain
  exact hchain

theorem run_exact (hb : b.InRange) (h : run b = .ok b') {m m' : Machine} {t : Option Word}
    (hm : runBlock b m = (.ok t, m')) : runBlock b' m = (.ok t, m') := by
  obtain ⟨p, hp, hout⟩ := bind_eq_ok.mp h
  rw [← pure_eq_ok.mp hout]
  exact runBlock_of_foldlM (I := Watches b) (P := Stored b) (s := {}) hb rfl
    (fun s hs => nomatch hs) (fun s hs => nomatch hs)
    (fun i hi p p' hp hstep => rewrites_step hp (hb i hi) hstep) hp hm

end StoreReload

/-! ## The three passes -/

/-- **The passes that look at one or two instructions are exact and idempotent.** On a block with
in-range positions each of them succeeds. Where the block ends without a fault its output ends in
the same way and in the same machine: every slot, the control words and the memory. A run over the
output gives the output back and reports no change. -/
theorem local_passes_exact :
    ∀ p ∈ [Pass.floatMoves, .twoOperand, .storeReload], ∀ (cap : Nat) (b : Block), b.InRange →
      ∃ out changed, p.run cap b = .ok (out, changed) ∧
        (∀ m t m', runBlock b m = (.ok t, m') → runBlock out m = (.ok t, m')) ∧
        p.run cap out = .ok (out, false) := by
  intro p hp cap b hb
  have hof : ∀ out, p.output cap b = .ok out → p.output cap out = .ok out →
      (∀ m t m', runBlock b m = (.ok t, m') → runBlock out m = (.ok t, m')) →
      ∃ out changed, p.run cap b = .ok (out, changed) ∧
        (∀ m t m', runBlock b m = (.ok t, m') → runBlock out m = (.ok t, m')) ∧
        p.run cap out = .ok (out, false) := fun out hout hagain hexact =>
    ⟨out, out != b, Pass.run_of_output hout, hexact, Pass.run_unchanged_iff.mpr hagain⟩
  simp only [List.mem_cons, List.not_mem_nil, or_false] at hp
  rcases hp with rfl | rfl | rfl
  · obtain ⟨out, hout, hagain⟩ := FloatMoves.run_ok hb
    exact hof out hout hagain fun m t m' hm => FloatMoves.run_exact hb hout hm
  · obtain ⟨out, hout, hagain⟩ := TwoOperand.run_ok hb
    exact hof out hout hagain fun m t m' hm => TwoOperand.run_exact hb hout hm
  · obtain ⟨out, hout, hagain⟩ := StoreReload.run_ok hb
    exact hof out hout hagain fun m t m' hm => StoreReload.run_exact hb hout hm

/-- A block that each of the passes changes. A float comes back twice from its integer copy, and a
reload is there twice. -/
theorem local_passes_exact_block :
    let b : Block := ⟨[⟨.fMovToGPR, 5, 3, 0⟩, ⟨.fMovFromGPR, 3, 5, 0⟩, ⟨.fMovFromGPR, 4, 5, 0⟩,
      ⟨.fAdd, 6, 3, 4⟩, ⟨.store32, 1, 2, 0⟩, ⟨.load32, 1, 2, 0⟩, ⟨.load32, 1, 2, 0⟩,
      ⟨.exitToConst, 0, 0, 0⟩], ⟨[64]⟩⟩
    let forwarded : Block := ⟨[⟨.fMovToGPR, 5, 3, 0⟩, ⟨.fMov, 4, 3, 0⟩, ⟨.fAdd, 6, 3, 4⟩,
      ⟨.store32, 1, 2, 0⟩, ⟨.load32, 1, 2, 0⟩, ⟨.load32, 1, 2, 0⟩, ⟨.exitToConst, 0, 0, 0⟩], ⟨[64]⟩⟩
    let split : Block := ⟨[⟨.fMovToGPR, 5, 3, 0⟩, ⟨.fMov, 4, 3, 0⟩, ⟨.fMov, 6, 3, 0⟩, ⟨.fAdd, 6, 6, 4⟩,
      ⟨.store32, 1, 2, 0⟩, ⟨.load32, 1, 2, 0⟩, ⟨.load32, 1, 2, 0⟩, ⟨.exitToConst, 0, 0, 0⟩], ⟨[64]⟩⟩
    let dropped : Block := ⟨[⟨.fMovToGPR, 5, 3, 0⟩, ⟨.fMov, 4, 3, 0⟩, ⟨.fMov, 6, 3, 0⟩,
      ⟨.fAdd, 6, 6, 4⟩, ⟨.store32, 1, 2, 0⟩, ⟨.exitToConst, 0, 0, 0⟩], ⟨[64]⟩⟩
    (b.InRange ∧ Pass.floatMoves.run 0 b = .ok (forwarded, true) ∧
      Pass.floatMoves.run 0 forwarded = .ok (forwarded, false)) ∧
    (forwarded.InRange ∧ Pass.twoOperand.run 0 forwarded = .ok (split, true) ∧
      Pass.twoOperand.run 0 split = .ok (split, false)) ∧
    (split.InRange ∧ Pass.storeReload.run 0 split = .ok (dropped, true) ∧
      Pass.storeReload.run 0 dropped = .ok (dropped, false)) ∧
    ∀ m t m', runBlock b m = (.ok t, m') → runBlock dropped m = (.ok t, m') := by
  intro b forwarded split dropped
  have hb : b.InRange := by decide
  have hforwarded : forwarded.InRange := by decide
  have hsplit : split.InRange := by decide
  have h₁ : Pass.floatMoves.run 0 b = .ok (forwarded, true) := by decide
  have h₂ : Pass.twoOperand.run 0 forwarded = .ok (split, true) := by decide
  have h₃ : Pass.storeReload.run 0 split = .ok (dropped, true) := by decide
  obtain ⟨_, _, hrun₁, hexact₁, hagain₁⟩ := local_passes_exact .floatMoves (by decide) 0 b hb
  obtain ⟨_, _, hrun₂, hexact₂, hagain₂⟩ := local_passes_exact .twoOperand (by decide) 0 _ hforwarded
  obtain ⟨_, _, hrun₃, hexact₃, hagain₃⟩ := local_passes_exact .storeReload (by decide) 0 _ hsplit
  obtain ⟨rfl, -⟩ := Prod.mk.inj (Except.ok.inj (h₁.symm.trans hrun₁))
  obtain ⟨rfl, -⟩ := Prod.mk.inj (Except.ok.inj (h₂.symm.trans hrun₂))
  obtain ⟨rfl, -⟩ := Prod.mk.inj (Except.ok.inj (h₃.symm.trans hrun₃))
  refine ⟨⟨hb, h₁, hagain₁⟩, ⟨hforwarded, h₂, hagain₂⟩, ⟨hsplit, h₃, hagain₃⟩, fun m t m' hm => ?_⟩
  exact hexact₃ m t m' (hexact₂ m t m' (hexact₁ m t m' hm))

end Optimize

end Dynarec
