/-
Pools hold what is used, once, in order of first use.

A block is canonical if its pool is the list of the constants that its instructions resolve to, each
kept where it first occurs. Every block that the library builds grows from the empty block by
appending one instruction at a time together with its constant, and each such step keeps a block
canonical: the constant is found in the pool or comes behind all others. It remains to see that no
function appends in another way. `Builds` says of a computation that it leaves a canonical block;
the rules for sequences and loops carry it through the passes and the reader. Constant propagation
is the only pass with emissions of its own: what its fold is composed of are such steps too.

A canonical block is its own copy.
-/
import Dynarec.Optimize.Pipeline
import Dynarec.Proofs.Listing.Copies
import Dynarec.Proofs.Listing.LineByLine
import Dynarec.Proofs.Optimize.FoldingSteps

set_option autoImplicit false
set_option maxRecDepth 2048

namespace Dynarec

/-! ## Canonical blocks -/

/-- The pool of a block is what its instructions use. -/
structure Block.Canonical (b : Block) : Prop where
  /-- There is a position for every constant. -/
  size_le : b.pool.size ≤ Pool.capacity
  /-- No constant is held twice. -/
  nodup : b.pool.values.Nodup
  /-- Every position that an instruction names is one of the pool. -/
  inRange : b.InRange
  /-- Every constant is the operand of an instruction. -/
  used : ∀ c ∈ b.pool.values, ∃ i ∈ b.insts, b.pool.constant? i = some c
  /-- The pool is the list of the operands without repetitions. -/
  firstUse : b.pool.values = b.constants.eraseDups

namespace Block

variable {b b' source : Block} {i : Inst} {c : Word} {c? : Option Word}

theorem canonical_of_firstUse (hsize : b.pool.size ≤ Pool.capacity) (hrange : b.InRange)
    (hpool : b.pool.values = b.constants.eraseDups) : b.Canonical := by
  refine ⟨hsize, hpool ▸ nodup_eraseDups _, hrange, fun c hc => ?_, hpool⟩
  rw [hpool, List.mem_eraseDups] at hc
  exact List.mem_filterMap.mp hc

theorem canonical_empty : ({} : Block).Canonical :=
  canonical_of_firstUse (Nat.zero_le _) (fun _ hi => absurd hi List.not_mem_nil) rfl

/-- A canonical block is its own copy. -/
theorem Canonical.copy_eq (hb : b.Canonical) : b.copy = .ok b := by
  rw [copy_eq_ok hb.inRange, taken_eq_self hb.firstUse]

theorem constantIndex_eq_none (hi : i.op.constField? = none) : i.constantIndex = none := by
  rw [Inst.constantIndex, hi]
  rfl

/-! ## Appending one instruction -/

theorem Canonical.push (hb : b.Canonical) (hi : i.constantIndex = none) : (b.push i).Canonical := by
  refine canonical_of_firstUse hb.size_le (fun j hj k hk => ?_) ?_
  · rcases List.mem_append.mp hj with hj | hj
    · exact hb.inRange j hj k hk
    · rw [List.mem_singleton.mp hj, hi] at hk
      exact nomatch hk
  · have hnone : b.pool.constant? i = none := by rw [Pool.constant?, hi]; rfl
    show b.pool.values = ((b.insts ++ [i]).filterMap b.pool.constant?).eraseDups
    rw [List.filterMap_append, List.filterMap_cons, hnone, List.filterMap_nil, List.append_nil]
    exact hb.firstUse

/-- A constant that is interned comes behind all others, unless it is there already. -/
theorem values_intern {p p' : Pool} {k : UInt8} (h : p.intern c = .ok (k, p')) :
    p'.values = if c ∈ p.values then p.values else p.values ++ [c] := by
  unfold Pool.intern at h
  split at h
  · next j hj =>
    cases h
    exact (if_pos (List.isSome_idxOf?.mp (by rw [hj]; rfl))).symm
  · next hnone =>
    split at h
    · exact nomatch h
    · cases h
      exact (if_neg (List.idxOf?_eq_none_iff.mp hnone)).symm

theorem constant?_of_append {p p' : Pool} {more : List Word} (h : p'.values = p.values ++ more)
    (hi : ∀ k, i.constantIndex = some k → k.toNat < p.size) : p'.constant? i = p.constant? i := by
  unfold Pool.constant?
  cases hk : i.constantIndex with
  | none => rfl
  | some k => rw [Option.bind_some, Option.bind_some, h, List.getElem?_append_left (hi k hk)]

/-- **Appending an instruction keeps a block canonical.** -/
theorem Canonical.pushWith (hb : b.Canonical) (hi : c? = none → i.op.constField? = none)
    (h : b.pushWith i c? = .ok b') : b'.Canonical := by
  cases c? with
  | none =>
    rw [← Except.ok.inj h]
    exact hb.push (constantIndex_eq_none (hi rfl))
  | some c =>
    obtain ⟨f, k, pool, hf, hk, rfl⟩ := pushWith_eq_ok h
    obtain ⟨hsize, hget, more, hmore⟩ := Pool.intern_spec hb.size_le hk
    have hindex := constantIndex_setField hf k
    -- the pool only grows, so positions that were in range still are
    have hrange : InRange { insts := b.insts ++ [i.setField f k], pool := pool } := by
      intro j hj k' hk'
      rcases List.mem_append.mp hj with hj | hj
      · have hlt := hb.inRange j hj k' hk'
        simp only [Pool.size, hmore, List.length_append] at hlt ⊢
        omega
      · rw [List.mem_singleton.mp hj, hindex] at hk'
        cases hk'
        exact (List.getElem?_eq_some_iff.mp hget).1
    -- the operands are those of before and the new constant
    have hconstants : constants { insts := b.insts ++ [i.setField f k], pool := pool } =
        b.constants ++ [c] := by
      have hold : b.insts.filterMap pool.constant? = b.constants :=
        List.filterMap_congr fun j hj => constant?_of_append hmore (hb.inRange j hj)
      have hnew : pool.constant? (i.setField f k) = some c := by
        rw [Pool.constant?, hindex, Option.bind_some, hget]
      show (b.insts ++ [i.setField f k]).filterMap pool.constant? = _
      rw [List.filterMap_append, hold, List.filterMap_cons, hnew, List.filterMap_nil]
    refine canonical_of_firstUse hsize hrange ?_
    rw [hconstants, eraseDups_concat]
    show pool.values = _
    rw [values_intern hk, hb.firstUse]
    simp only [List.mem_eraseDups]

theorem constantOf_eq_none (h : source.constantOf i = .ok none) : i.op.constField? = none := by
  cases hf : i.op.constField? with
  | none => rfl
  | some f =>
    rw [constantOf, Inst.constantIndex, hf] at h
    simp only [Option.map_some] at h
    cases hget : source.pool.get (i.field f) <;> rw [hget] at h <;> cases h

theorem Canonical.append (hb : b.Canonical) (h : b.append source i = .ok b') : b'.Canonical := by
  obtain ⟨c?, hc, hpush⟩ := bind_eq_ok.mp h
  refine hb.pushWith (fun hnone => ?_) hpush
  rw [hnone] at hc
  exact constantOf_eq_none hc

end Block

/-! ## Computations that leave a canonical block -/

/-- Whatever the computation gives, the block in it is canonical. -/
def Builds {α : Type} (block : α → Block) (x : Except Fault α) : Prop :=
  ∀ a, x = .ok a → (block a).Canonical

section Builds

variable {α β ι : Type} {block : α → Block} {block' : β → Block} {x : Except Fault α}

theorem builds_ok {a : α} (h : (block a).Canonical) : Builds block (.ok a) := by
  rintro _ ⟨⟩
  exact h

theorem builds_bind {f : α → Except Fault β} (hx : Builds block x)
    (hf : ∀ a, (block a).Canonical → Builds block' (f a)) : Builds block' (x >>= f) := by
  intro b hb
  obtain ⟨a, ha, hb⟩ := bind_eq_ok.mp hb
  exact hf a (hx a ha) b hb

/-- A computation that builds nothing, and then one that does. -/
theorem builds_after {f : α → Except Fault β} (hf : ∀ a, Builds block' (f a)) :
    Builds block' (x >>= f) := by
  intro b hb
  obtain ⟨a, -, hb⟩ := bind_eq_ok.mp hb
  exact hf a b hb

theorem builds_foldlM {step : α → ι → Except Fault α}
    (hstep : ∀ a i, (block a).Canonical → Builds block (step a i)) (l : List ι) {a : α}
    (ha : (block a).Canonical) : Builds block (l.foldlM step a) := by
  induction l generalizing a with
  | nil => exact builds_ok ha
  | cons i l ih => exact builds_bind (hstep a i ha) fun a' ha' => ih ha'

theorem builds_pushWith {b : Block} {i : Inst} {c? : Option Word} (hb : b.Canonical)
    (hi : c? = none → i.op.constField? = none) : Builds id (b.pushWith i c?) :=
  fun _ h => hb.pushWith hi h

theorem builds_appendAll {b source : Block} (hb : b.Canonical) (is : List Inst) :
    Builds id (b.appendAll source is) :=
  builds_foldlM (fun _ _ ha _ h => ha.append h) is hb

end Builds

/-! ## Constant propagation -/

namespace Optimize.ConstantPropagation.Folding

variable {s t : Folding} {i : Inst} {p : Inst × Option Word} {c? v? : Option Word}
  {l : List (Inst × Option Word)} {k : Folding → Except Fault Folding}

/-- Only the block that is built matters, not what is known besides. -/
theorem builds_out {x : Except Fault Block} (hx : Builds id x) (t : Folding) :
    Builds Folding.out (x >>= fun b => .ok { t with out := b }) :=
  builds_bind hx fun _ hb => builds_ok hb

/-- Whatever is appended for an instruction that comes with its constant comes with its own. -/
theorem Did.filled (h : Did p v? s l t) (hp : Filled p) : ∀ q ∈ l, Filled q := by
  induction h with
  | nothing | learn | forget | setDrop => exact List.forall_mem_nil _
  | andThen _ _ ih ih' => exact List.forall_mem_append.mpr ⟨ih, ih'⟩
  | append s hq => exact List.forall_mem_singleton.mpr (hq.filled hp)
  | flush => exact List.forall_mem_singleton.mpr nofun

theorem builds_pushAll {b : Block} (hl : ∀ q ∈ l, Filled q) (hb : b.Canonical) :
    Builds id (b.pushAll l) := by
  induction l generalizing b with
  | nil => exact builds_ok hb
  | cons q l ih =>
    obtain ⟨hq, hl⟩ := List.forall_mem_cons.mp hl
    rw [Block.pushAll_cons]
    exact builds_bind (builds_pushWith hb hq) fun _ hb => ih hl hb

/-- **A step that is composed as the fold is leaves a canonical block.** -/
theorem Composed.builds (h : Composed p v? s fun b => k (s.on b)) (hp : Filled p)
    (hs : s.out.Canonical) : Builds Folding.out (k s) := by
  obtain ⟨l, t, hdid, hk⟩ := h
  have hs' : k s = s.out.pushAll l >>= fun b => .ok (t.on b) := hk s.out
  rw [hs']
  exact builds_out (builds_pushAll (hdid.filled hp) hs) t

theorem builds_flush (r : UInt8) (hs : s.out.Canonical) : Builds Folding.out (s.flush r) := by
  have h : Composed ({ op := .nop }, none) none s fun b => (s.on b).flush r := composed_flush r
  exact h.builds (k := fun s => s.flush r) (fun _ => rfl) hs

theorem builds_flushes (rs : List UInt8) (hs : s.out.Canonical) :
    Builds Folding.out (rs.foldlM flush s) :=
  builds_foldlM (fun _ r hs => builds_flush r hs) rs hs

/-- **One instruction.** -/
theorem builds_fold (hs : s.out.Canonical) (hi : c? = none → i.op.constField? = none) :
    Builds Folding.out (s.fold i c?) := by
  obtain ⟨_, h⟩ := composed_fold s i c?
  exact h.builds (k := fun s => s.fold i c?) hi hs

end Optimize.ConstantPropagation.Folding

namespace Optimize

/-- The instructions still to come. -/
theorem ConstantPropagation.builds_walk (source : Block) (limit : Nat) (is : List Inst)
    {s : Folding} (hs : s.out.Canonical) : Builds Folding.out (walk source limit is s) := by
  induction is generalizing s with
  | nil => exact builds_ok hs
  | cons i is ih =>
    unfold walk
    split
    · exact builds_bind (Folding.builds_flushes _ hs) fun t ht =>
        Folding.builds_out (builds_appendAll ht _) t
    · intro s' hs'
      obtain ⟨c?, hc, hs'⟩ := bind_eq_ok.mp hs'
      refine builds_bind (Folding.builds_fold hs fun hnone => ?_) (fun t ht => ih ht) s' hs'
      rw [hnone] at hc
      exact Block.constantOf_eq_none hc

theorem builds_constantPropagation (cap : Nat) (b : Block) :
    Builds id (ConstantPropagation.run cap b) :=
  builds_after fun limit =>
    builds_bind (ConstantPropagation.builds_walk b limit b.insts Block.canonical_empty) fun _ hs =>
      builds_bind (ConstantPropagation.Folding.builds_flushes _ hs) fun _ ht => builds_ok ht

/-! ## The other passes -/

theorem builds_floatMoves (b : Block) : Builds id (FloatMoves.run b) := by
  have hemit : ∀ (p : FloatMoves.Progress) (i : Inst), p.out.Canonical →
      Builds FloatMoves.Progress.out (p.emit b i) := fun p i hp =>
    builds_bind (fun _ h => hp.append h) fun out hout => builds_ok hout
  have hstep : ∀ (p : FloatMoves.Progress) (i : Inst), p.out.Canonical →
      Builds FloatMoves.Progress.out (FloatMoves.step b p i) := by
    intro p i hp
    unfold FloatMoves.step
    repeat' split
    · exact builds_ok hp
    · exact hemit p _ hp
    · exact hemit p _ hp
  exact builds_bind (builds_foldlM hstep b.insts Block.canonical_empty) fun p hp => builds_ok hp

theorem builds_storeReload (b : Block) : Builds id (StoreReload.run b) := by
  have hemit : ∀ (p : StoreReload.Progress) (i : Inst), p.out.Canonical →
      Builds StoreReload.Progress.out (p.emit b i) := fun p i hp =>
    builds_bind (fun _ h => hp.append h) fun out hout => builds_ok hout
  have hstep : ∀ (p : StoreReload.Progress) (i : Inst), p.out.Canonical →
      Builds StoreReload.Progress.out (StoreReload.step b p i) := by
    intro p i hp
    unfold StoreReload.step
    split
    · exact hemit p i hp
    · refine builds_after fun reload => ?_
      split
      · exact builds_ok hp
      · exact hemit p i hp
  exact builds_bind (builds_foldlM hstep b.insts Block.canonical_empty) fun p hp => builds_ok hp

/-- What an instruction is split into has no constant. -/
theorem constField?_split {i move update : Inst} (h : TwoOperand.split? i = some (move, update)) :
    move.op.constField? = none ∧ update.op.constField? = none := by
  obtain ⟨op, dest, src1, src2⟩ := i
  unfold TwoOperand.split? at h
  split at h
  · next form hform =>
    split at h
    · cases h
      cases op <;> cases hform <;> exact ⟨rfl, rfl⟩
    · exact nomatch h
  · exact nomatch h

theorem builds_twoOperand (b : Block) : Builds id (TwoOperand.run b) := by
  have hstep : ∀ (out : Block) (i : Inst), out.Canonical → Builds id (TwoOperand.step b out i) := by
    intro out i hout
    unfold TwoOperand.step
    split
    · next move update hsplit =>
      obtain ⟨hmove, hupdate⟩ := constField?_split hsplit
      exact builds_ok ((hout.push (Block.constantIndex_eq_none hmove)).push
        (Block.constantIndex_eq_none hupdate))
    · exact fun _ h => hout.append h
  exact builds_foldlM hstep b.insts Block.canonical_empty

/-- **Every pass leaves a canonical block.** -/
theorem builds_output (p : Pass) (cap : Nat) (b : Block) : Builds id (p.output cap b) := by
  cases p with
  | floatMoves => exact builds_floatMoves b
  | constantPropagation => exact builds_constantPropagation cap b
  | deadWrites => exact builds_appendAll Block.canonical_empty _
  | narrowLoads => exact builds_after fun _ => builds_appendAll Block.canonical_empty _
  | twoOperand => exact builds_twoOperand b
  | storeReload => exact builds_storeReload b

/-! ### A pass and its report of a change -/

theorem Pass.run_of_output {p : Pass} {cap : Nat} {b out : Block} (h : p.output cap b = .ok out) :
    p.run cap b = .ok (out, out != b) :=
  bind_eq_ok.mpr ⟨out, h, rfl⟩

theorem Pass.run_unchanged_iff {p : Pass} {cap : Nat} {b : Block} :
    p.run cap b = .ok (b, false) ↔ p.output cap b = .ok b := by
  constructor
  · intro h
    obtain ⟨out, hout, h⟩ := bind_eq_ok.mp h
    obtain ⟨rfl, -⟩ := Prod.mk.inj (pure_eq_ok.mp h)
    exact hout
  · intro h
    rw [run_of_output h, bne_self_eq_false]

end Optimize

/-! ## The reader -/

namespace Listing

/-- Every block read so far is canonical. -/
def AllCanonical (blocks : Module) : Prop := ∀ p ∈ blocks, p.2.Canonical

variable {blocks blocks' : Module}

theorem canonical_pushItem {b b' : Block} {op : Opcode} {d s1 s2 : Word} (hb : b.Canonical)
    (h : pushItem b op d s1 s2 = .ok b') : b'.Canonical := by
  unfold pushItem at h
  split at h
  · next hnone =>
    cases h
    exact hb.push (Block.constantIndex_eq_none hnone)
  all_goals exact hb.pushWith (by nofun) h

theorem canonical_addItem {item : Item} (hb : AllCanonical blocks)
    (h : addItem blocks item = .ok blocks') : AllCanonical blocks' := by
  cases item with
  | header addr =>
    cases h
    exact List.forall_mem_cons.mpr ⟨Block.canonical_empty, hb⟩
  | inst op d s1 s2 =>
    cases blocks with
    | nil =>
      obtain ⟨b, hpush, h⟩ := bind_eq_ok.mp h
      cases h
      exact List.forall_mem_cons.mpr ⟨canonical_pushItem Block.canonical_empty hpush, hb⟩
    | cons p rest =>
      obtain ⟨hp, hrest⟩ := List.forall_mem_cons.mp hb
      obtain ⟨b, hpush, h⟩ := bind_eq_ok.mp h
      cases h
      exact List.forall_mem_cons.mpr ⟨canonical_pushItem hp hpush, hrest⟩

theorem canonical_readLine {k : Nat} {line : List Char} (hb : AllCanonical blocks)
    (h : readLine blocks k line = .ok blocks') : AllCanonical blocks' := by
  by_cases hblank : readLineEnd line = .ok ()
  · rw [readLine_blank k hblank] at h
    cases h
    exact hb
  · rw [readLine_item k hblank] at h
    obtain ⟨⟨item, rest⟩, -, h⟩ := bind_eq_ok.mp h
    obtain ⟨blocks₁, hadd, h⟩ := bind_eq_ok.mp h
    obtain ⟨_, -, h⟩ := bind_eq_ok.mp h
    cases h
    exact canonical_addItem hb hadd

theorem canonical_readLines {k : Nat} (lines : List (List Char)) (hb : AllCanonical blocks)
    (h : readLines blocks k lines = .ok blocks') : AllCanonical blocks' := by
  induction lines generalizing blocks k with
  | nil =>
    cases h
    exact hb
  | cons line lines ih =>
    obtain ⟨blocks₁, hline, h⟩ := bind_eq_ok.mp h
    exact ih (canonical_readLine hb hline) h

theorem canonical_parseModule {text : String} (h : parseModule text = .ok blocks) :
    AllCanonical blocks := by
  rw [parseModule_eq_readLines] at h
  cases hread : readLines [] 1 (Text.terminatedLines text.toList) with
  | error fault =>
    rw [hread] at h
    exact nomatch h
  | ok read =>
    rw [hread] at h
    cases h
    intro p hp
    exact canonical_readLines _ (List.forall_mem_nil _) hread p (List.mem_reverse.mp hp)

end Listing

/-! ## Every block that is built -/

/-- **Pools stay canonical.** The copy of a block in range, the output of every pass and every block
of a listing have a pool of at most 256 different constants, all in range and all used, in order of
first use. Copying such a block gives the block back. -/
theorem Optimize.pools_canonical :
    (∀ b : Block, b.InRange → ∃ out, b.copy = .ok out ∧ out.Canonical ∧ out.copy = .ok out) ∧
      (∀ (p : Pass) (cap : Nat) (b out : Block), p.output cap b = .ok out →
        out.Canonical ∧ out.copy = .ok out) ∧
      ∀ (text : String) (blocks : Listing.Module), Listing.parseModule text = .ok blocks →
        ∀ p ∈ blocks, p.2.Canonical ∧ p.2.copy = .ok p.2 := by
  refine ⟨fun b hb => ?_, fun p cap b out hout => ?_, fun text blocks hread p hp => ?_⟩
  · have hcopy := Block.copy_eq_ok hb
    have hout : (b.taken b.insts).Canonical :=
      builds_appendAll Block.canonical_empty b.insts _ hcopy
    exact ⟨_, hcopy, hout, hout.copy_eq⟩
  · have hcanonical : out.Canonical := builds_output p cap b out hout
    exact ⟨hcanonical, hcanonical.copy_eq⟩
  · have hcanonical := Listing.canonical_parseModule hread p hp
    exact ⟨hcanonical, hcanonical.copy_eq⟩

/-- A pool with a repetition, an unused entry and the wrong order, before and after. -/
theorem Optimize.pools_canonical_reordered :
    let b : Block :=
      ⟨[{ op := .setConst, dest := 4, src1 := 3 }, { op := .addConst, dest := 5, src1 := 6, src2 := 1 },
        { op := .store32, dest := 4, src1 := 5, src2 := 0 }], ⟨[7, 7, 9, 5]⟩⟩
    let out : Block :=
      ⟨[{ op := .addConst, dest := 5, src1 := 6, src2 := 0 }, { op := .setConst, dest := 4, src1 := 1 },
        { op := .store32, dest := 4, src1 := 5, src2 := 0 }], ⟨[7, 5]⟩⟩
    b.InRange ∧ (∃ c, b.copy = .ok c ∧ c.Canonical ∧ c.copy = .ok c) ∧
      Pass.constantPropagation.output defaultCap b = .ok out ∧ out.Canonical ∧ out.copy = .ok out ∧
      ∃ blocks, Listing.parseModule "AddConst r5, r6, 7\nblock 4:\n" = .ok blocks ∧
        ∀ p ∈ blocks, p.2.Canonical ∧ p.2.copy = .ok p.2 := by
  intro b out
  have hb : b.InRange := by
    intro i hi k hk
    simp only [b, List.mem_cons, List.not_mem_nil, or_false] at hi
    obtain rfl | rfl | rfl := hi <;> cases hk <;> decide
  have hout : Pass.constantPropagation.output defaultCap b = .ok out := by
    show ConstantPropagation.run defaultCap b = _
    rw [← ConstantPropagation.runTable_eq]
    decide
  have hread : Listing.parseModule "AddConst r5, r6, 7\nblock 4:\n" =
      .ok [(0, ⟨[{ op := .addConst, dest := 5, src1 := 6, src2 := 0 }], ⟨[7]⟩⟩), (4, {})] := by
    rw [Listing.parseModule_eq_readLines]
    decide
  obtain ⟨hcopy, hpass, htext⟩ := pools_canonical
  exact ⟨hb, hcopy b hb, hout, (hpass _ _ b out hout).1, (hpass _ _ b out hout).2, _, hread,
    htext _ _ hread⟩

end Dynarec
