/-
Which passes find room for their constants.

Five of the six passes append instructions of the block they read, so their constants come from its
pool, and a position is a byte: there is always room. Constant propagation computes words that the
block does not hold. Its cap makes it stop folding once the pool has grown by more than the cap, but
what it knows by then still has to be flushed, and a block with many constants of its own leaves
little room for that.

`demand` lists the different words that folding a block asks for, in the order in which it asks for
them first. It is computed without any block being built: each instruction is folded on the empty
block, where a single instruction always finds room, since it asks for words that are known of at
most 255 slots and for at most one other. The pass succeeds exactly if there are at most 256 such
words, and they are the pool of the output then; otherwise it fails at the 257th.

Every instruction contributes at most one word that was not known before. So there are at most as
many words as instructions, and a block of at most 256 instructions is always optimised.
-/
import Dynarec.Proofs.Optimize.ConstantDemand
import Dynarec.Proofs.Optimize.DeadWrites
import Dynarec.Proofs.Optimize.ExactRewrites
import Dynarec.Proofs.Optimize.NarrowLoads

set_option autoImplicit false
set_option maxRecDepth 2048

namespace Dynarec

/-! ## Interning until the pool is full -/

theorem eraseDups_prefix (us vs : List Word) : us.eraseDups <+: (us ++ vs).eraseDups := by
  rw [List.eraseDups_append]
  exact List.prefix_append _ _

/-- Asking for a word several times is asking for it once. -/
theorem eraseDups_append_eraseDups (us vs : List Word) :
    (us ++ vs.eraseDups).eraseDups = (us ++ vs).eraseDups := by
  induction vs using List.reverseRecOn with
  | nil => rfl
  | append_singleton vs v ih =>
    rw [eraseDups_concat, ← List.append_assoc, eraseDups_concat]
    by_cases hv : v ∈ vs
    · rw [if_pos hv, ih, if_pos (List.mem_append_right us hv)]
    · rw [if_neg hv, ← List.append_assoc, eraseDups_concat, ih]
      simp only [List.mem_append, List.mem_eraseDups]

/-- There are at most as many different words as there are words to choose from. -/
theorem length_eraseDups_le {us ws : List Word} (h : us ⊆ ws) :
    us.eraseDups.length ≤ ws.length :=
  (List.subperm_of_subset (nodup_eraseDups us) fun _ hw => h (List.mem_eraseDups.mp hw)).length_le

theorem eraseDups_eq_self {cs : List Word} (h : cs.Nodup) : cs.eraseDups = cs := by
  induction cs using List.reverseRecOn with
  | nil => rfl
  | append_singleton cs c ih =>
    obtain ⟨hcs, -, hdisjoint⟩ := List.nodup_append.mp h
    have hc : c ∉ cs := fun hmem => hdisjoint c hmem c List.mem_cons_self rfl
    rw [eraseDups_concat, if_neg hc, ih hcs]

/-- A computation that asks for the words `ws`, with repetitions, in this order: it succeeds if
there is room for them, and fails at the first word for which there is none. -/
structure Meets {α : Type} (ws : List Word) (good : α → Prop) (x : Except Fault α) : Prop where
  ok : ws.eraseDups.length ≤ Pool.capacity → ∃ a, x = .ok a ∧ good a
  full : ∀ w, ws.eraseDups[Pool.capacity]? = some w → x = .error (.poolFull w)

section Meets

variable {α β : Type} {us ws : List Word} {good : α → Prop} {good' : β → Prop} {x : Except Fault α}
  {k : α → Except Fault β}

theorem meets_pure {a : α} (h : us.eraseDups.length ≤ Pool.capacity) (ha : good a) :
    Meets us good (.ok a) := by
  refine ⟨fun _ => ⟨a, rfl, ha⟩, fun w hw => ?_⟩
  obtain ⟨hlt, -⟩ := List.getElem?_eq_some_iff.mp hw
  omega

/-- One computation asks first, another one later. -/
theorem meets_bind (hx : Meets us good x) (hearlier : us <+: ws)
    (hk : ∀ a, good a → us.eraseDups.length ≤ Pool.capacity → Meets ws good' (k a)) :
    Meets ws good' (x >>= k) := by
  obtain ⟨later, rfl⟩ := hearlier
  have hfirst := eraseDups_prefix us later
  constructor
  · intro hroom
    have hroom' : us.eraseDups.length ≤ Pool.capacity := Nat.le_trans hfirst.length_le hroom
    obtain ⟨a, ha, hgood⟩ := hx.ok hroom'
    rw [ha]
    exact (hk a hgood hroom').ok hroom
  · intro w hw
    by_cases hroom' : us.eraseDups.length ≤ Pool.capacity
    · obtain ⟨a, ha, hgood⟩ := hx.ok hroom'
      rw [ha]
      exact (hk a hgood hroom').full w hw
    · -- the first computation fails already, and at the same word
      have hlt : Pool.capacity < us.eraseDups.length := Nat.lt_of_not_le hroom'
      obtain ⟨more, hmore⟩ := hfirst
      have hsame : us.eraseDups[Pool.capacity]? = some w := by
        rw [← hmore, List.getElem?_append_left hlt] at hw
        exact hw
      rw [hx.full w hsame]
      rfl

theorem Meets.mono {good'' : α → Prop} (hx : Meets us good x)
    (h : ∀ a, x = .ok a → good a → good'' a) : Meets us good'' x := by
  refine ⟨fun hroom => ?_, hx.full⟩
  obtain ⟨a, ha, hgood⟩ := hx.ok hroom
  exact ⟨a, ha, h a ha hgood⟩

/-- Only the order of first requests counts. -/
theorem Meets.congr (hx : Meets us good x) (h : us.eraseDups = ws.eraseDups) : Meets ws good x :=
  ⟨h ▸ hx.ok, h ▸ hx.full⟩

end Meets

theorem Pool.meets_intern {us : List Word} (hus : us.eraseDups.length ≤ capacity) (w : Word) :
    Meets (us ++ [w]) (fun q => q.2 = ⟨(us ++ [w]).eraseDups⟩) (Pool.intern ⟨us.eraseDups⟩ w) := by
  constructor
  · intro hroom
    refine ⟨_, Pool.intern_first fun hw => ?_, rfl⟩
    rw [eraseDups_concat, if_neg hw, List.length_append, List.length_singleton] at hroom
    exact hroom
  · intro v hv
    rw [eraseDups_concat] at hv
    split at hv
    · obtain ⟨hlt, -⟩ := List.getElem?_eq_some_iff.mp hv
      omega
    · next hw =>
      obtain ⟨hlt, -⟩ := List.getElem?_eq_some_iff.mp hv
      rw [List.length_append, List.length_singleton] at hlt
      have hfull : us.eraseDups.length = capacity := by omega
      have hvw : w = v := by simpa [← hfull] using hv
      have hnone : us.eraseDups.idxOf? w = none :=
        List.idxOf?_eq_none_iff.mpr fun h => hw (List.mem_eraseDups.mp h)
      rw [Pool.intern, hnone, ← hvw]
      exact if_pos (Nat.le_of_eq hfull.symm)

theorem Pool.meets_internAll {us : List Word} (hus : us.eraseDups.length ≤ capacity)
    (ws : List Word) :
    Meets (us ++ ws) (· = ⟨(us ++ ws).eraseDups⟩) (Pool.internAll ⟨us.eraseDups⟩ ws) := by
  induction ws generalizing us with
  | nil =>
    rw [List.append_nil]
    exact meets_pure hus rfl
  | cons w ws ih =>
    have hsplit : us ++ w :: ws = us ++ [w] ++ ws := by simp
    rw [internAll_cons, hsplit]
    refine meets_bind (meets_intern hus w) (List.prefix_append _ _) fun q hq hroom => ?_
    rw [hq]
    exact ih hroom

/-- Appending asks for the constant. -/
theorem Block.meets_append {b source : Block} {i : Inst} {us : List Word}
    (hus : us.eraseDups.length ≤ Pool.capacity) (hb : b.pool = ⟨us.eraseDups⟩)
    (hi : ∀ k, i.constantIndex = some k → k.toNat < source.pool.size) :
    Meets (us ++ (source.pool.constant? i).toList)
      (fun b' => b'.pool = ⟨(us ++ (source.pool.constant? i).toList).eraseDups⟩)
      (b.append source i) := by
  rw [Block.append, constantOf_eq hi]
  cases hindex : i.constantIndex with
  | none =>
    have hnone : source.pool.constant? i = none := by
      rw [Pool.constant?, hindex]
      rfl
    rw [hnone, Option.toList_none, List.append_nil]
    exact meets_pure hus hb
  | some l =>
    obtain ⟨f, hf⟩ : ∃ f, i.op.constField? = some f := by
      cases hf : i.op.constField? with
      | none => cases (constantIndex_eq_none hf).symm.trans hindex
      | some f => exact ⟨f, rfl⟩
    rw [Pool.constant?_eq hindex (hi l hindex), Option.toList_some, Option.map_some]
    show Meets _ _ (b.pushWith i (some (source.pool.constant i)))
    rw [pushWith_some, hb]
    refine meets_bind (Pool.meets_intern hus _) List.prefix_rfl fun q hq hroom => ?_
    rw [Inst.setConstantIndex, hf]
    exact meets_pure hroom hq

theorem Block.meets_appendAll {b source : Block} {us : List Word} (is : List Inst)
    (hus : us.eraseDups.length ≤ Pool.capacity) (hb : b.pool = ⟨us.eraseDups⟩)
    (hi : ∀ i ∈ is, ∀ k, i.constantIndex = some k → k.toNat < source.pool.size) :
    Meets (us ++ is.filterMap source.pool.constant?)
      (fun b' => b'.pool = ⟨(us ++ is.filterMap source.pool.constant?).eraseDups⟩)
      (b.appendAll source is) := by
  induction is generalizing b us with
  | nil =>
    rw [List.filterMap_nil, List.append_nil]
    exact meets_pure hus hb
  | cons i is ih =>
    have hsplit : us ++ (i :: is).filterMap source.pool.constant?
        = us ++ (source.pool.constant? i).toList ++ is.filterMap source.pool.constant? := by
      rw [List.append_assoc, List.filterMap_cons]
      cases source.pool.constant? i <;> rfl
    rw [hsplit]
    refine meets_bind (meets_append hus hb (hi i List.mem_cons_self)) (List.prefix_append _ _)
      fun b' hb' hroom => ?_
    exact ih hroom hb' fun j hj => hi j (List.mem_cons_of_mem i hj)

namespace Optimize

namespace ConstantPropagation

namespace Folding

variable {V : Word → Prop} {s : Folding} {c? : Option Word} {i : Inst} {U : List Word}
  {x : Block → Except Fault Folding}

/-! ## Started on the empty block -/

/-- The words that are known of slots other than zero. -/
def Known (s : Folding) (w : Word) : Prop := ∃ r, r ≠ 0 ∧ s.value? r = some w

/-- The words that are known, slot by slot. -/
def knownWords (s : Folding) : List Word := flushOrder.filterMap s.value?

theorem mem_knownWords {w : Word} (h : s.Known w) : w ∈ s.knownWords := by
  obtain ⟨r, hr, hv⟩ := h
  exact List.mem_filterMap.mpr ⟨r, mem_flushOrder hr, hv⟩

theorem length_knownWords (s : Folding) : s.knownWords.length ≤ 255 := by
  have hle := List.length_filterMap_le s.value? flushOrder
  rwa [flushOrder, List.length_map, List.length_range'] at hle

theorem within_known (s : Folding) : Within s.Known s := fun r _ hr hv => ⟨r, hr, hv⟩

/-- On a block whose pool holds the words asked for before, the step asks for the words in the pool
of `t` and comes to the same state. -/
def AsksAs (t : Folding) (x : Block → Except Fault Folding) : Prop :=
  ∀ (us : List Word) (b : Block), us.eraseDups.length ≤ Pool.capacity → b.pool = ⟨us.eraseDups⟩ →
    Meets (us ++ t.out.pool.values)
      (fun t' => ∃ insts, t' = t.on ⟨insts, ⟨(us ++ t.out.pool.values).eraseDups⟩⟩) (x b)

/-- A step that asks for few words finds room on the empty block. From the pool that it leaves there
one can tell what it asks for on any block. -/
theorem Draws.on_empty (h : Draws V x) (hU : ∀ w, V w → w ∈ U) (hlen : U.length ≤ Pool.capacity) :
    ∃ t, x {} = .ok t ∧ Within V t ∧ (∀ w ∈ t.out.pool.values, V w) ∧ AsksAs t x := by
  obtain ⟨s, ws, hs, hws, hx⟩ := h
  have hfew : ws.eraseDups.length ≤ Pool.capacity :=
    Nat.le_trans (length_eraseDups_le fun w hw => hU w (hws w hw)) hlen
  have hroom : Pool.internAll {} ws = .ok ⟨ws.eraseDups⟩ := by
    have hempty : ([] : List Word).eraseDups.length ≤ Pool.capacity := Nat.zero_le _
    obtain ⟨p, hp, rfl⟩ := (Pool.meets_internAll hempty ws).ok hfew
    exact hp
  obtain ⟨f, hf, -⟩ | ⟨p, new, hp, hok⟩ := hx {}
  · exact nomatch hroom.symm.trans hf
  · obtain rfl : (⟨ws.eraseDups⟩ : Pool) = p := Except.ok.inj (hroom.symm.trans hp)
    refine ⟨_, hok, hs, fun w hw => hws w (List.mem_eraseDups.mp hw), fun us b hus hb => ?_⟩
    have hmeets := Pool.meets_internAll hus ws
    have hsame : (us ++ ws).eraseDups = (us ++ ws.eraseDups).eraseDups :=
      (eraseDups_append_eraseDups us ws).symm
    rw [← hb, hsame] at hmeets
    refine Meets.congr ?_ hsame
    constructor
    · intro hroom
      obtain ⟨q, hq, rfl⟩ := hmeets.ok hroom
      obtain ⟨f, hf, -⟩ | ⟨p, new', hp, hok'⟩ := hx b
      · exact nomatch hq.symm.trans hf
      · obtain rfl : _ = p := Except.ok.inj (hq.symm.trans hp)
        exact ⟨_, hok', _, rfl⟩
    · intro w hw
      have hfull := hmeets.full w hw
      obtain ⟨f, hf, hfail⟩ | ⟨p, new', hp, -⟩ := hx b
      · rw [hfail, Except.error.inj (hf.symm.trans hfull)]
      · exact nomatch hp.symm.trans hfull

/-- Flushing everything asks for words that are known. -/
theorem flushAll_on_empty (s : Folding) :
    ∃ t, (s.on {}).flushAll = .ok t ∧ (∀ w ∈ t.out.pool.values, s.Known w) ∧
      AsksAs t fun b => (s.on b).flushAll := by
  have hlen : s.knownWords.length ≤ Pool.capacity := Nat.le_succ_of_le (length_knownWords s)
  obtain ⟨t, ht, -, hwords, hmeets⟩ :=
    (draws_flushAll (within_known s)).on_empty (fun _ => mem_knownWords) hlen
  exact ⟨t, ht, hwords, hmeets⟩

/-- Folding an instruction asks for words that are known and for at most one other. -/
theorem fold_on_empty (s : Folding) (hi : c? = none ∨ i.op.constField?.isSome = true) :
    ∃ v t, (s.on {}).fold i c? = .ok t ∧ (∀ w, t.Known w → w = v ∨ s.Known w) ∧
      (∀ w ∈ t.out.pool.values, w = v ∨ s.Known w) ∧ AsksAs t fun b => (s.on b).fold i c? := by
  obtain ⟨v, hv⟩ := adds_fold (s := s) hi
  have hdraws : Draws (fun w => w = v ∨ s.Known w) fun b => (s.on b).fold i c? :=
    hv _ (Or.inl rfl) fun r w hr hw => Or.inr ⟨r, hr, hw⟩
  have hlen : (v :: s.knownWords).length ≤ Pool.capacity := by
    have hle := length_knownWords s
    rw [List.length_cons, Pool.capacity]
    omega
  obtain ⟨t, ht, hknown, hwords, hmeets⟩ := hdraws.on_empty (U := v :: s.knownWords)
    (fun w hw => List.mem_cons.mpr (hw.imp id mem_knownWords)) hlen
  exact ⟨v, t, ht, fun w ⟨r, hr, hw⟩ => hknown r w hr hw, hwords, hmeets⟩

end Folding

open Folding

/-! ## The words that a block asks for -/

/-- The words that flushing everything asks for. -/
def flushDemand (s : Folding) : List Word :=
  match (s.on {}).flushAll with
  | .ok t => t.out.pool.values
  | .error _ => []

/-- What flushing asks for, written so that it evaluates well. -/
theorem flushDemand_eq (s : Folding) :
    flushDemand s = ((s.on {}).flushTable.toOption.map (·.out.pool.values)).getD [] := by
  rw [flushDemand, Folding.flushTable_eq]
  cases (s.on {}).flushAll <;> rfl

/-- The words that folding the instructions still to come asks for, behind those that have been
asked for before. Each instruction is folded on the empty block. -/
def demandFrom (source : Block) (limit : Nat) : List Inst → Folding → List Word → List Word
  | [], s, asked => asked ++ flushDemand s
  | i :: rest, s, asked =>
    if limit < asked.eraseDups.length then
      asked ++ flushDemand s ++ (i :: rest).filterMap source.pool.constant?
    else
      match (s.on {}).fold i (source.pool.constant? i) with
      | .ok t => demandFrom source limit rest t (asked ++ t.out.pool.values)
      | .error _ => asked

/-- The different words that folding a block asks for, in order of first use. -/
def demand (cap : Nat) (b : Block) : List Word :=
  (demandFrom b (b.pool.size + cap) b.insts start []).eraseDups

variable {source b : Block} {s : Folding} {limit cap : Nat} {insts : List Inst} {U us : List Word}

theorem constant?_none_or (p : Pool) (i : Inst) :
    p.constant? i = none ∨ i.op.constField?.isSome = true := by
  cases hf : i.op.constField? with
  | some f => exact Or.inr rfl
  | none =>
    left
    rw [Pool.constant?, Block.constantIndex_eq_none hf]
    rfl

theorem constantOf_eq_constant? {i : Inst}
    (hi : ∀ k, i.constantIndex = some k → k.toNat < source.pool.size) :
    source.constantOf i = .ok (source.pool.constant? i) := by
  rw [Block.constantOf_eq hi]
  cases hindex : i.constantIndex with
  | none => rw [Pool.constant?, hindex]; rfl
  | some k => rw [Pool.constant?_eq hindex (hi k hindex)]; rfl

theorem flushDemand_spec (s : Folding) :
    (∀ w ∈ flushDemand s, s.Known w) ∧
      ∀ (us : List Word) (b : Block), us.eraseDups.length ≤ Pool.capacity →
        b.pool = ⟨us.eraseDups⟩ → Meets (us ++ flushDemand s)
          (fun t => t.out.pool = ⟨(us ++ flushDemand s).eraseDups⟩) (s.on b).flushAll := by
  obtain ⟨t, ht, hwords, hmeets⟩ := flushAll_on_empty s
  have hdemand : flushDemand s = t.out.pool.values := by rw [flushDemand, ht]
  rw [hdemand]
  refine ⟨hwords, fun us b hus hb => (hmeets us b hus hb).mono ?_⟩
  rintro _ - ⟨insts, rfl⟩
  rfl

theorem prefix_demandFrom (source : Block) (limit : Nat) (insts : List Inst) (s : Folding)
    (asked : List Word) : asked <+: demandFrom source limit insts s asked := by
  induction insts generalizing s asked with
  | nil => exact List.prefix_append _ _
  | cons i rest ih =>
    rw [demandFrom]
    split
    · rw [List.append_assoc]
      exact List.prefix_append _ _
    · split
      · exact (List.prefix_append _ _).trans (ih _ _)
      · exact List.prefix_rfl

/-- Every instruction contributes one word at most. -/
theorem demandFrom_subset (h : ∀ w ∈ us, w ∈ U) (hknown : ∀ w, s.Known w → w ∈ U) :
    ∃ U' : List Word, U'.length ≤ U.length + insts.length ∧
      ∀ w ∈ demandFrom source limit insts s us, w ∈ U' := by
  induction insts generalizing s us U with
  | nil =>
    refine ⟨U, Nat.le_refl _, fun w hw => ?_⟩
    rcases List.mem_append.mp hw with hw | hw
    · exact h w hw
    · exact hknown w ((flushDemand_spec s).1 w hw)
  | cons i rest ih =>
    rw [demandFrom]
    split
    · refine ⟨U ++ (i :: rest).filterMap source.pool.constant?, ?_, fun w hw => ?_⟩
      · have hle := List.length_filterMap_le source.pool.constant? (i :: rest)
        rw [List.length_append]
        omega
      · rcases List.mem_append.mp hw with hw | hw
        · rcases List.mem_append.mp hw with hw | hw
          · exact List.mem_append_left _ (h w hw)
          · exact List.mem_append_left _ (hknown w ((flushDemand_spec s).1 w hw))
        · exact List.mem_append_right _ hw
    · obtain ⟨v, t, ht, hknown', hwords, -⟩ :=
        fold_on_empty s (constant?_none_or source.pool i)
      have hor : ∀ w, w = v ∨ s.Known w → w ∈ v :: U := fun w hw =>
        List.mem_cons.mpr (hw.imp id (hknown w))
      rw [ht]
      have hasked : ∀ w ∈ us ++ t.out.pool.values, w ∈ v :: U := by
        intro w hw
        rcases List.mem_append.mp hw with hw | hw
        · exact List.mem_cons_of_mem v (h w hw)
        · exact hor w (hwords w hw)
      obtain ⟨U', hlen, hU'⟩ := ih hasked fun w hw => hor w (hknown' w hw)
      refine ⟨U', ?_, hU'⟩
      rw [List.length_cons] at hlen ⊢
      omega

/-- **There are at most as many words as instructions.** -/
theorem length_demand_le (cap : Nat) (b : Block) : (demand cap b).length ≤ b.insts.length := by
  have hstart : ∀ w, ¬Known start w := by
    rintro w ⟨r, hr, hv⟩
    rw [start_eq, value?_start, if_neg hr] at hv
    exact nomatch hv
  obtain ⟨U, hlen, hU⟩ : ∃ U : List Word, U.length ≤ [].length + b.insts.length ∧
      ∀ w ∈ demandFrom b (b.pool.size + cap) b.insts start [], w ∈ U :=
    demandFrom_subset (fun _ hw => hw) fun w hw => absurd hw (hstart w)
  rw [List.length_nil, Nat.zero_add] at hlen
  exact Nat.le_trans (length_eraseDups_le hU) hlen

/-! ## The pass meets the demand -/

/-- **The instructions still to come.** -/
theorem meets_walk (insts : List Inst)
    (hi : ∀ i ∈ insts, ∀ k, i.constantIndex = some k → k.toNat < source.pool.size)
    (hus : us.eraseDups.length ≤ Pool.capacity) (hb : b.pool = ⟨us.eraseDups⟩) :
    Meets (demandFrom source limit insts s us)
      (fun t => t.out.pool = ⟨(demandFrom source limit insts s us).eraseDups⟩)
      (walk source limit insts (s.on b) >>= flushAll) := by
  induction insts generalizing s b us with
  | nil => exact (flushDemand_spec s).2 us b hus hb
  | cons i rest ih =>
    have hsize : (s.on b).out.pool.size = us.eraseDups.length := by
      show b.pool.size = _
      rw [hb]
      rfl
    rw [walk, demandFrom, hsize]
    by_cases hlimit : limit < us.eraseDups.length
    · rw [if_pos hlimit, if_pos hlimit]
      -- everything is flushed and the rest taken over, so the last flush has nothing to do
      have hflush : Meets (us ++ flushDemand s)
          (fun t => t.out.pool = ⟨(us ++ flushDemand s).eraseDups⟩ ∧ ∀ r, t.Synced r)
          (s.on b).flushAll :=
        ((flushDemand_spec s).2 us b hus hb).mono fun t ht hpool => ⟨hpool, (flushed_flushAll ht).2⟩
      rw [bind_assoc]
      refine meets_bind hflush (List.prefix_append _ _) fun t ht hroom => ?_
      obtain ⟨hpool, hsync⟩ := ht
      rw [bind_assoc]
      refine meets_bind (Block.meets_appendAll (i :: rest) hroom hpool hi) List.prefix_rfl
        fun out hout hroom' => ?_
      show Meets _ _ (flushAll { t with out := out })
      rw [flushAll_of_synced (s := { t with out := out }) hsync]
      exact meets_pure hroom' hout
    · rw [if_neg hlimit, if_neg hlimit]
      obtain ⟨v, t, ht, -, -, hmeets⟩ := fold_on_empty s (constant?_none_or source.pool i)
      rw [constantOf_eq_constant? (hi i List.mem_cons_self), ht]
      show Meets _ _ (((s.on b).fold i (source.pool.constant? i) >>= walk source limit rest)
        >>= flushAll)
      rw [bind_assoc]
      refine meets_bind (hmeets us b hus hb) (prefix_demandFrom ..) fun t' ht' hroom => ?_
      obtain ⟨insts, rfl⟩ := ht'
      exact ih (fun j hj => hi j (List.mem_cons_of_mem i hj)) hroom rfl

/-- **Constant propagation meets the demand.** -/
theorem meets_run (hb : b.InRange) (hcap : b.pool.size + cap < doubleWords) :
    (∀ w, (demand cap b)[Pool.capacity]? = some w → run cap b = .error (.poolFull w)) ∧
      ((demand cap b).length ≤ Pool.capacity →
        ∃ out, run cap b = .ok out ∧ out.pool.values = demand cap b) := by
  have hmeets : Meets (demandFrom b (b.pool.size + cap) b.insts start [])
      (fun out => out.pool = ⟨demand cap b⟩) (run cap b) := by
    have hwalk : Meets (demandFrom b (b.pool.size + cap) b.insts start [])
        (fun t => t.out.pool = ⟨demand cap b⟩)
        (walk b (b.pool.size + cap) b.insts {} >>= flushAll) :=
      meets_walk b.insts hb (Nat.zero_le _) rfl
    have hdouble : asDouble (b.pool.size + cap) = .ok (b.pool.size + cap) := if_pos hcap
    rw [run, hdouble]
    show Meets _ _ (walk b (b.pool.size + cap) b.insts {} >>= fun s => flushAll s >>= fun t =>
      .ok t.out)
    rw [← bind_assoc]
    exact meets_bind hwalk List.prefix_rfl fun t ht hroom => meets_pure hroom ht
  refine ⟨hmeets.full, fun hroom => ?_⟩
  obtain ⟨out, hout, hpool⟩ := hmeets.ok hroom
  exact ⟨out, hout, by rw [hpool]⟩

/-! ## Settings of a float register -/

theorem flushDemand_start : flushDemand start = [] := by
  have hsync : ∀ r, (start.on {}).Synced r := by
    intro r
    by_cases hr : r = 0
    · exact Or.inl hr
    · refine Or.inr (Or.inl ?_)
      show start.value? r = none
      rw [start_eq, value?_start, if_neg hr]
  rw [flushDemand, flushAll_of_synced hsync]
  rfl

theorem demandFrom_on (source : Block) (limit : Nat) (insts : List Inst)
    (s : Folding) (b : Block) (us : List Word) :
    demandFrom source limit insts (s.on b) us = demandFrom source limit insts s us := by
  cases insts <;> rfl

/-- Setting a float register to one constant after the other asks for each of them. -/
theorem demandFrom_setConstF {source : Block} {limit : Nat} {insts : List Inst}
    {s : Folding} {us : List Word} (ks : List UInt8) (hlimit : us.length + ks.length ≤ limit)
    (hks : ∀ k ∈ ks, k.toNat < source.pool.size) :
    demandFrom source limit (ks.map (fun k => ⟨.setConstF, 0, k, 0⟩) ++ insts) s us
      = demandFrom source limit insts s
        (us ++ ks.map fun k => source.pool.constant ⟨.setConstF, 0, k, 0⟩) := by
  induction ks generalizing us with
  | nil => rw [List.map_nil, List.map_nil, List.nil_append, List.append_nil]
  | cons k ks ih =>
    obtain ⟨hk, hks⟩ := List.forall_mem_cons.mp hks
    have hroom : ¬limit < us.eraseDups.length := by
      have hle := length_eraseDups_le (List.Subset.refl us)
      rw [List.length_cons] at hlimit
      omega
    have hconst : source.pool.constant? ⟨.setConstF, 0, k, 0⟩
        = some (source.pool.constant ⟨.setConstF, 0, k, 0⟩) := Pool.constant?_eq rfl hk
    have hfold : ∀ c, (s.on {}).fold ⟨.setConstF, 0, k, 0⟩ (some c)
        = .ok (s.on ⟨[⟨.setConstF, 0, 0, 0⟩], ⟨[c]⟩⟩) := fun _ => rfl
    have hlimit' : ∀ c : Word, (us ++ [c]).length + ks.length ≤ limit := by
      intro c
      rw [List.length_append, List.length_singleton]
      rw [List.length_cons] at hlimit
      omega
    rw [List.map_cons, List.cons_append, demandFrom, if_neg hroom, hconst, hfold]
    show demandFrom source limit _ (s.on _) (us ++ [_]) = _
    rw [demandFrom_on, ih (hlimit' _) hks, List.append_assoc]
    rfl

end ConstantPropagation

/-! ## The other passes -/

/-- Removal of dead writes takes instructions over from the block. -/
theorem DeadWrites.run_ok {b : Block} (hb : b.InRange) : ∃ out, DeadWrites.run b = .ok out := by
  obtain ⟨out, hout, -⟩ := DeadWrites.run_alike hb
  exact ⟨out, hout⟩

/-- Narrowing takes instructions over from the block. -/
theorem NarrowLoads.run_ok {b : Block} (hb : b.InRange) : ∃ out, NarrowLoads.run b = .ok out := by
  obtain ⟨ns, hplan⟩ : ∃ ns, NarrowLoads.plan b 0 b.insts = .ok ns := NarrowLoads.plan_ok hb
  obtain ⟨out, hout⟩ := Block.appendAll_ok (NarrowLoads.left ns b.insts)
    (Block.grows_empty b).drawn (NarrowLoads.left_inRange hb hplan)
  exact ⟨out, bind_eq_ok.mpr ⟨ns, hplan, hout⟩⟩

/-- **There is room for the constants of a block.** Five of the passes succeed on every block with
in-range positions. Constant propagation asks for at most as many words as the block has
instructions. If they are at most 256 it succeeds and they are the pool of the output, otherwise it
fails at the 257th. -/
theorem passes_find_room (cap : Nat) (b : Block) (hb : b.InRange) :
    (∀ p ≠ Pass.constantPropagation, ∃ out changed, p.run cap b = .ok (out, changed)) ∧
    (b.pool.size + cap < doubleWords →
      (ConstantPropagation.demand cap b).length ≤ b.insts.length ∧
      ((ConstantPropagation.demand cap b).length ≤ Pool.capacity → ∃ out changed,
        Pass.constantPropagation.run cap b = .ok (out, changed) ∧
        out.pool.values = ConstantPropagation.demand cap b) ∧
      ∀ w, (ConstantPropagation.demand cap b)[Pool.capacity]? = some w →
        Pass.constantPropagation.run cap b = .error (.poolFull w)) := by
  constructor
  · intro p hp
    obtain ⟨out, hout⟩ : ∃ out, p.output cap b = .ok out := by
      cases p with
      | constantPropagation => exact absurd rfl hp
      | floatMoves => exact (FloatMoves.run_ok hb).imp fun out h => h.1
      | deadWrites => exact DeadWrites.run_ok hb
      | narrowLoads => exact NarrowLoads.run_ok hb
      | twoOperand => exact (TwoOperand.run_ok hb).imp fun out h => h.1
      | storeReload => exact (StoreReload.run_ok hb).imp fun out h => h.1
    exact ⟨out, out != b, Pass.run_of_output hout⟩
  · intro hcap
    obtain ⟨hfull, hroom⟩ := ConstantPropagation.meets_run hb hcap
    refine ⟨ConstantPropagation.length_demand_le cap b, fun hle => ?_, fun w hw => ?_⟩
    · obtain ⟨out, hout, hpool⟩ := hroom hle
      exact ⟨out, out != b, Pass.run_of_output (p := .constantPropagation) hout, hpool⟩
    · have hrun : Pass.constantPropagation.output cap b = .error (.poolFull w) := hfull w hw
      rw [Pass.run, hrun]
      rfl

/-- A store to a known address and a move of slot zero: the pass asks for the address and for zero,
not for the base and the offset. -/
theorem passes_find_room_address :
    let b : Block := ⟨[⟨.setConst, 1, 0, 0⟩, ⟨.store32, 2, 1, 1⟩, ⟨.mov, 1, 3, 0⟩,
      ⟨.setPC, 0, 0, 0⟩], ⟨[5, 6]⟩⟩
    b.InRange ∧ b.pool.size + 128 < doubleWords ∧ ConstantPropagation.demand 128 b = [11, 0] ∧
      (∃ out changed, Pass.narrowLoads.run 128 b = .ok (out, changed)) ∧
      ∃ out changed, Pass.constantPropagation.run 128 b = .ok (out, changed) ∧
        out.pool.values = [11, 0] := by
  intro b
  have hb : b.InRange := by decide
  have hcap : b.pool.size + 128 < doubleWords := by decide
  have hdemand : ConstantPropagation.demand 128 b = [11, 0] := by
    simp only [ConstantPropagation.demand, ConstantPropagation.demandFrom,
      ConstantPropagation.flushDemand_eq, b]
    decide
  obtain ⟨hothers, hpropagation⟩ := passes_find_room 128 b hb
  obtain ⟨-, hroom, -⟩ := hpropagation hcap
  have hfits : (ConstantPropagation.demand 128 b).length ≤ Pool.capacity := by
    rw [hdemand]
    decide
  obtain ⟨out, changed, hrun, hvalues⟩ := hroom hfits
  exact ⟨hb, hcap, hdemand, hothers .narrowLoads (by decide), out, changed, hrun,
    hvalues.trans hdemand⟩

open ConstantPropagation

/-- A block with 256 constants and 257 instructions. The last instruction becomes the setting of a
float register to zero, and there is no room for the zero, whatever the cap. -/
theorem passes_find_no_room :
    let words : List Word := (List.range 256).map fun k => UInt32.ofNat (k + 1)
    let b : Block := ⟨((List.range 256).map UInt8.ofNat).map (fun k => ⟨.setConstF, 0, k, 0⟩)
        ++ [⟨.fMovFromGPR, 0, 0, 0⟩], ⟨words⟩⟩
    b.InRange ∧ b.pool.size = Pool.capacity ∧ ∀ cap, b.pool.size + cap < doubleWords →
      Pass.constantPropagation.run cap b = .error (.poolFull 0) := by
  intro words b
  have hb : b.InRange := by decide
  have hsize : b.pool.size = 256 := by simp [b, words, Pool.size]
  refine ⟨hb, hsize, fun cap hcap => ?_⟩
  have htoNat : ∀ k ∈ List.range 256, (UInt32.ofNat (k + 1)).toNat = k + 1 := by
    intro k hk
    have hlt : k + 1 < 257 := by have := List.mem_range.mp hk; omega
    exact UInt32.toNat_ofNat_of_lt' (Nat.lt_trans hlt (by decide))
  have hnodup : (words ++ [0]).Nodup := by
    refine List.nodup_append.mpr ⟨?_, by decide, ?_⟩
    · refine List.Nodup.map_on (fun k hk l hl hkl => ?_) List.nodup_range
      have h := congrArg UInt32.toNat hkl
      rw [htoNat k hk, htoNat l hl] at h
      omega
    · rintro w hw v hv rfl
      obtain ⟨k, hk, rfl⟩ := List.mem_map.mp hw
      have h := htoNat k hk
      rw [List.mem_singleton.mp hv] at h
      exact absurd h.symm (Nat.succ_ne_zero k)
  have hwords : words.eraseDups.length = 256 := by
    rw [eraseDups_eq_self (List.Nodup.of_append_left hnodup), List.length_map, List.length_range]
  have hconstants : ((List.range 256).map UInt8.ofNat).map
      (fun k => b.pool.constant ⟨.setConstF, 0, k, 0⟩) = words := by decide
  -- the settings ask for the constants, the move for zero, and nothing is left to be flushed
  have hlast : demandFrom b (b.pool.size + cap) [⟨.fMovFromGPR, 0, 0, 0⟩] start words
      = words ++ [0] := by
    have hroom : ¬b.pool.size + cap < words.eraseDups.length := by omega
    have hmove : (start.on {}).fold ⟨.fMovFromGPR, 0, 0, 0⟩ none
        = .ok (start.on ⟨[⟨.setConstF, 0, 0, 0⟩], ⟨[0]⟩⟩) := by rfl
    have hnone : b.pool.constant? ⟨.fMovFromGPR, 0, 0, 0⟩ = none := by rfl
    rw [demandFrom, if_neg hroom, hnone, hmove]
    show demandFrom b _ [] (start.on _) (words ++ [0]) = _
    rw [demandFrom_on, demandFrom, flushDemand_start, List.append_nil]
  have hdemand : demandFrom b (b.pool.size + cap) b.insts start [] = words ++ [0] := by
    have hrange : ∀ k ∈ (List.range 256).map UInt8.ofNat, k.toNat < b.pool.size := fun k _ => by
      rw [hsize]
      exact k.toNat_lt
    have hlimit : ([] : List Word).length + ((List.range 256).map UInt8.ofNat).length
        ≤ b.pool.size + cap := by
      simp only [List.length_nil, List.length_map, List.length_range]
      omega
    rw [demandFrom_setConstF _ hlimit hrange, hconstants, List.nil_append, hlast]
  have hfull : (ConstantPropagation.demand cap b)[Pool.capacity]? = some 0 := by
    rw [ConstantPropagation.demand, hdemand, eraseDups_eq_self hnodup]
    have hlength : words.length = Pool.capacity := hsize
    rw [← hlength, List.getElem?_concat_length]
  have hrun : Pass.constantPropagation.output cap b = .error (.poolFull 0) :=
    (ConstantPropagation.meets_run hb hcap).1 0 hfull
  rw [Pass.run, hrun]
  rfl

end Optimize

end Dynarec
