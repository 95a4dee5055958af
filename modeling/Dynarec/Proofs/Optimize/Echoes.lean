/-
A block of constant propagation read once more.

A run keeps constants back. It knows a value as soon as it is computed, and sets the register only
when something needs it there. The run over its output meets the constant there for the first time,
so that it knows about a register at most what the first run has placed in it. `Echoes s t` says
this of a state `s` of the first run and a state `t` of the second one that has built the same;
`Repeats s` says that there is such a `t` and that folding what `s` has built comes to it.

Two steps take this over an instruction. A flush sets several constants, one behind the other. The
second run reads all of them before it reads the instruction that needed them, and flushes when it
gets there: the same slots, in the same order (`flush_again`). Behind the flush comes the
instruction itself, in the form that the first run has chosen. The second run has to leave that form
alone although it knows less; `Fainter` says how much less, and `repeats_append` what then follows.
Which forms are left alone is the matter of the rules, one for each kind of instruction.
-/
import Dynarec.Proofs.Optimize.CanonicalPools
import Dynarec.Proofs.Optimize.FoldingGrowth

set_option autoImplicit false

namespace Dynarec.Optimize.ConstantPropagation

open Folding

variable {s s' t : Folding} {b b' source : Block} {i j : Inst} {c : Word} {c? : Option Word}

/-! ## Reading a block again -/

/-- Folding an instruction does not depend on where its constant is kept. -/
theorem fold_setField {f : Field} (hf : i.op.constField? = some f) (k : UInt8) :
    t.fold (i.setField f k) (some c) = t.fold i (some c) := by
  obtain ⟨op, dest, src1, src2⟩ := i
  cases op <;> cases hf <;> rfl

/-- A pool grows at its end. -/
theorem pool_pushWith (h : b.pushWith i c? = .ok b') : b.pool.values <+: b'.pool.values := by
  cases c? with
  | none =>
    cases h
    exact List.prefix_rfl
  | some c =>
    obtain ⟨f, k, pool, -, hk, rfl⟩ := Block.pushWith_eq_ok h
    show b.pool.values <+: pool.values
    rw [Block.values_intern hk]
    split
    · exact List.prefix_rfl
    · exact List.prefix_append _ _

/-- An instruction that has been appended is read back with its constant, and folds as it did. -/
theorem pushed_spec (hb : b.pool.size ≤ Pool.capacity)
    (hi : c? = none → i.op.constField? = none) (h : b.pushWith i c? = .ok b') :
    ∃ j, b'.insts = b.insts ++ [j] ∧
      (∀ source : Block, b'.pool.values <+: source.pool.values → source.constantOf j = .ok c?) ∧
      ∀ t : Folding, t.fold j c? = t.fold i c? := by
  cases c? with
  | none =>
    cases h
    refine ⟨i, rfl, fun source _ => ?_, fun t => rfl⟩
    rw [Block.constantOf, Block.constantIndex_eq_none (hi rfl)]
  | some c =>
    obtain ⟨f, k, pool, hf, hk, rfl⟩ := Block.pushWith_eq_ok h
    refine ⟨i.setField f k, rfl, fun source hgrown => ?_, fun t => fold_setField hf k⟩
    obtain ⟨-, hget, -⟩ := Pool.intern_spec hb hk
    obtain ⟨more, hmore⟩ := hgrown
    have hlt := (List.getElem?_eq_some_iff.mp hget).1
    have hsource : source.pool.values[k.toNat]? = some c := by
      rw [← hmore, List.getElem?_append_left hlt, hget]
    have hfound : source.pool.get k = .ok c := by
      unfold Pool.get
      rw [hsource]
    rw [Block.constantOf, Block.constantIndex_setField hf]
    show (some <$> source.pool.get k) = .ok (some c)
    rw [hfound]
    rfl

/-- Folding any block that begins with `b` comes to the state `t` behind `b`. -/
structure Replayed (b : Block) (t : Folding) : Prop where
  walk_append : ∀ (source : Block) (limit : Nat) (rest : List Inst),
    b.pool.values <+: source.pool.values → b.pool.size ≤ limit →
      walk source limit (b.insts ++ rest) {} = walk source limit rest t

theorem replayed_empty : Replayed {} {} := ⟨fun _ _ _ _ _ => rfl⟩

/-- One more instruction is folded as it was appended. -/
theorem Replayed.pushWith {t' : Folding} (h : Replayed b t) (hb : b.pool.size ≤ Pool.capacity)
    (ht : t.out.pool.size ≤ b.pool.size) (hi : c? = none → i.op.constField? = none)
    (hpush : b.pushWith i c? = .ok b') (hfold : t.fold i c? = .ok t') : Replayed b' t' := by
  refine ⟨fun source limit rest hsource hlimit => ?_⟩
  have hgrown := pool_pushWith hpush
  obtain ⟨j, hinsts, hconst, hj⟩ := pushed_spec hb hi hpush
  have hle : b.pool.size ≤ limit := Nat.le_trans hgrown.length_le hlimit
  rw [hinsts, List.append_assoc, h.walk_append source limit _ (hgrown.trans hsource) hle]
  show walk source limit (j :: rest) t = walk source limit rest t'
  rw [walk, if_neg (Nat.not_lt.mpr (Nat.le_trans ht hle)), hconst source hsource]
  show (t.fold j c? >>= walk source limit rest) = _
  rw [hj, hfold]
  rfl

namespace Folding

variable {r q : UInt8} {w : Word} {l : List UInt8}

/-! ## What holds in every state -/

/-- Only known slots have a constant placed, slot zero is known, and float slots are not. -/
structure Sound (s : Folding) : Prop where
  unplaced : ∀ r, s.value? r = none → s.placed? r = none
  zero : s.value? 0 = some 0
  tame : Tame s
  canonical : s.out.Canonical

/-- The state `t` has built what `s` has built. What it knows it has placed, and `s` has placed it
too. -/
structure Echoes (s t : Folding) : Prop where
  out : t.out = s.out
  placed : ∀ r, r ≠ 0 → t.placed? r = t.value? r
  known : ∀ r w, r ≠ 0 → t.value? r = some w → s.placed? r = some w
  zero : t.value? 0 = some 0
  live : t.dropExit = false

/-- Folding a block that begins with what `s` has built, with the register placed as `s` has, builds
it again. -/
def Repeats (s : Folding) : Prop := Sound s ∧ ∃ t, Replayed s.out t ∧ Echoes s t

theorem sound_learn (hs : Sound s) (hr : Slot.isInteger r.toNat = true) (w : Word) :
    Sound (s.learn r w) := by
  by_cases h0 : r = 0
  · rwa [learn, if_pos h0]
  · refine ⟨fun q hq => ?_, ?_, tame_learn hs.tame hr w, ?_⟩
    · rw [value?_learn h0] at hq
      split at hq
      · cases hq
      · rw [placed?, (learn_eq h0).1]
        exact hs.unplaced q hq
    · rw [value?_learn h0, if_neg (Ne.symm h0)]
      exact hs.zero
    · rw [(learn_eq h0).2.1]
      exact hs.canonical

theorem sound_forget (hs : Sound s) (r : UInt8) : Sound (s.forget r) := by
  by_cases h0 : r = 0
  · rwa [forget, if_pos h0]
  · refine ⟨fun q hq => ?_, ?_, tame_forget hs.tame r, ?_⟩
    · rw [value?_forget h0] at hq
      rw [placed?_forget h0]
      split at hq
      · rename_i heq
        rw [if_pos heq]
      · rename_i hne
        rw [if_neg hne]
        exact hs.unplaced q hq
    · rw [value?_forget h0, if_neg (Ne.symm h0)]
      exact hs.zero
    · rw [(forget_eq s r).1]
      exact hs.canonical

theorem sound_foldl_forget (hs : Sound s) (l : List UInt8) : Sound (l.foldl forget s) := by
  induction l generalizing s with
  | nil => exact hs
  | cons r l ih => exact ih (sound_forget hs r)

/-- A known value is placed. -/
theorem sound_place (hs : Sound s) (hr : s.value? r = some w) (hb : b.Canonical) :
    Sound (s.place r w b) := by
  refine ⟨fun q hq => ?_, hs.zero, hs.tame, hb⟩
  rw [placed?_place, if_neg]
  · exact hs.unplaced q hq
  · rintro rfl
    exact nomatch hr.symm.trans hq

theorem Echoes.learn (h : Echoes s t) (r : UInt8) (w : Word) : Echoes (s.learn r w) t := by
  by_cases h0 : r = 0
  · rwa [Folding.learn, if_pos h0]
  · obtain ⟨hplaced, hout, -⟩ := learn_eq (s := s) (w := w) h0
    refine ⟨h.out.trans hout.symm, h.placed, fun q v hq hv => ?_, h.zero, h.live⟩
    rw [placed?, hplaced]
    exact h.known q v hq hv

/-- Forgetting a slot in the state that echoes, while the other one keeps the other slots. -/
theorem Echoes.forget_right (h : Echoes s t) (hout : s'.out = s.out)
    (hplaced : ∀ q, q ≠ r → s'.placed? q = s.placed? q) : Echoes s' (t.forget r) := by
  by_cases h0 : r = 0
  · subst h0
    rw [Folding.forget, if_pos rfl]
    exact ⟨h.out.trans hout.symm, h.placed,
      fun q w hq hw => (hplaced q hq).trans (h.known q w hq hw), h.zero, h.live⟩
  · refine ⟨?_, fun q hq => ?_, fun q w hq hw => ?_, ?_, (forget_eq t r).2.trans h.live⟩
    · rw [(forget_eq t r).1, h.out, hout]
    · rw [placed?_forget h0, value?_forget h0]
      split
      · rfl
      · exact h.placed q hq
    · rw [value?_forget h0] at hw
      split at hw
      · cases hw
      · rename_i hne
        rw [hplaced q hne]
        exact h.known q w hq hw
    · rw [value?_forget h0, if_neg (Ne.symm h0)]
      exact h.zero

/-- Forgetting a slot in both states. -/
theorem Echoes.forget (h : Echoes s t) (r : UInt8) : Echoes (s.forget r) (t.forget r) := by
  refine h.forget_right (forget_eq s r).1 fun q hq => ?_
  by_cases h0 : r = 0
  · rw [Folding.forget, if_pos h0]
  · rw [placed?_forget h0, if_neg hq]

theorem Echoes.foldl_forget (h : Echoes s t) (l : List UInt8) :
    Echoes (l.foldl Folding.forget s) (l.foldl Folding.forget t) := by
  induction l generalizing s t with
  | nil => exact h
  | cons r l ih => exact ih (h.forget r)

theorem Echoes.foldl_forget_right (h : Echoes s t) (l : List UInt8) :
    Echoes s (l.foldl Folding.forget t) := by
  induction l generalizing t with
  | nil => exact h
  | cons r l ih => exact ih (h.forget_right rfl fun _ _ => rfl)

/-! ## Flushing -/

/-- A flush finds the slot synced, or puts its value there. -/
theorem flush_cases (h : s.flush r = .ok s') :
    (s.Synced r ∧ s' = s) ∨
      ∃ w b, r ≠ 0 ∧ s.value? r = some w ∧ s.placed? r ≠ some w ∧ s.out.setConst r w = .ok b ∧
        s' = s.place r w b := by
  rw [flush] at h
  cases hv : s.value? r with
  | none =>
    rw [hv] at h
    cases h
    exact Or.inl ⟨Or.inr (Or.inl hv), rfl⟩
  | some w =>
    simp only [hv] at h
    split at h
    · rename_i hdone
      cases h
      exact Or.inl ⟨hdone.imp_right fun hp => Or.inr (hp.trans hv.symm), rfl⟩
    · rename_i htodo
      obtain ⟨b, hb, hs⟩ := bind_eq_ok.mp h
      obtain ⟨hr, hp⟩ := not_or.mp htodo
      exact Or.inr ⟨w, b, hr, rfl, hp, hb, (pure_eq_ok.mp hs).symm⟩

theorem sound_flush (hs : Sound s) (h : s.flush r = .ok s') : Sound s' := by
  rcases flush_cases h with ⟨-, rfl⟩ | ⟨w, b, -, hw, -, hb, rfl⟩
  · exact hs
  · exact sound_place hs hw (builds_flush r hs.canonical _ h)

/-- What one flush keeps is kept by several. -/
theorem flushes_keep {I : Folding → Prop} (hkeep : ∀ r s s', I s → s.flush r = .ok s' → I s')
    (l : List UInt8) (hs : I s) (h : l.foldlM flush s = .ok s') : I s' := by
  induction l generalizing s with
  | nil =>
    rw [← pure_eq_ok.mp h]
    exact hs
  | cons r l ih =>
    obtain ⟨s₁, h₁, h⟩ := bind_eq_ok.mp h
    exact ih (hkeep r s s₁ hs h₁) h

theorem sound_flushes (l : List UInt8) (hs : Sound s) (h : l.foldlM flush s = .ok s') :
    Sound s' :=
  flushes_keep (fun _ _ _ => sound_flush) l hs h

theorem pool_flush (h : s.flush r = .ok s') : s.out.pool.size ≤ s'.out.pool.size := by
  rcases flush_cases h with ⟨-, rfl⟩ | ⟨w, b, -, -, -, hb, rfl⟩
  · exact Nat.le_refl _
  · rw [Block.setConst_eq] at hb
    exact (pool_pushWith hb).length_le

theorem pool_flushes (l : List UInt8) (h : l.foldlM flush s = .ok s') :
    s.out.pool.size ≤ s'.out.pool.size :=
  flushes_keep (I := fun t => s.out.pool.size ≤ t.out.pool.size)
    (fun _ _ _ hle ht => Nat.le_trans hle (pool_flush ht)) l (Nat.le_refl _) h

/-- Learn several values. -/
def learnAll (t : Folding) (g : List (UInt8 × Word)) : Folding :=
  g.foldl (fun t p => t.learn p.1 p.2) t

variable {g : List (UInt8 × Word)}

theorem learnAll_eq (g : List (UInt8 × Word)) (t : Folding) :
    (t.learnAll g).placed = t.placed ∧ (t.learnAll g).out = t.out
      ∧ (t.learnAll g).dropExit = t.dropExit := by
  induction g generalizing t with
  | nil => exact ⟨rfl, rfl, rfl⟩
  | cons p g ih =>
    obtain ⟨hplaced, hout, hdrop⟩ := ih (t.learn p.1 p.2)
    have hlearn : (t.learn p.1 p.2).placed = t.placed ∧ (t.learn p.1 p.2).out = t.out
        ∧ (t.learn p.1 p.2).dropExit = t.dropExit := by
      by_cases h0 : p.1 = 0
      · rw [learn, if_pos h0]
        exact ⟨rfl, rfl, rfl⟩
      · exact learn_eq h0
    exact ⟨hplaced.trans hlearn.1, hout.trans hlearn.2.1, hdrop.trans hlearn.2.2⟩

/-- Only the slots that are learnt become known. -/
theorem value?_learnAll (g : List (UInt8 × Word)) (t : Folding) (hr : ∀ w, (r, w) ∉ g) :
    (t.learnAll g).value? r = t.value? r := by
  induction g generalizing t with
  | nil => rfl
  | cons p g ih =>
    refine (ih (t.learn p.1 p.2) fun w hw => hr w (List.mem_cons_of_mem p hw)).trans ?_
    by_cases h0 : p.1 = 0
    · rw [learn, if_pos h0]
    · rw [value?_learn h0, if_neg]
      rintro rfl
      exact hr p.2 List.mem_cons_self

theorem place_learn (t : Folding) (r q : UInt8) (w v : Word) (b : Block) :
    (t.place r w b).learn q v = (t.learn q v).place r w b := by
  rw [learn, learn]
  split <;> rfl

theorem place_learnAll (g : List (UInt8 × Word)) (t : Folding) (r : UInt8) (w : Word) (b : Block) :
    (t.place r w b).learnAll g = (t.learnAll g).place r w b := by
  induction g generalizing t with
  | nil => rfl
  | cons p g ih =>
    show ((t.place r w b).learn p.1 p.2).learnAll g = ((t.learn p.1 p.2).learnAll g).place r w b
    rw [place_learn, ih]

/-- A value is put into its register in one state, and learnt and put there in the other. -/
theorem Echoes.place (h : Echoes s t) (hr : r ≠ 0) (w : Word) (b : Block) :
    Echoes (s.place r w b) ((t.learn r w).place r w b) := by
  have hvalue : ∀ q, ((t.learn r w).place r w b).value? q = if q = r then some w else t.value? q :=
    value?_learn hr
  have hplaced : ∀ q, ((t.learn r w).place r w b).placed? q
      = if q = r then some w else t.placed? q := by
    intro q
    rw [placed?_place, placed?, (learn_eq hr).1]
    rfl
  refine ⟨rfl, fun q hq => ?_, fun q v hq hv => ?_, ?_, (learn_eq hr).2.2.trans h.live⟩
  · rw [hplaced, hvalue, h.placed q hq]
  · rw [hvalue] at hv
    rw [placed?_place]
    split at hv
    · rename_i heq
      rw [if_pos heq, hv]
    · rename_i hne
      rw [if_neg hne]
      exact h.known q v hq hv
  · rw [hvalue, if_neg (Ne.symm hr)]
    exact h.zero

/-- The values in `g` are known in `s` and not in their registers yet. -/
def Unplaced (s : Folding) (g : List (UInt8 × Word)) : Prop :=
  ∀ p ∈ g, p.1 ≠ 0 ∧ s.value? p.1 = some p.2 ∧ s.placed? p.1 ≠ some p.2

theorem Unplaced.not_mem (h : Unplaced s g) (hr : s.Synced r) (w : Word) : (r, w) ∉ g := by
  intro hmem
  obtain ⟨h0, hvalue, hplaced⟩ := h (r, w) hmem
  rcases hr with hr | hnone | hsame
  · exact h0 hr
  · exact nomatch hvalue.symm.trans hnone
  · exact hplaced (hsame.trans hvalue)

/-- **Flushing again.** The constants that were set by flushing are learnt first, and flushing the
same slots then sets them again, in the same order. -/
theorem flush_again (l : List UInt8) (h : l.foldlM flush s = .ok s') (he : Echoes s t) :
    ∃ g t', Unplaced s g ∧ g.foldlM (fun b p => b.setConst p.1 p.2) s.out = .ok s'.out ∧
      l.foldlM flush (t.learnAll g) = .ok t' ∧ Echoes s' t' := by
  induction l generalizing s t with
  | nil =>
    cases pure_eq_ok.mp h
    exact ⟨[], t, fun _ hp => absurd hp List.not_mem_nil, rfl, rfl, he⟩
  | cons r l ih =>
    obtain ⟨s₁, h₁, hl⟩ := bind_eq_ok.mp h
    rcases flush_cases h₁ with ⟨hsynced, rfl⟩ | ⟨w, b, h0, hvalue, hplaced, hb, rfl⟩
    · obtain ⟨g, t', hg, hout, hflush, he'⟩ := ih hl he
      have hsame : (t.learnAll g).Synced r := by
        by_cases h0 : r = 0
        · exact Or.inl h0
        · refine Or.inr (Or.inr ?_)
          rw [placed?, (learnAll_eq g t).1, value?_learnAll g t (hg.not_mem hsynced)]
          exact he.placed r h0
      exact ⟨g, t', hg, hout, bind_eq_ok.mpr ⟨_, flush_of_synced hsame, hflush⟩, he'⟩
    · obtain ⟨g, t', hg, hout, hflush, he'⟩ := ih hl (he.place h0 w b)
      have hsynced : (s.place r w b).Synced r := by
        refine Or.inr (Or.inr ?_)
        rw [placed?_place, if_pos rfl]
        exact hvalue.symm
      have hnew : ∀ v, (r, v) ∉ g := hg.not_mem hsynced
      refine ⟨(r, w) :: g, t', fun p hp => ?_, bind_eq_ok.mpr ⟨b, hb, hout⟩,
        bind_eq_ok.mpr ⟨_, ?_, hflush⟩, he'⟩
      · rcases List.mem_cons.mp hp with rfl | hpg
        · exact ⟨h0, hvalue, hplaced⟩
        · obtain ⟨hp0, hpvalue, hpplaced⟩ := hg p hpg
          have hne : p.1 ≠ r := by
            intro heq
            rw [← heq] at hnew
            exact hnew p.2 hpg
          rw [placed?_place, if_neg hne] at hpplaced
          exact ⟨hp0, hpvalue, hpplaced⟩
      · -- the slot is known now, and what was placed there is something else
        have hlearnt : ((t.learn r w).learnAll g).value? r = some w := by
          rw [value?_learnAll g _ hnew, value?_learn h0, if_pos rfl]
        have hold : ((t.learn r w).learnAll g).placed? r ≠ some w := by
          rw [placed?, (learnAll_eq g _).1, (learn_eq h0).1]
          intro hp
          exact hplaced (he.known r w h0 ((he.placed r h0).symm.trans hp))
        have hbuilt : ((t.learn r w).learnAll g).out.setConst r w = .ok b := by
          rw [(learnAll_eq g _).2.1, (learn_eq h0).2.1, he.out, hb]
        show ((t.learn r w).learnAll g).flush r = .ok (((t.learn r w).place r w b).learnAll g)
        rw [place_learnAll, flush, hlearnt]
        simp only [h0, false_or, hbuilt]
        exact (if_neg hold).trans rfl

/-! ## Emitting and learning -/

theorem out_learn (s : Folding) (r : UInt8) (w : Word) : (s.learn r w).out = s.out := by
  unfold learn
  split <;> rfl

theorem out_foldl_forget (rs : List UInt8) (s : Folding) : (rs.foldl forget s).out = s.out := by
  induction rs generalizing s with
  | nil => rfl
  | cons r rs ih => rw [List.foldl_cons, ih, (forget_eq s r).1]

/-- The constants that a flush sets are learnt when they are read again. -/
theorem replayed_setConsts (g : List (UInt8 × Word)) (h : Replayed b t) (hb : b.Canonical)
    (ht : t.out.pool.size ≤ b.pool.size)
    (hset : g.foldlM (fun b p => b.setConst p.1 p.2) b = .ok b') :
    Replayed b' (t.learnAll g) ∧ b.pool.size ≤ b'.pool.size := by
  induction g generalizing b t with
  | nil =>
    cases pure_eq_ok.mp hset
    exact ⟨h, Nat.le_refl _⟩
  | cons p g ih =>
    obtain ⟨b₁, h₁, hset⟩ := bind_eq_ok.mp hset
    replace h₁ : b.pushWith { op := .setConst, dest := p.1 } (some p.2) = .ok b₁ := h₁
    have hgrown : b.pool.size ≤ b₁.pool.size := (pool_pushWith h₁).length_le
    have hlearn : (t.learn p.1 p.2).out.pool.size ≤ b₁.pool.size := by
      rw [out_learn]
      exact Nat.le_trans ht hgrown
    have hconst : some p.2 = none → Opcode.setConst.constField? = none := nofun
    obtain ⟨hagain, hle⟩ :=
      ih (h.pushWith hb.size_le ht hconst h₁ rfl) (hb.pushWith hconst h₁) hlearn hset
    exact ⟨hagain, Nat.le_trans hgrown hle⟩

/-- Flush some slots, forget what an instruction writes, and append it. -/
def emitAfter (s : Folding) (l : List UInt8) (i : Inst) (c? : Option Word) : Except Fault Folding :=
  do
    let s ← l.foldlM flush s
    ((integerBytes i.writeSlots).foldl forget s).pushWith i c?

theorem emit_eq (s : Folding) (i : Inst) (c? : Option Word) :
    s.emit i c? = s.emitAfter (integerBytes i.readSlots) i c? := rfl

theorem emitExit_eq (s : Folding) (i : Inst) (c? : Option Word) :
    s.emitExit i c? = s.emitAfter (flushOrder ++ integerBytes i.readSlots) i c? := by
  rw [emitAfter, List.foldlM_append, bind_assoc]
  rfl

/-- The state `u` knows no more than `s` about the slots in `l` and about those that `s` does not
know. -/
structure Fainter (u s : Folding) (l : List UInt8) : Prop where
  known : ∀ q w, q ∈ l ∨ s.value? q = none → u.value? q = some w → s.value? q = some w
  zero : u.value? 0 = some 0
  live : u.dropExit = false

/-- **Emitting again.** An instruction that was appended after a flush is appended again, if folding
it comes to the same flush in every state that knows no more. -/
theorem repeats_append {s₁ s₂ : Folding} (h : Repeats s) (hflush : l.foldlM flush s = .ok s₁)
    (hs₂ : Sound s₂) (hout : s₂.out = s₁.out)
    (hecho : ∀ t, Echoes s₁ t → Echoes s₂ ((integerBytes j.writeSlots).foldl forget t))
    (hpush : s₂.out.pushWith j c? = .ok b) (hj : c? = none → j.op.constField? = none)
    (hfold : ∀ u, Fainter u s l → u.fold j c? = u.emitAfter l j c?) :
    Repeats { s₂ with out := b } := by
  obtain ⟨hs, t, hreplay, he⟩ := h
  obtain ⟨g, t₁, -, hset, hagain, he₁⟩ := flush_again l hflush he
  have hs₁ : Sound s₁ := sound_flushes l hs hflush
  obtain ⟨hflushed, hsynced⟩ := flushed_foldlM l hflush
  obtain ⟨hflushed', -⟩ := flushed_foldlM l hagain
  have hsize : t.out.pool.size ≤ s.out.pool.size := Nat.le_of_eq (by rw [he.out])
  obtain ⟨hlearnt, hgrown⟩ := replayed_setConsts g hreplay hs.canonical hsize hset
  have hvalue : ∀ q, (t.learnAll g).value? q = t₁.value? q := fun q =>
    congrArg (PerSlot.at · q) hflushed'.known.symm
  have hvalue₁ : ∀ q, s₁.value? q = s.value? q := fun q =>
    congrArg (PerSlot.at · q) hflushed.known
  have hfaint : Fainter (t.learnAll g) s l := by
    refine ⟨fun q w hq hw => ?_, (hvalue 0).trans he₁.zero, (learnAll_eq g t).2.2.trans he.live⟩
    rw [hvalue] at hw
    by_cases h0 : q = 0
    · subst h0
      rw [hs.zero, ← he₁.zero, hw]
    have hplaced : s₁.placed? q = some w := he₁.known q w h0 hw
    have hknown : s₁.value? q ≠ none := fun hnone =>
      nomatch hplaced.symm.trans (hs₁.unplaced q hnone)
    rcases hq with hq | hnone
    · rcases hsynced q hq with hzero | hnone | hsame
      · exact absurd hzero h0
      · exact absurd hnone hknown
      · rw [← hvalue₁, ← hsame, hplaced]
    · exact absurd ((hvalue₁ q).trans hnone) hknown
  have he₂ := hecho t₁ he₁
  have hstep : (t.learnAll g).fold j c?
      = .ok { (integerBytes j.writeSlots).foldl forget t₁ with out := b } := by
    rw [hfold _ hfaint, emitAfter, hagain]
    show (((integerBytes j.writeSlots).foldl forget t₁).out.pushWith j c? >>= _) = _
    rw [he₂.out, hpush]
    rfl
  have hsize₁ : (t.learnAll g).out.pool.size ≤ s₁.out.pool.size := by
    rw [(learnAll_eq g t).2.1]
    exact Nat.le_trans hsize hgrown
  have hb : b.Canonical := hs₂.canonical.pushWith hj hpush
  rw [hout] at hpush
  exact ⟨⟨hs₂.unplaced, hs₂.zero, hs₂.tame, hb⟩, _,
    hlearnt.pushWith hs₁.canonical.size_le hsize₁ hj hpush hstep,
    ⟨rfl, he₂.placed, he₂.known, he₂.zero, he₂.live⟩⟩

/-- An instruction that is emitted in the same way in every state that knows no more. -/
theorem repeats_emitAfter (h : Repeats s) (he : s.emitAfter l j c? = .ok s')
    (hj : c? = none → j.op.constField? = none)
    (hfold : ∀ u, Fainter u s l → u.fold j c? = u.emitAfter l j c?) : Repeats s' := by
  obtain ⟨s₁, hflush, he⟩ := bind_eq_ok.mp he
  obtain ⟨b, hpush, he⟩ := bind_eq_ok.mp he
  rw [← pure_eq_ok.mp he]
  exact repeats_append h hflush (sound_foldl_forget (sound_flushes l h.1 hflush) _)
    (out_foldl_forget _ _) (fun t ht => ht.foldl_forget _) hpush hj hfold

theorem repeats_emit (h : Repeats s) (he : s.emit j c? = .ok s')
    (hj : c? = none → j.op.constField? = none)
    (hfold : ∀ u, Fainter u s (integerBytes j.readSlots) → u.fold j c? = u.emit j c?) :
    Repeats s' :=
  repeats_emitAfter h he hj hfold

theorem repeats_emitExit (h : Repeats s) (he : s.emitExit j c? = .ok s')
    (hj : c? = none → j.op.constField? = none)
    (hfold : ∀ u, Fainter u s (flushOrder ++ integerBytes j.readSlots) →
      u.fold j c? = u.emitExit j c?) : Repeats s' := by
  rw [emitExit_eq] at he
  exact repeats_emitAfter h he hj fun u hu => (hfold u hu).trans (emitExit_eq u j c?)

theorem repeats_learn (h : Repeats s) (hr : Slot.isInteger r.toNat = true) (w : Word) :
    Repeats (s.learn r w) := by
  obtain ⟨hs, t, hreplay, he⟩ := h
  refine ⟨sound_learn hs hr w, t, ?_, he.learn r w⟩
  rwa [out_learn]

/-- Whether an exit is to be dropped is not looked at when the block is read again. -/
theorem repeats_setDropExit (h : Repeats s) (drop : Bool) :
    Repeats { s with dropExit := drop } := by
  obtain ⟨hs, t, hreplay, he⟩ := h
  exact ⟨⟨hs.unplaced, hs.zero, hs.tame, hs.canonical⟩, t, hreplay,
    ⟨he.out, he.placed, he.known, he.zero, he.live⟩⟩

end Folding

end Dynarec.Optimize.ConstantPropagation
