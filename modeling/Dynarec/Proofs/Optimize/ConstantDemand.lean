/-
The words that constant propagation asks for.

Folding an instruction appends others, and the only thing about it that depends on the block being
built is the pool: the words that it interns are the same on every block, and it fails exactly if
one of them finds the pool full. `Draws V x` says this of a step `x` that is started with any block:
it asks for certain words in a certain order, and what it then knows does not depend on the block.
The words asked for, and the words that are known afterwards of slots other than zero, are all in
`V`. A step that is composed as the fold is draws (`Composed.draws`), if `V` holds the words that
are known before and the one that the instruction brings with it.

That is the word that an instruction adds at most to those that were known: its constant, or the
result of its operation on known words. `Adds` says this.

Nothing is asked of operands, which may be of any class and name any slot.
-/
import Dynarec.Proofs.Optimize.FoldingSteps

set_option autoImplicit false

namespace Dynarec

/-- The pool after several words have been interned. -/
def Pool.internAll (p : Pool) (ws : List Word) : Except Fault Pool :=
  ws.foldlM (fun p w => do return (← p.intern w).2) p

theorem Pool.internAll_cons (p : Pool) (w : Word) (ws : List Word) :
    p.internAll (w :: ws) = p.intern w >>= fun q => q.2.internAll ws := by
  rw [internAll, List.foldlM_cons]
  cases p.intern w <;> rfl

namespace Optimize.ConstantPropagation.Folding

variable {V : Word → Prop} {s t : Folding} {i : Inst} {p : Inst × Option Word}
  {l : List (Inst × Option Word)} {c? v? : Option Word} {x : Block → Except Fault Folding}

/-- Every word that is known of a slot other than zero is one of `V`. -/
def Within (V : Word → Prop) (s : Folding) : Prop := ∀ r w, r ≠ 0 → s.value? r = some w → V w

/-- Started on any block, the step interns the same words of `V` in the same order. If there is room
for all of them it appends instructions and ends in the same state, which knows words of `V` only.
-/
def Draws (V : Word → Prop) (x : Block → Except Fault Folding) : Prop :=
  ∃ (s : Folding) (ws : List Word), Within V s ∧ (∀ w ∈ ws, V w) ∧ ∀ b : Block,
    (∃ f, b.pool.internAll ws = .error f ∧ x b = .error f) ∨
      ∃ p new, b.pool.internAll ws = .ok p ∧ x b = .ok (s.on ⟨b.insts ++ new, p⟩)

/-! ## Appending -/

/-- Appending instructions asks for their constants, and fails for no other reason. -/
theorem pushAll_internAll (hl : ∀ q ∈ l, Fielded q) (b : Block) :
    (∃ f, b.pool.internAll (l.filterMap Prod.snd) = .error f ∧ b.pushAll l = .error f) ∨
      ∃ p new, b.pool.internAll (l.filterMap Prod.snd) = .ok p ∧
        b.pushAll l = .ok ⟨b.insts ++ new, p⟩ := by
  induction l generalizing b with
  | nil => exact Or.inr ⟨b.pool, [], rfl, by rw [List.append_nil]; rfl⟩
  | cons q l ih =>
    obtain ⟨i, c?⟩ := q
    obtain ⟨hq, hrest⟩ := List.forall_mem_cons.mp hl
    rw [Block.pushAll_cons]
    cases c? with
    | none =>
      rcases ih hrest (b.push i) with hfail | ⟨p, new, hp, hpush⟩
      · exact Or.inl hfail
      · refine Or.inr ⟨p, i :: new, hp, hpush.trans ?_⟩
        rw [Block.push, List.append_assoc]
        rfl
    | some c =>
      obtain ⟨f, hf⟩ := Option.isSome_iff_exists.mp (hq.resolve_left nofun)
      have hpush : b.pushWith i (some c) = b.pool.intern c >>= fun q =>
          .ok ⟨b.insts ++ [i.setField f q.1], q.2⟩ := by
        rw [Block.pushWith_some]
        simp only [Inst.setConstantIndex, hf]
        rfl
      show (∃ f, b.pool.internAll (c :: l.filterMap Prod.snd) = .error f ∧ _) ∨
        ∃ p new, b.pool.internAll (c :: l.filterMap Prod.snd) = .ok p ∧ _
      rw [Pool.internAll_cons, hpush]
      cases b.pool.intern c with
      | error g => exact Or.inl ⟨g, rfl, rfl⟩
      | ok q =>
        rcases ih hrest ⟨b.insts ++ [i.setField f q.1], q.2⟩ with hfail | ⟨p, new, hp, hpush⟩
        · exact Or.inl hfail
        · refine Or.inr ⟨p, i.setField f q.1 :: new, hp, hpush.trans ?_⟩
          rw [List.append_assoc]
          rfl

/-! ## Knowledge -/

theorem within_learn (hs : Within V s) {w : Word} (hw : V w) (r : UInt8) : Within V (s.learn r w) := by
  intro q v hq hv
  by_cases hr : r = 0
  · rw [learn, if_pos hr] at hv
    exact hs q v hq hv
  · rw [value?_learn hr] at hv
    split at hv
    · cases hv
      exact hw
    · exact hs q v hq hv

theorem within_forget (hs : Within V s) (r : UInt8) : Within V (s.forget r) := by
  intro q v hq hv
  by_cases hr : r = 0
  · rw [forget, if_pos hr] at hv
    exact hs q v hq hv
  · rw [value?_forget hr] at hv
    split at hv
    · cases hv
    · exact hs q v hq hv

/-- What is known afterwards was known before or is the word that is brought, and so is every
constant of what was appended. -/
theorem Did.within (h : Did p v? s l t) (hv : ∀ v, v? = some v → V v) (hs : Within V s) :
    Within V t ∧ ∀ q ∈ l, ∀ c, q.2 = some c → V c := by
  induction h with
  | nothing s => exact ⟨hs, List.forall_mem_nil _⟩
  | andThen _ _ ih ih' =>
    obtain ⟨ht, hl⟩ := ih hs
    obtain ⟨hu, hl'⟩ := ih' ht
    exact ⟨hu, List.forall_mem_append.mpr ⟨hl, hl'⟩⟩
  | learn s _ h => exact ⟨within_learn hs (hv _ h) _, List.forall_mem_nil _⟩
  | forget s r => exact ⟨within_forget hs r, List.forall_mem_nil _⟩
  | setDrop s drop => exact ⟨hs, List.forall_mem_nil _⟩
  | append s _ hc => exact ⟨hs, List.forall_mem_singleton.mpr fun c hq => hv c (hc c hq)⟩
  | @flush s r w hr hw =>
    refine ⟨hs, List.forall_mem_singleton.mpr fun c hq => ?_⟩
    rw [← Option.some.inj hq]
    exact hs r w hr hw

theorem Did.fielded (h : Did p v? s l t) (hp : Fielded p) : ∀ q ∈ l, Fielded q := by
  induction h with
  | nothing | learn | forget | setDrop => exact List.forall_mem_nil _
  | andThen _ _ ih ih' => exact List.forall_mem_append.mpr ⟨ih, ih'⟩
  | append s hq => exact List.forall_mem_singleton.mpr (hq.fielded hp)
  | flush => exact List.forall_mem_singleton.mpr (Or.inr rfl)

/-! ## Steps that draw -/

/-- **A step that is composed as the fold is draws.** -/
theorem Composed.draws (h : Composed p v? s x) (hp : Fielded p) (hv : ∀ v, v? = some v → V v)
    (hs : Within V s) : Draws V x := by
  obtain ⟨l, t, hdid, hx⟩ := h
  obtain ⟨ht, hwords⟩ := hdid.within hv hs
  refine ⟨t, l.filterMap Prod.snd, ht, fun w hw => ?_, fun b => ?_⟩
  · obtain ⟨q, hq, hw⟩ := List.mem_filterMap.mp hw
    exact hwords q hq w hw
  · rw [hx]
    rcases pushAll_internAll (hdid.fielded hp) b with ⟨f, hf, hpush⟩ | ⟨q, new, hq, hpush⟩
    · exact Or.inl ⟨f, hf, by rw [hpush]; rfl⟩
    · exact Or.inr ⟨q, new, hq, by rw [hpush]; rfl⟩

theorem draws_flushAll (hs : Within V s) : Draws V fun b => (s.on b).flushAll := by
  have h : Composed ({ op := .exitToConst }, none) none s fun b => (s.on b).flushAll :=
    composed_flushAll
  exact h.draws (Or.inl rfl) nofun hs

/-- Besides the words that are known, the step asks for one word at most and learns no other: for
each `V` that holds this word and all known words, it asks for words of `V` and learns words of
`V`. -/
def Adds (s : Folding) (k : Folding → Except Fault Folding) : Prop :=
  ∃ v, ∀ V : Word → Prop, V v → Within V s → Draws V fun b => k (s.on b)

/-- **One instruction.** -/
theorem adds_fold (hi : c? = none ∨ i.op.constField?.isSome = true) :
    Adds s fun t => t.fold i c? := by
  obtain ⟨v?, h⟩ := composed_fold s i c?
  exact ⟨v?.getD 0, fun _ hv hs => h.draws hi (fun v hv? => by rwa [hv?] at hv) hs⟩

end Optimize.ConstantPropagation.Folding

end Dynarec
