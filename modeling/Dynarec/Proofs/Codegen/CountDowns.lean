/-
Blocks that are too long.

Compiling fails exactly if a block is not in branch range (`exists_compile_iff`). Whether it is can
be told for a block that ends in many counts (`counting`): counting down takes three words and
nothing of the register engine, so the branches to the epilogue are those of the instructions
before, and each count puts three words between them and the epilogue (`Precedes.leads_lowerBody`).

What the instructions before lay down is evaluated. Lowering checks the register engine after each
instruction and moves on by going through its tables, which evaluates badly, so the same steps are
evaluated without the check and with tables as lists (`unchecked`).
-/
import Dynarec.Proofs.Codegen.BranchTargets

set_option autoImplicit false

namespace Dynarec.Aarch64

open Dynarec.Codegen Dynarec.Registers

section

variable {helper : UInt64} {s : Settings} {b : Block} {k : Nat}

/-! ## Blocks that do not compile -/

theorem leads_emitAll {is : List Instr} (hplain : AllPlain is) (st : LowerState) :
    Leads (emitAll is) st fun _ st' => st'.engine = st.engine ∧
      st'.asm.position = st.asm.position + is.length ∧ st'.exits = st.exits := by
  refine Yields.leads (yields_get (yields_lift (Assembler.pushAll_plain hplain)
    ⟨(), _, rfl, rfl, ?_, rfl⟩))
  exact (Assembler.position_append _).trans (congrArg _ (List.length_map _))

theorem reaches_of_resolve {a a' : Assembler} {x : Branch} (h : a.resolve x = .ok a') :
    x.kind.reaches ((a.position : Int) - x.site) = true ∧ a'.position = a.position := by
  unfold Assembler.resolve Assembler.resolveTo at h
  dsimp only at h
  split at h
  · cases h
  · split at h
    · cases h
    · next hreaches =>
      split at h
      · split at h
        · cases h
        · cases h
          exact ⟨by simpa using hreaches, Array.size_set ‹_›⟩
      · cases h

/-- Branches that have been resolved are in reach. -/
theorem reaches_of_foldlM {xs : List Branch} {a a' : Assembler}
    (h : xs.foldlM Assembler.resolve a = .ok a') :
    (∀ x ∈ xs, x.kind.reaches ((a.position : Int) - x.site) = true) ∧ a'.position = a.position := by
  induction xs generalizing a with
  | nil =>
    cases h
    exact ⟨fun _ hx => absurd hx List.not_mem_nil, rfl⟩
  | cons x xs ih =>
    rw [List.foldlM_cons] at h
    obtain ⟨d, hd, h⟩ := bind_eq_ok.mp h
    obtain ⟨hreaches, hposition⟩ := reaches_of_resolve hd
    obtain ⟨hrest, hend⟩ := ih h
    refine ⟨fun y hy => ?_, hend.trans hposition⟩
    rcases List.mem_cons.mp hy with rfl | hy
    · exact hreaches
    · exact hposition ▸ hrest y hy

/-- The code of a block is the words of its body and of the epilogue. -/
theorem leads_lowerBlock {lowered : List (Opcode × Bool)} {st : LowerState}
    (hrun : lowerBody helper b (initial s b) = .ok (lowered, st)) :
    Leads (lowerBlock helper b) (initial s b) fun c _ =>
      (∀ x ∈ st.exits, x.kind.reaches ((st.asm.position : Int) - x.site) = true) ∧
        c.code.length = 4 * (st.asm.position + epilogue.length) := by
  rw [lowerBlock_eq]
  refine leads_bind fun _ _ hrun' => ?_
  cases hrun.symm.trans hrun'
  have hresolve : Leads resolveExits st fun _ st' =>
      (∀ x ∈ st.exits, x.kind.reaches ((st.asm.position : Int) - x.site) = true) ∧
        st'.asm.position = st.asm.position := by
    have hset : resolveExits = get >>= fun st : LowerState =>
        (liftM (st.asm.resolveAll st.exits) : LowerM Assembler) >>= fun asm =>
          set { st with asm := asm, exits := #[] } >>= pure := by
      simp only [resolveExits, bind_pure]
    rw [hset]
    refine leads_get (leads_lift fun asm hasm => leads_set (leads_pure ?_))
    unfold Assembler.resolveAll at hasm
    rw [← Array.foldlM_toList] at hasm
    obtain ⟨hreaches, hposition⟩ := reaches_of_foldlM hasm
    exact ⟨fun x hx => hreaches x (Array.mem_def.mp hx), hposition⟩
  refine leads_bind (hresolve.mono fun _ st₁ ⟨hreaches, hpos₁⟩ => leads_bind ?_)
  refine (leads_emitAll allPlain_epilogue st₁).mono fun _ st₂ ⟨_, hpos₂, _⟩ => ?_
  refine leads_get (leads_lift fun code hcode => leads_pure ⟨hreaches, ?_⟩)
  unfold Assembler.finish at hcode
  split at hcode
  · cases hcode
    have hfour : ∀ w ∈ st₂.asm.words.toList, (Word.littleEndian w).length = 4 := fun _ _ => rfl
    rw [List.length_flatMap, List.map_congr_left hfour, List.map_const', List.sum_replicate,
      Nat.mul_comm, ← hpos₁, ← hpos₂]
    rfl
  · cases hcode

theorem exists_lowerBlock {c : Compiled} (hc : compile helper s b = .ok c) :
    ∃ st, lowerBlock helper b (initial s b) = .ok (c, st) := by
  unfold compile StateT.run at hc
  unfold initial
  rcases hblock : lowerBlock helper b { engine := (Engine.new host (policy s)).start b.insts }
    with f | ⟨c', st⟩
  · rw [hblock] at hc
    cases hc
  · rw [hblock] at hc
    cases hc
    exact ⟨st, rfl⟩

/-- **A block compiles exactly if it is in branch range.** -/
theorem exists_compile_iff (hb : b.InRange) (hfits : ∀ i ∈ b.insts, i.fits = true) :
    (∃ c, compile helper s b = .ok c) ↔ InBranchRange helper s b := by
  constructor
  · rintro ⟨c, hc⟩ lowered st hrun n hn
    obtain ⟨st', hblock⟩ := exists_lowerBlock hc
    exact (leads_lowerBlock hrun c st' hblock).1 n hn
  · intro hrange
    obtain ⟨c, st, hrun, -⟩ := yields_lowerBlock hb hfits hrange
    exact ⟨c, congrArg (Prod.fst <$> ·) hrun⟩

/-! ## Steps one after the other -/

theorem walk_append (pre rest : List Inst) (k : Nat) :
    (lowering helper).walk b k (pre ++ rest) = (do
      let lowered ← (lowering helper).walk b k pre
      let lowered' ← (lowering helper).walk b (k + pre.length) rest
      return lowered ++ lowered') := by
  induction pre generalizing k with
  | nil =>
    rw [Lowering.walk, pure_bind]
    exact (bind_pure _).symm
  | cons i pre ih =>
    have hlength : k + 1 + pre.length = k + (i :: pre).length := by
      rw [List.length_cons]
      omega
    rw [List.cons_append]
    by_cases hnop : i.op = .nop
    · rw [walk_nop hnop, walk_nop hnop, ih, hlength]
    · rw [walk_cons hnop, walk_cons hnop, ih, hlength]
      simp only [bind_assoc, pure_bind, List.cons_append]

/-- A call, written so that getting ready for it evaluates well. -/
def calling (helper : UInt64) (i : Inst) (c : Word) : LowerM Unit := do
  withEngine do
    storeKnown
    (List.range (← get).hosts.size).forM (readyReg i.writeSlots)
  emitSeq (callCode helper i c)
  branchToEpilogue (.cbnz false 0)
  withEngine (Registers.reloadAfterCall i.writeSlots)

theorem calling_eq (helper : UInt64) (i : Inst) (c : Word) :
    calling helper i c = lowerCall helper i c := by
  unfold calling lowerCall
  rw [flushBeforeCall_eq, storeKnown_eq]

/-- The steps without the check, and with tables as lists. -/
def unchecked (helper : UInt64) : Lowering LowerM :=
  { lowering helper with
    beginInst := fun k => modify fun st => { st with engine := movedOn st.engine k }
    call := calling helper
    finishInst := pure () }

/-- What succeeds succeeds in the same way. -/
def Agrees {α : Type} (op op' : LowerM α) : Prop := ∀ st r, op st = .ok r → op' st = .ok r

theorem agrees_refl {α : Type} (op : LowerM α) : Agrees op op := fun _ _ h => h

theorem agrees_bind {α β : Type} {op op' : LowerM α} {f f' : α → LowerM β} (h : Agrees op op')
    (hf : ∀ a, Agrees (f a) (f' a)) : Agrees (op >>= f) (op' >>= f') := by
  intro st r hr
  replace hr : (op st >>= fun p => f p.1 p.2) = .ok r := hr
  obtain ⟨p, hp, hr⟩ := bind_eq_ok.mp hr
  exact bind_eq_ok.mpr ⟨p, h st p hp, hf p.1 p.2 r hr⟩

theorem agrees_ite {α : Type} {op op' other other' : LowerM α} {c : Prop} [Decidable c]
    (h : Agrees op op') (h' : Agrees other other') :
    Agrees (if c then op else other) (if c then op' else other') := by
  split
  · exact h
  · exact h'

/-- The check changes nothing. -/
theorem leads_finishInst (st : LowerState) :
    Leads (lowering helper).finishInst st fun _ st' => st' = st := by
  have hcheck : (lowering helper).finishInst =
      get >>= fun st : LowerState => (liftM st.engine.check : LowerM Unit) >>= pure := by
    simp only [lowering, bind_pure]
  rw [hcheck]
  exact leads_get (leads_lift fun _ _ => leads_pure rfl)

theorem agrees_unchecked (insts : List Inst) :
    Agrees ((lowering helper).walk b k insts) ((unchecked helper).walk b k insts) := by
  have hbegin : ∀ k, (unchecked helper).beginInst k = (lowering helper).beginInst k := by
    intro k
    simp only [unchecked, lowering, movedOn_eq]
  have hfinish : Agrees (lowering helper).finishInst (unchecked helper).finishInst := by
    rintro st ⟨u, st'⟩ h
    cases leads_finishInst st u st' h
    rfl
  induction insts generalizing k with
  | nil => exact agrees_refl _
  | cons i rest ih =>
    unfold Lowering.walk
    split
    · exact ih
    · rw [hbegin]
      have hrest : ∀ x : Opcode × Bool, Agrees
          ((lowering helper).finishInst >>= fun _ => (lowering helper).walk b (k + 1) rest >>=
            fun lowered => pure (x :: lowered))
          ((unchecked helper).finishInst >>= fun _ => (unchecked helper).walk b (k + 1) rest >>=
            fun lowered => pure (x :: lowered)) :=
        fun x => agrees_bind hfinish fun _ => agrees_bind ih fun _ => agrees_refl _
      have hcall : ∀ c, (unchecked helper).call i c = (lowering helper).call i c :=
        calling_eq helper i
      refine agrees_bind (agrees_refl _) fun _ => agrees_bind (agrees_refl _) fun c => ?_
      rw [hcall]
      exact agrees_ite (agrees_bind (agrees_refl _) fun _ => hrest _)
        (agrees_bind (agrees_refl _) fun _ => hrest _)

theorem leads_unchecked {insts : List Inst} {st : LowerState}
    {P : List (Opcode × Bool) → LowerState → Prop}
    (h : Leads ((unchecked helper).walk b k insts) st P) :
    Leads ((lowering helper).walk b k insts) st P :=
  fun a st' ha => h a st' (agrees_unchecked insts st (a, st') ha)

/-! ## Counts -/

/-- Count down by the first constant of the pool. -/
def count : Inst := ⟨.downcount, 0, 0, 0⟩

/-- A block that ends in `n` counts. -/
def counting (pre : List Inst) (n : Nat) : Block where
  insts := pre ++ List.replicate n count
  pool := ⟨[1]⟩

/-- A count takes three words and leaves the engine alone. -/
theorem leads_lowerAt_count (hpool : b.pool = ⟨[1]⟩) (k : Nat) (st : LowerState) :
    Leads (lowerAt helper b k count) st fun _ st' => st'.engine = st.engine.beginInst k ∧
      st'.asm.position = st.asm.position + 3 ∧ st'.exits = st.exits := by
  have hconst : b.constantOf count = .ok (some 1) := by
    unfold Block.constantOf
    rw [hpool]
    rfl
  obtain ⟨x, hx, is, his, hplain, hlength⟩ : ∃ x : Sequence, lowerInst helper count 1 = emitSeq x ∧
      ∃ is, x = .ok is ∧ AllPlain is ∧ is.length = 3 := ⟨_, rfl, _, rfl, rfl, rfl⟩
  refine leads_bind (leads_modify (leads_lift fun c hc => ?_))
  cases hconst.symm.trans hc
  refine leads_bind ?_
  rw [Option.getD_some, hx, his, ← emitAll_eq]
  exact (leads_emitAll hplain _).mono fun _ st₁ h =>
    (leads_finishInst st₁).mono fun _ _ heq => heq ▸ hlength ▸ h

theorem leads_walk_counts (hpool : b.pool = ⟨[1]⟩) (n k : Nat) (st : LowerState) :
    Leads ((lowering helper).walk b k (List.replicate (n + 1) count)) st fun _ st' =>
      st'.engine = st.engine.beginInst (k + n) ∧
        st'.asm.position = st.asm.position + 3 * (n + 1) ∧ st'.exits = st.exits := by
  induction n generalizing k st with
  | zero =>
    rw [List.replicate_succ, walk_cons (by decide)]
    exact leads_bind ((leads_lowerAt_count hpool k st).mono fun _ st' h =>
      leads_bind (leads_pure (leads_pure h)))
  | succ n ih =>
    rw [List.replicate_succ, walk_cons (by decide)]
    refine leads_bind ((leads_lowerAt_count hpool k st).mono
      fun _ st₁ ⟨hengine, hpos, hexits⟩ => ?_)
    refine leads_bind ((ih (k + 1) st₁).mono fun _ st₂ ⟨hengine', hpos', hexits'⟩ => leads_pure ?_)
    refine ⟨?_, by omega, hexits'.trans hexits⟩
    rw [hengine', hengine, Engine.beginInst_beginInst]
    congr 1
    omega

/-- The instructions of a block before its counts, without the checks. -/
def lowerBefore (helper : UInt64) (b : Block) (pre : List Inst) :
    LowerM (List (Opcode × Bool)) := do
  emitAll prologue
  withEngine Registers.reloadStatics
  (unchecked helper).walk b 0 pre

/-- Storing everything, written so that it evaluates well. -/
def storingAll : EngineM Unit := do
  storeKnown
  forHoldings flushReg

theorem storingAll_eq : storingAll = flushAll := by
  unfold storingAll flushAll
  rw [storeKnown_eq]

/-- `p` words are laid down before the counts, with these branches to the epilogue, and behind the
counts there is nothing to store. -/
def Precedes (helper : UInt64) (s : Settings) (pre : List Inst) (n p : Nat) (exits : List Branch) :
    Prop :=
  ((lowerBefore helper (counting pre (n + 1)) pre (initial s (counting pre (n + 1)))).toOption.map
    fun r => (r.2.asm.position, r.2.exits.toList,
      (storingAll (movedOn r.2.engine (pre.length + n))).toOption.map fun r => r.2.actions.toList))
    = some (p, exits, some [])

instance (helper : UInt64) (s : Settings) (pre : List Inst) (n p : Nat) (exits : List Branch) :
    Decidable (Precedes helper s pre n p exits) := inferInstanceAs (Decidable (_ = _))

section

variable {pre : List Inst} {n p : Nat} {exits : List Branch}

/-- The body of a block that ends in counts. -/
theorem Precedes.leads_lowerBody (h : Precedes helper s pre n p exits) :
    Leads (lowerBody helper (counting pre (n + 1))) (initial s (counting pre (n + 1)))
      fun _ st => st.asm.position = p + 3 * (n + 1) + 1 ∧ st.exits.toList = exits := by
  have hbefore := leads_of_eval h
  unfold lowerBody
  refine leads_bind (hbefore.bind.mono fun _ st₁ h₁ => leads_bind (h₁.bind.mono fun _ st₂ h₂ => ?_))
  have hinsts : (counting pre (n + 1)).insts = pre ++ List.replicate (n + 1) count := rfl
  rw [hinsts, walk_append, bind_assoc]
  refine leads_bind ((leads_unchecked h₂).mono fun lowered st₃ h₃ => ?_)
  obtain ⟨hpos₃, hexits₃, hflush⟩ : _ ∧ _ ∧ _ := by simpa only [Prod.mk.injEq] using h₃
  rw [bind_assoc]
  refine leads_bind ((leads_walk_counts rfl n (0 + pre.length) st₃).mono
    fun lowered' st₄ ⟨hengine, hpos₄, hexits₄⟩ => ?_)
  rw [pure_bind]
  refine leads_bind (leads_modify ?_)
  -- dropping the locks is what moving on to the same instruction does
  have hreleased : st₄.engine.releaseLocks = movedOn st₃.engine (pre.length + n) := by
    rw [movedOn_eq, hengine, Nat.zero_add]
    exact st₃.engine.beginInst_beginInst _ (pre.length + n)
  rw [← hreleased, storingAll_eq] at hflush
  -- nothing is asked for, so nothing is laid down
  refine leads_bind (leads_get (leads_lift fun r hr => leads_lift fun asm hasm => leads_set ?_))
  have hactions : r.2.actions = #[] := Array.toList_inj.mp (leads_of_eval hflush r.1 r.2 hr)
  rw [hactions] at hasm
  cases hasm
  refine leads_pure (leads_bind ?_)
  rw [emit_eq]
  refine (leads_emitAll (rfl : AllPlain [fallThrough]) _).mono fun _ st₅ ⟨_, hpos₅, hexits₅⟩ =>
    leads_pure ?_
  refine ⟨?_, by rw [hexits₅, hexits₄, hexits₃]⟩
  rw [hpos₅, ← hpos₃]
  exact congrArg (· + 1) hpos₄

/-- **How many counts a block can end in.** It compiles exactly if each branch of the instructions
before reaches over the counts, and its code has three words for each count. -/
theorem Precedes.exists_compile_iff (h : Precedes helper s pre n p exits)
    (hb : (counting pre (n + 1)).InRange)
    (hfits : ∀ i ∈ (counting pre (n + 1)).insts, i.fits = true) :
    ((∃ c, compile helper s (counting pre (n + 1)) = .ok c) ↔
      ∀ x ∈ exits, x.kind.reaches (((p + 3 * (n + 1) + 1 : Nat) : Int) - x.site) = true) ∧
    ∀ c, compile helper s (counting pre (n + 1)) = .ok c →
      c.code.length = 4 * (p + 3 * (n + 1) + 1 + epilogue.length) := by
  obtain ⟨lowered, st, hrun, -⟩ : Yields (lowerBody helper (counting pre (n + 1)))
    (initial s (counting pre (n + 1))) _ := yields_lowerBody hb hfits
  obtain ⟨hposition, hexits⟩ := h.leads_lowerBody lowered st hrun
  refine ⟨?_, fun c hc => ?_⟩
  · rw [Aarch64.exists_compile_iff hb hfits, ← hexits, ← hposition]
    constructor
    · exact fun hrange x hx => hrange lowered st hrun x (Array.mem_def.mpr hx)
    · intro hreaches lowered' st' hrun' x hx
      cases hrun.symm.trans hrun'
      exact hreaches x (Array.mem_def.mp hx)
  · obtain ⟨st', hblock⟩ := exists_lowerBlock hc
    rw [← hposition]
    exact (leads_lowerBlock hrun c st' hblock).2

end

end

end Dynarec.Aarch64
