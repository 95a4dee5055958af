/-
Blocks whose branches are in reach.

The body of a block is its code up to the epilogue (`lowerBody`): straight code that sets up the
registers, the cells of each instruction that is not left out, and straight code that stores the
registers. Laying it down cannot fail (`yields_lowerBody`). What can fail is resolving the branches
to the epilogue, because it is too far away, and a block in which it is not is in branch range
(`InBranchRange`).

Code of less than a megabyte is in branch range (`inBranchRange_of_short`). How long the code of a
block is depends on what the register engine has to move. It has nothing to move as long as the
instructions are calls and exits, so that there each instruction has a few words at most
(`inBranchRange_of_quiet`).
-/
import Dynarec.Proofs.Codegen.Laying

set_option autoImplicit false

namespace Dynarec.Aarch64

open Dynarec.Codegen Dynarec.Registers

/-! ## The body of a block -/

/-- The result when control runs off the end of a block. -/
def fallThrough : Instr := .wide .movz false 0 0 0

/-- The steps of compiling a block up to the epilogue. -/
def lowerBody (helper : UInt64) (b : Block) : LowerM (List (Opcode × Bool)) := do
  emitAll prologue
  withEngine Registers.reloadStatics
  let lowered ← (lowering helper).walk b 0 b.insts
  modify fun st => { st with engine := st.engine.releaseLocks }
  withEngine Registers.flushAll
  emit fallThrough
  return lowered

theorem straight_fallThrough : Straight (Cell.ofInstrs [fallThrough]) := straight_ofInstrs rfl

theorem lowerBlock_eq (helper : UInt64) (b : Block) : lowerBlock helper b = (do
    let lowered ← lowerBody helper b
    resolveExits
    emitAll epilogue
    let st ← get
    return { code := ← st.asm.finish, lowered := lowered, spills := st.engine.spills }) := by
  unfold lowerBlock lowerBody
  simp only [bind_assoc, pure_bind]
  rfl

/-- Nothing is lowered yet. -/
def initial (s : Settings) (b : Block) : LowerState :=
  { engine := (Engine.new host (policy s)).start b.insts }

/-- Every branch to the epilogue can be resolved. -/
def InBranchRange (helper : UInt64) (s : Settings) (b : Block) : Prop :=
  ∀ lowered st, lowerBody helper b (initial s b) = .ok (lowered, st) →
    ∀ n ∈ st.exits, n.kind.reaches ((st.asm.position : Int) - n.site) = true

/-- The cells of a body: those of the instructions, with straight code around them. -/
def Body (b : Block) (cells : List Cell) : Prop :=
  ∃ entry segments store, Straight entry ∧ Straight store ∧
    List.Forall₂ (Lowered b) (Effective b.insts) segments ∧
    cells = entry ++ segments.flatten ++ store ++ Cell.ofInstrs [fallThrough]

section

variable {helper : UInt64} {s : Settings} {b : Block}

/-- **The body is laid down.** -/
theorem yields_lowerBody (hb : b.InRange) (hfits : ∀ i ∈ b.insts, i.fits = true) :
    Yields (lowerBody helper b) (initial s b) fun lowered st => Fitted (policy s) 0 st ∧
      lowered = (Effective b.insts).map (fun i => (i.op, isNative i)) ∧
      ∃ cells, Body b cells ∧ (initial s b).Extends cells st := by
  have hstart : Fitted (policy s) 0 (initial s b) :=
    ⟨[], Nat.le_refl 0, Engine.equipped_start (policy s) b.insts aarch64_sane⟩
  have hentry : Lays (policy s) 0 4 [] (do emitAll prologue; withEngine Registers.reloadStatics) :=
    lays_bind (lays_emitAll allPlain_prologue (Nat.zero_le 4)) fun _ => lays_reloadStatics
  -- dropping the locks is what moving on to the same instruction does
  have hstore : Lays (policy s) 4 0 [] (do
      modify fun st : LowerState => { st with engine := st.engine.releaseLocks }
      withEngine Registers.flushAll) :=
    lays_bind (lays_modifyEngine fun e _ _ h => ⟨[], Nat.le_refl 0, h.beginInst e.index⟩)
      fun _ => lays_flushAll
  -- the steps in groups: before, in and after the instructions
  have hsplit : lowerBody helper b = (do
      emitAll prologue
      withEngine Registers.reloadStatics) >>= fun _ => (lowering helper).walk b 0 b.insts >>=
      fun lowered => (do
          modify fun st : LowerState => { st with engine := st.engine.releaseLocks }
          withEngine Registers.flushAll) >>= fun _ => emitAll [fallThrough] >>= fun _ =>
            pure lowered := by
    unfold lowerBody
    simp only [emit_eq, bind_assoc]
  rw [hsplit]
  refine yields_bind ((hentry _ hstart).mono ?_)
  rintro _ st₁ ⟨h₁, entry, haround, hext₁⟩
  refine yields_bind ((yields_walk hfits hb 0 h₁).mono ?_)
  rintro lowered st₂ ⟨h₂, hlowered, segments, hsegments, hext₂⟩
  refine yields_bind ((hstore st₂ h₂).mono ?_)
  rintro _ st₃ ⟨h₃, store, haround₃, hext₃⟩
  refine yields_bind ((yields_emitAll (rfl : AllPlain [fallThrough]) h₃).mono ?_)
  rintro _ st₄ ⟨h₄, hext₄⟩
  exact yields_pure ⟨h₄, hlowered, _, ⟨entry, segments, store, haround.straight, haround₃.straight,
    hsegments, rfl⟩, ((hext₁.trans hext₂).trans hext₃).trans hext₄⟩

/-- Code of less than a megabyte is in reach of its branches. -/
theorem inBranchRange_of_short (hb : b.InRange) (hfits : ∀ i ∈ b.insts, i.fits = true)
    (h : ∀ lowered st, lowerBody helper b (initial s b) = .ok (lowered, st) →
      st.asm.position < 2 ^ 18) : InBranchRange helper s b := by
  intro lowered st hrun n hn
  obtain ⟨lowered', st', hrun', -, -, cells, -, hext⟩ := yields_lowerBody (s := s) hb hfits
  cases hrun.symm.trans hrun'
  have hnote : n ∈ Cell.notes 0 cells := by
    have hmem := Array.mem_def.mp hn
    rw [hext.exits] at hmem
    exact hmem
  obtain ⟨k, c, op, hc, hop, rfl⟩ := Cell.mem_notes.mp hnote
  have hend : st.asm.position = 0 + cells.length := hext.position
  have hk : k < cells.length := (List.getElem?_eq_some_iff.mp hc).1
  have hshort := h lowered st hrun
  -- the shorter field is that of the branch after a call, nineteen bits with the sign
  have hkind : op.kind = .jump ∨ op.kind = .cbnz := by
    cases c <;> cases hop <;> first | exact Or.inl rfl | exact Or.inr rfl
  have hlimit : ((twoTo (op.kind.width - 1) : Nat) : Int) ≥ 2 ^ 18 := by
    rcases hkind with h | h <;> rw [h] <;> decide
  refine decide_eq_true ?_
  show -(twoTo (op.kind.width - 1) : Int) ≤ st.asm.position - ((0 + k : Nat) : Int) ∧
    st.asm.position - ((0 + k : Nat) : Int) < twoTo (op.kind.width - 1)
  omega

end

/-! ## Blocks that are in range -/

/-- Nothing lives in registers, nothing is known, and nothing is bound. -/
structure Idle (e : Engine) : Prop where
  noStatics : e.policy.useStatics = false
  slot : ∀ t, e.residence t = .guest
  reg : ∀ r, e.holding r = none
  actions : e.actions = #[]

/-- On an idle engine a step succeeds, leaves it idle and adds at most `n` words. -/
def Adds {α : Type} (n : Nat) (op : LowerM α) : Prop :=
  ∀ st : LowerState, Idle st.engine → Yields op st fun _ st' =>
    Idle st'.engine ∧ st'.asm.position ≤ st.asm.position + n

section

variable {α β : Type} {m n : Nat} {e : Engine}

theorem idle_start {s : Settings} (h : s.useStatics = false) (insts : List Inst) :
    Idle ((Engine.new host (policy s)).start insts) := by
  have hequipped := Engine.equipped_start (policy s) insts aarch64_sane
  have hstatics : (policy s).useStatics = false := h
  obtain ⟨e, hhost, hpolicy, hnew⟩ := Engine.exists_new host (policy s)
  obtain ⟨hhost', hpolicy', -⟩ := e.start_fixed []
  have hbindings : (e.start []).bindings = [] := by
    unfold Engine.bindings
    rw [hpolicy', hpolicy, hstatics]
    rfl
  have hfresh := fresh_start (e := e.start []) insts (by rw [hhost', hhost]; exact aarch64_sane)
  rw [hbindings, ← hnew] at hfresh
  refine ⟨?_, fun t => ?_, fun r => hfresh.noReg r List.not_mem_nil, Engine.actions_new _ _ _⟩
  · rw [hequipped.policy]
    exact hstatics
  · exact congrArg SlotState.residence (hfresh.noSlot t List.not_mem_nil)

theorem Idle.beginInst (h : Idle e) (k : Nat) : Idle (e.beginInst k) := by
  have halike := e.alike_beginInst k
  exact ⟨halike.policy ▸ h.noStatics, fun t => (halike.residence t).trans (h.slot t),
    fun r => (halike.holding r).trans (h.reg r), h.actions⟩

theorem adds_pure (a : α) : Adds 0 (pure a : LowerM α) :=
  fun _ h => yields_pure ⟨h, Nat.le_refl _⟩

theorem adds_bind {op : LowerM α} {f : α → LowerM β} (hop : Adds m op) (hf : ∀ a, Adds n (f a)) :
    Adds (m + n) (op >>= f) := by
  refine fun st h => yields_bind ((hop st h).mono fun a st' ⟨h', hle⟩ => ?_)
  exact (hf a st' h').mono fun _ st'' ⟨h'', hle'⟩ => ⟨h'', by omega⟩

theorem Adds.mono {op : LowerM α} (h : Adds m op) (hle : m ≤ n) : Adds n op :=
  fun st hst => (h st hst).mono fun _ _ ⟨h', hle'⟩ => ⟨h', by omega⟩

theorem adds_emitSeq {x : Sequence} {is : List Instr} (hx : x = .ok is) (hplain : AllPlain is) :
    Adds is.length (emitSeq x) := by
  intro st h
  rw [hx, ← emitAll_eq]
  refine yields_get (yields_lift (Assembler.pushAll_plain hplain) ⟨(), _, rfl, h, Nat.le_of_eq ?_⟩)
  exact (Assembler.position_append _).trans (congrArg _ (List.length_map _))

theorem adds_emitAll {is : List Instr} (hplain : AllPlain is) : Adds is.length (emitAll is) :=
  adds_emitSeq rfl hplain

theorem adds_branchToEpilogue {c : Cell} {op : BranchOp} (hop : c.leave? = some op) :
    Adds 1 (branchToEpilogue op) :=
  fun _ h => yields_get (yields_lift (Assembler.branch_leave hop)
    ⟨(), _, rfl, h, Nat.le_of_eq (Assembler.position_append _)⟩)

/-- The engine does nothing. -/
theorem adds_withEngine {op : EngineM α} (hop : ∀ e, Idle e → Yields op e fun _ e' => e' = e) :
    Adds 0 (withEngine op) := by
  intro st h
  obtain ⟨a, e', hrun, rfl⟩ := hop _ h
  -- nothing has been asked for, so nothing is laid down
  have hperform : st.asm.performAll st.engine.actions = .ok st.asm := by
    rw [h.actions]
    rfl
  refine yields_get (yields_lift hrun (yields_lift hperform ?_))
  exact ⟨a, _, rfl, ⟨h.noStatics, h.slot, h.reg, rfl⟩, Nat.le_refl _⟩

theorem Idle.yields_flushKnown (h : Idle e) :
    Yields ((List.range Slot.count).forM flushKnown) e fun _ e' => e' = e := by
  refine yields_forM (I := fun e' => e' = e) _ (fun t _ e' he => ?_) rfl
  subst he
  unfold flushKnown
  refine yields_get ?_
  have hslot : (e'.slotAt t).residence = .guest := h.slot t
  simp only [hslot]
  exact yields_pure rfl

theorem Idle.yields_forHoldings (h : Idle e) (other : HostReg → EngineM Unit) :
    Yields (forHoldings other) e fun _ e' => e' = e := by
  unfold forHoldings
  refine yields_get (yields_forM (I := fun e' => e' = e) _ (fun r _ e' he => ?_) rfl)
  subst he
  refine yields_get ?_
  rw [h.reg r]
  exact yields_pure rfl

theorem Idle.yields_flush (h : Idle e) (other : HostReg → EngineM Unit) :
    Yields ((List.range Slot.count).forM flushKnown >>= fun _ => forHoldings other) e
      fun _ e' => e' = e := by
  refine yields_bind (h.yields_flushKnown.mono fun _ e' he => ?_)
  subst he
  exact h.yields_forHoldings other

theorem adds_flushAll : Adds 0 (withEngine flushAll) :=
  adds_withEngine fun _ h => h.yields_flush _

theorem adds_flushBeforeCall (writes : List Slot) : Adds 0 (withEngine (flushBeforeCall writes)) :=
  adds_withEngine fun _ h => h.yields_flush _

theorem adds_reloadStatics : Adds 0 (withEngine reloadStatics) :=
  adds_withEngine fun e h => by
    refine yields_get ?_
    rw [h.noStatics]
    exact yields_pure rfl

theorem adds_reloadAfterCall (writes : List Slot) : Adds 0 (withEngine (reloadAfterCall writes)) :=
  adds_withEngine fun e h => by
    refine yields_get ?_
    rw [h.noStatics]
    exact yields_pure rfl

theorem Idle.check_eq (h : Idle e) : e.check = .ok () := by
  have hslots : (List.range Slot.count).findSome? e.slotFault = none := by
    refine List.findSome?_eq_none_iff.mpr fun t _ => ?_
    unfold Engine.slotFault
    rw [h.slot t]
    rfl
  have hregs : (List.range e.hosts.size).findSome? e.regFault = none := by
    refine List.findSome?_eq_none_iff.mpr fun r _ => ?_
    unfold Engine.regFault
    rw [h.reg r]
  unfold Engine.check
  rw [hslots, hregs]

theorem length_moveConst64_le {rd : Reg} {imm : UInt64} {is : List Instr}
    (h : moveConst64 rd imm = .ok is) : is.length ≤ 4 := by
  unfold moveConst64 at h
  split at h
  · exact Nat.le_trans (length_moveConst_le h) (by decide)
  · have hle := List.length_filter_le (fun k => partOf imm k ≠ 0) (List.range 4)
    split at h
    · cases h
      exact Nat.zero_le 4
    · rename_i hparts
      rw [hparts] at hle
      cases h
      rw [List.length_cons, List.length_map]
      exact hle

/-- The code of a call: two moves, two double words and the call itself. -/
theorem length_callCode_le {helper : UInt64} {i : Inst} {c : Word} {is : List Instr}
    (h : callCode helper i c = .ok is) : is.length ≤ 11 := by
  obtain ⟨pack, hpack, -⟩ := plain_moveConst64 2 (Helper.pack i c)
  obtain ⟨address, haddress, -⟩ := plain_moveConst64 scratch1 helper
  have hlength := length_moveConst64_le hpack
  have hlength' := length_moveConst64_le haddress
  unfold callCode at h
  rw [hpack, haddress] at h
  cases h
  simp only [List.length_append, List.length_cons, List.length_nil]
  omega

theorem adds_emit {i : Instr} (hplain : i.isPlain = true) : Adds 1 (emit i) := by
  rw [emit_eq]
  exact adds_emitAll (allPlain_cons.mpr ⟨hplain, rfl⟩)

theorem adds_exitTo (target : Word) : Adds 5 (exitTo target) := by
  obtain ⟨is, hset, hplain, hlength, -⟩ := exitStub_eq target
  exact (adds_bind (adds_emitSeq hset hplain) fun _ => adds_bind (adds_emit rfl) fun _ =>
    adds_branchToEpilogue (c := .exit) rfl).mono (by omega)

theorem adds_lowerCall (helper : UInt64) (i : Inst) (c : Word) :
    Adds 12 (lowerCall helper i c) := by
  obtain ⟨is, his, hplain⟩ := plain_callCode helper i c
  have hcode := (adds_emitSeq his hplain).mono (length_callCode_le his)
  exact adds_bind (adds_flushBeforeCall _) fun _ => adds_bind hcode fun _ =>
    adds_bind (adds_branchToEpilogue (c := .fault) rfl) fun _ => adds_reloadAfterCall _

/-- The instruction is a call or an exit to a constant address, or is left out. -/
def Quiet (i : Inst) : Prop := i.op = .nop ∨ i.op = .exitToConst ∨ isNative i = false

theorem adds_lowerInst (helper : UInt64) {i : Inst} (h : Quiet i) (hnop : i.op ≠ .nop) (c : Word) :
    Adds 12 (lowerInst helper i c) := by
  unfold lowerInst
  split
  · rename_i hnative
    have hexit : i.op = .exitToConst := by
      obtain h | h | h := h
      · exact absurd h hnop
      · exact h
      · rw [h] at hnative
        exact nomatch hnative
    -- an exit to a constant address has no operands
    have hlower : lowerNative i c = (do withEngine flushAll; exitTo c) := by
      obtain ⟨op, dest, src1, src2⟩ := i
      cases hexit
      rfl
    rw [hlower]
    exact (adds_bind adds_flushAll fun _ => adds_exitTo c).mono (by decide)
  · exact adds_lowerCall helper i c

theorem adds_lowerAt (helper : UInt64) {b : Block} {i : Inst} (h : Quiet i) (hnop : i.op ≠ .nop)
    (hconst : ∀ k, i.constantIndex = some k → k.toNat < b.pool.size) (k : Nat) :
    Adds 12 (lowerAt helper b k i) := by
  have hc : b.constantOf i = _ := Block.constantOf_eq hconst
  have hbegin : Adds 0 ((lowering helper).beginInst k) := fun _ h =>
    ⟨(), _, rfl, h.beginInst k, Nat.le_refl _⟩
  have hfinish : Adds 0 (lowering helper).finishInst := by
    intro st h
    refine yields_get ?_
    rw [h.check_eq]
    exact yields_pure ⟨h, Nat.le_refl _⟩
  exact (adds_bind hbegin fun _ st hst => yields_lift hc
    (adds_bind (adds_lowerInst helper h hnop _) (fun _ => hfinish) st hst)).mono (by decide)

theorem adds_walk (helper : UInt64) {b : Block} {insts : List Inst} (hquiet : ∀ i ∈ insts, Quiet i)
    (hconst : ∀ i ∈ insts, ∀ k, i.constantIndex = some k → k.toNat < b.pool.size) (k : Nat) :
    Adds (12 * insts.length) ((lowering helper).walk b k insts) := by
  induction insts generalizing k with
  | nil => exact adds_pure []
  | cons i rest ih =>
    replace ih := ih (fun j hj => hquiet j (List.mem_cons_of_mem i hj))
      (fun j hj => hconst j (List.mem_cons_of_mem i hj)) (k + 1)
    rw [List.length_cons, Nat.mul_succ, Nat.add_comm]
    by_cases hnop : i.op = .nop
    · rw [walk_nop hnop]
      exact ih.mono (Nat.le_add_left _ _)
    · rw [walk_cons hnop]
      exact adds_bind
        (adds_lowerAt helper (hquiet i List.mem_cons_self) hnop (hconst i List.mem_cons_self) k)
        fun _ => adds_bind ih fun _ => adds_pure _

/-- **Blocks of calls and exits are in branch range**, up to twenty thousand instructions and if
nothing is bound. -/
theorem inBranchRange_of_quiet (helper : UInt64) {s : Settings} {b : Block} (hb : b.InRange)
    (hfits : ∀ i ∈ b.insts, i.fits = true) (hstatics : s.useStatics = false)
    (hquiet : ∀ i ∈ b.insts, Quiet i) (hlength : b.insts.length ≤ 20000) :
    InBranchRange helper s b := by
  have hbody : Adds (13 + (0 + (12 * b.insts.length + (0 + (0 + (1 + 0)))))) (lowerBody helper b) := by
    refine adds_bind (adds_emitAll allPlain_prologue) fun _ => adds_bind adds_reloadStatics fun _ =>
      adds_bind (adds_walk helper hquiet hb 0) fun _ => adds_bind ?_ fun _ =>
        adds_bind adds_flushAll fun _ =>
        adds_bind (adds_emit rfl) fun _ => adds_pure _
    exact fun st h => ⟨(), _, rfl, h.beginInst st.engine.index, Nat.le_refl _⟩
  refine inBranchRange_of_short hb hfits fun lowered st hrun => ?_
  obtain ⟨lowered', st', hrun', -, hle⟩ := hbody (initial s b) (idle_start hstatics b.insts)
  cases hrun.symm.trans hrun'
  have hposition : (initial s b).asm.position = 0 := rfl
  omega

end

end Dynarec.Aarch64
