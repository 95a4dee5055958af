/-
What lowering to AArch64 lays down.

A step of lowering adds cells at the end of the code and notes the branches to the epilogue among
them (`LowerState.Extends`). Nearly all steps add words only. An exit adds one jump and a call one
test of its result, and a conditional exit adds a branch that skips its own jump. So the cells of an
instruction are these few (`branchCells`) with words around them, and no instruction whose fields
name registers of their own class fails (`Composed.lays`, `yields_walk`).
-/
import Dynarec.Proofs.Codegen.Exhaustion
import Dynarec.Proofs.Registers.Provisions

set_option autoImplicit false

namespace Dynarec.Aarch64

open Dynarec.Codegen Dynarec.Registers

/-! ## Steps and the cells that they add -/

/-- Cells have been added, and their branches to the epilogue noted. -/
structure LowerState.Extends (st : LowerState) (cells : List Cell) (st' : LowerState) : Prop where
  words : st'.asm.words.toList = st.asm.words.toList ++ cells.map Cell.draft
  exits : st'.exits.toList = st.exits.toList ++ Cell.notes st.asm.position cells
  pending : st'.asm.pending = st.asm.pending + (Cell.notes st.asm.position cells).length

namespace LowerState.Extends

variable {st st' st'' : LowerState} {cells cells' : List Cell}

theorem refl (st : LowerState) : st.Extends [] st :=
  ⟨(List.append_nil _).symm, (List.append_nil _).symm, rfl⟩

theorem position (h : st.Extends cells st') :
    st'.asm.position = st.asm.position + cells.length := by
  have hlen := congrArg List.length h.words
  rw [List.length_append, List.length_map] at hlen
  exact hlen

theorem trans (h : st.Extends cells st') (h' : st'.Extends cells' st'') :
    st.Extends (cells ++ cells') st'' := by
  have hnotes := Cell.notes_append st.asm.position cells cells'
  rw [← h.position] at hnotes
  refine ⟨?_, ?_, ?_⟩
  · rw [h'.words, h.words, List.map_append, List.append_assoc]
  · rw [h'.exits, h.exits, hnotes, List.append_assoc]
  · rw [h'.pending, h.pending, hnotes, List.length_append, Nat.add_assoc]

/-- Instructions that are no branches. -/
theorem of_instrs {is : List Instr} (hplain : AllPlain is)
    (hasm : st'.asm = st.asm.append (is.map Instr.encode)) (hexits : st'.exits = st.exits) :
    st.Extends (Cell.ofInstrs is) st' := by
  have hnotes := (straight_ofInstrs hplain).notes_eq st.asm.position
  refine ⟨?_, ?_, ?_⟩
  · rw [hasm, Assembler.append_words, Cell.ofInstrs, List.map_map]
    rfl
  · rw [hexits, hnotes, List.append_nil]
  · rw [hasm, hnotes]
    rfl

end LowerState.Extends

/-- The engine is equipped and has locked no more slots than `k` operands have. -/
def Fitted (p : Policy) (k : Nat) (st : LowerState) : Prop :=
  ∃ slots, slots.length ≤ 4 * k ∧ st.engine.Equipped host p slots

/-- With `k` operands mapped a step succeeds, then no more than `m` are, and the cells that it has
added are `core` with words around it. -/
def Lays {α : Type} (p : Policy) (k m : Nat) (core : List Cell) (op : LowerM α) : Prop :=
  ∀ st, Fitted p k st →
    Yields op st fun _ st' => Fitted p m st' ∧ ∃ cells, Around core cells ∧ st.Extends cells st'

section

variable {α β : Type} {p : Policy} {k m n : Nat} {core : List Cell} {op : LowerM α}
  {st st' : LowerState}

theorem Fitted.mono (h : Fitted p k st) (hle : k ≤ m) : Fitted p m st := by
  obtain ⟨slots, hlen, h⟩ := h
  exact ⟨slots, Nat.le_trans hlen (Nat.mul_le_mul_left 4 hle), h⟩

theorem Fitted.congr (h : Fitted p k st) (he : st'.engine = st.engine) : Fitted p k st' := by
  obtain ⟨slots, hlen, h⟩ := h
  exact ⟨slots, hlen, he ▸ h⟩

theorem Lays.mono (h : Lays p k m core op) (hle : m ≤ n) : Lays p k n core op :=
  fun st hst => (h st hst).mono fun _ _ h => ⟨h.1.mono hle, h.2⟩

theorem lays_pure (a : α) (hle : k ≤ m) : Lays p k m [] (pure a) :=
  fun st h => yields_pure ⟨h.mono hle, [], straight_nil.around, .refl st⟩

/-- The branches come with what follows. -/
theorem lays_bind {f : α → LowerM β} (hop : Lays p k m [] op)
    (hf : ∀ a, Lays p m n core (f a)) : Lays p k n core (op >>= f) := by
  refine fun st h => yields_bind ((hop st h).mono ?_)
  rintro a st' ⟨h', cells, hcells, hext⟩
  refine (hf a st' h').mono ?_
  rintro b st'' ⟨h'', cells', hcells', hext'⟩
  exact ⟨h'', cells ++ cells', hcells'.after_straight hcells.straight, hext.trans hext'⟩

/-- The branches come first. -/
theorem lays_then {f : α → LowerM β} (hop : Lays p k m core op)
    (hf : ∀ a, Lays p m n [] (f a)) : Lays p k n core (op >>= f) := by
  refine fun st h => yields_bind ((hop st h).mono ?_)
  rintro a st' ⟨h', cells, hcells, hext⟩
  refine (hf a st' h').mono ?_
  rintro b st'' ⟨h'', cells', hcells', hext'⟩
  exact ⟨h'', cells ++ cells', hcells.before_straight hcells'.straight, hext.trans hext'⟩

/-- A change of the engine alone adds nothing. -/
theorem lays_modifyEngine {f : Engine → Engine} (hf : ∀ (e : Engine) (slots : List Slot),
      slots.length ≤ 4 * k → e.Equipped host p slots →
        ∃ slots', slots'.length ≤ 4 * m ∧ (f e).Equipped host p slots') :
    Lays p k m [] (modify fun st => { st with engine := f st.engine }) := by
  rintro st ⟨slots, hlen, h⟩
  exact ⟨(), _, rfl, hf _ slots hlen h, [], straight_nil.around,
    ⟨(List.append_nil _).symm, (List.append_nil _).symm, rfl⟩⟩

/-! ### Laying down code -/

/-- Instructions that are no branches. -/
theorem yields_emitAll {is : List Instr} (hplain : AllPlain is) (h : Fitted p k st) :
    Yields (emitAll is) st fun _ st' => Fitted p k st' ∧ st.Extends (Cell.ofInstrs is) st' := by
  unfold emitAll
  refine yields_get (yields_lift (Assembler.pushAll_plain hplain) ?_)
  exact ⟨(), _, rfl, h, .of_instrs hplain rfl rfl⟩

/-- A sequence that can be put together. -/
theorem lays_emitSeq {x : Sequence} (hplain : Plain x) (hle : k ≤ m) :
    Lays p k m [] (emitSeq x) := by
  obtain ⟨is, rfl, his⟩ := hplain
  exact fun _ h => (yields_emitAll his (h.mono hle)).mono fun _ _ ⟨h', hext⟩ =>
    ⟨h', _, (straight_ofInstrs his).around, hext⟩

theorem lays_emitAll {is : List Instr} (hplain : AllPlain is) (hle : k ≤ m) :
    Lays p k m [] (emitAll is) :=
  lays_emitSeq (plain_ok hplain) hle

/-- A branch to the epilogue. -/
theorem yields_branchToEpilogue {c : Cell} {op : BranchOp} (hop : c.leave? = some op)
    (h : Fitted p k st) :
    Yields (branchToEpilogue op) st fun _ st' => Fitted p k st' ∧ st.Extends [c] st' := by
  have hnotes : Cell.notes st.asm.position [c] = [⟨op.kind, st.asm.position⟩] := by
    rw [Cell.notes, hop]
    rfl
  unfold branchToEpilogue
  refine yields_get (yields_lift (Assembler.branch_leave hop) ⟨(), _, rfl, h, ?_, ?_, ?_⟩)
  · exact Assembler.append_words _
  · rw [hnotes]
    exact Array.toList_push
  · rw [hnotes]
    rfl

/-- An operation of the engine that succeeds, with the actions laid down. -/
theorem yields_engine {op : EngineM α} {P : α → Prop}
    (h : Yields op st.engine fun a e' => P a ∧ ∃ slots, slots.length ≤ 4 * m ∧
      e'.Equipped host p slots) :
    Yields (withEngine op) st fun a st' => P a ∧ Fitted p m st' ∧
      ∃ cells, Around [] cells ∧ st.Extends cells st' := by
  obtain ⟨a, e', hop, hP, slots, hlen, h⟩ := h
  obtain ⟨is, his, hasm⟩ := performAll_of_fits (fun x hx => h.host ▸ h.asks x hx) st.asm
  unfold withEngine
  refine yields_get (yields_lift hop (yields_lift hasm (yields_set (yields_pure
    ⟨hP, ⟨slots, hlen, h.handOver⟩, Cell.ofInstrs is, (straight_ofInstrs his).around,
      .of_instrs his rfl rfl⟩))))

theorem lays_withEngine {op : EngineM α} (hop : ∀ (e : Engine) (slots : List Slot),
      slots.length ≤ 4 * k → e.Equipped host p slots →
        Yields op e fun _ e' => ∃ slots', slots'.length ≤ 4 * m ∧ e'.Equipped host p slots') :
    Lays p k m [] (withEngine op) := by
  rintro st ⟨slots, hlen, h⟩
  exact (yields_engine (P := fun _ => True) ((hop _ slots hlen h).mono
    fun _ _ h => ⟨trivial, h⟩)).mono fun _ _ h => h.2

end

/-! ## Operands -/

section

variable {p : Policy} {k m : Nat} {st : LowerState}

/-- One of four operands is mapped, to a register of its class. -/
theorem yields_request {q : Request} (hq : q.Fits) (h : Fitted p k st) (hk : k ≤ 3) :
    Yields (withEngine q.run) st fun r st' => host.Has q.bankOf r ∧ Fitted p (k + 1) st' ∧
      ∃ cells, Around [] cells ∧ st.Extends cells st' := by
  obtain ⟨slots, hlen, h⟩ := h
  obtain ⟨hnodup, hlength⟩ := order_suffices q.bankOf p.useStatics
  have hwidth := q.width_le
  -- three groups are locked at most, and registers are left for a fourth
  have hafford : Request.Affordable host p slots q.bankOf [q] := by
    refine ⟨fun q' hq' => by rw [List.mem_singleton.mp hq'], hnodup, ?_⟩
    rw [List.map_cons, List.map_nil, List.sum_singleton]
    omega
  refine yields_engine ((h.yields_request hq hafford).mono fun r e' ⟨hr, h'⟩ => ⟨hr, _, ?_, h'⟩)
  rw [List.length_append, q.length_slotList]
  omega

theorem lays_request {q : Request} (hq : q.Fits) (hk : k ≤ 3) :
    Lays p k (k + 1) [] (withEngine q.run) :=
  fun _ h => (yields_request hq h hk).mono fun _ _ h => h.2

/-- A register of the engine's numbering is a vector register. -/
theorem lays_vectorReg {q : Request} (hq : q.Fits) (hbank : q.bankOf = .fpr) (hk : k ≤ 3) :
    Lays p k (k + 1) [] (withEngine q.run >>= fun r => (liftM (vectorReg r) : LowerM Reg)) := by
  refine fun st h => yields_bind ((yields_request hq h hk).mono fun r st' ⟨hr, h'⟩ => ?_)
  rw [hbank] at hr
  obtain ⟨v, hv⟩ := vectorReg_of_has hr
  rw [hv]
  exact ⟨v, st', rfl, h'⟩

theorem lays_flushAll : Lays p k k [] (withEngine Registers.flushAll) :=
  lays_withEngine fun _ slots hlen h => h.yields_flushAll.mono fun _ _ h => ⟨slots, hlen, h⟩

theorem lays_reloadStatics : Lays p k k [] (withEngine Registers.reloadStatics) :=
  lays_withEngine fun _ slots hlen h => h.yields_reloadStatics.mono fun _ _ h => ⟨slots, hlen, h⟩

theorem lays_setKnown {s : Slot} (hs : s < Slot.count) (hint : Slot.isInteger s = true) (w : Word) :
    Lays p k k [] (withEngine (Registers.setKnown s w)) :=
  lays_withEngine fun _ slots hlen h => (h.yields_setKnown hs hint w).mono
    fun _ _ h => ⟨slots, hlen, h⟩

theorem lays_knownValue {s : Slot} (hs : s < Slot.count) :
    Lays p k k [] (withEngine (Registers.knownValue s)) :=
  lays_withEngine fun _ slots hlen h => (h.yields_knownValue hs).mono fun _ _ h => ⟨slots, hlen, h⟩

end

/-! ## Leaving the block -/

section

variable {p : Policy} {k m : Nat}

theorem length_moveConst_le {rd : Reg} {imm : Word} {is : List Instr}
    (h : moveConst rd imm = .ok is) : is.length ≤ 2 := by
  unfold moveConst at h
  simp only at h
  iterate 4
    split at h
    · cases h
      exact Nat.le_succ 1
  obtain ⟨found, hfound⟩ := Mask.ofValue?_ok (Or.inl rfl) imm.toUInt64
  rw [hfound] at h
  cases found with
  | none =>
    cases h
    exact Nat.le_refl 2
  | some mask =>
    cases h
    exact Nat.le_succ 1

/-- The instructions of an exit: those that set the program counter, and the result. They are few
enough that any branch reaches across them. -/
theorem exitStub_eq (target : Word) :
    ∃ is, setFieldConst target Guest.Layout.pc = .ok is ∧ AllPlain is ∧ is.length ≤ 3 ∧
      exitStub target = is ++ [.wide .movz false 0 1 0] := by
  obtain ⟨is, his, hplain⟩ := plain_moveConst scratch2 target
  let put : Instr := .access .strW scratch2 stateBase (UInt32.ofNat (Guest.Layout.pc / 4))
  have hfield : setField scratch2 Guest.Layout.pc = .ok [put] := by decide
  have hset : setFieldConst target Guest.Layout.pc = .ok (is ++ [put]) := by
    unfold setFieldConst
    rw [his, hfield]
    rfl
  have hlength := length_moveConst_le his
  refine ⟨_, hset, allPlain_append.mpr ⟨hplain, rfl⟩, ?_, ?_⟩
  · rw [List.length_append, List.length_singleton]
    omega
  · rw [exitStub, hset]
    rfl

theorem allPlain_exitStub (target : Word) : AllPlain (exitStub target) := by
  obtain ⟨is, -, his, -, heq⟩ := exitStub_eq target
  rw [heq]
  exact allPlain_append.mpr ⟨his, rfl⟩

/-- The code that a conditional exit skips is in reach of any branch. -/
theorem length_exitStub_le (target : Word) : (exitStub target).length ≤ 4 := by
  obtain ⟨is, -, -, hlength, heq⟩ := exitStub_eq target
  rw [heq, List.length_append, List.length_singleton]
  omega

theorem lays_branchToEpilogue {c : Cell} {op : BranchOp} (hop : c.leave? = some op) (hle : k ≤ m) :
    Lays p k m [c] (branchToEpilogue op) :=
  fun _ h => (yields_branchToEpilogue hop (h.mono hle)).mono fun _ _ ⟨h', hext⟩ =>
    ⟨h', [c], around_self [c], hext⟩

/-- An exit to a constant address, to the word. -/
theorem yields_exitTo {st : LowerState} (target : Word) (h : Fitted p k st) :
    Yields (exitTo target) st fun _ st' =>
      Fitted p k st' ∧ st.Extends (Cell.ofInstrs (exitStub target) ++ [.exit]) st' := by
  obtain ⟨is, hset, hplain, -, heq⟩ := exitStub_eq target
  unfold exitTo leave
  rw [hset, ← emitAll_eq, emit_eq, heq]
  refine yields_bind ((yields_emitAll hplain h).mono fun _ st₁ ⟨h₁, hext₁⟩ => ?_)
  refine yields_bind ((yields_emitAll (show AllPlain [.wide .movz false 0 1 0] from rfl) h₁).mono
    fun _ st₂ ⟨h₂, hext₂⟩ => ?_)
  refine (yields_branchToEpilogue (c := .exit) rfl h₂).mono fun _ st₃ ⟨h₃, hext₃⟩ => ⟨h₃, ?_⟩
  have hext := (hext₁.trans hext₂).trans hext₃
  rw [Cell.ofInstrs, Cell.ofInstrs, ← List.map_append] at hext
  exact hext

/-- The code that a conditional exit skips is in reach. -/
theorem reaches_skip {n : Nat} (h : n ≤ 8) : BranchKind.cond.reaches ((n : Int) + 1) = true := by
  have hlimit : ((twoTo (BranchKind.cond.width - 1) : Nat) : Int) = 262144 := by decide
  refine decide_eq_true ?_
  rw [hlimit]
  omega

/-- The comparison of a conditional exit, and the branch that skips the exit. -/
theorem lays_leaveIf (a b : Reg) (c : Cond) (target : Word) :
    Lays p k k (skipCells c target) (leaveIf a b c target) := by
  unfold leaveIf
  rw [emit_eq]
  refine lays_bind (lays_emitAll rfl (Nat.le_refl k)) fun _ st h => ?_
  -- the branch is laid down first, and its note is the only one that is open but not an exit
  let stub := Cell.ofInstrs (exitStub target) ++ [Cell.exit]
  have hlen : stub.length = (exitStub target).length + 1 := by
    rw [List.length_append, Cell.ofInstrs, List.length_map, List.length_singleton]
  let st₀ : LowerState := { st with asm :=
    { st.asm.append [BranchOp.encode (.cond c.invert)] with pending := st.asm.pending + 1 } }
  have hbranch : st.asm.branch (.cond c.invert) = .ok (⟨.cond, st.asm.position⟩, st₀.asm) := rfl
  have hposition : st₀.asm.position = st.asm.position + 1 := Assembler.position_append _
  have h₀ : Fitted p k st₀ := h.congr rfl
  refine yields_get (yields_lift hbranch (yields_set (yields_bind
    ((yields_exitTo target h₀).mono fun _ st₁ ⟨h₁, hext⟩ => ?_))))
  -- the branch is the word right before the stub
  have hwords : st₁.asm.words.toList = st.asm.words.toList
      ++ BranchOp.encode (.cond c.invert) :: stub.map Cell.draft := by
    rw [hext.words]
    show (st.asm.append _).words.toList ++ _ = _
    rw [Assembler.append_words, List.append_assoc]
    rfl
  have hdistance : ((st₁.asm.position : Int) - st.asm.position) = (stub.length : Int) + 1 := by
    have hend : st₁.asm.position = st₀.asm.position + stub.length := hext.position
    omega
  have hpending : st₁.asm.pending = st.asm.pending + 1
      + (Cell.notes st₀.asm.position stub).length := hext.pending
  have hreaches : BranchKind.cond.reaches ((st₁.asm.position : Int) - st.asm.position) = true := by
    rw [hdistance]
    have hle := length_exitStub_le target
    exact reaches_skip (by omega)
  obtain ⟨asm, hresolve, hpending', hwords'⟩ := Assembler.resolve_eq (b := ⟨.cond, st.asm.position⟩)
    hwords rfl hreaches (by omega)
  have hnotes : Cell.notes st.asm.position (skipCells c target)
      = Cell.notes st₀.asm.position stub := by
    rw [hposition]
    rfl
  refine yields_get (yields_lift hresolve ⟨(), _, rfl, h₁, _, around_self _, ?_, ?_, ?_⟩)
  · rw [hwords', hdistance, hlen]
    rfl
  · rw [hnotes]
    exact hext.exits
  · rw [hnotes]
    show asm.pending = _
    omega

theorem lays_lowerCall (helper : UInt64) (i : Inst) (c : Word) :
    Lays p 0 4 [.fault] (lowerCall helper i c) := by
  refine lays_bind (lays_withEngine fun _ slots hlen h =>
    (h.yields_flushBeforeCall i.writeSlots).mono fun _ _ h => ⟨slots, hlen, h⟩) fun _ => ?_
  refine lays_bind (lays_emitSeq (plain_callCode helper i c) (Nat.le_refl 0)) fun _ => ?_
  refine lays_then (lays_branchToEpilogue rfl (Nat.zero_le 4)) fun _ => ?_
  exact lays_withEngine fun _ slots hlen h =>
    (h.yields_reloadAfterCall i.writeSlots).mono fun _ _ h => ⟨slots, hlen, h⟩

/-- **Every step of lowering lays down the branches that are listed**, with words around them, if
the slots that it names are of their kind. -/
theorem Composed.lays {ok : Prop} {α : Type} {core : List Cell} {op : LowerM α} (hok : ok)
    (h : Composed ok k m core op) : Lays p k m core op := by
  induction h with
  | pure a => exact lays_pure a (Nat.le_refl _)
  | bind _ _ hop hf => exact lays_bind hop hf
  | mono _ hle hop => exact hop.mono hle
  | read _ hf => exact fun st h => yields_get (hf st st h)
  | code hplain => exact lays_emitSeq hplain (Nat.le_refl _)
  | leave hop => exact lays_branchToEpilogue hop (Nat.le_refl _)
  | leaveIf a b c target => exact lays_leaveIf a b c target
  | operand hq hk => exact lays_request (hq hok) hk
  | vector hq hbank hk => exact lays_vectorReg (hq hok) hbank hk
  | knownValue hs => exact lays_knownValue (hs hok)
  | setKnown hs w => exact lays_setKnown (hs hok).1 (hs hok).2 w
  | flushAll => exact lays_flushAll
  | missing hnot => exact absurd hok hnot

end

/-! ## Blocks -/

/-- The instruction is lowered to instructions of the host. -/
def isNative (i : Inst) : Bool := i.op.nativeOnAarch64 && !i.mixesLanes

/-- The branches that an instruction of a block is lowered to, with the code that one of them
skips. -/
def instCells (b : Block) (i : Inst) : List Cell :=
  if isNative i then branchCells i.op (b.pool.constant i) else [.fault]

/-- The cells of an instruction are its branches with words around them. -/
def Lowered (b : Block) (i : Inst) (cells : List Cell) : Prop := Around (instCells b i) cells

/-- The instructions that are not left out. -/
def Effective (insts : List Inst) : List Inst := insts.filter fun i => i.op ≠ .nop

/-- Lower an instruction with its constant. -/
def lowerInst (helper : UInt64) (i : Inst) (c : Word) : LowerM Unit :=
  if isNative i then lowerNative i c else lowerCall helper i c

/-- The steps of lowering the instruction at a position. -/
def lowerAt (helper : UInt64) (b : Block) (k : Nat) (i : Inst) : LowerM Unit := do
  (lowering helper).beginInst k
  let c ← b.constantOf i
  lowerInst helper i (c.getD 0)
  (lowering helper).finishInst

section

variable {helper : UInt64} {p : Policy} {b : Block} {i : Inst} {insts : List Inst} {k : Nat}

theorem walk_nop (h : i.op = .nop) :
    (lowering helper).walk b k (i :: insts) = (lowering helper).walk b (k + 1) insts := by
  rw [Lowering.walk, if_pos h]

theorem walk_cons (h : i.op ≠ .nop) :
    (lowering helper).walk b k (i :: insts) = (do
      lowerAt helper b k i
      let lowered ← (lowering helper).walk b (k + 1) insts
      return (i.op, isNative i) :: lowered) := by
  have hnative : ((lowering helper).isNative i.op && !i.mixesLanes) = isNative i := rfl
  rw [Lowering.walk, if_neg h]
  simp only [lowerAt, lowerInst, hnative, bind_assoc]
  cases isNative i <;> rfl

/-- **One instruction is lowered.** -/
theorem lays_lowerAt (helper : UInt64) (hf : i.fits = true)
    (hconst : ∀ k, i.constantIndex = some k → k.toNat < b.pool.size) (hnop : i.op ≠ .nop) :
    Lays p 4 4 (instCells b i) (lowerAt helper b k i) := by
  have hc : b.constantOf i = _ := Block.constantOf_eq hconst
  -- the locks of the instruction before are dropped
  have hbegin : Lays p 4 0 [] ((lowering helper).beginInst k) :=
    lays_modifyEngine fun _ _ _ h => ⟨[], Nat.le_refl 0, h.beginInst k⟩
  have hfinish : Lays p 4 4 [] (lowering helper).finishInst := by
    rintro st ⟨slots, hlen, h⟩
    refine yields_get ?_
    rw [h.tables.check_eq]
    exact yields_pure ⟨⟨slots, hlen, h⟩, [], straight_nil.around, .refl st⟩
  refine lays_bind hbegin fun _ st hst => yields_lift hc ?_
  rw [Pool.constant_getD]
  refine lays_then ?_ (fun _ => hfinish) st hst
  unfold instCells lowerInst
  split
  · rename_i hnative
    exact (composed_lowerNative i _).lays ⟨hf, (Bool.and_eq_true_iff.mp hnative).1, hnop⟩
  · exact lays_lowerCall helper i _

/-- **The instructions from a position on are lowered**, each to cells of its own. The induction
carries that the engine is equipped between two instructions. -/
theorem yields_walk (hfits : ∀ i ∈ insts, i.fits = true)
    (hconst : ∀ i ∈ insts, ∀ k, i.constantIndex = some k → k.toNat < b.pool.size) (k : Nat)
    {st : LowerState} (h : Fitted p 4 st) :
    Yields ((lowering helper).walk b k insts) st fun lowered st' => Fitted p 4 st' ∧
      lowered = (Effective insts).map (fun i => (i.op, isNative i)) ∧
      ∃ segments, List.Forall₂ (Lowered b) (Effective insts) segments ∧
        st.Extends segments.flatten st' := by
  induction insts generalizing k st with
  | nil => exact yields_pure ⟨h, rfl, [], .nil, .refl st⟩
  | cons i rest ih =>
    replace ih := fun {st} (h : Fitted p 4 st) => ih
      (fun j hj => hfits j (List.mem_cons_of_mem i hj))
      (fun j hj => hconst j (List.mem_cons_of_mem i hj)) (k + 1) h
    by_cases hnop : i.op = .nop
    · rw [walk_nop hnop, show Effective (i :: rest) = Effective rest from
        List.filter_cons_of_neg (by simpa using hnop)]
      exact ih h
    · rw [walk_cons hnop, show Effective (i :: rest) = i :: Effective rest from
        List.filter_cons_of_pos (by simpa using hnop)]
      have hstep := lays_lowerAt helper (k := k) (hfits i List.mem_cons_self)
        (hconst i List.mem_cons_self) hnop st h
      refine yields_bind (hstep.mono ?_)
      rintro _ st₁ ⟨h₁, cells, hcells, hext⟩
      refine yields_bind ((ih h₁).mono ?_)
      rintro lowered st' ⟨h', hlowered, segments, hsegments, hext'⟩
      exact yields_pure ⟨h', by rw [hlowered, List.map_cons], cells :: segments,
        .cons hcells hsegments, hext.trans hext'⟩

end

end Dynarec.Aarch64
