/-
What is laid down for x86-64 can be assembled.

An assembler is a program of its own, and it can refuse. What it promises is to take code in which
each label is placed once, each branch goes to a label that is placed, and each label names an
instruction (`WellFormed`), as long as the code is so short that any branch reaches any label
(`Assemble.Accepts`).

Lowering keeps to that. The labels that it places are new, the branches that it lays down go to them
or to the epilogue, and a label is placed right behind a branch or an instruction, never behind
another label. These are the invariants of code under construction (`Formed`); no step breaks them
(`Composed.keeps_formed`), and when the label of the epilogue has been placed too, the code is well
formed (`wellFormed_lowerItems`).
-/
import Dynarec.Proofs.Codegen.Sessions
import Mathlib.Data.List.Chain

set_option autoImplicit false

namespace Dynarec.Amd64

open Dynarec.Codegen Dynarec.Registers

/-! ## Well-formed code -/

/-- The label that an item places. -/
def Item.label? : Item → Option Label
  | .label l => some l
  | .instr _ | .branch .. => none

/-- The label that an item goes to. -/
def Item.target? : Item → Option Label
  | .branch _ l => some l
  | .instr _ | .label _ => none

/-- The labels that are placed. -/
def placed (items : List Item) : List Label := items.filterMap Item.label?

/-- The labels that are gone to. -/
def targets (items : List Item) : List Label := items.filterMap Item.target?

/-- No label is placed right behind another one. -/
def Apart (items : List Item) : Prop := items.IsChain fun i j => i.label? = none ∨ j.label? = none

/-- Each label is placed once and names an instruction or a branch, and each branch goes to a label
that is placed. -/
structure WellFormed (items : List Item) : Prop where
  once : (placed items).Nodup
  placed : ∀ l ∈ targets items, l ∈ placed items
  apart : Apart items
  last : ∀ i ∈ items.getLast?, i.label? = none

/-- The assembler takes well-formed code of less than two gigabytes. An instruction has fifteen
bytes at most, and in such code any branch reaches any label. -/
def Assemble.Accepts (assemble : Assemble) : Prop :=
  ∀ items, WellFormed items → 15 * items.length < 2 ^ 31 → ∃ bytes, assemble items = .ok bytes

section

variable {items items' : List Item} {is : List Instr}

@[simp] theorem placed_append : placed (items ++ items') = placed items ++ placed items' :=
  List.filterMap_append

@[simp] theorem targets_append : targets (items ++ items') = targets items ++ targets items' :=
  List.filterMap_append

@[simp] theorem placed_instrs : placed (is.map .instr) = [] := by
  refine List.filterMap_eq_nil_iff.mpr fun i hi => ?_
  obtain ⟨j, -, rfl⟩ := List.mem_map.mp hi
  rfl

@[simp] theorem targets_instrs : targets (is.map .instr) = [] := by
  refine List.filterMap_eq_nil_iff.mpr fun i hi => ?_
  obtain ⟨j, -, rfl⟩ := List.mem_map.mp hi
  rfl

theorem apart_instrs : Apart (is.map .instr) := by
  induction is with
  | nil => exact .nil
  | cons i is ih => exact List.IsChain.cons ih fun _ _ => Or.inl rfl

theorem Apart.append (h : Apart items) (h' : Apart items')
    (hhead : ∀ i ∈ items'.head?, i.label? = none) : Apart (items ++ items') :=
  List.IsChain.append h h' fun _ _ j hj => Or.inr (hhead j hj)

theorem label?_of_instrs {i : Item} (h : i ∈ is.map .instr) : i.label? = none := by
  obtain ⟨j, -, rfl⟩ := List.mem_map.mp h
  rfl

end

/-! ## Code under construction -/

/-- Labels below the number handed out are placed, each of them once, and never that of the
epilogue. Branches go to one of them or to the epilogue. -/
structure Formed (st : LowerState) : Prop where
  exit : st.exit < st.asm.labels
  fresh : ∀ l ∈ placed st.asm.items.toList, l < st.asm.labels ∧ l ≠ st.exit
  once : (placed st.asm.items.toList).Nodup
  lands : ∀ l ∈ targets st.asm.items.toList, l = st.exit ∨ l ∈ placed st.asm.items.toList
  apart : Apart st.asm.items.toList

/-- Items that a step lays down behind formed code: their labels are new and placed once, and their
branches go to them or to the epilogue. -/
structure Formed.Joins (st : LowerState) (items : List Item) (labels : Nat) : Prop where
  grows : st.asm.labels ≤ labels
  fresh : ∀ l ∈ placed items, st.asm.labels ≤ l ∧ l < labels
  once : (placed items).Nodup
  lands : ∀ l ∈ targets items, l = st.exit ∨ l ∈ placed items
  apart : Apart items
  head : ∀ i ∈ items.head?, i.label? = none

namespace Formed

variable {st st' : LowerState} {items : List Item} {is : List Instr}

theorem append (h : Formed st) (items : List Item) (hjoins : Joins st items st'.asm.labels)
    (hitems : st'.asm.items.toList = st.asm.items.toList ++ items) (hexit : st'.exit = st.exit) :
    Formed st' := by
  refine ⟨?exit, ?fresh, ?once, ?lands, ?apart⟩
  case exit =>
    rw [hexit]
    exact Nat.lt_of_lt_of_le h.exit hjoins.grows
  case fresh =>
    intro l hl
    rw [hitems, placed_append, List.mem_append] at hl
    rw [hexit]
    rcases hl with hl | hl
    · obtain ⟨hlt, hne⟩ := h.fresh l hl
      exact ⟨Nat.lt_of_lt_of_le hlt hjoins.grows, hne⟩
    · obtain ⟨hge, hlt⟩ := hjoins.fresh l hl
      exact ⟨hlt, Nat.ne_of_gt (Nat.lt_of_lt_of_le h.exit hge)⟩
  case once =>
    rw [hitems, placed_append, List.nodup_append]
    refine ⟨h.once, hjoins.once, fun l hl l' hl' => ?_⟩
    exact Nat.ne_of_lt (Nat.lt_of_lt_of_le (h.fresh l hl).1 (hjoins.fresh l' hl').1)
  case lands =>
    intro l hl
    rw [hitems, targets_append, List.mem_append] at hl
    rw [hitems, hexit, placed_append, List.mem_append]
    rcases hl with hl | hl
    · exact (h.lands l hl).imp_right Or.inl
    · exact (hjoins.lands l hl).imp_right Or.inr
  case apart =>
    rw [hitems]
    exact h.apart.append hjoins.apart hjoins.head

theorem joins_instrs : Joins st (is.map .instr) st.asm.labels := by
  refine ⟨Nat.le_refl _, ?_, ?_, ?_, apart_instrs, fun i hi => ?_⟩
  · rw [placed_instrs]
    exact fun _ hl => by cases hl
  · rw [placed_instrs]
    exact .nil
  · rw [targets_instrs]
    exact fun _ hl => by cases hl
  · exact label?_of_instrs (List.mem_of_mem_head? hi)

end Formed

/-! ## Steps -/

/-- The code with more instructions. -/
def Assembler.Adds (a : Assembler) (is : List Instr) (a' : Assembler) : Prop :=
  a'.items.toList = a.items.toList ++ is.map .instr ∧ a'.labels = a.labels

namespace Assembler

variable {a a' a'' : Assembler} {is is' : List Instr}

theorem Adds.trans (h : a.Adds is a') (h' : a'.Adds is' a'') : a.Adds (is ++ is') a'' := by
  refine ⟨?_, h'.2.trans h.2⟩
  rw [h'.1, h.1, List.map_append, List.append_assoc]

theorem adds_push (a : Assembler) (i : Instr) : a.Adds [i] (a.push i) := ⟨Array.toList_push, rfl⟩

theorem adds_nil (a : Assembler) : a.Adds [] a := ⟨(List.append_nil _).symm, rfl⟩

theorem adds_pushAll (a : Assembler) (is : List Instr) : a.Adds is (a.pushAll is) := by
  induction is generalizing a with
  | nil => exact a.adds_nil
  | cons i is ih => exact (a.adds_push i).trans (ih (a.push i))

theorem exists_adds_pushUntil {l : List (Except Fault Instr)}
    (h : a.pushUntil l = (a', .ok ())) : ∃ is, a.Adds is a' := by
  induction l generalizing a with
  | nil =>
    cases h
    exact ⟨[], a'.adds_nil⟩
  | cons x l ih =>
    cases x with
    | error e => cases h
    | ok i =>
      obtain ⟨is, his⟩ := ih h
      exact ⟨i :: is, (a.adds_push i).trans his⟩

/-- The engine asks for instructions only. -/
theorem exists_adds_performAll {actions : Array Registers.Action}
    (h : a.performAll actions = .ok a') : ∃ is, a.Adds is a' := by
  unfold performAll at h
  rw [← Array.foldlM_toList] at h
  generalize actions.toList = l at h
  induction l generalizing a with
  | nil =>
    cases h
    exact ⟨[], a'.adds_nil⟩
  | cons x l ih =>
    rw [List.foldlM_cons] at h
    unfold perform at h
    rcases hx : a.pushUntil (spell x) with ⟨a₁, _ | _⟩ <;> rw [hx] at h
    · cases h
    · obtain ⟨is, his⟩ := exists_adds_pushUntil hx
      obtain ⟨is', his'⟩ := ih h
      exact ⟨is ++ is', his.trans his'⟩

end Assembler

variable {st : LowerState}

theorem Formed.adds {st' : LowerState} {is : List Instr} (h : Formed st)
    (hadds : st.asm.Adds is st'.asm) (hexit : st'.exit = st.exit) : Formed st' := by
  refine h.append (is.map .instr) ?_ hadds.1 hexit
  rw [hadds.2]
  exact joins_instrs

theorem formed_emitAll (is : List Instr) : Keeps id Formed (emitAll is) :=
  fun st h => leads_modify (h.adds (st.asm.adds_pushAll is) rfl)

theorem formed_branchToEpilogue (c : Option Cond) : Keeps id Formed (branchToEpilogue c) := by
  refine fun st h => leads_modify ?_
  refine h.append [.branch c st.exit] ⟨Nat.le_refl _, ?_, .nil, ?_, .singleton _, ?_⟩
    Array.toList_push rfl
  · exact fun _ hl => by cases hl
  · exact fun l hl => Or.inl (List.mem_singleton.mp hl)
  · rintro i hi
    cases hi
    rfl

/-- The label behind an exit that is skipped is new, and the branch to it is the only one. -/
theorem formed_skipping (c : Cond) (target : Word) : Keeps id Formed (skipping c target) := by
  rintro st h a st' hrun
  cases hrun
  refine h.append [.branch (some c) st.asm.labels,
    .instr (.storeImm .word (stateField Guest.Layout.pc) target), .instr (moveConst rax 1),
    .branch none st.exit, .label st.asm.labels] ⟨Nat.le_succ _, ?_, ?_, ?_, ?_, ?_⟩ ?_ rfl
  · intro l hl
    rw [List.mem_singleton.mp hl]
    exact ⟨Nat.le_refl _, Nat.lt_succ_self _⟩
  · exact List.nodup_singleton _
  · intro l hl
    have hl : l ∈ [st.asm.labels, st.exit] := hl
    rw [List.mem_cons, List.mem_singleton] at hl
    exact hl.symm.imp_right List.mem_singleton.mpr
  · simp [Apart, Item.label?]
  · rintro i hi
    cases hi
    rfl
  · simp [Assembler.place, Assembler.branch, Assembler.push]

theorem formed_withEngine {α : Type} (op : EngineM α) : Keeps id Formed (withEngine op) := by
  intro st h
  unfold withEngine
  refine leads_get (leads_lift fun p _ => leads_lift fun asm hasm => leads_set (leads_pure ?_))
  obtain ⟨is, his⟩ := Assembler.exists_adds_performAll hasm
  exact h.adds his rfl

/-- **No step breaks the code.** -/
theorem Composed.keeps_formed {ok : Prop} {α : Type} {n m : Nat} {op : LowerM α}
    (h : Composed ok n m op) : Keeps id Formed op := by
  induction h with
  | pure a => exact keeps_pure a
  | bind _ _ hop hf => exact keeps_bind hop hf
  | mono _ _ hop => exact hop
  | read _ hf => exact keeps_get hf
  | code is => exact formed_emitAll is
  | leave c => exact formed_branchToEpilogue c
  | skip c target => exact formed_skipping c target
  | integer => exact keeps_bind (formed_withEngine _) fun _ => keeps_lift _
  | vector => exact keeps_bind (formed_withEngine _) fun _ => keeps_lift _
  | knownValue => exact formed_withEngine _
  | setKnown => exact formed_withEngine _
  | flushAll => exact formed_withEngine _
  | missing => exact keeps_violate _

theorem formed_lowerCall (helper : UInt64) (i : Inst) (c : Word) :
    Keeps id Formed (lowerCall helper i c) :=
  keeps_bind (formed_withEngine _) fun _ => keeps_bind (formed_emitAll _) fun _ =>
    keeps_bind (formed_branchToEpilogue _) fun _ => formed_withEngine _

theorem formed_walk (helper : UInt64) (b : Block) (insts : List Inst) (k : Nat) :
    Keeps id Formed ((lowering helper).walk b k insts) := by
  have hbegin : ∀ k, Keeps id Formed ((lowering helper).beginInst k) := fun _ st h =>
    leads_modify (h.adds st.asm.adds_nil rfl)
  have hfinish : Keeps id Formed ((lowering helper).finishInst) := keeps_get fun _ => keeps_lift _
  exact keeps_walk hbegin (fun i c => (composed_lowerNative i c).keeps_formed)
    (formed_lowerCall helper) hfinish b insts k

/-! ## Blocks -/

theorem formed_initial (s : Settings) (b : Block) : Formed (initial s b) :=
  ⟨Nat.zero_lt_one, fun _ hl => (by cases hl), .nil, fun _ hl => (by cases hl), .nil⟩

/-- When the epilogue follows its label, nothing is missing. -/
theorem Formed.wellFormed {st : LowerState} (h : Formed st) (i : Instr) :
    WellFormed (st.asm.items.toList ++ (.instr i :: .label st.exit :: epilogue.map .instr)) := by
  have hplaced : placed (.instr i :: .label st.exit :: epilogue.map Item.instr) = [st.exit] := rfl
  have htargets : targets (.instr i :: .label st.exit :: epilogue.map Item.instr) = [] := rfl
  refine ⟨?once, ?placed, ?apart, ?last⟩
  case once =>
    rw [placed_append, hplaced, List.nodup_append]
    refine ⟨h.once, List.nodup_singleton _, fun l hl l' hl' => ?_⟩
    rw [List.mem_singleton.mp hl']
    exact (h.fresh l hl).2
  case placed =>
    intro l hl
    rw [targets_append, htargets, List.append_nil] at hl
    rw [placed_append, hplaced, List.mem_append, List.mem_singleton]
    exact (h.lands l hl).symm
  case apart =>
    refine h.apart.append ?_ fun j hj => by cases hj; rfl
    have hend : Apart (.label st.exit :: epilogue.map .instr) :=
      List.IsChain.cons apart_instrs fun j hj =>
        Or.inr (label?_of_instrs (List.mem_of_mem_head? hj))
    exact List.IsChain.cons hend fun _ _ => Or.inl rfl
  case last =>
    intro j hj
    rw [List.getLast?_append] at hj
    cases hj
    rfl

/-- **What is laid down for a block is well formed.** -/
theorem wellFormed_lowerItems {helper : UInt64} {s : Settings} {b : Block}
    {lowered : List (Opcode × Bool)} {st : LowerState}
    (hrun : lowerItems helper b (initial s b) = .ok (lowered, st)) :
    WellFormed st.asm.items.toList := by
  have hbody : Keeps id Formed (do
      emitAll (prologue ++ [.mov true stateBase rdi, .mov true memoryBase rsi])
      let lowered ← (lowering helper).walk b 0 b.insts
      modify fun st => { st with engine := st.engine.releaseLocks }
      withEngine Registers.flushAll
      return lowered : LowerM (List (Opcode × Bool))) :=
    keeps_bind (formed_emitAll _) fun _ => keeps_bind (formed_walk helper b _ 0) fun _ =>
      keeps_bind (fun st h => leads_modify (h.adds st.asm.adds_nil rfl)) fun _ =>
        keeps_bind (formed_withEngine _) fun _ => keeps_pure _
  -- the label of the epilogue is placed between the last instruction and the epilogue
  have hsplit : lowerItems helper b = (do
      emitAll (prologue ++ [.mov true stateBase rdi, .mov true memoryBase rsi])
      let lowered ← (lowering helper).walk b 0 b.insts
      modify fun st => { st with engine := st.engine.releaseLocks }
      withEngine Registers.flushAll
      return lowered) >>= fun lowered => (do
        emit (.alu .xor false rax rax)
        modify fun st => { st with asm := st.asm.place st.exit }
        emitAll epilogue
        return lowered) := by
    unfold lowerItems
    simp only [bind_assoc, pure_bind]
  have hblock : Leads (lowerItems helper b) (initial s b)
      fun _ st => WellFormed st.asm.items.toList := by
    rw [hsplit]
    refine leads_bind ((hbody _ (formed_initial s b)).mono fun lowered st₁ h₁ => ?_)
    refine leads_bind (leads_modify (leads_bind (leads_modify (leads_bind (leads_modify
      (leads_pure ?_))))))
    have hitems := h₁.wellFormed (.alu .xor false rax rax)
    rw [List.append_cons, List.append_cons] at hitems
    rw [(Assembler.adds_pushAll _ epilogue).1]
    simpa [Assembler.place, Assembler.push] using hitems
  exact hblock lowered st hrun

end Dynarec.Amd64
