/-
Code under construction.

Code is a sequence of cells. A cell is a word that is no branch, a branch to the epilogue, whose
distance is not known yet, or a branch over the next few words. Until the epilogue has a place, the
code is made of the drafts of its cells, and there is a note of every branch to the epilogue
(`Cell.draft`, `Cell.notes`). Resolving the notes turns the drafts into words that go to the end of
the code, and no cell but those with a note changes (`Assembler.resolveAll_notes`).

The words tell what the cells were: the kind of each branch is read back, and so is the place that
it goes to (`Cell.ofWord?_final`, `Cell.distance_final`).
-/
import Dynarec.Proofs.Aarch64.Branches
import Dynarec.Proofs.Registers.Supply

set_option autoImplicit false

namespace Dynarec.Aarch64

open Dynarec.Registers

/-! ## Cells -/

/-- A place of code under construction. -/
inductive Cell where
  /-- A word that is no branch. -/
  | word (w : Word)
  /-- The jump of an exit to the epilogue. -/
  | exit
  /-- The branch to the epilogue after a call that has faulted. -/
  | fault
  /-- A branch over the next `n` words. -/
  | skip (c : Cond) (n : Nat)
  deriving DecidableEq, Repr

namespace Cell

/-- The branch to the epilogue that a cell is. -/
def leave? : Cell → Option BranchOp
  | exit => some .jump
  | fault => some (.cbnz false 0)
  | word _ | skip _ _ => none

/-- The word as long as the epilogue has no place. -/
def draft : Cell → Word
  | word w => w
  | exit => BranchOp.encode .jump
  | fault => BranchOp.encode (.cbnz false 0)
  | skip c n => BranchKind.cond.patch (BranchOp.encode (.cond c)) (n + 1)

/-- The word at a position when the epilogue is at another. -/
def final (target site : Nat) (c : Cell) : Word :=
  match c.leave? with
  | some op => op.kind.patch c.draft ((target : Int) - site)
  | none => c.draft

/-- The words of cells from a position on. -/
def finals (target site : Nat) (cells : List Cell) : List Word :=
  cells.mapIdx fun k c => c.final target (site + k)

/-- The kind of branch that a cell is. -/
def kind? : Cell → Option BranchKind
  | word _ => none
  | exit => some .jump
  | fault => some .cbnz
  | skip _ _ => some .cond

/-- The notes of the branches to the epilogue among cells from a position on. -/
def notes (site : Nat) : List Cell → List Branch
  | [] => []
  | c :: cells => (c.leave?.map fun op => ⟨op.kind, site⟩).toList ++ notes (site + 1) cells

/-- The cells of instructions that are no branches. -/
def ofInstrs (is : List Instr) : List Cell := is.map fun i => word i.encode

theorem notes_append (site : Nat) (cells cells' : List Cell) :
    notes site (cells ++ cells') = notes site cells ++ notes (site + cells.length) cells' := by
  induction cells generalizing site with
  | nil => rfl
  | cons c cells ih =>
    rw [List.cons_append, notes, notes, ih, List.append_assoc, List.length_cons, Nat.add_assoc,
      Nat.add_comm 1]

/-- A note is that of a cell, and says where the cell is. -/
theorem mem_notes {site : Nat} {cells : List Cell} {n : Branch} :
    n ∈ notes site cells ↔
      ∃ k c op, cells[k]? = some c ∧ c.leave? = some op ∧ n = ⟨op.kind, site + k⟩ := by
  induction cells generalizing site with
  | nil => simp [notes]
  | cons d cells ih =>
    rw [notes, List.mem_append, ih]
    constructor
    · rintro (hn | ⟨k, c, op, hc, hop, rfl⟩)
      · obtain ⟨op, hop, rfl⟩ := Option.map_eq_some_iff.mp (Option.mem_toList.mp hn)
        exact ⟨0, d, op, rfl, hop, rfl⟩
      · exact ⟨k + 1, c, op, hc, hop, by rw [Nat.add_assoc, Nat.add_comm 1]⟩
    · rintro ⟨k, c, op, hc, hop, rfl⟩
      cases k with
      | zero =>
        cases hc
        refine Or.inl (Option.mem_toList.mpr ?_)
        rw [hop]
        rfl
      | succ k => exact Or.inr ⟨k, c, op, hc, hop, by rw [Nat.add_assoc, Nat.add_comm 1]⟩

/-! ### Final words -/

section

variable {target site : Nat} {c : Cell} {cells cells' : List Cell}

theorem finals_cons :
    finals target site (c :: cells) = c.final target site :: finals target (site + 1) cells := by
  rw [finals, List.mapIdx_cons, Nat.add_zero, finals]
  simp only [Nat.add_assoc, Nat.add_comm 1]

theorem finals_append :
    finals target site (cells ++ cells')
      = finals target site cells ++ finals target (site + cells.length) cells' := by
  rw [finals, List.mapIdx_append, finals, finals]
  simp only [Nat.add_assoc, Nat.add_comm cells.length]

@[simp] theorem length_finals : (finals target site cells).length = cells.length :=
  List.length_mapIdx

/-- The kind of a branch is read back from its word. -/
theorem ofWord?_final (target site : Nat) (h : ∀ w, c = .word w → BranchKind.ofWord? w = none) :
    BranchKind.ofWord? (c.final target site) = c.kind? := by
  cases c with
  | word w => exact h w rfl
  | exit => exact BranchKind.ofWord?_patch (by decide) _
  | fault => exact BranchKind.ofWord?_patch (by decide) _
  | skip cond n =>
    -- the condition is below the bits by which the branch is known
    have hcond : BranchKind.ofWord? (BranchOp.encode (.cond cond)) = some .cond := by
      cases cond <;> decide
    exact BranchKind.ofWord?_patch hcond _

/-- A branch that is neither of an exit nor of a call skips words. -/
theorem leave?_of_kind? {kind : BranchKind} (h : c.kind? = some kind) (hne : kind ≠ .cond) :
    ∃ op, c.leave? = some op ∧ op.kind = kind := by
  cases c with
  | word w => exact nomatch h
  | exit => exact ⟨.jump, rfl, Option.some_inj.mp h⟩
  | fault => exact ⟨.cbnz false 0, rfl, Option.some_inj.mp h⟩
  | skip cond n => exact absurd (Option.some_inj.mp h).symm hne

/-- **A branch to the epilogue goes there.** -/
theorem distance_final {op : BranchOp} (h : c.leave? = some op)
    (hreaches : op.kind.reaches ((target : Int) - site) = true) :
    (site : Int) + op.kind.distance (c.final target site) = target := by
  unfold final
  rw [h]
  simp only [BranchKind.distance_patch hreaches]
  omega

end

end Cell

/-- The cells are words that are no branches. -/
def Straight (cells : List Cell) : Prop :=
  ∀ c ∈ cells, ∃ w, c = .word w ∧ BranchKind.ofWord? w = none

theorem Straight.append {cells cells' : List Cell} (h : Straight cells) (h' : Straight cells') :
    Straight (cells ++ cells') :=
  fun c hc => (List.mem_append.mp hc).elim (h c) (h' c)

theorem straight_nil : Straight [] := fun _ hc => nomatch hc

theorem straight_ofInstrs {is : List Instr} (h : AllPlain is) : Straight (Cell.ofInstrs is) := by
  intro c hc
  obtain ⟨i, hi, rfl⟩ := List.mem_map.mp hc
  exact ⟨_, rfl, Instr.ofWord?_of_isPlain (allPlain_iff.mp h i hi)⟩

/-- Straight cells have no notes. -/
theorem Straight.notes_eq {cells : List Cell} (h : Straight cells) (site : Nat) :
    Cell.notes site cells = [] := by
  induction cells generalizing site with
  | nil => rfl
  | cons c cells ih =>
    obtain ⟨w, rfl, -⟩ := h c List.mem_cons_self
    exact ih (fun d hd => h d (List.mem_cons_of_mem _ hd)) (site + 1)

/-- Straight cells are final. -/
theorem Straight.finals_eq {cells : List Cell} (h : Straight cells) (target site : Nat) :
    Cell.finals target site cells = cells.map Cell.draft := by
  induction cells generalizing site with
  | nil => rfl
  | cons c cells ih =>
    obtain ⟨w, rfl, -⟩ := h c List.mem_cons_self
    rw [Cell.finals_cons, ih (fun d hd => h d (List.mem_cons_of_mem _ hd)), List.map_cons]
    rfl

/-- The cells have `core` among them, and all others are words that are no branches. -/
def Around (core cells : List Cell) : Prop :=
  ∃ before after, Straight before ∧ Straight after ∧ cells = before ++ core ++ after

theorem around_self (core : List Cell) : Around core core :=
  ⟨[], [], straight_nil, straight_nil, (List.append_nil core).symm⟩

theorem Straight.around {cells : List Cell} (h : Straight cells) : Around [] cells :=
  ⟨cells, [], h, straight_nil, by rw [List.append_nil, List.append_nil]⟩

theorem Around.straight {cells : List Cell} (h : Around [] cells) : Straight cells := by
  obtain ⟨before, after, hb, ha, rfl⟩ := h
  rw [List.append_nil]
  exact hb.append ha

theorem Around.after_straight {core cells cells' : List Cell} (h' : Around core cells')
    (h : Straight cells) : Around core (cells ++ cells') := by
  obtain ⟨before, after, hb, ha, rfl⟩ := h'
  exact ⟨cells ++ before, after, h.append hb, ha, by simp only [List.append_assoc]⟩

theorem Around.before_straight {core cells cells' : List Cell} (h : Around core cells)
    (h' : Straight cells') : Around core (cells ++ cells') := by
  obtain ⟨before, after, hb, ha, rfl⟩ := h
  exact ⟨before, after ++ cells', hb, ha.append h', by simp only [List.append_assoc]⟩

/-! ## Code that grows -/

namespace Assembler

/-- The code with more words. -/
def append (a : Assembler) (ws : List Word) : Assembler := { a with words := a.words ++ ws.toArray }

variable {a : Assembler}

@[simp] theorem append_words (ws : List Word) :
    (a.append ws).words.toList = a.words.toList ++ ws := by
  simp only [append, Array.toList_append]

@[simp] theorem append_pending (ws : List Word) : (a.append ws).pending = a.pending := rfl

theorem append_append (ws ws' : List Word) : (a.append ws).append ws' = a.append (ws ++ ws') := by
  simp only [append, Array.append_assoc, List.append_toArray]

theorem append_nil : a.append [] = a := by
  simp only [append, Array.append_empty]

theorem push_plain {i : Instr} (h : i.isPlain = true) : a.push i = .ok (a.append [i.encode]) := by
  unfold push
  rw [Instr.check_of_isPlain h]
  rfl

theorem pushAll_plain {is : List Instr} (h : AllPlain is) :
    a.pushAll is = .ok (a.append (is.map Instr.encode)) := by
  unfold pushAll
  induction is generalizing a with
  | nil =>
    rw [List.map_nil, append_nil]
    rfl
  | cons i is ih =>
    obtain ⟨hi, his⟩ := allPlain_cons.mp h
    rw [List.foldlM_cons, push_plain hi, List.map_cons]
    show is.foldlM push (a.append [i.encode]) = _
    rw [ih his, append_append]
    rfl

theorem branch_leave {c : Cell} {op : BranchOp} (h : c.leave? = some op) :
    a.branch op = .ok (⟨op.kind, a.position⟩,
      { a.append [c.draft] with pending := a.pending + 1 }) := by
  cases c <;> cases h <;> rfl

theorem position_append (ws : List Word) : (a.append ws).position = a.position + ws.length := by
  show (a.append ws).words.toList.length = _
  rw [append_words, List.length_append]
  rfl

end Assembler

/-! ## What the engine asks for -/

/-- Every place of a list has an instruction that is no branch. -/
def Spelled (l : List (Except Fault Instr)) : Prop := ∃ is, AllPlain is ∧ l = is.map .ok

theorem spelled_map {is : List Instr} (h : AllPlain is) : Spelled (is.map .ok) := ⟨is, h, rfl⟩

theorem spelled_singleton {i : Instr} (h : i.isPlain = true) : Spelled [.ok i] :=
  ⟨[i], allPlain_cons.mpr ⟨h, rfl⟩, rfl⟩

theorem spelled_spread {x : Sequence} (h : Plain x) : Spelled (spread x) := by
  obtain ⟨is, rfl, his⟩ := h
  exact spelled_map his

theorem Spelled.append {l l' : List (Except Fault Instr)} (h : Spelled l) (h' : Spelled l') :
    Spelled (l ++ l') := by
  obtain ⟨is, his, rfl⟩ := h
  obtain ⟨is', his', rfl⟩ := h'
  exact ⟨is ++ is', allPlain_append.mpr ⟨his, his'⟩, by rw [List.map_append]⟩

theorem spelled_flatMap {α : Type} {l : List α} {f : α → List (Except Fault Instr)}
    (h : ∀ a ∈ l, Spelled (f a)) : Spelled (l.flatMap f) := by
  induction l with
  | nil => exact ⟨[], rfl, rfl⟩
  | cons a l ih =>
    rw [List.flatMap_cons]
    exact (h a List.mem_cons_self).append (ih fun b hb => h b (List.mem_cons_of_mem a hb))

section

variable {r : HostReg}

theorem lt_of_has_gpr (h : host.Has .gpr r) : r < gprCount := by
  have hbank : (if r < gprCount then Bank.gpr else .fpr) = .gpr := h.bank
  by_contra hge
  rw [if_neg hge] at hbank
  exact nomatch hbank

theorem vectorReg_ok (hr : gprCount ≤ r) (hlt : r < host.count) : ∃ v, vectorReg r = .ok v :=
  ⟨_, if_pos ⟨hr, hlt⟩⟩

theorem vectorReg_of_has (h : host.Has .fpr r) : ∃ v, vectorReg r = .ok v := by
  refine vectorReg_ok (Nat.le_of_not_lt fun hlt => ?_) h.lt
  have hbank : (if r < gprCount then Bank.gpr else .fpr) = .fpr := h.bank
  rw [if_pos hlt] at hbank
  exact nomatch hbank

theorem spelled_withReg {x : Except Fault Reg} {f : Reg → List (Except Fault Instr)}
    (hx : ∃ v, x = .ok v) (hf : ∀ v, Spelled (f v)) : Spelled (withReg x f) := by
  obtain ⟨v, rfl⟩ := hx
  exact hf v

theorem spelled_withSlot {t : Slot} {f : Word → List (Except Fault Instr)} (ht : t < Slot.count)
    (hf : ∀ offset, Spelled (f offset)) : Spelled (withSlot t f) := by
  -- the state is small, so no offset in it overflows
  have hlt : Guest.Layout.slot t < doubleWords :=
    calc 4 * t < 4 * 256 := Nat.mul_lt_mul_of_pos_left ht (by decide)
      _ < doubleWords := by decide
  have hoffset : Guest.Layout.slotOffset t = .ok (UInt32.ofNat (Guest.Layout.slot t)) := by
    unfold Guest.Layout.slotOffset asDouble
    rw [if_pos hlt]
    rfl
  unfold withSlot
  rw [hoffset]
  exact hf _

theorem spelled_accessState (op : MemOp) (rt : Reg) (offset : Word) :
    Spelled (accessState op rt offset) :=
  spelled_spread (plain_accessAt _ _ _ _ _)

theorem spelled_moveConst (rd : Reg) (w : Word) : Spelled (spread (moveConst rd w)) :=
  spelled_spread (plain_moveConst rd w)

theorem spelled_fillLane {d : Reg} {lane : UInt8} {source : LaneSource} (h : source.Fits host) :
    Spelled (fillLane d lane source) := by
  cases source with
  | keep => exact ⟨[], rfl, rfl⟩
  | lane q k => exact spelled_withReg (vectorReg_of_has h.1) fun _ => spelled_singleton rfl
  | guest t =>
    exact spelled_withSlot h fun offset =>
      (spelled_accessState _ _ _).append (spelled_singleton rfl)
  | value w =>
    rw [fillLane]
    split
    · exact spelled_singleton rfl
    · exact (spelled_moveConst _ _).append (spelled_singleton rfl)

/-- **What fits is spelled without branches.** -/
theorem spelled_of_fits {a : Action} (h : a.Fits host) : Spelled (spell a) := by
  have hreg : ∀ {q}, q < host.count → isVector q = true → ∃ v, vectorReg q = .ok v :=
    fun hq hv => vectorReg_ok (of_decide_eq_true hv) hq
  have hpair : ∀ {d s : HostReg} {f : Reg → Reg → Instr}, (∃ v, vectorReg d = .ok v) →
      (∃ v, vectorReg s = .ok v) → (∀ v w, AllPlain [f v w]) → Spelled [do
        let d ← vectorReg d
        let s ← vectorReg s
        return f d s] := by
    rintro d s f ⟨v, hv⟩ ⟨w, hw⟩ hf
    refine ⟨[f v w], hf v w, ?_⟩
    rw [hv, hw]
    rfl
  cases a with
  | load r t lanes =>
    refine spelled_withSlot h.2 fun offset => ?_
    split
    · rename_i hv
      exact spelled_withReg (hreg h.1 hv) fun _ => spelled_accessState _ _ _
    · exact spelled_accessState _ _ _
  | store r t lane count =>
    refine spelled_withSlot h.2 fun offset => ?_
    split
    · exact spelled_accessState _ _ _
    · rename_i hv
      refine spelled_withReg (hreg h.1 (by simpa using hv)) fun v => ?_
      split
      · exact spelled_accessState _ _ _
      · split
        · exact spelled_accessState _ _ _
        · exact (spelled_singleton rfl).append (spelled_accessState _ _ _)
  | setValue r w =>
    rw [spell]
    split
    · rename_i hv
      exact (spelled_moveConst _ _).append
        (spelled_withReg (hreg h hv) fun _ => spelled_singleton rfl)
    · exact spelled_moveConst _ _
  | storeValue t w =>
    refine spelled_withSlot h fun offset => ?_
    split
    · exact spelled_accessState _ _ _
    · exact (spelled_moveConst _ _).append (spelled_accessState _ _ _)
  | addBase r =>
    exact spelled_withReg ⟨_, if_pos (lt_of_has_gpr h)⟩ fun _ => spelled_singleton rfl
  | removeBase r =>
    exact spelled_withReg ⟨_, if_pos (lt_of_has_gpr h)⟩ fun _ => spelled_singleton rfl
  | move d s =>
    cases hd : isVector d <;> cases hs : isVector s <;> simp only [spell, hd, hs]
    · exact spelled_singleton rfl
    · exact spelled_withReg (hreg h.2 hs) fun _ => spelled_singleton rfl
    · exact spelled_withReg (hreg h.1 hd) fun _ => spelled_singleton rfl
    · exact hpair (hreg h.1 hd) (hreg h.2 hs) fun _ _ => rfl
  | extract d s lane => exact hpair (vectorReg_of_has h.1) (vectorReg_of_has h.2) fun _ _ => rfl
  | compose d sources =>
    obtain ⟨v, hv⟩ := vectorReg_of_has h.1
    simp only [spell, hv]
    refine spelled_flatMap fun p hp => ?_
    exact spelled_fillLane (h.2 p.1 (List.fst_mem_of_mem_zipIdx hp))

end

theorem pushUntil_of_spelled {l : List (Except Fault Instr)} (h : Spelled l) (a : Assembler) :
    ∃ is, AllPlain is ∧ a.pushUntil l = (a.append (is.map Instr.encode), .ok ()) := by
  obtain ⟨is, his, rfl⟩ := h
  refine ⟨is, his, ?_⟩
  induction is generalizing a with
  | nil =>
    rw [List.map_nil, List.map_nil, Assembler.append_nil]
    rfl
  | cons i is ih =>
    obtain ⟨hi, his⟩ := allPlain_cons.mp his
    rw [List.map_cons, Assembler.pushUntil, Assembler.push_plain hi]
    simp only
    rw [ih _ his, Assembler.append_append]
    rfl

/-- **What the engine asks for** is laid down, without branches. -/
theorem performAll_of_fits {actions : Array Action} (h : ∀ a ∈ actions, a.Fits host)
    (asm : Assembler) :
    ∃ is, AllPlain is ∧ asm.performAll actions = .ok (asm.append (is.map Instr.encode)) := by
  have hlist : ∀ a ∈ actions.toList, a.Fits host := fun a ha => h a (Array.mem_def.mpr ha)
  unfold Assembler.performAll
  rw [← Array.foldlM_toList]
  generalize actions.toList = l at hlist
  induction l generalizing asm with
  | nil =>
    refine ⟨[], rfl, ?_⟩
    rw [List.map_nil, Assembler.append_nil]
    rfl
  | cons a l ih =>
    obtain ⟨is, his, hpush⟩ := pushUntil_of_spelled (spelled_of_fits (hlist a List.mem_cons_self)) asm
    obtain ⟨is', his', hrest⟩ := ih (asm.append (is.map Instr.encode))
      fun b hb => hlist b (List.mem_cons_of_mem a hb)
    refine ⟨is ++ is', allPlain_append.mpr ⟨his, his'⟩, ?_⟩
    rw [List.foldlM_cons]
    unfold Assembler.perform
    rw [hpush, List.map_append, ← Assembler.append_append]
    exact hrest

/-! ## Resolving -/

theorem Assembler.resolve_eq {a : Assembler} {b : Branch} {before after : List Word} {w : Word}
    (hwords : a.words.toList = before ++ w :: after) (hsite : b.site = before.length)
    (hreaches : b.kind.reaches ((a.position : Int) - b.site) = true) (hpending : a.pending ≠ 0) :
    ∃ a', a.resolve b = .ok a' ∧ a'.pending = a.pending - 1 ∧
      a'.words.toList = before ++ b.kind.patch w ((a.position : Int) - b.site) :: after := by
  have hsize : a.words.size = before.length + (after.length + 1) := by
    have hlen := congrArg List.length hwords
    rw [List.length_append, List.length_cons] at hlen
    exact hlen
  have hlt : b.site < a.words.size := by omega
  have hword : a.words[b.site] = w := by
    simp only [← Array.getElem_toList, hwords, hsite, List.getElem_append_right (Nat.le_refl _),
      Nat.sub_self, List.getElem_cons_zero]
  -- the branch goes forward, so its distance is a double word
  have hforward : ¬ ((a.position : Int) - b.site < -(twoTo 63 : Int)) := by
    have hlimit : ((twoTo 63 : Nat) : Int) = 9223372036854775808 := by decide
    rw [hlimit]
    unfold Assembler.position
    omega
  refine ⟨{ words := a.words.set b.site (b.kind.patch w ((a.position : Int) - b.site)),
            pending := a.pending - 1 }, ?_, rfl, ?_⟩
  · unfold Assembler.resolve Assembler.resolveTo
    simp only
    rw [if_neg hforward, hreaches, dif_pos hlt, if_neg hpending, hword]
    rfl
  · rw [Array.toList_set, hwords, hsite, List.set_append_right _ _ (Nat.le_refl _), Nat.sub_self,
      List.set_cons_zero]

theorem Assembler.resolveAll_cons (a : Assembler) (b : Branch) (bs : List Branch) :
    a.resolveAll (b :: bs).toArray = a.resolve b >>= fun a' => a'.resolveAll bs.toArray := by
  simp only [Assembler.resolveAll, List.foldlM_toArray, List.foldlM_cons]

/-- **Resolving the notes makes the drafts final.** The induction moves each cell, once it is final,
to the words before the cells. -/
theorem Assembler.resolveAll_notes {a : Assembler} (before : List Word) {cells : List Cell}
    (hwords : a.words.toList = before ++ cells.map Cell.draft)
    (hreaches : ∀ n ∈ Cell.notes before.length cells,
      n.kind.reaches ((a.position : Int) - n.site) = true)
    (hpending : a.pending = (Cell.notes before.length cells).length) :
    ∃ a', a.resolveAll (Cell.notes before.length cells).toArray = .ok a' ∧ a'.pending = 0 ∧
      a'.words.toList = before ++ Cell.finals a.position before.length cells := by
  induction cells generalizing a before with
  | nil => exact ⟨a, rfl, hpending, hwords⟩
  | cons c cells ih =>
    rw [List.map_cons] at hwords
    rw [Cell.finals_cons]
    have hsize : a.position = before.length + (cells.length + 1) := by
      have hlen := congrArg List.length hwords
      rw [List.length_append, List.length_cons, List.length_map] at hlen
      exact hlen
    -- the cell is final: go on with the cells after it
    have hrest : ∀ a₁ : Assembler,
        a₁.words.toList = before ++ c.final a.position before.length :: cells.map Cell.draft →
        (∀ n ∈ Cell.notes (before.length + 1) cells,
          n.kind.reaches ((a.position : Int) - n.site) = true) →
        a₁.pending = (Cell.notes (before.length + 1) cells).length →
        ∃ a', a₁.resolveAll (Cell.notes (before.length + 1) cells).toArray = .ok a' ∧
          a'.pending = 0 ∧ a'.words.toList = before ++ c.final a.position before.length ::
            Cell.finals a.position (before.length + 1) cells := by
      intro a₁ hwords₁ hreaches₁ hpending₁
      have hposition : a₁.position = a.position := by
        have hlen := congrArg List.length hwords₁
        rw [List.length_append, List.length_cons, List.length_map] at hlen
        exact hlen.trans hsize.symm
      rw [List.append_cons] at hwords₁ ⊢
      have hlast := ih _ hwords₁
      rw [List.length_append, List.length_singleton, hposition] at hlast
      exact hlast hreaches₁ hpending₁
    cases hleave : c.leave? with
    | none =>
      have hnotes : Cell.notes before.length (c :: cells) = Cell.notes (before.length + 1) cells := by
        rw [Cell.notes, hleave]
        rfl
      have hfinal : c.final a.position before.length = c.draft := by
        unfold Cell.final
        rw [hleave]
      rw [hnotes] at hreaches hpending ⊢
      exact hrest a (by rw [hwords, hfinal]) hreaches hpending
    | some op =>
      let note : Branch := ⟨op.kind, before.length⟩
      have hnotes : Cell.notes before.length (c :: cells)
          = note :: Cell.notes (before.length + 1) cells := by
        rw [Cell.notes, hleave]
        rfl
      have hfinal : c.final a.position before.length
          = op.kind.patch c.draft ((a.position : Int) - before.length) := by
        unfold Cell.final
        rw [hleave]
      rw [hnotes] at hreaches hpending ⊢
      -- all words before the cell are final, so its place is their number
      obtain ⟨a₁, hresolve, hpending₁, hwords₁⟩ := Assembler.resolve_eq (b := note) hwords rfl
        (hreaches note List.mem_cons_self) (by rw [hpending]; exact nofun)
      rw [hpending, List.length_cons, Nat.add_sub_cancel] at hpending₁
      rw [Assembler.resolveAll_cons, hresolve]
      exact hrest a₁ (by rw [hwords₁, hfinal])
        (fun n hn => hreaches n (List.mem_cons_of_mem _ hn)) hpending₁

end Dynarec.Aarch64
