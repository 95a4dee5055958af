/-
Where the branches of compiled blocks go.

When the body of a block is complete the epilogue has its place, and resolving the branches to it is
all that changes the body from then on. Nothing moves, so a branch that skips the exit after it
stays right, and the branches to the epilogue are those that have notes.

The result is stated about the words alone (`Pieces.Lands`). A reader of the code who knows branches
by their fixed bits finds, piece by piece, the branches of each instruction and no others. Those of
exits and of calls go to the word that begins to restore the registers, right behind the one that
sets the result for control that runs off the end, and one that skips an exit goes to the word after
that exit (`branches_land`).
-/
import Dynarec.Proofs.Codegen.BranchRange

set_option autoImplicit false

namespace Dynarec.Aarch64

open Dynarec.Codegen Dynarec.Registers

section

variable {s : Settings} {b : Block}

/-! ## Reading the words -/

/-- The words have no branch. -/
def Branchfree (ws : List Word) : Prop := ∀ w ∈ ws, BranchKind.ofWord? w = none

/-- The kinds of branches of an exit. -/
def exitKinds : Opcode → List BranchKind
  | .exitToConst | .exitToReg | .exitToPC | .syscall => [.jump]
  | .exitToConstIfEq | .exitToConstIfNeq | .exitToConstIfGtZ | .exitToConstIfGeZ
  | .exitToConstIfLtZ | .exitToConstIfLeZ => [.cond, .jump]
  | _ => []

/-- The kinds of branches that an instruction is lowered to. -/
def branchKinds (i : Inst) : List BranchKind := if isNative i then exitKinds i.op else [.cbnz]

/-- The words of an instruction have the branches of its kind, and one that skips an exit goes to
the word after that exit. -/
structure Segment (b : Block) (i : Inst) (ws : List Word) : Prop where
  kinds : ws.filterMap BranchKind.ofWord? = branchKinds i
  skips : .cond ∈ branchKinds i → ∃ before branch jump after,
    ws = before ++ branch :: ((exitStub (b.pool.constant i)).map Instr.encode ++ jump :: after) ∧
    BranchKind.ofWord? branch = some .cond ∧ BranchKind.ofWord? jump = some .jump ∧
    BranchKind.cond.distance branch = 1 + (exitStub (b.pool.constant i)).length + 1

/-- The code of a block, piece by piece. -/
structure Pieces where
  entry : List Word
  segments : List (List Word)
  store : List Word

namespace Pieces

/-- The words up to the epilogue. -/
def body (p : Pieces) : List Word :=
  p.entry ++ p.segments.flatten ++ p.store ++ [fallThrough.encode]

/-- All words. -/
def words (p : Pieces) : List Word := p.body ++ epilogue.map Instr.encode

/-- Each instruction has its branches, and those that skip nothing go to the first word after the
body. -/
structure Lands (p : Pieces) (b : Block) : Prop where
  entry : Branchfree p.entry
  store : Branchfree p.store
  segments : List.Forall₂ (Segment b) (Effective b.insts) p.segments
  /-- The last word of the body is `mov w0, #0`. -/
  result : p.body.getLast? = some 0x52800000
  /-- The word after it is `ldp d14, d15, [sp, #144]`. -/
  restore : p.words[p.body.length]? = some 0x6d493fee
  leaves : ∀ (k : Nat) w kind, p.words[k]? = some w → BranchKind.ofWord? w = some kind →
    kind ≠ .cond →
    (k : Int) + kind.distance w = p.body.length

end Pieces

/-! ## From cells to words -/

/-- No word among the cells is a branch in disguise. -/
def Honest (cells : List Cell) : Prop := ∀ w, .word w ∈ cells → BranchKind.ofWord? w = none

variable {i : Inst} {cells cells' : List Cell}

theorem Honest.append (h : Honest cells) (h' : Honest cells') : Honest (cells ++ cells') :=
  fun w hw => (List.mem_append.mp hw).elim (h w) (h' w)

theorem Straight.honest (h : Straight cells) : Honest cells := by
  intro w hw
  obtain ⟨w', heq, hnone⟩ := h _ hw
  cases heq
  exact hnone

theorem Straight.branchfree (h : Straight cells) : Branchfree (cells.map Cell.draft) := by
  intro w hw
  obtain ⟨c, hc, rfl⟩ := List.mem_map.mp hw
  obtain ⟨w', rfl, hnone⟩ := h c hc
  exact hnone

theorem Straight.kinds_eq (h : Straight cells) : cells.filterMap Cell.kind? = [] := by
  refine List.filterMap_eq_nil_iff.mpr fun c hc => ?_
  obtain ⟨w, rfl, -⟩ := h c hc
  rfl

theorem honest_branchCells (op : Opcode) (c : Word) : Honest (branchCells op c) := by
  intro w hw
  -- the only words among these cells are those of a stub
  have hstub : .word w ∈ Cell.ofInstrs (exitStub c) := by
    unfold branchCells at hw
    split at hw
    all_goals simp only [List.mem_cons, List.mem_append, List.not_mem_nil, reduceCtorEq, or_false,
      false_or] at hw
    all_goals exact hw
  exact (straight_ofInstrs (allPlain_exitStub c)).honest w hstub

theorem honest_instCells (b : Block) (i : Inst) : Honest (instCells b i) := by
  unfold instCells
  split
  · exact honest_branchCells _ _
  · exact fun w hw => nomatch List.mem_singleton.mp hw

theorem Lowered.honest (h : Lowered b i cells) : Honest cells := by
  obtain ⟨before, after, hbefore, hafter, rfl⟩ := h
  exact (hbefore.honest.append (honest_instCells b i)).append hafter.honest

/-- The kinds of the branches are read back. -/
theorem Honest.kinds_finals (h : Honest cells) (target site : Nat) :
    (Cell.finals target site cells).filterMap BranchKind.ofWord? = cells.filterMap Cell.kind? := by
  induction cells generalizing site with
  | nil => rfl
  | cons c cells ih =>
    rw [Cell.finals_cons, List.filterMap_cons, List.filterMap_cons,
      Cell.ofWord?_final _ _ fun w hw => h w (hw ▸ List.mem_cons_self),
      ih fun w hw => h w (List.mem_cons_of_mem c hw)]

theorem kinds_branchCells (op : Opcode) (c : Word) :
    (branchCells op c).filterMap Cell.kind? = exitKinds op := by
  have hstub : (Cell.ofInstrs (exitStub c)).filterMap Cell.kind? = [] :=
    (straight_ofInstrs (allPlain_exitStub c)).kinds_eq
  cases op <;> first
    | rfl
    | rw [branchCells, List.filterMap_cons, List.filterMap_append, hstub]
      rfl

theorem Lowered.kinds_eq (h : Lowered b i cells) :
    cells.filterMap Cell.kind? = branchKinds i := by
  obtain ⟨before, after, hbefore, hafter, rfl⟩ := h
  rw [List.filterMap_append, List.filterMap_append, hbefore.kinds_eq, hafter.kinds_eq,
    List.nil_append, List.append_nil]
  unfold instCells branchKinds
  split
  · exact kinds_branchCells _ _
  · rfl

/-- Only conditional exits skip something. -/
theorem instCells_of_cond (h : .cond ∈ branchKinds i) :
    instCells b i = .skip (exitCondition i.op).invert ((exitStub (b.pool.constant i)).length + 1)
      :: (Cell.ofInstrs (exitStub (b.pool.constant i)) ++ [.exit]) := by
  unfold branchKinds at h
  unfold instCells
  split at h
  · rename_i hnative
    rw [if_pos hnative]
    cases hop : i.op <;> rw [hop] at h <;> first | rfl | exact absurd h (by decide)
  · exact absurd h (by decide)

/-- The words of a conditional exit. -/
theorem finals_skip (target site : Nat) (c : Cond) (value : Word) :
    ∃ branch jump, BranchKind.ofWord? branch = some .cond ∧ BranchKind.ofWord? jump = some .jump ∧
      BranchKind.cond.distance branch = 1 + (exitStub value).length + 1 ∧
      Cell.finals target site (.skip c ((exitStub value).length + 1)
          :: (Cell.ofInstrs (exitStub value) ++ [.exit]))
        = branch :: ((exitStub value).map Instr.encode ++ [jump]) := by
  let skip : Cell := .skip c ((exitStub value).length + 1)
  let stub := Cell.ofInstrs (exitStub value)
  have hlength := length_exitStub_le value
  refine ⟨skip.final target site, Cell.exit.final target (site + 1 + stub.length),
    Cell.ofWord?_final _ _ nofun, Cell.ofWord?_final _ _ nofun, ?_, ?_⟩
  · refine (BranchKind.distance_patch (reaches_skip (by omega)) _).trans ?_
    omega
  · rw [Cell.finals_cons, Cell.finals_append, Cell.finals_cons,
      (straight_ofInstrs (allPlain_exitStub value)).finals_eq, Cell.ofInstrs, List.map_map]
    rfl

/-- **The words of an instruction** have its branches. -/
theorem Lowered.segment (h : Lowered b i cells) (target site : Nat) :
    Segment b i (Cell.finals target site cells) := by
  refine ⟨by rw [h.honest.kinds_finals, h.kinds_eq], fun hcond => ?_⟩
  obtain ⟨before, after, hbefore, hafter, rfl⟩ := h
  obtain ⟨branch, jump, hbranch, hjump, hdistance, hwords⟩ := finals_skip target
    (site + before.length) (exitCondition i.op).invert (b.pool.constant i)
  refine ⟨before.map Cell.draft, branch, jump, after.map Cell.draft, ?_, hbranch, hjump, hdistance⟩
  rw [Cell.finals_append, Cell.finals_append, instCells_of_cond hcond, hwords, hbefore.finals_eq,
    hafter.finals_eq]
  simp only [List.append_assoc, List.cons_append, List.nil_append]

theorem exists_segments {insts : List Inst} {segments : List (List Cell)}
    (h : List.Forall₂ (Lowered b) insts segments) (target site : Nat) :
    ∃ pieces, Cell.finals target site segments.flatten = pieces.flatten ∧
      List.Forall₂ (Segment b) insts pieces := by
  induction h generalizing site with
  | nil => exact ⟨[], rfl, .nil⟩
  | @cons i cells _ _ h _ ih =>
    obtain ⟨pieces, heq, hpieces⟩ := ih (site + cells.length)
    refine ⟨Cell.finals target site cells :: pieces, ?_, .cons (h.segment target site) hpieces⟩
    rw [List.flatten_cons, List.flatten_cons, Cell.finals_append, heq]

theorem honest_flatten {insts : List Inst} {segments : List (List Cell)}
    (h : List.Forall₂ (Lowered b) insts segments) : Honest segments.flatten := by
  induction h with
  | nil => exact straight_nil.honest
  | cons h _ ih => exact h.honest.append ih

theorem Body.honest (h : Body b cells) : Honest cells := by
  obtain ⟨entry, segments, store, hentry, hstore, hsegments, rfl⟩ := h
  exact ((hentry.honest.append (honest_flatten hsegments)).append hstore.honest).append
    straight_fallThrough.honest

/-- The words of a body fall into pieces. -/
theorem Body.exists_pieces (h : Body b cells) (target : Nat) :
    ∃ p : Pieces, p.body = Cell.finals target 0 cells ∧ Branchfree p.entry ∧ Branchfree p.store ∧
      List.Forall₂ (Segment b) (Effective b.insts) p.segments := by
  obtain ⟨entry, segments, store, hentry, hstore, hsegments, rfl⟩ := h
  obtain ⟨pieces, heq, hpieces⟩ := exists_segments hsegments target (0 + entry.length)
  refine ⟨⟨entry.map Cell.draft, pieces, store.map Cell.draft⟩, ?_, hentry.branchfree,
    hstore.branchfree, hpieces⟩
  rw [Cell.finals_append, Cell.finals_append, Cell.finals_append, hentry.finals_eq, heq,
    hstore.finals_eq, straight_fallThrough.finals_eq]
  rfl

/-- **Branches that skip nothing go to the end of the cells.** -/
theorem Honest.leaves (h : Honest cells) (hreaches : ∀ n ∈ Cell.notes 0 cells,
      n.kind.reaches ((cells.length : Int) - n.site) = true)
    {k : Nat} {w : Word} {kind : BranchKind}
    (hw : (Cell.finals cells.length 0 cells)[k]? = some w)
    (hkind : BranchKind.ofWord? w = some kind) (hne : kind ≠ .cond) :
    (k : Int) + kind.distance w = cells.length := by
  rw [Cell.finals, List.getElem?_mapIdx, Nat.zero_add] at hw
  obtain ⟨c, hc, rfl⟩ := Option.map_eq_some_iff.mp hw
  rw [Cell.ofWord?_final _ _ fun w hw => h w (hw ▸ List.mem_of_getElem? hc)] at hkind
  -- the cell at the place is a branch to the epilogue, so it has a note and is in reach
  obtain ⟨op, hop, rfl⟩ := Cell.leave?_of_kind? hkind hne
  have hnote := hreaches _ (Cell.mem_notes.mpr ⟨k, c, op, hc, hop, rfl⟩)
  rw [Nat.zero_add] at hnote
  exact Cell.distance_final hop hnote

/-! ## Blocks -/

/-- **A block is compiled** to its body and the epilogue. -/
theorem yields_lowerBlock {helper : UInt64} (hb : b.InRange) (hfits : ∀ i ∈ b.insts, i.fits = true)
    (hrange : InBranchRange helper s b) :
    Yields (lowerBlock helper b) (initial s b) fun compiled st =>
      st.asm.pending = 0 ∧ st.exits = #[] ∧
      compiled.lowered = (Effective b.insts).map (fun i => (i.op, isNative i)) ∧
      ∃ cells, Body b cells ∧
        (∀ n ∈ Cell.notes 0 cells, n.kind.reaches ((cells.length : Int) - n.site) = true) ∧
        compiled.code = (Cell.finals cells.length 0 cells ++ epilogue.map Instr.encode).flatMap
          Word.littleEndian := by
  obtain ⟨lowered, st, hrun, -, hlowered, cells, hbody, hext⟩ := yields_lowerBody (s := s) hb hfits
  have hposition : st.asm.position = cells.length := hext.position.trans (Nat.zero_add _)
  have hexits : st.exits = (Cell.notes 0 cells).toArray := Array.toList_inj.mp hext.exits
  -- the exits are the notes of the cells, and the next word is the one after the cells
  have hreaches : ∀ n ∈ Cell.notes 0 cells,
      n.kind.reaches ((st.asm.position : Int) - n.site) = true := fun n hn =>
    hrange lowered st hrun n (by rw [hexits]; exact List.mem_toArray.mpr hn)
  obtain ⟨asm, hresolve, hpending, hwords⟩ := Assembler.resolveAll_notes []
    hext.words hreaches (hext.pending.trans (Nat.zero_add _))
  rw [List.length_nil, ← hexits] at hresolve
  have hfinish : (asm.append (epilogue.map Instr.encode)).finish = .ok
      ((asm.words.toList ++ epilogue.map Instr.encode).flatMap Word.littleEndian) := by
    unfold Assembler.finish
    rw [Assembler.append_pending, if_pos hpending, Assembler.append_words]
  rw [lowerBlock_eq]
  refine yields_bind ⟨lowered, st, hrun, ?_⟩
  -- the epilogue follows, and the code is taken
  refine yields_bind (yields_get (yields_lift hresolve ⟨(), _, rfl, ?_⟩))
  refine yields_bind (yields_get (yields_lift (Assembler.pushAll_plain allPlain_epilogue)
    ⟨(), _, rfl, ?_⟩))
  refine yields_get (yields_lift hfinish
    (yields_pure ⟨hpending, rfl, hlowered, cells, hbody, ?_, ?_⟩))
  · rwa [hposition] at hreaches
  · rw [hwords, hposition]
    rfl

/-- What is lowered is lowered natively or as a call. -/
theorem nativeOps_add_helperOps (c : Compiled) :
    c.nativeOps + c.helperOps = c.lowered.length := by
  have hlength := List.length_eq_countP_add_countP (fun x : Opcode × Bool => x.2) (l := c.lowered)
  simp only [Bool.not_eq_true, Bool.decide_eq_false] at hlength
  exact hlength.symm

/-- **Branches land where they should, and no instruction is left out.** Wherever the interpreter
is, compiling a block whose constants are in the pool, whose fields name registers of their own
class and whose branches are in reach succeeds with no branch left open. The code is the pieces of
its instructions, with straight code before and after, and the epilogue. Each instruction has the
branches of its kind and no others; one that skips an exit goes to the word after that exit, and all
others, of exits and of calls that have faulted, go to the first word of the epilogue, which
restores two vector registers, right behind the word that sets the result to zero. -/
theorem branches_land (helper : UInt64) (s : Settings) {b : Block} (hb : b.InRange)
    (hfits : ∀ i ∈ b.insts, i.fits = true) (hrange : InBranchRange helper s b) :
    ∃ compiled st, lowerBlock helper b (initial s b) = .ok (compiled, st) ∧
      compile helper s b = .ok compiled ∧
      st.asm.pending = 0 ∧ st.exits = #[] ∧
      compiled.nativeOps + compiled.helperOps = b.insts.countP (fun i => i.op ≠ .nop) ∧
      ∃ pieces : Pieces, pieces.Lands b ∧
        compiled.code = pieces.words.flatMap Word.littleEndian := by
  obtain ⟨compiled, st, hrun, hpending, hexits, hlowered, cells, hbody, hreaches, hcode⟩ :=
    yields_lowerBlock hb hfits hrange
  obtain ⟨p, hp, hentry, hstore, hsegments⟩ := hbody.exists_pieces cells.length
  have hlength : p.body.length = cells.length := by rw [hp, Cell.length_finals]
  refine ⟨compiled, st, hrun, ?_, hpending, hexits, ?_, p,
    ⟨hentry, hstore, hsegments, List.getLast?_concat, ?_, ?_⟩, ?_⟩
  · exact congrArg (Prod.fst <$> ·) hrun
  · rw [nativeOps_add_helperOps, hlowered, List.length_map, Effective,
      ← List.countP_eq_length_filter]
  · rw [Pieces.words, List.getElem?_append_right (Nat.le_refl _), Nat.sub_self]
    decide
  · intro k w kind hw hkind hne
    rw [Pieces.words] at hw
    rcases Nat.lt_or_ge k p.body.length with hk | hk
    · rw [List.getElem?_append_left hk, hp] at hw
      rw [hlength]
      exact hbody.honest.leaves hreaches hw hkind hne
    · -- the epilogue has no branches
      rw [List.getElem?_append_right hk] at hw
      obtain ⟨i, hi, rfl⟩ := List.mem_map.mp (List.mem_of_getElem? hw)
      rw [Instr.ofWord?_of_isPlain (allPlain_iff.mp allPlain_epilogue i hi)] at hkind
      exact nomatch hkind
  · rw [hcode, Pieces.words, hp]

/-- A block with an exit, an instruction that is left out, and a call. -/
theorem branches_land_exit_and_call :
    let helper : UInt64 := 0x555555554000
    let s : Settings := { target := .aarch64, pipeline := {}, useStatics := false }
    let b : Block := { insts := [⟨.exitToConst, 0, 0, 0⟩, ⟨.nop, 0, 0, 0⟩, ⟨.div, 0, 2, 3⟩],
                       pool := ⟨[64]⟩ }
    b.InRange ∧ (∀ i ∈ b.insts, i.fits = true) ∧ InBranchRange helper s b ∧
      ∃ compiled, compile helper s b = .ok compiled ∧ compiled.nativeOps + compiled.helperOps = 2 ∧
        ∃ pieces : Pieces, pieces.Lands b ∧
          compiled.code = pieces.words.flatMap Word.littleEndian := by
  intro helper s b
  have hb : b.InRange := by
    intro i hi k hk
    simp only [b, List.mem_cons, List.not_mem_nil, or_false] at hi
    obtain rfl | rfl | rfl := hi <;> cases hk
    decide
  have hfits : ∀ i ∈ b.insts, i.fits = true := by decide
  have hquiet : ∀ i ∈ b.insts, Quiet i := by
    intro i hi
    simp only [b, List.mem_cons, List.not_mem_nil, or_false] at hi
    obtain rfl | rfl | rfl := hi
    · exact Or.inr (Or.inl rfl)
    · exact Or.inl rfl
    · exact Or.inr (Or.inr rfl)
  have hrange : InBranchRange helper s b :=
    inBranchRange_of_quiet helper hb hfits rfl hquiet (by decide)
  obtain ⟨compiled, st, -, hcompile, -, -, hops, hpieces⟩ := branches_land helper s hb hfits hrange
  exact ⟨hb, hfits, hrange, compiled, hcompile, hops, hpieces⟩

end

end Dynarec.Aarch64
