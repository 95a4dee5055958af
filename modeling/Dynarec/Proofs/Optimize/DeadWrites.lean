/-
Removal of dead writes keeps what a guest can observe.

A write may go when the register is not read again before its next write and, unless it is a
temporary, no exit is met before that: `Unread`. The walk finds the writes whose question the
instructions ahead answer with "dead" (`mem_deadPositions_iff`), and only such writes are among
them: what the instructions up to the overwrite have not answered with "live" they have not read
(`idle_of_mem_deadPositions`).

One round deletes all the writes found at once. The two runs are then followed side by side: before
each instruction the machines agree except in the registers that are `Unread` from there on. An
instruction that is kept reads none of them. An instruction that is deleted writes one register,
which is `Unread` behind it. At an exit and at the end only temporaries are left (`run_blank`).

Rounds compose, since each compares two runs from the same machine, and the sweep at the end removes
what is never executed.
-/
import Dynarec.Optimize.DeadWrites
import Dynarec.Proofs.Guest.Observed

set_option autoImplicit false
set_option maxRecDepth 2048

namespace Dynarec.Optimize.DeadWrites

open Guest

variable {i : Inst} {r : UInt8} {rest insts : List Inst} {q : Question} {w : Walk} {pos x : Nat}
  {dead : List Nat} {m m' n : Machine} {t : Option Word} {c : Word}

/-! ## Registers that are not read again -/

/-- The instructions do not need the word in `r`, nor do they show it to anybody. -/
def Unread (r : UInt8) : List Inst → Prop
  | [] => Slot.isTemp r.toNat = true
  | i :: rest => i.readsGpr r = false ∧ (i.isExit = true → Slot.isTemp r.toNat = true)
      ∧ (i.destGpr = some r ∨ Unread r rest)

/-- A write of `r` that can be left out in front of `rest`. -/
structure Idle (i : Inst) (r : UInt8) (rest : List Inst) : Prop where
  dest : i.destGpr = some r
  nonzero : r ≠ 0
  quiet : hasSideEffects i = false
  unread : Unread r rest

/-- Exits observe exactly the registers that are no temporaries. -/
def Question.Fair (q : Question) : Prop := q.observed = !Slot.isTemp q.reg.toNat

theorem unread_of_dead (h : answer i q = .dead) : Unread q.reg (i :: rest) := by
  unfold answer at h
  split at h
  · exact nomatch h
  · rename_i hread
    split at h
    · split at h <;> exact nomatch h
    · rename_i hshown
      split at h
      · exact nomatch h
      · split at h
        · rename_i hdest
          refine ⟨by simpa using hread, fun hexit => ?_, Or.inl hdest⟩
          have htemp : i.isBarrier = false ∧ Slot.isTemp q.reg.toNat = true := by
            simpa [hexit] using hshown
          exact htemp.2
        · exact nomatch h

theorem unread_of_unanswered (hq : q.Fair) (h : answer i q = .unanswered)
    (hrest : Unread q.reg rest) : Unread q.reg (i :: rest) := by
  unfold answer at h
  split at h
  · exact nomatch h
  · rename_i hread
    refine ⟨by simpa using hread, fun hexit => ?_, Or.inr hrest⟩
    split at h
    · split at h
      · exact nomatch h
      · -- the register is not observed, so that it is a temporary
        rename_i hhidden
        rw [Question.Fair] at hq
        simpa [hexit, hq] using hhidden
    · rename_i hshown
      have htemp : i.isBarrier = false ∧ Slot.isTemp q.reg.toNat = true := by
        simpa [hexit] using hshown
      exact htemp.2

theorem question?_fair (h : question? i pos = some q) : q.Fair := by
  unfold question? at h
  split at h
  · exact nomatch h
  · split at h
    · exact nomatch h
    · split at h
      · rename_i htemp
        split at h
        · exact nomatch h
        · cases h
          simp only [Question.Fair, htemp, Bool.not_true]
      · rename_i htemp
        split at h
        · cases h
          simp only [Question.Fair, Bool.eq_false_iff.mpr htemp, Bool.not_false]
        · exact nomatch h

theorem question?_pos (h : question? i pos = some q) : q.pos = pos := by
  unfold question? at h
  split at h
  · exact nomatch h
  · split at h
    · exact nomatch h
    · split at h
      · split at h <;> cases h
        rfl
      · split at h <;> cases h
        rfl

/-- A question is about the register that the instruction writes, and does nothing else to. -/
theorem question?_spec (h : question? i pos = some q) :
    i.destGpr = some q.reg ∧ q.reg ≠ 0 ∧ hasSideEffects i = false := by
  unfold question? at h
  split at h
  · exact nomatch h
  · rename_i reg hdest
    split at h
    · exact nomatch h
    · rename_i hquiet
      have hreg : q.reg = reg := by
        split at h
        · split at h <;> cases h
          rfl
        · split at h <;> cases h
          rfl
      rw [hdest, hreg]
      simpa using hquiet

/-- A question stands for a write that can be left out if the register is not read again. -/
theorem question?_idle (h : question? i pos = some q) (hrest : Unread q.reg rest) :
    Idle i q.reg rest := by
  obtain ⟨hdest, hnonzero, hquiet⟩ := question?_spec h
  exact ⟨hdest, hnonzero, hquiet, hrest⟩

/-! ## The walk finds the writes whose question is answered with "dead" -/

/-- The instructions ahead answer the question with "dead": the first that answers it overwrites the
register, or none answers it and nobody observes the register at the end. -/
def Doomed (q : Question) : List Inst → Prop
  | [] => q.observed = false
  | i :: rest => answer i q = .dead ∨ (answer i q = .unanswered ∧ Doomed q rest)

/-- The positions found dead when the walk ends here. -/
def Walk.found (w : Walk) : List Nat :=
  w.dead ++ (w.questions.filter fun q => !q.observed).map (·.pos)

theorem Walk.mem_dead_step : x ∈ (w.step pos i).dead ↔
    x ∈ w.dead ∨ ∃ q ∈ w.questions, q.pos = x ∧ answer i q = .dead := by
  simp only [Walk.step, List.mem_append, List.mem_map, List.mem_filter, decide_eq_true_eq]
  apply or_congr_right
  constructor
  · rintro ⟨q, ⟨hq, hdead⟩, hpos⟩
    exact ⟨q, hq, hpos, hdead⟩
  · rintro ⟨q, hq, hpos, hdead⟩
    exact ⟨q, ⟨hq, hdead⟩, hpos⟩

theorem Walk.mem_questions_step : q ∈ (w.step pos i).questions ↔
    (q ∈ w.questions ∧ answer i q = .unanswered) ∨ question? i pos = some q := by
  simp only [Walk.step, List.mem_append, List.mem_filter, decide_eq_true_eq, Option.mem_toList]

/-- A position is found dead when it has been found before, when it is that of an open question that
the instructions ahead answer with "dead", or when it lies ahead and the instructions behind it do.
The induction is on the instructions ahead. -/
theorem Walk.mem_found_iff : x ∈ (w.over pos insts).found ↔
    x ∈ w.dead ∨ (∃ q ∈ w.questions, q.pos = x ∧ Doomed q insts) ∨
      ∃ k i q, insts[k]? = some i ∧ question? i (pos + k) = some q ∧ q.pos = x
        ∧ Doomed q (insts.drop (k + 1)) := by
  induction insts generalizing w pos with
  | nil =>
    simp only [Walk.over, Walk.found, Doomed, List.mem_append, List.mem_map, List.mem_filter,
      List.getElem?_nil, reduceCtorEq, false_and, exists_false, or_false, Bool.not_eq_true']
    apply or_congr_right
    constructor
    · rintro ⟨q, ⟨hq, hhidden⟩, hpos⟩
      exact ⟨q, hq, hpos, hhidden⟩
    · rintro ⟨q, hq, hpos, hhidden⟩
      exact ⟨q, ⟨hq, hhidden⟩, hpos⟩
  | cons i rest ih =>
    rw [Walk.over, ih, Walk.mem_dead_step]
    constructor
    · rintro ((hdead | ⟨q, hq, hpos, hdead⟩) | ⟨q, hq, hpos, hrest⟩ | ⟨k, j, q, hj, hopen, hrest⟩)
      · exact Or.inl hdead
      · exact Or.inr (Or.inl ⟨q, hq, hpos, Or.inl hdead⟩)
      · rcases Walk.mem_questions_step.mp hq with ⟨hq, hopen⟩ | hopen
        · exact Or.inr (Or.inl ⟨q, hq, hpos, Or.inr ⟨hopen, hrest⟩⟩)
        · exact Or.inr (Or.inr ⟨0, i, q, rfl, hopen, hpos, hrest⟩)
      · refine Or.inr (Or.inr ⟨k + 1, j, q, hj, ?_, hrest⟩)
        rwa [Nat.add_assoc, Nat.add_comm 1 k] at hopen
    · rintro (hdead | ⟨q, hq, hpos, hdead | ⟨hopen, hrest⟩⟩ | ⟨k, j, q, hj, hopen, hpos, hrest⟩)
      · exact Or.inl (Or.inl hdead)
      · exact Or.inl (Or.inr ⟨q, hq, hpos, hdead⟩)
      · exact Or.inr (Or.inl ⟨q, Walk.mem_questions_step.mpr (Or.inl ⟨hq, hopen⟩), hpos, hrest⟩)
      · cases k with
        | zero =>
          obtain rfl : i = j := Option.some.inj hj
          exact Or.inr (Or.inl ⟨q, Walk.mem_questions_step.mpr (Or.inr hopen), hpos, hrest⟩)
        | succ k =>
          refine Or.inr (Or.inr ⟨k, j, q, hj, ?_, hpos, hrest⟩)
          rwa [Nat.add_assoc, Nat.add_comm 1 k]

/-- The positions found dead are those of the writes whose question the instructions behind them
answer with "dead". -/
theorem mem_deadPositions_iff : x ∈ deadPositions insts ↔
    ∃ i q, insts[x]? = some i ∧ question? i x = some q ∧ Doomed q (insts.drop (x + 1)) := by
  have hfound : x ∈ deadPositions insts ↔ x ∈ (Walk.over {} 0 insts).found := Iff.rfl
  rw [hfound, Walk.mem_found_iff]
  simp only [List.not_mem_nil, false_and, exists_false, false_or, Nat.zero_add]
  constructor
  · rintro ⟨k, i, q, hi, hopen, hpos, hrest⟩
    obtain rfl : k = x := (question?_pos hopen).symm.trans hpos
    exact ⟨i, q, hi, hopen, hrest⟩
  · rintro ⟨i, q, hi, hopen, hrest⟩
    exact ⟨x, i, q, hi, hopen, question?_pos hopen, hrest⟩

/-- What is answered with "dead" is not read again. -/
theorem Doomed.unread (hq : q.Fair) (h : Doomed q insts) : Unread q.reg insts := by
  induction insts with
  | nil =>
    rw [Question.Fair, h] at hq
    simpa [Unread] using hq.symm
  | cons i rest ih =>
    rcases h with hdead | ⟨hopen, hrest⟩
    · exact unread_of_dead hdead
    · exact unread_of_unanswered hq hopen (ih hrest)

/-- **Every write found dead can be left out.** -/
theorem idle_of_mem_deadPositions (hx : x ∈ deadPositions insts) (hi : insts[x]? = some i) :
    ∃ r, Idle i r (insts.drop (x + 1)) := by
  obtain ⟨j, q, hj, hopen, hrest⟩ := mem_deadPositions_iff.mp hx
  obtain rfl : i = j := Option.some.inj (hi.symm.trans hj)
  exact ⟨q.reg, question?_idle hopen (hrest.unread (question?_fair hopen))⟩

/-! ## Two runs side by side -/

/-- A slot whose word the instructions do not need. -/
def Stale (insts : List Inst) (k : Slot) : Prop := ∃ r : UInt8, r.toNat = k ∧ r ≠ 0 ∧ Unread r insts

theorem not_stale_zero (insts : List Inst) : ¬Stale insts 0 := by
  rintro ⟨r, hr, hnonzero, -⟩
  exact hnonzero (UInt8.toNat_inj.mp hr)

theorem Stale.not_read {k : Slot} (h : Stale (i :: rest) k) : k ∉ i.readSlots := by
  obtain ⟨r, rfl, -, hread, -, -⟩ := h
  intro hk
  have hcontains : i.readsGpr r = true := List.contains_iff_mem.mpr hk
  rw [hread] at hcontains
  exact nomatch hcontains

theorem destGpr_mem_writeSlots (h : i.destGpr = some r) : r.toNat ∈ i.writeSlots := by
  simp only [Inst.destGpr] at h
  split at h
  · rename_i hs
    cases h
    refine List.mem_append_left _ ?_
    rw [if_neg hs.2, hs.1]
    exact List.mem_singleton.mpr rfl
  · exact nomatch h

/-- What is not needed from an instruction on is overwritten by it or not needed behind it. -/
theorem Stale.tail {k : Slot} (h : Stale (i :: rest) k) : k ∈ i.writeSlots ∨ Stale rest k := by
  obtain ⟨r, rfl, hnonzero, -, -, hdest | hrest⟩ := h
  · exact Or.inl (destGpr_mem_writeSlots hdest)
  · exact Or.inr ⟨r, rfl, hnonzero, hrest⟩

theorem Stale.isTemp_of_exit {k : Slot} (h : Stale (i :: rest) k) (hexit : i.isExit = true) :
    Slot.isTemp k = true := by
  obtain ⟨r, rfl, -, -, htemp, -⟩ := h
  exact htemp hexit

theorem Stale.isTemp_of_end {k : Slot} (h : Stale [] k) : Slot.isTemp k = true := by
  obtain ⟨r, rfl, -, htemp⟩ := h
  exact htemp

/-- Of the opcodes with an integer destination only those with other effects change a control word
or the memory. -/
theorem quiet_op (op : Opcode) (hdest : op.signature.dest = .gpr) (hrole : op.signature.role ≠ .source)
    (hop : op ≠ .store32Conditional) : op.signature.isExit = false ∧ op.isStore = false
      ∧ op ≠ .setPC ∧ op ≠ .setPCConst ∧ op ≠ .downcount ∧ op ≠ .syscall := by
  revert hdest hrole hop
  cases op <;> decide

/-- A write that can be left out does nothing but write its register. -/
theorem Idle.step (h : Idle i r rest) (hm : step i c m = (.ok t, m')) :
    t = none ∧ AgreeBut (· = r.toNat) m' m := by
  obtain ⟨⟨⟨hop, -⟩, himplicit⟩, hdest⟩ : ((i.op ≠ .store32Conditional ∧ i.op ≠ .load32Linked)
      ∧ i.op.signature.implicitWrites = []) ∧ i.destGpr = some r := by
    simpa [hasSideEffects] using And.intro h.quiet h.dest
  simp only [Inst.destGpr, Option.ite_none_right_eq_some, Option.some.injEq] at hdest
  obtain ⟨⟨hkind, hrole⟩, rfl⟩ := hdest
  have hwrites : i.writeSlots = [i.dest.toNat] := by
    simp only [Inst.writeSlots, if_neg hrole, hkind, himplicit, List.append_nil]
    rfl
  obtain ⟨hexit, hstore, hpc, hpcConst, hdown, hsyscall⟩ := quiet_op i.op hkind hrole hop
  have hframe := step_frame hm
  refine ⟨step_exit hexit hm, fun k hk => hframe.slot k ?_, hframe.pc hpc hpcConst,
    hframe.downcount hdown, hframe.syscall hsyscall, hframe.memory hstore⟩
  rw [hwrites, List.mem_singleton]
  exact hk

/-- The machines agree on everything that the instructions ahead need. -/
abbrev Tracks (insts : List Inst) : Machine → Machine → Prop := AgreeBut (Stale insts)

/-- A placeholder needs nothing and overwrites nothing. -/
theorem tracks_nop (hnop : i.op = .nop) (h : Tracks (i :: rest) m n) : Tracks rest m n := by
  refine h.mono fun k hk => hk.tail.resolve_left ?_
  obtain ⟨op, dest, src1, src2⟩ := i
  cases hnop
  exact List.not_mem_nil

/-- An instruction that is kept. -/
theorem tracks_kept (h : Tracks (i :: rest) m n) (hm : step i c m = (.ok t, m')) :
    ∃ n', step i c n = (.ok t, n') ∧ (t = none → Tracks rest m' n') ∧ (t ≠ none → Alike m' n') := by
  obtain ⟨n', hn, hagree⟩ :=
    h.step (not_stale_zero _) (fun k hk hstale => hstale.not_read hk) hm
  refine ⟨n', hn, fun _ => ?_, fun ht => ?_⟩
  · exact hagree.mono fun k hk => hk.1.tail.resolve_left hk.2
  · have hexit : i.isExit = true := by
      by_contra hno
      exact ht (step_exit (Bool.eq_false_iff.mpr hno) hm)
    exact hagree.mono fun k hk => hk.1.isTemp_of_exit hexit

/-- An instruction that only the first machine executes. -/
theorem tracks_deleted (hidle : Idle i r rest) (h : Tracks (i :: rest) m n)
    (hm : step i c m = (.ok t, m')) : t = none ∧ Tracks rest m' n := by
  obtain ⟨ht, honly⟩ := hidle.step hm
  have hstale : Stale rest r.toNat := ⟨r, rfl, hidle.nonzero, hidle.unread⟩
  refine ⟨ht, ?_⟩
  have hbefore : AgreeBut (fun k => Stale rest k ∨ k = r.toNat) m n := by
    refine h.mono fun k hk => ?_
    obtain ⟨s, rfl, hnonzero, -, -, hdest | hrest⟩ := hk
    · rw [hidle.dest] at hdest
      cases hdest
      exact Or.inr rfl
    · exact Or.inl ⟨s, rfl, hnonzero, hrest⟩
  have hafter : AgreeBut (fun k => Stale rest k ∨ k = r.toNat) m' n :=
    (honly.mono fun k hk => Or.inr hk).trans hbefore
  exact hafter.mono fun k hk => hk.elim id fun hr => hr ▸ hstale

/-! ## One round -/

/-- The instructions that start at position `pos`, with placeholders at the given positions. -/
def blankFrom (dead : List Nat) (pos : Nat) (insts : List Inst) : List Inst :=
  (insts.zipIdx pos).map fun (i, pos) => if dead.contains pos then Inst.nop else i

theorem blankFrom_cons (dead : List Nat) (pos : Nat) (i : Inst) (rest : List Inst) :
    blankFrom dead pos (i :: rest)
      = (if dead.contains pos then Inst.nop else i) :: blankFrom dead (pos + 1) rest := rfl

/-- **Placeholders in the place of writes that can be left out.** The induction is on the
instructions; `hdead` says of the positions that remain what the walk found out about them. -/
theorem run_blank (p : Pool)
    (hdead : ∀ k i, insts[k]? = some i → pos + k ∈ dead → ∃ r, Idle i r (insts.drop (k + 1)))
    (h : Tracks insts m n) (hm : runCode (p.resolve (sweep insts)) m = (.ok t, m')) :
    ∃ n', runCode (p.resolve (sweep (blankFrom dead pos insts))) n = (.ok t, n') ∧ Alike m' n' := by
  induction insts generalizing pos m n with
  | nil =>
    cases hm
    exact ⟨n, rfl, h.mono fun k hk => hk.isTemp_of_end⟩
  | cons i rest ih =>
    have hrest : ∀ k j, rest[k]? = some j → pos + 1 + k ∈ dead →
        ∃ r, Idle j r (rest.drop (k + 1)) := by
      intro k j hj hk
      refine hdead (k + 1) j hj ?_
      rwa [Nat.add_assoc, Nat.add_comm 1 k] at hk
    rw [blankFrom_cons]
    by_cases hnop : i.op = .nop
    · -- a placeholder from an earlier round stays one
      have hkeep : sweep ((if dead.contains pos then Inst.nop else i) :: blankFrom dead (pos + 1) rest)
          = sweep (blankFrom dead (pos + 1) rest) := by
        refine sweep_cons_nop ?_ _
        split
        · rfl
        · exact hnop
      rw [sweep_cons_nop hnop] at hm
      rw [hkeep]
      exact ih hrest (tracks_nop hnop h) hm
    · rw [sweep_cons hnop] at hm
      obtain ⟨m₁, hstep, hrun⟩ | ⟨ht, hstep⟩ := Outcome.andThen_eq_ok hm
      · by_cases hpos : pos ∈ dead
        · obtain ⟨r, hidle⟩ := hdead 0 i rfl hpos
          rw [if_pos (List.contains_iff_mem.mpr hpos), sweep_cons_nop rfl]
          exact ih hrest (tracks_deleted hidle h hstep).2 hrun
        · obtain ⟨n₁, hn, hnext, -⟩ := tracks_kept h hstep
          obtain ⟨n', hn', halike⟩ := ih hrest (hnext rfl) hrun
          rw [if_neg (fun hc => hpos (List.contains_iff_mem.mp hc)), sweep_cons hnop]
          refine ⟨n', ?_, halike⟩
          show Outcome.andThen (step i (p.constant i) n) _ = _
          rw [hn]
          exact hn'
      · -- the block is left here, so that this instruction is kept
        have hpos : pos ∉ dead := by
          intro hpos
          obtain ⟨r, hidle⟩ := hdead 0 i rfl hpos
          exact ht (tracks_deleted hidle h hstep).1
        obtain ⟨n', hn, -, halike⟩ := tracks_kept h hstep
        obtain ⟨u, rfl⟩ := Option.ne_none_iff_exists'.mp ht
        rw [if_neg (fun hc => hpos (List.contains_iff_mem.mp hc)), sweep_cons hnop]
        refine ⟨n', ?_, halike ht⟩
        show Outcome.andThen (step i (p.constant i) n) _ = _
        rw [hn]
        rfl

/-! ## All rounds -/

/-- Rounds compose: each compares runs from the same machine. -/
theorem run_settle (p : Pool) (rounds : Nat)
    (hm : runCode (p.resolve (sweep insts)) m = (.ok t, m')) :
    ∃ n', runCode (p.resolve (sweep (settle rounds insts))) m = (.ok t, n') ∧ Alike m' n' := by
  induction rounds generalizing insts m' with
  | zero => exact ⟨m', hm, AgreeBut.refl _ m'⟩
  | succ rounds ih =>
    rw [settle]
    split
    · exact ⟨m', hm, AgreeBut.refl _ m'⟩
    · have hdead : ∀ k i, insts[k]? = some i → 0 + k ∈ deadPositions insts →
          ∃ r, Idle i r (insts.drop (k + 1)) := by
        intro k i hi hk
        rw [Nat.zero_add] at hk
        exact idle_of_mem_deadPositions hk hi
      obtain ⟨n₁, hn₁, h₁⟩ := run_blank p hdead (AgreeBut.refl _ m) hm
      obtain ⟨n', hn', h'⟩ := ih hn₁
      exact ⟨n', hn', h₁.trans h'⟩

theorem mem_blank (h : i ∈ blank dead insts) : i.op = .nop ∨ i ∈ insts := by
  obtain ⟨⟨j, k⟩, hj, rfl⟩ := List.mem_map.mp h
  dsimp only
  split
  · exact Or.inl rfl
  · exact Or.inr (List.fst_mem_of_mem_zipIdx hj)

/-- Nothing but placeholders is new. -/
theorem mem_settle (rounds : Nat) (h : i ∈ settle rounds insts) : i.op = .nop ∨ i ∈ insts := by
  induction rounds generalizing insts with
  | zero => exact Or.inr h
  | succ rounds ih =>
    rw [settle] at h
    split at h
    · exact Or.inr h
    · rcases ih h with hnop | hblank
      · exact Or.inl hnop
      · exact mem_blank hblank

/-- The instructions that are left come from the block. -/
theorem mem_of_mem_sweep_placeholders (h : i ∈ sweep (placeholders insts)) : i ∈ insts := by
  obtain ⟨hi, hop⟩ := mem_of_mem_sweep h
  exact (mem_settle _ hi).resolve_left hop

/-! ## The pass -/

variable {b : Block}

theorem run_eq (b : Block) : run b = Block.appendAll {} b (sweep (placeholders b.insts)) := rfl

/-- The pass succeeds, and its output runs as the block does without its placeholders, up to
temporaries. -/
theorem run_alike (hb : b.InRange) : ∃ b', run b = .ok b' ∧ b'.Tidy ∧
    ∀ m t m', runCode (b.pool.resolve (sweep b.insts)) m = (.ok t, m') →
      ∃ n', runBlock b' m = (.ok t, n') ∧ Alike m' n' := by
  have hrange : ∀ i ∈ sweep (placeholders b.insts), ∀ k, i.constantIndex = some k →
      k.toNat < b.pool.size := fun i hi => hb i (mem_of_mem_sweep_placeholders hi)
  have hdrawn : b.pool.Drawn {} := ⟨List.nodup_nil, fun v hv => absurd hv List.not_mem_nil⟩
  obtain ⟨b', hb'⟩ : ∃ b', Block.appendAll {} b (sweep (placeholders b.insts)) = .ok b' :=
    Block.appendAll_ok _ hdrawn hrange
  have hemit := Block.emits_appendAll _ Block.tidy_empty hrange hb'
  refine ⟨b', (run_eq b).trans hb', hemit.tidy, fun m t m' hm => ?_⟩
  obtain ⟨n', hn', halike⟩ := run_settle b.pool (b.insts.length + 1) hm
  exact ⟨n', (hemit.run m).trans hn', halike⟩

/-- **Removal of dead writes keeps everything that a guest can observe.** On a block with in-range
positions it succeeds, and from every machine from which the block ends without a fault its output
ends in the same way, with the same memory, program counter, downcount and system call number and
the same word in every slot that is not a temporary. -/
theorem run_keeps_observed (b : Block) (hb : b.InRange) : ∃ b', run b = .ok b' ∧
    ∀ m t m', runBlock b m = (.ok t, m') →
      ∃ n', runBlock b' m = (.ok t, n') ∧ n'.memory = m'.memory ∧ n'.state.pc = m'.state.pc
        ∧ n'.state.downcount = m'.state.downcount ∧ n'.state.syscall = m'.state.syscall
        ∧ ∀ k, Slot.isTemp k = false → n'.state.slot k = m'.state.slot k := by
  obtain ⟨b', hb', -, hrun⟩ := run_alike hb
  refine ⟨b', hb', fun m t m' hm => ?_⟩
  rw [runBlock_eq_runCode hb] at hm
  obtain ⟨n', hn', halike⟩ := hrun m t m' (runCode_sweep b.pool b.insts hm)
  refine ⟨n', hn', halike.memory.symm, halike.pc.symm, halike.downcount.symm, halike.syscall.symm,
    fun k hk => (halike.slot k ?_).symm⟩
  rw [hk]
  exact Bool.false_ne_true

/-- A chain of two temporaries goes in two rounds. The write of register 5 stays although it is
overwritten before it is read, because the block can be left in between. -/
theorem run_keeps_observed_chain :
    let b : Block := ⟨[⟨.setConst, 224, 0, 0⟩, ⟨.addConst, 225, 224, 1⟩, ⟨.setConst, 5, 1, 0⟩,
      ⟨.exitToConstIfEq, 2, 4, 6⟩, ⟨.setConst, 5, 0, 0⟩, ⟨.exitToConst, 2, 0, 0⟩], ⟨[7, 9, 64]⟩⟩
    let b' : Block := ⟨[⟨.setConst, 5, 0, 0⟩, ⟨.exitToConstIfEq, 1, 4, 6⟩, ⟨.setConst, 5, 2, 0⟩,
      ⟨.exitToConst, 1, 0, 0⟩], ⟨[9, 64, 7]⟩⟩
    let m : Machine := ⟨{}, Memory.zeroed 0⟩
    b.InRange ∧ run b = .ok b' ∧ (runBlock b m).1 = .ok (some 64)
      ∧ ∃ n, runBlock b' m = (.ok (some 64), n)
        ∧ ∀ k, Slot.isTemp k = false → n.state.slot k = (runBlock b m).2.state.slot k := by
  intro b b' m
  have hrange : b.InRange := by decide
  have hrun : run b = .ok b' := by decide
  have hend : (runBlock b m).1 = .ok (some 64) := by decide
  have hpair : runBlock b m = (.ok (some 64), (runBlock b m).2) := by rw [← hend]
  obtain ⟨b'', hrun', hkeeps⟩ := run_keeps_observed b hrange
  cases hrun.symm.trans hrun'
  obtain ⟨n, hn, -, -, -, -, hslot⟩ := hkeeps m _ _ hpair
  exact ⟨hrange, hrun, hend, n, hn, hslot⟩

end Dynarec.Optimize.DeadWrites
