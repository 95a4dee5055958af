/-
Removal of dead writes comes to an end.

A round that finds something turns writes into placeholders, and a placeholder writes nothing, so
that it is not found again: the number of placeholders grows with every round, and there are at most
as many rounds as instructions. `Rounds` is the loop itself, without a bound on its length, and
`rounds_settle` says that the bound of `placeholders` is never what ends it.

When nothing more is found, every write of a temporary is read before it is overwritten. This stays
so when the placeholders are swept out and the constants get other positions: a placeholder leaves
every question open, and the answer of an instruction does not depend on where its constant is kept
(`settled_sweep`, `settled_resembles`). A run over the output therefore stops before its first round
and copies a block whose pool is in order of first use already.
-/
import Dynarec.Proofs.Optimize.CanonicalPools
import Dynarec.Proofs.Optimize.Pipelines

set_option autoImplicit false

namespace Dynarec.Optimize.DeadWrites

open Guest

variable {i j : Inst} {r : UInt8} {rest insts insts' out : List Inst} {q : Question} {pos x : Nat}
  {dead : List Nat}

/-! ## A round that finds something leaves more placeholders -/

/-- The number of placeholders. -/
def placeholderCount (insts : List Inst) : Nat := insts.countP fun i => i.op = .nop

theorem placeholderCount_le (insts : List Inst) : placeholderCount insts ≤ insts.length :=
  List.countP_le_length

theorem placeholderCount_cons (i : Inst) (rest : List Inst) :
    placeholderCount (i :: rest) = placeholderCount rest + if i.op = .nop then 1 else 0 := by
  simp only [placeholderCount, List.countP_cons, decide_eq_true_eq]

/-- An instruction that is a placeholder stays one when it is blanked or left alone. -/
theorem weight_le_blanked (c : Bool) (i : Inst) :
    (if i.op = .nop then 1 else 0) ≤
      if (if c = true then Inst.nop else i).op = .nop then 1 else 0 := by
  cases c with
  | false => simp
  | true =>
    have hplaceholder : Inst.nop.op = .nop := by rfl
    simp only [if_true, hplaceholder]
    split <;> omega

/-- Placeholders stay placeholders. -/
theorem placeholderCount_blankFrom (dead : List Nat) (pos : Nat) (insts : List Inst) :
    placeholderCount insts ≤ placeholderCount (blankFrom dead pos insts) := by
  induction insts generalizing pos with
  | nil => simp [blankFrom]
  | cons i rest ih =>
    have hrest := ih (pos + 1)
    have hfirst := weight_le_blanked (dead.contains pos) i
    rw [blankFrom_cons, placeholderCount_cons, placeholderCount_cons]
    omega

/-- An instruction that becomes a placeholder adds one. -/
theorem placeholderCount_lt_blankFrom {k : Nat} (hi : insts[k]? = some i) (hop : i.op ≠ .nop)
    (hdead : pos + k ∈ dead) :
    placeholderCount insts < placeholderCount (blankFrom dead pos insts) := by
  induction insts generalizing pos k with
  | nil => simp at hi
  | cons j rest ih =>
    rw [blankFrom_cons, placeholderCount_cons, placeholderCount_cons]
    cases k with
    | zero =>
      obtain rfl : j = i := by simpa using hi
      have hcontains : dead.contains pos = true := by simpa using hdead
      have hrest := placeholderCount_blankFrom dead (pos + 1) rest
      simp only [hcontains, if_true, Inst.nop, hop, if_false]
      omega
    | succ k =>
      have hnext : pos + 1 + k ∈ dead := by rwa [Nat.add_assoc, Nat.add_comm 1 k]
      have hrest := ih hi hnext
      have hfirst := weight_le_blanked (dead.contains pos) j
      omega

theorem op_ne_nop_of_destGpr (h : i.destGpr = some r) : i.op ≠ .nop := by
  intro hop
  simp [Inst.destGpr, hop, Opcode.signature] at h

/-- **A round that finds something leaves more placeholders.** -/
theorem placeholderCount_lt_blank (h : deadPositions insts ≠ []) :
    placeholderCount insts < placeholderCount (blank (deadPositions insts) insts) := by
  obtain ⟨x, hx⟩ := List.exists_mem_of_ne_nil _ h
  obtain ⟨i, q, hi, hopen, -⟩ := mem_deadPositions_iff.mp hx
  have hop : i.op ≠ .nop := op_ne_nop_of_destGpr (question?_spec hopen).1
  have hzero : 0 + x ∈ deadPositions insts := by rwa [Nat.zero_add]
  exact placeholderCount_lt_blankFrom hi hop hzero

theorem length_blank (dead : List Nat) (insts : List Inst) :
    (blank dead insts).length = insts.length := by
  simp [blank]

/-! ## The loop -/

/-- `Rounds n insts out`: starting from `insts`, the loop makes `n` rounds that find something, and
then one that does not, and leaves `out`. -/
inductive Rounds : Nat → List Inst → List Inst → Prop
  | stop {insts : List Inst} : deadPositions insts = [] → Rounds 0 insts insts
  | round {n : Nat} {insts out : List Inst} : deadPositions insts ≠ [] →
      Rounds n (blank (deadPositions insts) insts) out → Rounds (n + 1) insts out

theorem Rounds.deadPositions_eq_nil {n : Nat} (h : Rounds n insts out) : deadPositions out = [] := by
  induction h with
  | stop hnil => exact hnil
  | round _ _ ih => exact ih

/-- The bound on the walks is not what ends the loop, as long as it exceeds the number of
instructions that can still become placeholders. -/
theorem rounds_settle (fuel : Nat) (h : insts.length < fuel + placeholderCount insts) :
    ∃ n, n + placeholderCount insts ≤ insts.length ∧ Rounds n insts (settle fuel insts) := by
  induction fuel generalizing insts with
  | zero =>
    have hle := placeholderCount_le insts
    omega
  | succ fuel ih =>
    rw [settle]
    split
    · next hnil =>
      refine ⟨0, ?_, Rounds.stop hnil⟩
      rw [Nat.zero_add]
      exact placeholderCount_le insts
    · next hfound =>
      have hmore := placeholderCount_lt_blank hfound
      have hlength := length_blank (deadPositions insts) insts
      have hfuel : (blank (deadPositions insts) insts).length
          < fuel + placeholderCount (blank (deadPositions insts) insts) := by omega
      obtain ⟨n, hn, hrounds⟩ := ih hfuel
      refine ⟨n + 1, ?_, Rounds.round hfound hrounds⟩
      omega

/-- **The loop ends**, after at most as many rounds as there are instructions. -/
theorem rounds_placeholders (insts : List Inst) :
    ∃ n ≤ insts.length, Rounds n insts (placeholders insts) := by
  have hfuel : insts.length < insts.length + 1 + placeholderCount insts := by omega
  obtain ⟨n, hn, hrounds⟩ := rounds_settle (insts.length + 1) hfuel
  exact ⟨n, by omega, hrounds⟩

/-! ## Lists without dead writes -/

/-- No write in the list is answered with "dead" by the instructions behind it. The position that a
question is given is of no importance. -/
def Settled : List Inst → Prop
  | [] => True
  | i :: rest => (∀ pos q, question? i pos = some q → ¬Doomed q rest) ∧ Settled rest

theorem settled_iff : Settled insts ↔
    ∀ k i pos q, insts[k]? = some i → question? i pos = some q → ¬Doomed q (insts.drop (k + 1)) := by
  induction insts with
  | nil => simp [Settled]
  | cons i rest ih =>
    rw [Settled, ih]
    constructor
    · rintro ⟨hfirst, hrest⟩ k j pos q hj hopen
      cases k with
      | zero =>
        obtain rfl : i = j := by simpa using hj
        simpa using hfirst pos q hopen
      | succ k => simpa using hrest k j pos q hj hopen
    · intro h
      refine ⟨fun pos q hopen => ?_, fun k j pos q hj hopen => ?_⟩
      · simpa using h 0 i pos q rfl hopen
      · simpa using h (k + 1) j pos q hj hopen

/-- The answer to a question depends on what the question is about, not on where it was opened. -/
theorem doomed_congr {q' : Question} (hreg : q.reg = q'.reg) (hobserved : q.observed = q'.observed) :
    Doomed q rest ↔ Doomed q' rest := by
  induction rest with
  | nil => simp only [Doomed, hobserved]
  | cons i rest ih => simp only [Doomed, answer, hreg, hobserved, ih]

/-- Opened at another position, a question is about the same register. -/
theorem question?_moved (i : Inst) (pos x : Nat) :
    question? i x = (question? i pos).map fun q => { q with pos := x } := by
  unfold question?
  repeat' split
  all_goals rfl

/-- The walk finds nothing exactly if no write is dead. -/
theorem deadPositions_eq_nil_iff : deadPositions insts = [] ↔ Settled insts := by
  rw [settled_iff, List.eq_nil_iff_forall_not_mem]
  simp only [mem_deadPositions_iff]
  constructor
  · intro h k i pos q hi hopen hdoomed
    have hmoved : question? i k = some { q with pos := k } := by
      rw [question?_moved i pos k, hopen, Option.map_some]
    have hsame : Doomed q (insts.drop (k + 1)) ↔ Doomed { q with pos := k } (insts.drop (k + 1)) :=
      doomed_congr rfl rfl
    exact h k ⟨i, _, hi, hmoved, hsame.mp hdoomed⟩
  · rintro h k ⟨i, q, hi, hopen, hdoomed⟩
    exact h k i k q hi hopen hdoomed

/-! ## Sweeping and moving constants -/

/-- A placeholder leaves every question open. -/
theorem answer_nop (hop : i.op = .nop) (q : Question) : answer i q = .unanswered := by
  simp [answer, Inst.readsGpr, Inst.readsSlot, Inst.readSlots, Inst.isBarrier, Inst.isExit,
    Inst.destGpr, hop, Opcode.signature, OperandKind.slots]

theorem doomed_sweep (q : Question) (insts : List Inst) :
    Doomed q (sweep insts) ↔ Doomed q insts := by
  induction insts with
  | nil => rfl
  | cons i rest ih =>
    by_cases hop : i.op = .nop
    · rw [sweep_cons_nop hop, ih, Doomed, answer_nop hop]
      simp
    · rw [sweep_cons hop, Doomed, Doomed, ih]

theorem settled_sweep (h : Settled insts) : Settled (sweep insts) := by
  induction insts with
  | nil => exact h
  | cons i rest ih =>
    obtain ⟨hfirst, hrest⟩ := h
    by_cases hop : i.op = .nop
    · rw [sweep_cons_nop hop]
      exact ih hrest
    · rw [sweep_cons hop]
      refine ⟨fun pos q hopen hdoomed => ?_, ih hrest⟩
      exact hfirst pos q hopen ((doomed_sweep q rest).mp hdoomed)

/-- Where its constant is kept is nothing that the walk looks at. -/
theorem walk_setField {f : Field} (hf : i.op.constField? = some f) (k : UInt8) :
    (i.setField f k).destGpr = i.destGpr ∧ (∀ q, answer (i.setField f k) q = answer i q)
      ∧ ∀ pos, question? (i.setField f k) pos = question? i pos := by
  obtain ⟨op, dest, src1, src2⟩ := i
  cases op <;> cases hf <;> exact ⟨rfl, fun _ => rfl, fun _ => rfl⟩

theorem answer_resembles (h : Resembles i j) (q : Question) : answer j q = answer i q := by
  rcases h with rfl | ⟨f, k, hf, rfl⟩
  · rfl
  · exact (walk_setField hf k).2.1 q

theorem question?_resembles (h : Resembles i j) (pos : Nat) : question? j pos = question? i pos := by
  rcases h with rfl | ⟨f, k, hf, rfl⟩
  · rfl
  · exact (walk_setField hf k).2.2 pos

theorem doomed_resembles (h : List.Forall₂ Resembles insts insts') (q : Question) :
    Doomed q insts' ↔ Doomed q insts := by
  induction h with
  | nil => rfl
  | cons hij _ ih => rw [Doomed, Doomed, answer_resembles hij, ih]

theorem settled_resembles (h : List.Forall₂ Resembles insts insts') (hs : Settled insts) :
    Settled insts' := by
  induction h with
  | nil => exact hs
  | cons hij hrest ih =>
    obtain ⟨hfirst, hs⟩ := hs
    refine ⟨fun pos q hopen hdoomed => ?_, ih hs⟩
    rw [question?_resembles hij] at hopen
    exact hfirst pos q hopen ((doomed_resembles hrest q).mp hdoomed)

/-! ## Temporaries that are read -/

/-- The instructions read `r` before they overwrite it. An instruction that does both reads first.
-/
def ReadsFirst (r : UInt8) (insts : List Inst) : Prop :=
  ∃ before i after, insts = before ++ i :: after ∧ i.readsGpr r = true
    ∧ ∀ j ∈ before, j.destGpr ≠ some r

/-- A barrier is an exit, and has no register to write. -/
theorem isExit_of_isBarrier (h : i.isBarrier = true) : i.isExit = true ∧ i.destGpr = none := by
  obtain ⟨op, dest, src1, src2⟩ := i
  cases op <;> first | exact ⟨rfl, rfl⟩ | exact nomatch h

/-- The question about a temporary is answered by a read or an overwrite and by nothing else. -/
theorem answer_temp (htemp : Slot.isTemp q.reg.toNat = true) (hhidden : q.observed = false) :
    answer i q = if i.readsGpr q.reg = true then .live
      else if i.destGpr = some q.reg then .dead else .unanswered := by
  cases hbarrier : i.isBarrier with
  | false => simp [answer, htemp, hhidden, hbarrier]
  | true =>
    obtain ⟨hexit, hdest⟩ := isExit_of_isBarrier hbarrier
    simp [answer, hhidden, hbarrier, hexit, hdest]

theorem readsFirst_of_not_doomed (htemp : Slot.isTemp q.reg.toNat = true)
    (hhidden : q.observed = false) (h : ¬Doomed q insts) : ReadsFirst q.reg insts := by
  induction insts with
  | nil => exact absurd hhidden h
  | cons i rest ih =>
    rw [Doomed, answer_temp htemp hhidden] at h
    by_cases hread : i.readsGpr q.reg = true
    · exact ⟨[], i, rest, rfl, hread, by simp⟩
    · have hdest : i.destGpr ≠ some q.reg := by
        intro hdest
        simp [hread, hdest] at h
      have hrest : ¬Doomed q rest := by simpa [hread, hdest] using h
      obtain ⟨before, j, after, rfl, hj, hbefore⟩ := ih hrest
      refine ⟨i :: before, j, after, rfl, hj, ?_⟩
      intro k hk
      rcases List.mem_cons.mp hk with rfl | hk
      · exact hdest
      · exact hbefore k hk

/-- A write of a temporary that does nothing else opens a question. -/
theorem question?_temp (hdest : i.destGpr = some r) (htemp : Slot.isTemp r.toNat = true)
    (hquiet : hasSideEffects i = false) :
    question? i pos = some { reg := r, pos := pos, observed := false } := by
  have hnonzero : r ≠ 0 := by
    rintro rfl
    exact nomatch htemp
  have hbarrier : i.isBarrier = false := by
    by_contra hbarrier
    have hnone := (isExit_of_isBarrier (eq_true_of_ne_false hbarrier)).2
    simp [hnone] at hdest
  simp [question?, hdest, hnonzero, hquiet, htemp, hbarrier]

/-- In a list without dead writes every temporary that is written is read. -/
theorem Settled.readsFirst {before : List Inst} (h : Settled insts)
    (hinsts : insts = before ++ i :: rest) (hdest : i.destGpr = some r)
    (htemp : Slot.isTemp r.toNat = true) (hquiet : hasSideEffects i = false) :
    ReadsFirst r rest := by
  have hi : insts[before.length]? = some i := by simp [hinsts]
  have hrest : insts.drop (before.length + 1) = rest := by simp [hinsts]
  have halive := settled_iff.mp h before.length i 0 _ hi (question?_temp hdest htemp hquiet)
  rw [hrest] at halive
  exact readsFirst_of_not_doomed htemp rfl halive

/-! ## The pass on its own output -/

variable {b b' : Block}

theorem settled_placeholders (insts : List Inst) : Settled (placeholders insts) := by
  obtain ⟨n, -, hrounds⟩ := rounds_placeholders insts
  exact deadPositions_eq_nil_iff.mp hrounds.deadPositions_eq_nil

/-- The output has no dead writes. -/
theorem settled_run (h : run b = .ok b') : Settled b'.insts :=
  settled_resembles (run_insts h).1 (settled_sweep (settled_placeholders b.insts))

/-- Where nothing is dead there is nothing to do. -/
theorem placeholders_of_settled (h : Settled insts) : placeholders insts = insts := by
  rw [placeholders, settle, deadPositions_eq_nil_iff.mpr h]

/-- A run over the output copies it. -/
theorem run_run (h : run b = .ok b') : run b' = .ok b' := by
  have hcanonical : b'.Canonical := builds_output .deadWrites 0 b b' h
  rw [run_eq, placeholders_of_settled (settled_run h), sweep_eq_self (run_insts h).2]
  exact hcanonical.copy_eq

/-- **Removal of dead writes ends, and ends at a fixed point.** Every round that finds something
adds a placeholder, and the loop ends for every list of instructions. On a block with in-range
positions the pass succeeds and leaves its own output alone; the output has no placeholder, and
every write of a temporary in it that does nothing else is read before the temporary is overwritten.
-/
theorem rounds_reach_fixed_point :
    (∀ insts, (deadPositions insts ≠ [] →
        placeholderCount insts < placeholderCount (blank (deadPositions insts) insts)) ∧
      ∃ n ≤ insts.length, Rounds n insts (placeholders insts)) ∧
    ∀ (b : Block) (cap : Nat), b.InRange → ∃ out changed,
      Pass.deadWrites.run cap b = .ok (out, changed) ∧
      Pass.deadWrites.run cap out = .ok (out, false) ∧
      (∀ i ∈ out.insts, i.op ≠ .nop) ∧
      ∀ before i rest r, out.insts = before ++ i :: rest → hasSideEffects i = false →
        i.destGpr = some r → Slot.isTemp r.toNat = true → ReadsFirst r rest := by
  refine ⟨fun insts => ⟨placeholderCount_lt_blank, rounds_placeholders insts⟩, ?_⟩
  intro b cap hb
  obtain ⟨out, hout, -⟩ := run_alike hb
  refine ⟨out, out != b, Pass.run_of_output hout, Pass.run_unchanged_iff.mpr (run_run hout),
    (run_insts hout).2, ?_⟩
  intro before i rest r hinsts hquiet hdest htemp
  exact (settled_run hout).readsFirst hinsts hdest htemp hquiet

/-- A chain of two temporaries takes two rounds. The third temporary is read by the instruction that
overwrites it, so both of its writes stay. -/
theorem rounds_reach_fixed_point_chain :
    let b : Block := ⟨[⟨.setConst, 224, 0, 0⟩, ⟨.addConst, 225, 224, 1⟩, ⟨.setConst, 226, 1, 0⟩,
      ⟨.nop, 0, 0, 0⟩, ⟨.addConst, 226, 226, 0⟩, ⟨.mov, 5, 226, 0⟩, ⟨.exitToConst, 2, 0, 0⟩],
      ⟨[7, 9, 64]⟩⟩
    let out : Block := ⟨[⟨.setConst, 226, 0, 0⟩, ⟨.addConst, 226, 226, 1⟩, ⟨.mov, 5, 226, 0⟩,
      ⟨.exitToConst, 2, 0, 0⟩], ⟨[9, 7, 64]⟩⟩
    b.InRange ∧ deadPositions b.insts = [1] ∧
      deadPositions (blank [1] b.insts) = [0] ∧
      Pass.deadWrites.run 0 b = .ok (out, true) ∧ Pass.deadWrites.run 0 out = .ok (out, false) ∧
      ReadsFirst 226 [⟨.addConst, 226, 226, 1⟩, ⟨.mov, 5, 226, 0⟩, ⟨.exitToConst, 2, 0, 0⟩] := by
  intro b out
  have hb : b.InRange := by decide
  have hrun : Pass.deadWrites.run 0 b = .ok (out, true) := by decide
  obtain ⟨out', changed, hrun', hagain, -, hread⟩ := rounds_reach_fixed_point.2 b 0 hb
  obtain ⟨rfl, -⟩ := Prod.mk.inj (Except.ok.inj (hrun.symm.trans hrun'))
  exact ⟨hb, by decide, by decide, hrun, hagain, hread [] _ _ 226 rfl rfl rfl rfl⟩

end Dynarec.Optimize.DeadWrites
