/-
What a verdict about the next use of a slot promises.

The register engine throws a register away without a store when the lookahead says that its slot is
overwritten before it is read. That is a statement about pairs of runs: two machines that differ in
the slot alone run on side by side, in the same places and with the same faults, until an
instruction writes the slot; from there on they are one machine. `AgreeBut.execute` is the step of
that argument and `merges_of_clobbered` the run, `clobbered_value_dead` the verdict.

That a slot is not touched again is decided at the first exit, because temporaries do not outlive
their block. But an exit may be conditional, and execution then goes on behind the point where the
verdict was given. `ReadsFirst` says of one run that it reads the slot before it has written it,
`ReadsBehindExit` that it does so behind the first exit that it passes. `unused_until_exit` proves
that these runs, and no others, break the verdict, and `unused_slot_read` that there are some.
-/
import Dynarec.Liveness
import Dynarec.Proofs.Guest.Observed

set_option autoImplicit false
set_option maxRecDepth 2048

namespace Dynarec

/-! ## What the lookahead has seen -/

theorem Inst.ne_of_not_readsSlot {i : Inst} {slot : Slot} (h : i.readsSlot slot = false) :
    ∀ k ∈ i.readSlots, k ≠ slot := by
  rintro k hk rfl
  have hreads : i.readsSlot k = true := List.contains_iff_mem.mpr hk
  rw [h] at hreads
  exact nomatch hreads

namespace Usage

variable {slot : Slot} {window window' : Nat} {i : Inst} {insts rest : List Inst} {v : Usage}

theorem atEnd_ne_clobbered (slot : Slot) : atEnd slot ≠ .clobbered := by
  unfold atEnd
  split <;> exact nofun

theorem atEnd_eq_unused : atEnd slot = .unused ↔ Slot.isTemp slot = true := by
  unfold atEnd
  split <;> simp_all only [reduceCtorEq, Bool.false_eq_true]

/-- A verdict other than `read` and `unknown` about code that starts with an instruction: the
instruction does not read the slot, and it writes it, or it is the exit at which the verdict was
given, or the verdict is one about the rest. -/
theorem next_cons_cases (h : next slot window (i :: rest) = v) (hread : v ≠ .read)
    (hknown : v ≠ .unknown) :
    i.readsSlot slot = false ∧
      ((i.writesSlot slot = true ∧ v = .clobbered) ∨
        (i.writesSlot slot = false ∧ i.isExit = true ∧ v = atEnd slot) ∨
        (i.writesSlot slot = false ∧ i.isExit = false ∧ ∃ w, next slot w rest = v)) := by
  cases window with
  | zero => exact absurd h.symm hknown
  | succ w =>
    rw [next] at h
    split at h
    · exact absurd h.symm hread
    rename_i hpass
    rw [Bool.or_eq_true, not_or, Bool.not_eq_true, Bool.not_eq_true] at hpass
    refine ⟨hpass.1, ?_⟩
    split at h
    · rename_i hwrite
      exact Or.inl ⟨hwrite, h.symm⟩
    rename_i hkeep
    rw [Bool.not_eq_true] at hkeep
    split at h
    · rename_i hexit
      exact Or.inr (Or.inl ⟨hkeep, hexit, h.symm⟩)
    · rename_i hstay
      exact Or.inr (Or.inr ⟨hkeep, Bool.eq_false_iff.mpr hstay, w, h⟩)

/-- Only temporaries are reported as not touched again. -/
theorem isTemp_of_unused (h : next slot window insts = .unused) : Slot.isTemp slot = true := by
  induction insts generalizing window with
  | nil =>
    rw [next] at h
    exact atEnd_eq_unused.mp h
  | cons i rest ih =>
    obtain ⟨-, hwhere⟩ := next_cons_cases h nofun nofun
    rcases hwhere with ⟨-, hend⟩ | ⟨-, -, hend⟩ | ⟨-, -, w, hrest⟩
    · exact nomatch hend
    · exact atEnd_eq_unused.mp hend.symm
    · exact ih hrest

/-- A decided verdict does not depend on how far the lookahead could have gone on. -/
theorem next_of_le (h : next slot window insts ≠ .unknown) (hle : window ≤ window') :
    next slot window' insts = next slot window insts := by
  induction insts generalizing window window' with
  | nil => rw [next, next]
  | cons i rest ih =>
    cases window with
    | zero => exact absurd rfl h
    | succ w =>
      obtain ⟨w', rfl⟩ : ∃ w', window' = w' + 1 :=
        ⟨window' - 1, (Nat.sub_add_cancel (Nat.lt_of_lt_of_le (Nat.succ_pos w) hle)).symm⟩
      rw [next] at h ⊢
      rw [next]
      split
      · rfl
      split
      · rfl
      split
      · rfl
      · rename_i hpass hkeep hstay
        rw [if_neg hpass, if_neg hkeep, if_neg hstay] at h
        exact ih h (Nat.le_of_succ_le_succ hle)

end Usage

namespace Guest

open Outcome Usage

/-! ## Instructions of a block one at a time -/

/-- Execute one instruction whose constant is in `pool`. -/
def execute (pool : Pool) (i : Inst) (m : Machine) : Outcome :=
  match i.constantIndex.mapM pool.get with
  | .error f => (.error f, m)
  | .ok constant => step i (constant.getD 0) m

theorem runInsts_cons (pool : Pool) (i : Inst) (rest : List Inst) (m : Machine) :
    runInsts pool (i :: rest) m = andThen (execute pool i m) (runInsts pool rest) := by
  rw [runInsts, execute]
  cases i.constantIndex.mapM pool.get with
  | error f => rfl
  | ok constant => rcases step i (constant.getD 0) m with ⟨_ | _ | _, m'⟩ <;> rfl

/-- Looking up the constant fails on every machine, or the instruction takes its step. -/
theorem execute_cases (pool : Pool) (i : Inst) :
    (∃ f, ∀ m, execute pool i m = (.error f, m)) ∨ ∃ c, ∀ m, execute pool i m = step i c m := by
  unfold execute
  cases i.constantIndex.mapM pool.get with
  | error f => exact Or.inl ⟨f, fun m => rfl⟩
  | ok constant => exact Or.inr ⟨constant.getD 0, fun m => rfl⟩

/-! ## Two runs side by side -/

/-- Two runs end in the same way, on machines that differ at most in the slots of `P`. -/
structure Matches (P : Slot → Prop) (r r' : Outcome) : Prop where
  result : r.1 = r'.1
  machines : AgreeBut P r.2 r'.2

section Runs

variable {P Q : Slot → Prop} {pool : Pool} {slot : Slot} {i : Inst} {insts rest : List Inst}
  {m n m' : Machine} {t : Option Word}

theorem Matches.refl (P : Slot → Prop) (r : Outcome) : Matches P r r :=
  ⟨rfl, AgreeBut.refl P r.2⟩

/-- Where the first parts end normally, what follows them has to match. -/
theorem Matches.andThen {r r' : Outcome} {next : Machine → Outcome} (h : Matches P r r')
    (hnext : ∀ m n, r = (.ok none, m) → r' = (.ok none, n) → Matches P (next m) (next n)) :
    Matches P (andThen r next) (andThen r' next) := by
  obtain ⟨e, m⟩ := r
  obtain ⟨e', n⟩ := r'
  obtain ⟨hresult, hmachines⟩ := h
  obtain rfl : e = e' := hresult
  rcases e with f | _ | t
  · exact ⟨rfl, hmachines⟩
  · exact hnext m n rfl rfl
  · exact ⟨rfl, hmachines⟩

/-- Machines that differ nowhere are equal. -/
theorem AgreeBut.eq (h : AgreeBut P m n) (hP : ∀ k, ¬P k) : m = n := by
  obtain ⟨s, memory⟩ := m
  obtain ⟨s', memory'⟩ := n
  obtain rfl : memory = memory' := h.memory
  obtain rfl : s = s' :=
    State.ext_slots (fun k => h.slot k (hP k)) h.pc h.downcount h.syscall
  rfl

/-- Another word in the slot in doubt. -/
theorem AgreeBut.setSlot (m : Machine) (k : Slot) (w : Word) :
    AgreeBut (· = k) m { m with state := m.state.setSlot k w } :=
  ⟨fun _ hj => (State.slot_setSlot_ne m.state w hj).symm, rfl, rfl, rfl, rfl⟩

/-- **One instruction on two machines.** If it reads none of the slots in doubt it ends in the same
way on both, and brings no other slot into doubt. -/
theorem AgreeBut.execute (h : AgreeBut P m n) (hzero : ¬P 0) (hread : ∀ k ∈ i.readSlots, ¬P k) :
    Matches P (execute pool i m) (execute pool i n) := by
  rcases execute_cases pool i with ⟨f, hf⟩ | ⟨c, hc⟩
  · rw [hf, hf]
    exact ⟨rfl, h⟩
  rw [hc, hc]
  rcases hm : Guest.step i c m with ⟨f | t, m'⟩
  · -- a fault leaves the registers of each machine as they were
    obtain ⟨n', hn, hmemory⟩ := step_transfer_error (h.agree hread) hm
    have hstate : m'.state = m.state := step_error_state hm
    have hstate' : n'.state = n.state := step_error_state hn
    rw [hn]
    refine ⟨rfl, fun k hk => ?_, ?_, ?_, ?_, hmemory.symm⟩
    · rw [hstate, hstate']
      exact h.slot k hk
    · rw [hstate, hstate', h.pc]
    · rw [hstate, hstate', h.downcount]
    · rw [hstate, hstate', h.syscall]
  · obtain ⟨n', hn, hagree⟩ := h.step hzero hread hm
    rw [hn]
    exact ⟨rfl, hagree.mono fun k hk => hk.1⟩

/-- An instruction that writes the only slot in doubt without reading it ends on the same machine,
if it ends without a fault. -/
theorem AgreeBut.execute_eq (h : AgreeBut (· = slot) m n) (hzero : slot ≠ 0)
    (hread : i.readsSlot slot = false) (hwrite : i.writesSlot slot = true)
    (hm : Guest.execute pool i m = (.ok t, m')) : Guest.execute pool i n = (.ok t, m') := by
  rcases execute_cases pool i with ⟨f, hf⟩ | ⟨c, hc⟩
  · rw [hf] at hm
    exact nomatch hm
  rw [hc] at hm ⊢
  obtain ⟨n', hn, hagree⟩ := h.step (Ne.symm hzero) (Inst.ne_of_not_readsSlot hread) hm
  rw [hn, hagree.eq fun k hk => hk.2 (hk.1 ▸ List.contains_iff_mem.mp hwrite)]

/-- An instruction that is no exit does not leave the block. -/
theorem execute_stays (hexit : i.isExit = false) (u : Word) :
    (Guest.execute pool i m).1 ≠ .ok (some u) := by
  intro hm
  rcases execute_cases pool i with ⟨f, hf⟩ | ⟨c, hc⟩
  · rw [hf] at hm
    exact nomatch hm
  · rw [hc] at hm
    exact nomatch step_exit hexit (Prod.ext hm rfl)

/-! ## Overwritten before it is read -/

/-- Two runs that end in the same way: on the same machine, or with a fault on machines that differ
at most in the slot. -/
structure Merges (slot : Slot) (r r' : Outcome) : Prop extends Matches (· = slot) r r' where
  final : ∀ t, r.1 = .ok t → r = r'

theorem Merges.andThen {r r' : Outcome} (h : Merges slot r r') (next : Machine → Outcome) :
    Merges slot (andThen r next) (andThen r' next) := by
  rcases r with ⟨f | t, m⟩
  · obtain ⟨e', n⟩ := r'
    obtain rfl : Except.error f = e' := h.result
    exact ⟨⟨rfl, h.machines⟩, nofun⟩
  · rw [h.final t rfl]
    exact ⟨Matches.refl _ _, fun _ _ => rfl⟩

theorem Matches.merges {r r' : Outcome} {next : Machine → Outcome}
    (h : Matches (· = slot) r r') (hstay : ∀ u, r.1 ≠ .ok (some u))
    (hnext : ∀ m n, AgreeBut (· = slot) m n → Merges slot (next m) (next n)) :
    Merges slot (Outcome.andThen r next) (Outcome.andThen r' next) := by
  refine ⟨h.andThen fun m n hm hn => ?_, fun t ht => ?_⟩
  · subst hm hn
    exact (hnext m n h.machines).toMatches
  · obtain ⟨e, m⟩ := r
    obtain ⟨e', n⟩ := r'
    obtain rfl : e = e' := h.result
    rcases e with f | _ | u
    · exact nomatch ht
    · exact (hnext m n h.machines).final t ht
    · exact absurd rfl (hstay u)

/-- Two machines that differ in a slot which is overwritten before it is read. -/
theorem merges_of_clobbered (hzero : slot ≠ 0) {window : Nat}
    (hdead : next slot window insts = .clobbered) (h : AgreeBut (· = slot) m n) :
    Merges slot (runInsts pool insts m) (runInsts pool insts n) := by
  induction insts generalizing m n window with
  | nil =>
    rw [next] at hdead
    exact absurd hdead (atEnd_ne_clobbered slot)
  | cons i rest ih =>
    obtain ⟨hread, hwhere⟩ := next_cons_cases hdead nofun nofun
    have hstep : Matches (· = slot) (Guest.execute pool i m) (Guest.execute pool i n) :=
      h.execute (Ne.symm hzero) (Inst.ne_of_not_readsSlot hread)
    rw [runInsts_cons, runInsts_cons]
    rcases hwhere with ⟨hwrite, -⟩ | ⟨-, -, hend⟩ | ⟨-, hexit, w, hrest⟩
    · have hmerge : Merges slot (Guest.execute pool i m) (Guest.execute pool i n) := by
        refine ⟨hstep, fun t ht => ?_⟩
        have hm : Guest.execute pool i m = (.ok t, (Guest.execute pool i m).2) := Prod.ext ht rfl
        rw [h.execute_eq hzero hread hwrite hm, ← hm]
      exact hmerge.andThen _
    · exact absurd hend.symm (atEnd_ne_clobbered slot)
    · exact hstep.merges (execute_stays hexit) fun m' n' h' => ih hrest h'

/-- **A slot that is overwritten before it is read holds a dead value.** Whatever it holds, the
instructions from the position on end in the same way: without a fault on the same machine, and with
a fault with the same memory and the same words in all other slots. And a lookahead that sees
further comes to the same verdict, as it does to any that is decided. -/
theorem clobbered_value_dead (pool : Pool) (insts : List Inst) (start : Nat) (slot : Slot)
    (window : Nat) :
    (slot ≠ 0 → nextFrom insts start slot window = .clobbered →
      ∀ m n, AgreeBut (· = slot) m n →
        Merges slot (runInsts pool (insts.drop start) m) (runInsts pool (insts.drop start) n)) ∧
    ∀ window', window ≤ window' → nextFrom insts start slot window ≠ .unknown →
      nextFrom insts start slot window' = nextFrom insts start slot window :=
  ⟨fun hzero hdead _ _ h => merges_of_clobbered hzero hdead h,
    fun _ hle hknown => next_of_le hknown hle⟩

/-- A move is about to overwrite the slot, which holds two different words. -/
theorem clobbered_value_dead_move :
    let insts : List Inst := [{ op := .add, dest := 5, src1 := 4, src2 := 4 },
      { op := .mov, dest := 6, src1 := 5 }]
    let m : Machine := { state := ({} : State).setSlot 4 3, memory := Memory.zeroed 0 }
    let n : Machine := { m with state := m.state.setSlot 6 1 }
    m ≠ n ∧ nextFrom insts 0 6 30 = .clobbered ∧
      runInsts {} (insts.drop 0) m = runInsts {} (insts.drop 0) n := by
  intro insts m n
  have hdiffer : m ≠ n := fun h => absurd (congrArg (·.state.slot 6) h) (by decide)
  have hdead : nextFrom insts 0 6 30 = .clobbered := by decide
  have hmerges := (clobbered_value_dead {} insts 0 6 30).1 (by decide) hdead m n
    (AgreeBut.setSlot m 6 1)
  exact ⟨hdiffer, hdead, hmerges.final none rfl⟩

/-! ## Not touched again -/

/-- The run reads the slot before it has written it. -/
def ReadsFirst (pool : Pool) (slot : Slot) : List Inst → Machine → Prop
  | [], _ => False
  | i :: rest, m => i.readsSlot slot = true ∨
      (i.writesSlot slot = false ∧
        ∃ m', Guest.execute pool i m = (.ok none, m') ∧ ReadsFirst pool slot rest m')

/-- The run passes its first exit and then reads the slot before it has written it. -/
def ReadsBehindExit (pool : Pool) (slot : Slot) : List Inst → Machine → Prop
  | [], _ => False
  | i :: rest, m => ∃ m', Guest.execute pool i m = (.ok none, m') ∧
      if i.isExit then ReadsFirst pool slot rest m' else ReadsBehindExit pool slot rest m'

/-- Two machines that differ in a slot which the run does not read. -/
theorem matches_of_not_readsFirst (hzero : slot ≠ 0) (hno : ¬ReadsFirst pool slot insts m)
    (h : AgreeBut (· = slot) m n) :
    Matches (· = slot) (runInsts pool insts m) (runInsts pool insts n) := by
  induction insts generalizing m n with
  | nil => exact ⟨rfl, h⟩
  | cons i rest ih =>
    rw [ReadsFirst, not_or, Bool.not_eq_true] at hno
    obtain ⟨hread, hrest⟩ := hno
    have hstep : Matches (· = slot) (Guest.execute pool i m) (Guest.execute pool i n) :=
      h.execute (Ne.symm hzero) (Inst.ne_of_not_readsSlot hread)
    rw [runInsts_cons, runInsts_cons]
    refine hstep.andThen fun m' n' hm hn => ?_
    by_cases hwrite : i.writesSlot slot = true
    · rw [h.execute_eq hzero hread hwrite hm] at hn
      cases hn
      exact Matches.refl _ _
    · rw [Bool.not_eq_true] at hwrite
      rw [hm, hn] at hstep
      exact ih (fun hfirst => hrest ⟨hwrite, m', hm, hfirst⟩) hstep.machines

/-- The lookahead is right up to the first exit. -/
theorem readsFirst_iff_of_unused {window : Nat} (h : next slot window insts = .unused)
    (m : Machine) : ReadsFirst pool slot insts m ↔ ReadsBehindExit pool slot insts m := by
  induction insts generalizing m window with
  | nil => exact Iff.rfl
  | cons i rest ih =>
    obtain ⟨hread, hwhere⟩ := next_cons_cases h nofun nofun
    rw [ReadsFirst, ReadsBehindExit, hread]
    rcases hwhere with ⟨-, hend⟩ | ⟨hwrite, hexit, -⟩ | ⟨hwrite, hexit, w, hrest⟩
    · exact nomatch hend
    · simp only [hwrite, hexit, Bool.false_eq_true, false_or, true_and, if_true]
    · simp only [hwrite, hexit, Bool.false_eq_true, false_or, true_and, if_false, ih hrest]

/-- **An untouched slot is not read up to the first exit.** It is a temporary; a run reads it before
writing it only behind an exit that it has passed, and the runs that do not are independent of what
it holds. -/
theorem unused_until_exit (pool : Pool) (insts : List Inst) (start : Nat) (slot : Slot)
    (window : Nat) (h : nextFrom insts start slot window = .unused) :
    Slot.isTemp slot = true ∧
    ∀ m, (ReadsFirst pool slot (insts.drop start) m ↔
        ReadsBehindExit pool slot (insts.drop start) m) ∧
      ∀ n, AgreeBut (· = slot) m n → ¬ReadsBehindExit pool slot (insts.drop start) m →
        Matches (· = slot) (runInsts pool (insts.drop start) m)
          (runInsts pool (insts.drop start) n) := by
  have htemp : Slot.isTemp slot = true := isTemp_of_unused h
  refine ⟨htemp, fun m => ⟨readsFirst_iff_of_unused h m, fun n hagree hno => ?_⟩⟩
  refine matches_of_not_readsFirst ?_ (fun hfirst => hno ?_) hagree
  · rintro rfl
    exact absurd htemp (by decide)
  · exact (readsFirst_iff_of_unused h m).mp hfirst

/-- A temporary that is read only behind a conditional exit: the run that leaves there does not
depend on it. -/
theorem unused_until_exit_taken :
    let pool : Pool := { values := [0x40] }
    let insts : List Inst := [{ op := .exitToConstIfEq, src1 := 5, src2 := 6 },
      { op := .mov, dest := 3, src1 := 224 }]
    let m : Machine := { state := {}, memory := Memory.zeroed 0 }
    let n : Machine := { m with state := m.state.setSlot 224 7 }
    nextFrom insts 0 224 30 = .unused ∧ ¬ReadsBehindExit pool 224 insts m ∧
      Matches (· = 224) (runInsts pool (insts.drop 0) m) (runInsts pool (insts.drop 0) n) := by
  intro pool insts m n
  have hunused : nextFrom insts 0 224 30 = .unused := by decide
  have hno : ¬ReadsBehindExit pool 224 insts m := by
    rintro ⟨m', hm, -⟩
    exact nomatch (Prod.mk.inj hm).1
  exact ⟨hunused, hno,
    ((unused_until_exit pool insts 0 224 30 hunused).2 m).2 n (AgreeBut.setSlot m 224 7) hno⟩

/-- **A slot that is reported as not touched again may be read.** The exit is not taken, and the
instruction behind it copies the temporary. -/
theorem unused_slot_read :
    ¬∀ (pool : Pool) (insts : List Inst) (start : Nat) (slot : Slot) (window : Nat),
      (∀ i ∈ insts, i.op ≠ .nop ∧ i.fits = true) → nextFrom insts start slot window = .unused →
      ∀ m n, AgreeBut (· = slot) m n →
        Matches (· = slot) (runInsts pool (insts.drop start) m)
          (runInsts pool (insts.drop start) n) := by
  intro h
  let m : Machine := { state := ({} : State).setSlot 5 1, memory := Memory.zeroed 0 }
  have hmatch := h { values := [0x40] } [{ op := .exitToConstIfEq, src1 := 5, src2 := 6 },
    { op := .mov, dest := 3, src1 := 224 }] 0 224 30 (by decide) (by decide) m
    { m with state := m.state.setSlot 224 7 } (AgreeBut.setSlot m 224 7)
  exact absurd (hmatch.machines.slot 3 (by decide)) (by decide)

end Runs

end Guest

end Dynarec
