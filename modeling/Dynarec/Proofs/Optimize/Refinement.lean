/-
What passes keep when they run one after the other.

Compiled code skips placeholders, so two blocks are compared without them. `Refines b b'` says that
from every machine whose slot zero holds zero, if `b` ends without a fault then `b'` ends in the
same way, in a machine that differs in temporaries only. Both start on the same machine, which makes
the relation transitive. A pass can rely on `Admissible` blocks, whose positions are in range and
whose instructions are all eligible for constant propagation, and has to hand on such a block.

A difference in temporaries does not reach another block if that block writes every temporary before
it reads it (`WritesFirst`): two runs of such a block from machines that differ in temporaries end
in such machines again (`runBlock_alike`).

Most passes read the instructions in order and append some to the block being built. For them it is
enough to look at one instruction (`Rewrites`, `refines_of_foldlM`).
-/
import Dynarec.Cache.Run
import Dynarec.Proofs.Guest.Observed
import Dynarec.Proofs.Optimize.ConstantPropagation

set_option autoImplicit false

namespace Dynarec.Optimize

open Guest
open ConstantPropagation (Eligible)

/-! ## Instructions up to the position of their constant -/

section Resembles

variable {i j : Inst}

/-- `j` is `i`, perhaps with another pool position. -/
def Resembles (i j : Inst) : Prop :=
  j = i ∨ ∃ f k, i.op.constField? = some f ∧ j = i.setField f k

theorem Resembles.refl (i : Inst) : Resembles i i := Or.inl rfl

/-- A pool position is neither a slot nor an operand that has to be of a class. -/
theorem setField_operands {f : Field} (h : i.op.constField? = some f) (k : UInt8) :
    (i.setField f k).op = i.op ∧ (i.setField f k).fits = i.fits
      ∧ (i.setField f k).readSlots = i.readSlots ∧ (i.setField f k).writeSlots = i.writeSlots := by
  obtain ⟨op, dest, src1, src2⟩ := i
  cases op <;> cases h <;> exact ⟨rfl, rfl, rfl, rfl⟩

theorem Resembles.op (h : Resembles i j) : j.op = i.op := by
  rcases h with rfl | ⟨f, k, hf, rfl⟩
  · rfl
  · exact (setField_operands hf k).1

theorem Resembles.readSlots (h : Resembles i j) : j.readSlots = i.readSlots := by
  rcases h with rfl | ⟨f, k, hf, rfl⟩
  · rfl
  · exact (setField_operands hf k).2.2.1

theorem Resembles.writeSlots (h : Resembles i j) : j.writeSlots = i.writeSlots := by
  rcases h with rfl | ⟨f, k, hf, rfl⟩
  · rfl
  · exact (setField_operands hf k).2.2.2

theorem Resembles.eligible (h : Resembles i j) (hi : Eligible i) : Eligible j := by
  rcases h with rfl | ⟨f, k, hf, rfl⟩
  · exact hi
  · obtain ⟨hop, hfits, -, hwrite⟩ := setField_operands hf k
    refine ⟨hfits.trans hi.fits, hwrite ▸ hi.zero, fun hfloat => ?_⟩
    -- a float sum or product has no constant
    rw [hop] at hfloat
    rcases hfloat with h' | h' <;> rw [h'] at hf <;> exact nomatch hf

end Resembles

/-! ## Blocks without their placeholders -/

section Effective

variable {b b' source : Block} {i : Inst} {c? : Option Word}

theorem sweep_append (xs ys : List Inst) : sweep (xs ++ ys) = sweep xs ++ sweep ys :=
  List.filter_append ..

theorem sweep_eq_self {insts : List Inst} (h : ∀ i ∈ insts, i.op ≠ .nop) : sweep insts = insts :=
  List.filter_eq_self.mpr fun i hi => decide_eq_true (h i hi)

theorem constantIndex_nop (h : i.op = .nop) : i.constantIndex = none := by
  rw [Inst.constantIndex, h]
  rfl

theorem inRange_effective : b.effective.InRange ↔ b.InRange := by
  refine ⟨fun h i hi k hk => ?_, fun h i hi => h i (mem_of_mem_sweep hi).1⟩
  refine h i (List.mem_filter.mpr ⟨hi, decide_eq_true fun hnop => ?_⟩) k hk
  rw [constantIndex_nop hnop] at hk
  exact nomatch hk

/-- A block in range runs, without its placeholders, as its other instructions do. -/
theorem runBlock_effective (hb : b.InRange) (m : Machine) :
    runBlock b.effective m = runCode (b.pool.resolve (sweep b.insts)) m :=
  runBlock_eq_runCode (inRange_effective.mpr hb) m

/-- The instruction that is appended is the given one, up to the position of its constant. -/
theorem pushWith_insts (h : b.pushWith i c? = .ok b') :
    ∃ j, Resembles i j ∧ b'.insts = b.insts ++ [j] := by
  cases c? with
  | none =>
    cases h
    exact ⟨i, Resembles.refl i, rfl⟩
  | some c =>
    obtain ⟨f, k, pool, hf, -, rfl⟩ := Block.pushWith_eq_ok h
    exact ⟨i.setField f k, Or.inr ⟨f, k, hf, rfl⟩, rfl⟩

theorem append_insts (h : b.append source i = .ok b') :
    ∃ j, Resembles i j ∧ b'.insts = b.insts ++ [j] := by
  obtain ⟨c?, -, h⟩ := bind_eq_ok.mp h
  exact pushWith_insts h

/-- Appending looks at the pool of a block only, so the placeholders in it make no difference. -/
theorem pushWith_effective (hop : i.op ≠ .nop) (h : b.pushWith i c? = .ok b') :
    b.effective.pushWith i c? = .ok b'.effective := by
  cases c? with
  | none =>
    cases h
    refine congrArg (fun insts => Except.ok (Block.mk insts b.pool)) ?_
    exact ((sweep_append b.insts [i]).trans (congrArg _ (sweep_cons hop []))).symm
  | some c =>
    obtain ⟨f, k, pool, hf, hk, rfl⟩ := Block.pushWith_eq_ok h
    refine bind_eq_ok.mpr ⟨(k, { b.effective with pool := pool }), ?_, ?_⟩
    · exact bind_eq_ok.mpr ⟨(k, pool), hk, rfl⟩
    · refine bind_eq_ok.mpr ⟨i.setField f k, by rw [Inst.setConstantIndex, hf], ?_⟩
      refine congrArg (fun insts => Except.ok (Block.mk insts pool)) ?_
      have hop' : (i.setField f k).op ≠ .nop := by rwa [(setField_operands hf k).1]
      exact ((sweep_append b.insts [_]).trans (congrArg _ (sweep_cons hop' []))).symm

theorem push_effective (hop : i.op ≠ .nop) : (b.push i).effective = b.effective.push i := by
  have h : b.pushWith i none = .ok (b.push i) := rfl
  exact (Except.ok.inj (pushWith_effective hop h)).symm

theorem push_effective_nop (hop : i.op = .nop) : (b.push i).effective = b.effective := by
  refine congrArg (fun insts => Block.mk insts b.pool) ?_
  exact (sweep_append b.insts [i]).trans
    ((congrArg _ (sweep_cons_nop hop [])).trans (List.append_nil _))

theorem append_effective (hop : i.op ≠ .nop) (h : b.append source i = .ok b') :
    b.effective.append source i = .ok b'.effective := by
  obtain ⟨c?, hc, h⟩ := bind_eq_ok.mp h
  exact bind_eq_ok.mpr ⟨c?, hc, pushWith_effective hop h⟩

theorem append_effective_nop (hop : i.op = .nop) (h : b.append source i = .ok b') :
    b'.effective = b.effective := by
  obtain ⟨c?, hc, h⟩ := bind_eq_ok.mp h
  rw [Block.constantOf, constantIndex_nop hop] at hc
  cases hc
  cases h
  exact push_effective_nop hop

end Effective

/-! ## Temporaries -/

/-- A temporary that an instruction reads is one of `written` or was written by an instruction
before it. -/
def ReadsWritten (written : List Slot) : List Inst → Prop
  | [] => True
  | i :: rest => (∀ k ∈ i.readSlots, Slot.isTemp k = true → k ∈ written)
      ∧ ReadsWritten (written ++ i.writeSlots) rest

/-- Every temporary is written before it is read. -/
def WritesFirst (b : Block) : Prop := ReadsWritten [] b.insts

instance decidableReadsWritten (written : List Slot) :
    (insts : List Inst) → Decidable (ReadsWritten written insts)
  | [] => inferInstanceAs (Decidable True)
  | i :: rest =>
    have := decidableReadsWritten (written ++ i.writeSlots) rest
    inferInstanceAs (Decidable (_ ∧ _))

instance (b : Block) : Decidable (WritesFirst b) := inferInstanceAs (Decidable (ReadsWritten _ _))

section Temporaries

variable {written : List Slot} {insts insts' : List Inst} {b : Block} {m n m' : Machine}
  {t : Option Word}

theorem ReadsWritten.sweep (h : ReadsWritten written insts) : ReadsWritten written (sweep insts) := by
  induction insts generalizing written with
  | nil => exact h
  | cons i rest ih =>
    by_cases hnop : i.op = .nop
    · have hnone : i.writeSlots = [] := by
        rw [Inst.writeSlots, hnop]
        rfl
      rw [sweep_cons_nop hnop]
      have hrest := ih h.2
      rwa [hnone, List.append_nil] at hrest
    · rw [sweep_cons hnop]
      exact ⟨h.1, ih h.2⟩

/-- **Differences in temporaries do not spread.** What a temporary held before the code started is
not read. -/
theorem runCode_alike (p : Pool) (hw : ReadsWritten written insts)
    (h : AgreeBut (fun k => Slot.isTemp k = true ∧ k ∉ written) m n)
    (hm : runCode (p.resolve insts) m = (.ok t, m')) :
    ∃ n', runCode (p.resolve insts) n = (.ok t, n') ∧ Alike m' n' := by
  induction insts generalizing written m n with
  | nil =>
    cases hm
    exact ⟨n, rfl, h.mono fun k hk => hk.1⟩
  | cons i rest ih =>
    simp only [Pool.resolve, List.map_cons, runCode] at hm ⊢ ih
    have hzero : ¬(Slot.isTemp 0 = true ∧ 0 ∉ written) := fun h0 => by cases h0.1
    have hread : ∀ k ∈ i.readSlots, ¬(Slot.isTemp k = true ∧ k ∉ written) :=
      fun k hk hP => hP.2 (hw.1 k hk hP.1)
    obtain ⟨m₁, hstep, hrest⟩ | ⟨ht, hstep⟩ := Outcome.andThen_eq_ok hm
    · obtain ⟨n₁, hn₁, hagree⟩ := h.step hzero hread hstep
      rw [hn₁]
      -- what the instruction wrote is no longer in doubt, and the rest may read it
      refine ih hw.2 (hagree.mono fun k hk => ⟨hk.1.1, fun hin => ?_⟩) hrest
      exact (List.mem_append.mp hin).elim hk.1.2 hk.2
    · obtain ⟨n₁, hn₁, hagree⟩ := h.step hzero hread hstep
      obtain ⟨u, rfl⟩ := Option.ne_none_iff_exists'.mp ht
      rw [hn₁]
      exact ⟨n₁, rfl, hagree.mono fun k hk => hk.1.1⟩

/-- Two runs of a block from machines that differ in temporaries. -/
theorem runBlock_alike (hb : b.InRange) (hw : WritesFirst b) (h : Alike m n)
    (hm : runBlock b.effective m = (.ok t, m')) :
    ∃ n', runBlock b.effective n = (.ok t, n') ∧ Alike m' n' := by
  rw [runBlock_effective hb] at hm ⊢
  exact runCode_alike b.pool (ReadsWritten.sweep hw) (h.mono fun k hk => ⟨hk, List.not_mem_nil⟩) hm

/-- Whether temporaries are written first does not depend on the pool. -/
theorem ReadsWritten.congr (h : List.Forall₂ Resembles insts insts')
    (hw : ReadsWritten written insts) : ReadsWritten written insts' := by
  induction h generalizing written with
  | nil => trivial
  | cons hij _ ih =>
    obtain ⟨hread, hrest⟩ := hw
    refine ⟨fun k hk => hread k (hij.readSlots ▸ hk), ?_⟩
    rw [hij.writeSlots]
    exact ih hrest

end Temporaries

/-! ## Refinement -/

/-- The positions are in range, and every instruction is eligible for constant propagation. -/
structure Admissible (b : Block) : Prop where
  inRange : b.InRange
  eligible : ∀ i ∈ b.insts, Eligible i

/-- From a machine whose slot zero holds zero, the second block ends as the first does, up to
temporaries. -/
def Refines (b b' : Block) : Prop :=
  ∀ m t m', m.state.slot 0 = 0 → runBlock b.effective m = (.ok t, m') →
    ∃ n', runBlock b'.effective m = (.ok t, n') ∧ Alike m' n'

theorem Refines.refl (b : Block) : Refines b b := fun _ _ m' _ hm => ⟨m', hm, AgreeBut.refl _ m'⟩

theorem Refines.trans {b b' b'' : Block} (h : Refines b b') (h' : Refines b' b'') :
    Refines b b'' := by
  intro m t m' h0 hm
  obtain ⟨n, hn, halike⟩ := h m t m' h0 hm
  obtain ⟨o, ho, halike'⟩ := h' m t n h0 hn
  exact ⟨o, ho, halike.trans halike'⟩

/-! ## Passes that append -/

/-- Equal machines about which something is known. -/
def Same (P : Machine → Prop) (m n : Machine) : Prop := m = n ∧ P m

/-- What an instruction of a block does there; a placeholder does nothing. -/
def meaning (source : Block) (i : Inst) : Machine → Outcome :=
  runCode (source.pool.resolve (sweep [i]))

theorem meaning_nop {source : Block} {i : Inst} (h : i.op = .nop) (m : Machine) :
    meaning source i m = (.ok none, m) := by
  rw [meaning, sweep_cons_nop h]
  rfl

theorem meaning_eq {source : Block} {i : Inst} (h : i.op ≠ .nop) (m : Machine) :
    meaning source i m = step i (source.pool.constant i) m := by
  rw [meaning, sweep_cons h]
  exact runCode_singleton i _ m

/-- Equal machines end in the same way, and `P'` holds if they go on. -/
theorem follows_same {P' : Machine → Prop} {r r' : Outcome} (hr : r' = r)
    (h : ∀ m', r = (.ok none, m') → P' m') : Follows (Same P') r r' := by
  rw [hr]
  exact ⟨fun m' hm' => ⟨m', hm', rfl, h m' hm'⟩, fun _ _ _ => rfl, fun _ _ m' hm' => ⟨m', hm', rfl⟩⟩

/-- After an index fault of the source nothing is promised. -/
theorem follows_outOfBounds (R : Machine → Machine → Prop) (m : Machine) (r : Outcome) :
    Follows R (.error .outOfBounds, m) r := by
  constructor <;> nofun

/-- Reading an instruction, a pass has gone on from `b` to `b'`. It has taken the instruction over,
or it has appended others that have no constant and do, from machines of which `P` holds, what the
instruction does. Of the machine afterwards `P'` holds. -/
inductive Rewrites (source : Block) (i : Inst) (P P' : Machine → Prop) (b b' : Block) : Prop
  | taken (happend : b.append source i = .ok b') (hnop : i.op = .nop → ∀ m, P m → P' m)
      (hstep : ∀ m m', P m → step i (source.pool.constant i) m = (.ok none, m') → P' m')
  | replaced (js : List Inst) (hb' : b' = js.foldl Block.push b) (hop : i.op ≠ .nop)
      (hjs : ∀ j ∈ js, j.op ≠ .nop ∧ j.constantIndex = none)
      (hcode : ∀ m, P m → Follows (Same P') (step i (source.pool.constant i) m)
        (runCode (js.map fun j => (j, 0)) m))

section Rewrites

variable {source b b' : Block} {i : Inst} {js : List Inst} {P P' : Machine → Prop}

theorem eligible_append {j : Inst} (hinsts : b'.insts = b.insts ++ [j]) (hj : Eligible j)
    (hb : ∀ j ∈ b.insts, Eligible j) : ∀ j ∈ b'.insts, Eligible j := by
  intro x hx
  rw [hinsts] at hx
  rcases List.mem_append.mp hx with hx | hx
  · exact hb x hx
  · rw [List.mem_singleton.mp hx]
    exact hj

/-- An eligible instruction that is taken over stays eligible. -/
theorem eligible_append_ok (h : b.append source i = .ok b') (hi : Eligible i)
    (hb : ∀ j ∈ b.insts, Eligible j) : ∀ j ∈ b'.insts, Eligible j := by
  obtain ⟨j, hij, hinsts⟩ := append_insts h
  exact eligible_append hinsts (hij.eligible hi) hb

theorem emits_pushes (js : List Inst) (hb : b.Tidy) (hjs : ∀ j ∈ js, j.constantIndex = none) :
    b.Emits (js.foldl Block.push b) (js.map fun j => (j, 0)) := by
  induction js generalizing b with
  | nil => exact Block.Emits.refl hb
  | cons j js ih =>
    have hfirst := Block.emits_push hb (hjs j List.mem_cons_self)
    exact hfirst.trans (ih hfirst.tidy fun k hk => hjs k (List.mem_cons_of_mem j hk))

theorem pushes_effective (js : List Inst) (b : Block) (hjs : ∀ j ∈ js, j.op ≠ .nop) :
    (js.foldl Block.push b).effective = js.foldl Block.push b.effective := by
  induction js generalizing b with
  | nil => rfl
  | cons j js ih =>
    rw [List.foldl_cons, ih _ fun k hk => hjs k (List.mem_cons_of_mem j hk),
      push_effective (hjs j List.mem_cons_self)]
    rfl

theorem simulates_pushes {mean : Machine → Outcome} (hjs : ∀ j ∈ js, j.constantIndex = none)
    (hcode : ∀ m, P m → Follows (Same P') (mean m) (runCode (js.map fun j => (j, 0)) m)) :
    b.Simulates (js.foldl Block.push b) (Same P) (Same P') mean := by
  refine fun hb => ⟨_, emits_pushes js hb hjs, fun m n hmn => ?_⟩
  obtain ⟨rfl, hm⟩ := hmn
  exact hcode m hm

theorem simulates_append (hrange : ∀ k, i.constantIndex = some k → k.toNat < source.pool.size)
    (h : b.append source i = .ok b')
    (hstep : ∀ m m', P m → step i (source.pool.constant i) m = (.ok none, m') → P' m') :
    b.Simulates b' (Same P) (Same P') (step i (source.pool.constant i)) := by
  obtain ⟨c?, hc, hp⟩ := bind_eq_ok.mp h
  rw [Block.constantOf_eq hrange] at hc
  cases hc
  refine Block.Simulates.of_pushWith hp (fun hn => Option.map_eq_none_iff.mp hn) fun m n hmn => ?_
  obtain ⟨rfl, hm⟩ := hmn
  rw [Pool.constant_getD]
  exact follows_same rfl fun m' hm' => hstep m m' hm hm'

/-- What has been appended does what the instruction does. -/
theorem Rewrites.simulates (hrange : ∀ k, i.constantIndex = some k → k.toNat < source.pool.size)
    (h : Rewrites source i P P' b b') :
    b.Simulates b' (Same P) (Same P') (step i (source.pool.constant i)) := by
  cases h with
  | taken happend _ hstep => exact simulates_append hrange happend hstep
  | replaced js hb' _ hjs hcode =>
    rw [hb']
    exact simulates_pushes (fun j hj => (hjs j hj).2) hcode

/-- The same without placeholders. -/
theorem Rewrites.simulates_effective
    (hrange : ∀ k, i.constantIndex = some k → k.toNat < source.pool.size)
    (h : Rewrites source i P P' b b') :
    b.effective.Simulates b'.effective (Same P) (Same P') (meaning source i) := by
  cases h with
  | taken happend hnop hstep =>
    by_cases hop : i.op = .nop
    · -- a placeholder adds nothing to the block without placeholders
      rw [append_effective_nop hop happend]
      refine Block.Simulates.of_silent fun m n hmn => ?_
      exact ⟨m, meaning_nop hop m, hmn.1, hnop hop m hmn.2⟩
    · have hmeaning : meaning source i = step i (source.pool.constant i) := funext (meaning_eq hop)
      rw [hmeaning]
      exact simulates_append hrange (append_effective hop happend) hstep
  | replaced js hb' hop hjs hcode =>
    have hmeaning : meaning source i = step i (source.pool.constant i) := funext (meaning_eq hop)
    rw [hb', pushes_effective js b fun j hj => (hjs j hj).1, hmeaning]
    exact simulates_pushes (fun j hj => (hjs j hj).2) hcode

end Rewrites

section Fold

variable {σ : Type} {B : σ → Block} {I : σ → Prop} {P : σ → Machine → Prop}
  {f : σ → Inst → Except Fault σ} {source : Block} {s s' : σ}

/-- What the instructions do one after the other, each on its own. -/
def runAll (g : Inst → Machine → Outcome) : List Inst → Machine → Outcome
  | [], m => (.ok none, m)
  | i :: rest, m => Outcome.andThen (g i m) (runAll g rest)

theorem runAll_step (source : Block) (insts : List Inst) :
    runAll (fun i => step i (source.pool.constant i)) insts
      = runCode (source.pool.resolve insts) := by
  induction insts with
  | nil => rfl
  | cons i rest ih =>
    funext m
    rw [runAll, ih]
    rfl

theorem runAll_meaning (source : Block) (insts : List Inst) :
    runAll (meaning source) insts = runCode (source.pool.resolve (sweep insts)) := by
  induction insts with
  | nil => rfl
  | cons i rest ih =>
    funext m
    rw [runAll, ih, ← List.singleton_append, sweep_append, Pool.resolve_append, runCode_append]
    rfl

/-- **The instructions of a block one after the other.** `I` is what the pass knows about what it
remembers, `P` what it knows about the machine. -/
theorem simulates_foldlM {g : Inst → Machine → Outcome} (insts : List Inst)
    (hstep : ∀ i ∈ insts, ∀ s s', I s → f s i = .ok s' →
      I s' ∧ (B s).Simulates (B s') (Same (P s)) (Same (P s')) (g i))
    (hs : I s) (h : insts.foldlM f s = .ok s') :
    I s' ∧ (B s).Simulates (B s') (Same (P s)) (Same (P s')) (runAll g insts) := by
  induction insts generalizing s with
  | nil =>
    cases pure_eq_ok.mp h
    exact ⟨hs, Block.Simulates.of_silent fun m n hmn => ⟨m, rfl, hmn⟩⟩
  | cons i rest ih =>
    obtain ⟨s₁, h₁, h⟩ := bind_eq_ok.mp h
    obtain ⟨hs₁, hone⟩ := hstep i List.mem_cons_self s s₁ hs h₁
    obtain ⟨hs', hrest⟩ := ih (fun j hj => hstep j (List.mem_cons_of_mem i hj)) hs₁ h
    exact ⟨hs', hone.trans hrest⟩

/-- What is built from the empty block ends as what it simulates does. -/
theorem runBlock_of_simulates {b : Block} {R R' : Machine → Machine → Prop} {mean : Machine → Outcome}
    {m m' : Machine} {t : Option Word} (h : ({} : Block).Simulates b R R' mean) (hstart : R m m)
    (hend : ∀ m n, R' m n → m = n) (hm : mean m = (.ok t, m')) : runBlock b m = (.ok t, m') := by
  obtain ⟨code, hemit, hcode⟩ := h Block.tidy_empty
  have hfollows := hcode m m hstart
  have hrun : runBlock b m = runCode code m := hemit.run m
  rw [hrun]
  -- an exit leaves equal machines; at the end of the block they are equal by `hend`
  cases t with
  | none =>
    obtain ⟨n, hn, hR⟩ := hfollows.next m' hm
    rw [hn, hend m' n hR]
  | some t => rw [hfollows.exit t m' hm, hm]

/-- What is built from the empty block and ends, where the block read ends, in the same machine. -/
theorem refines_of_simulates {b b' : Block} {R R' : Machine → Machine → Prop} (hb : b.InRange)
    (heligible : ∀ i ∈ b'.insts, Eligible i) (hstart : ∀ m, m.state.slot 0 = 0 → R m m)
    (hend : ∀ m n, R' m n → m = n)
    (h : ({} : Block).Simulates b'.effective R R' (runCode (b.pool.resolve (sweep b.insts)))) :
    Admissible b' ∧ Refines b b' := by
  obtain ⟨code, hemit, -⟩ := h Block.tidy_empty
  refine ⟨⟨inRange_effective.mp hemit.tidy.inRange, heligible⟩, fun m t m' h0 hm => ?_⟩
  rw [runBlock_effective hb] at hm
  exact ⟨m', runBlock_of_simulates h (hstart m h0) hend hm, AgreeBut.refl _ m'⟩

theorem refines_of_foldlM {b : Block} (hb : Admissible b) (hB : B s = {}) (hs : I s)
    (hstart : ∀ m, P s m) (heligible : ∀ s, I s → ∀ j ∈ (B s).insts, Eligible j)
    (hstep : ∀ s i s', I s → Eligible i →
      (∀ k, i.constantIndex = some k → k.toNat < b.pool.size) → f s i = .ok s' →
      I s' ∧ Rewrites b i (P s) (P s') (B s) (B s'))
    (h : b.insts.foldlM f s = .ok s') : Admissible (B s') ∧ Refines b (B s') := by
  obtain ⟨hs', hsim⟩ := simulates_foldlM (B := fun s => (B s).effective) (g := meaning b) b.insts
    (fun i hi t t' ht htt' => by
      obtain ⟨ht', hone⟩ := hstep t i t' ht (hb.eligible i hi) (hb.inRange i hi) htt'
      exact ⟨ht', hone.simulates_effective (hb.inRange i hi)⟩) hs h
  rw [runAll_meaning, hB] at hsim
  exact refines_of_simulates hb.inRange (heligible s' hs') (fun m _ => ⟨rfl, hstart m⟩)
    (fun m n hmn => hmn.1) hsim

end Fold

/-! ## Copies -/

/-- Instructions taken over are the same up to the positions of their constants. -/
theorem appendAll_insts {b b' source : Block} (is : List Inst)
    (h : b.appendAll source is = .ok b') :
    ∃ js, List.Forall₂ Resembles is js ∧ b'.insts = b.insts ++ js := by
  induction is generalizing b with
  | nil =>
    cases pure_eq_ok.mp h
    exact ⟨[], List.Forall₂.nil, (List.append_nil _).symm⟩
  | cons i is ih =>
    obtain ⟨b₁, h₁, h⟩ := bind_eq_ok.mp h
    obtain ⟨j, hij, hb₁⟩ := append_insts h₁
    obtain ⟨js, hjs, hb'⟩ := ih h
    refine ⟨j :: js, List.Forall₂.cons hij hjs, ?_⟩
    rw [hb', hb₁, List.append_assoc, List.singleton_append]

/-- What does not depend on positions holds of both lists. -/
theorem forall_of_resembles {is js : List Inst} {Q : Inst → Prop}
    (hQ : ∀ i j, Resembles i j → Q i → Q j) (h : List.Forall₂ Resembles is js)
    (hi : ∀ i ∈ is, Q i) : ∀ j ∈ js, Q j := by
  induction h with
  | nil => exact fun j hj => absurd hj List.not_mem_nil
  | cons hij _ ih =>
    intro x hx
    rcases List.mem_cons.mp hx with rfl | hx
    · exact hQ _ _ hij (hi _ List.mem_cons_self)
    · exact ih (fun i hi' => hi i (List.mem_cons_of_mem _ hi')) x hx

theorem eligible_of_resembles {is js : List Inst} (h : List.Forall₂ Resembles is js)
    (hi : ∀ i ∈ is, Eligible i) : ∀ j ∈ js, Eligible j :=
  forall_of_resembles (fun _ _ => Resembles.eligible) h hi

/-- A copy has the same instructions up to the positions of their constants. -/
theorem copy_spec {b b' : Block} (hb : Admissible b) (h : b.copy = .ok b') :
    Admissible b' ∧ (WritesFirst b → WritesFirst b') := by
  obtain ⟨js, hjs, hinsts⟩ := appendAll_insts b.insts h
  replace hinsts : b'.insts = js := hinsts
  have hemit := Block.emits_appendAll b.insts Block.tidy_empty hb.inRange h
  refine ⟨⟨hemit.tidy.inRange, ?_⟩, fun hw => ?_⟩
  · rw [hinsts]
    exact eligible_of_resembles hjs hb.eligible
  · rw [WritesFirst, hinsts]
    exact hw.congr hjs

end Dynarec.Optimize
