/-
Constant propagation twice.

What a run leaves behind, it had no better form for: where an operand stayed a register, its value
was not known. The next run knows no more about any operand, and leaves the instruction as it is.
`repeats_fold` goes through the rules of the pass with this, `repeats_walk` takes it along a block,
and `run_idempotent` concludes that a run reports no change on the output of another one.

It does not hold for every block. A run whose pool has passed the limit copies the rest of its
block, and leaves that to the next run. And an instruction that takes an integer destination may
name a float slot there. The fold forgets what it knew of that slot, but what is emitted is seen to
change integer slots only: the next run, which comes upon the instruction in its emitted form, goes
on with a value that is no longer there (`run_idempotent_fails`).
-/
import Dynarec.Proofs.Optimize.Echoes

set_option autoImplicit false
set_option maxRecDepth 2048

namespace Dynarec.Optimize.ConstantPropagation

namespace Folding

variable {s s' u : Folding} {i j : Inst} {op form : Opcode} {dest src q : UInt8} {w c : Word}
  {c? : Option Word} {l : List UInt8}

/-! ## Registers that are not known -/

theorem Fainter.unknown (h : Fainter u s l) (hq : s.value? q = none) : u.value? q = none := by
  cases hu : u.value? q with
  | none => rfl
  | some w => exact nomatch hq.symm.trans (h.known q w (Or.inr hq) hu)

/-- What is known about a register that an instruction reads is what `s` knows. -/
theorem Fainter.read (h : Fainter u s (integerBytes j.readSlots)) (hs : Sound s)
    (hq : q.toNat ∈ j.readSlots) (hw : u.value? q = some w) : s.value? q = some w := by
  refine h.known q w ?_ hw
  cases hint : Slot.isInteger q.toNat with
  | true => exact Or.inl (mem_integerBytes hint hq)
  | false => exact Or.inr (hs.tame q hint)

theorem put_at {α : Type} (t : PerSlot α) (r : UInt8) : PerSlot.put t r (PerSlot.at t r) = t :=
  Vector.set_getElem_self _

/-- There is nothing to forget about a slot that is not known. -/
theorem forget_of_unknown (hs : Sound s) (hq : s.value? q = none) : s.forget q = s := by
  rw [forget]
  split
  · rfl
  · have hknown : PerSlot.put s.known q none = s.known := hq ▸ put_at s.known q
    have hplaced : PerSlot.put s.placed q none = s.placed := hs.unplaced q hq ▸ put_at s.placed q
    rw [hknown, hplaced]

theorem integerBytes_singleton (q : UInt8) :
    integerBytes [q.toNat] = if Slot.isInteger q.toNat = true then [q] else [] := by
  unfold integerBytes
  rw [List.filter_cons, List.filter_nil]
  split
  · rw [List.map_singleton, UInt8.ofNat_toNat]
  · rfl

theorem flushes_of_unknown (hs : s.value? src = none) :
    (integerBytes [src.toNat]).foldlM flush s = .ok s := by
  have hflush : s.flush src = .ok s := flush_of_synced (Or.inr (Or.inl hs))
  rw [integerBytes_singleton]
  split
  · exact bind_eq_ok.mpr ⟨s, hflush, rfl⟩
  · rfl

/-- Updating a register from one that is not known is emitting the update. -/
theorem derive_pushWith (hs : Sound s) (hdest : Slot.isInteger dest.toNat = true)
    (hsrc : s.value? src = none) (hread : j.readSlots = [src.toNat])
    (hwrite : j.writeSlots = [dest.toNat]) (c? : Option Word) :
    (s.derive dest src >>= fun s => s.pushWith j c?) = s.emit j c? := by
  have hforget : (if dest = src then s else s.forget dest) = s.forget dest := by
    split
    · rename_i heq
      rw [heq, forget_of_unknown hs hsrc]
    · rfl
  have hderive : s.derive dest src = .ok (s.forget dest) := by
    rw [derive, hforget]
    refine flush_of_synced (Or.inr (Or.inl ?_))
    by_cases h0 : dest = 0
    · rwa [forget, if_pos h0]
    · rw [value?_forget h0]
      split
      · rfl
      · exact hsrc
  have hbytes : integerBytes [dest.toNat] = [dest] :=
    (integerBytes_singleton dest).trans (if_pos hdest)
  rw [hderive, emit_eq, emitAfter, hread, hwrite, hbytes, flushes_of_unknown hsrc]
  rfl

/-! ## Rules -/

/-- A result that is computed while folding. -/
theorem repeats_learnt {e : Except Fault Word} (h : Repeats s)
    (hdest : Slot.isInteger dest.toNat = true)
    (he : (e >>= fun w => .ok (s.learn dest w)) = .ok s') : Repeats s' := by
  obtain ⟨w, -, hw⟩ := bind_eq_ok.mp he
  rw [← Except.ok.inj hw]
  exact repeats_learn h hdest w

/-- The form with a constant is read as arithmetic on a register and a constant. -/
theorem fold_constForm (h : op.constForm? = some form) :
    u.fold { op := form, dest := dest, src1 := src } (some w)
      = u.constArithmetic { op := form, dest := dest, src1 := src } w := by
  cases op <;> cases h <;> rfl

theorem constForm_rules (h : op.constForm? = some form) :
    (form = .andConst ↔ op = .and) ∧ zeroIsMove form = zeroIsMove op := by
  cases op <;> cases h <;> decide

theorem constArithmetic_of_unknown (hv : u.value? i.src1 = none)
    (hand : ¬(i.op = .andConst ∧ c = 0)) (hmove : ¬(c = 0 ∧ zeroIsMove i.op = true)) :
    u.constArithmetic i c = u.emit i (some c) := by
  rw [constArithmetic, if_neg hand, hv]
  exact if_neg hmove

/-- Copying a register that is not known. -/
theorem repeats_move (h : Repeats s) (hdest : Slot.isInteger dest.toNat = true)
    (hsrc : s.value? src = none)
    (he : (s.derive dest src >>= fun s => .ok (s.move dest src)) = .ok s') : Repeats s' := by
  by_cases heq : dest = src
  · subst heq
    rw [derive_self hsrc] at he
    have hs' : s.move dest dest = s' := Except.ok.inj he
    rw [← hs', move, if_pos rfl]
    exact h
  · have hmove : ∀ t : Folding,
        t.move dest src = t.push { op := .mov, dest := dest, src1 := src } := fun t => if_neg heq
    simp only [hmove] at he
    refine repeats_emit (j := { op := .mov, dest := dest, src1 := src }) h
      ((derive_pushWith h.1 hdest hsrc rfl rfl none).symm.trans he) (fun _ => rfl) fun u hu => ?_
    show (if dest = src then _ else u.specialize _ _) = _
    rw [if_neg heq, specialize, hu.unknown hsrc]

/-- Arithmetic with one operand that is known: a copy, or the form with a constant. The conjunction
with zero has been folded before, and would be again. -/
theorem repeats_partlyKnown (h : Repeats s) (hdest : Slot.isInteger dest.toNat = true)
    (hsrc : s.value? src = none) (hform : op.constForm? = some form) (hand : ¬(op = .and ∧ w = 0))
    (he : s.partlyKnown op dest src w = .ok s') : Repeats s' := by
  obtain ⟨-, hsig, -, -⟩ := constForm_spec hform
  obtain ⟨hiff, hmove⟩ := constForm_rules hform
  unfold partlyKnown at he
  by_cases hzero : w = 0 ∧ zeroIsMove op = true
  · simp only [if_pos hzero] at he
    exact repeats_move h hdest hsrc he
  · have hfield : form.constField? = some .src2 := by
      rw [Opcode.constField?, hsig]
      rfl
    have hconst : ∀ t : Folding, t.constOp op dest src w
        = t.pushWith { op := form, dest := dest, src1 := src } (some w) := by
      intro t
      rw [constOp, hform]
      simp only
      rw [Block.pushConst_eq hfield]
      rfl
    have hread : ({ op := form, dest := dest, src1 := src } : Inst).readSlots = [src.toNat] := by
      rw [Inst.readSlots, hsig]
      rfl
    have hwrite : ({ op := form, dest := dest, src1 := src } : Inst).writeSlots = [dest.toNat] := by
      rw [Inst.writeSlots, hsig]
      rfl
    simp only [if_neg hzero, hconst] at he
    refine repeats_emit h ((derive_pushWith h.1 hdest hsrc hread hwrite (some w)).symm.trans he)
      (absurd · (Option.some_ne_none _)) fun u hu => ?_
    rw [fold_constForm hform]
    exact constArithmetic_of_unknown (hu.unknown hsrc) (fun h => hand ⟨hiff.mp h.1, h.2⟩)
      (by rwa [hmove])

theorem swapTowardDest_swap (i : Inst) : swapTowardDest (swapTowardDest i) = swapTowardDest i := by
  by_cases h : i.src2 = i.dest ∧ i.src1 ≠ i.src2
  · have hswap : swapTowardDest i = { i with src1 := i.src2, src2 := i.src1 } := if_pos h
    rw [hswap]
    exact if_neg fun h' => h'.2 (h.1.trans h'.1.symm)
  · have hsame : swapTowardDest i = i := if_neg h
    rw [hsame, hsame]

/-- Arithmetic with an unknown second operand, and an unknown first one if it could be turned
round. -/
theorem arithmetic_of_unknown (hturned : isSymmetric j.op = true → swapTowardDest j = j)
    (h₂ : u.value? j.src2 = none) (h₁ : isSymmetric j.op = true → u.value? j.src1 = none) :
    u.arithmetic j = u.emit j none := by
  have hj : (if isSymmetric j.op then swapTowardDest j else j) = j := by
    split
    · rename_i hsym
      exact hturned hsym
    · rfl
  unfold arithmetic
  simp only [hj, h₂]
  cases hv : u.value? j.src1 with
  | none =>
    simp only [reduceCtorEq, or_self, and_false, if_false]
  | some a =>
    have hsym : ¬isSymmetric j.op = true := fun hsym => nomatch hv.symm.trans (h₁ hsym)
    have hand : j.op ≠ .and := by
      intro hop
      rw [hop] at hsym
      exact hsym rfl
    simp only [hand, false_and, if_false, hsym]
    rfl

/-- The instruction that arithmetic works with: turned round, if it may be, when that puts the
destination first. -/
structure Turned (i j : Inst) : Prop where
  op : j.op = i.op
  dest : j.dest = i.dest
  settled : isSymmetric j.op = true → swapTowardDest j = j
  same : isSymmetric i.op = false → j = i

theorem turned_swap (i : Inst) : Turned i (if isSymmetric i.op then swapTowardDest i else i) := by
  by_cases hsym : isSymmetric i.op = true
  · rw [if_pos hsym]
    have hop : (swapTowardDest i).op = i.op ∧ (swapTowardDest i).dest = i.dest := by
      rcases swapTowardDest_cases i with h | h <;> rw [h] <;> exact ⟨rfl, rfl⟩
    exact ⟨hop.1, hop.2, fun _ => swapTowardDest_swap i, fun h => nomatch hsym.symm.trans h⟩
  · rw [if_neg hsym]
    exact ⟨rfl, rfl, fun h => absurd h hsym, fun _ => rfl⟩

/-- Arithmetic on two registers. It is emitted only when the second operand is not known, and then
with its operands in the order in which the next run leaves them. -/
theorem repeats_arithmetic (h : Repeats s) (hdest : Slot.isInteger i.dest.toNat = true)
    (hform : i.op.constForm? = some form)
    (hagain : ∀ j u, Turned i j → Fainter u s (integerBytes j.readSlots) →
      s.value? j.src2 = none → u.fold j none = u.arithmetic j)
    (he : s.arithmetic i = .ok s') : Repeats s' := by
  unfold arithmetic at he
  simp only at he
  have hturned := turned_swap i
  generalize (if isSymmetric i.op = true then swapTowardDest i else i) = j at hturned he
  have hconst : j.op.constField? = none := by
    obtain ⟨hsig, -⟩ := constForm_spec hform
    rw [hturned.op, Opcode.constField?, hsig]
    rfl
  -- what has to be emitted is emitted when it is read again
  have hemit : s.value? j.src2 = none → (isSymmetric j.op = true → s.value? j.src1 = none) →
      s.emit j none = .ok s' → Repeats s' := by
    intro h₂ h₁ he
    refine repeats_emit h he (fun _ => hconst) fun u hu => ?_
    rw [hagain j u hturned hu h₂]
    exact arithmetic_of_unknown hturned.settled (hu.unknown h₂) fun hsym => hu.unknown (h₁ hsym)
  rw [← hturned.dest] at hdest
  rw [← hturned.op] at hform
  cases h₁ : s.value? j.src1 with
  | none =>
    cases h₂ : s.value? j.src2 with
    | none =>
      simp only [h₁, h₂, reduceCtorEq, or_self, and_false, if_false] at he
      exact hemit h₂ (fun _ => h₁) he
    | some b =>
      simp only [h₁, h₂, reduceCtorEq, false_or, Option.some.injEq] at he
      split at he
      · rw [← Except.ok.inj he]
        exact repeats_learn h hdest 0
      · rename_i hand
        exact repeats_partlyKnown h hdest h₁ hform hand he
  | some a =>
    cases h₂ : s.value? j.src2 with
    | none =>
      simp only [h₁, h₂, reduceCtorEq, or_false, Option.some.injEq] at he
      split at he
      · rw [← Except.ok.inj he]
        exact repeats_learn h hdest 0
      · rename_i hand
        split at he
        · exact repeats_partlyKnown h hdest h₂ hform hand he
        · rename_i hsym
          exact hemit h₂ (fun h => absurd h hsym) he
    | some b =>
      simp only [h₁, h₂] at he
      exact repeats_learnt h hdest he

/-- Subtraction: from zero it is a negation, and of a register from itself it is zero. -/
theorem repeats_subtraction (h : Repeats s) (hop : i.op = .sub)
    (hdest : Slot.isInteger i.dest.toNat = true) (he : s.subtraction i = .ok s') : Repeats s' := by
  unfold subtraction at he
  split at he
  · rename_i hneg
    refine repeats_emit (j := { op := .neg, dest := i.dest, src1 := i.src2 }) h
      ((derive_pushWith h.1 hdest hneg.2 rfl rfl none).symm.trans he) (fun _ => rfl) fun u hu => ?_
    show u.specialize _ _ = _
    rw [specialize, hu.unknown hneg.2]
  · rename_i hneg
    split at he
    · rw [← Except.ok.inj he]
      exact repeats_learn h hdest 0
    · rename_i hne
      have hform : i.op.constForm? = some .subConst := by
        rw [hop]
        rfl
      refine repeats_arithmetic h hdest hform (fun j u hturned hu h₂ => ?_) he
      obtain rfl : j = i := hturned.same (by rw [hop]; rfl)
      have hread : j.src1.toNat ∈ j.readSlots := by
        rw [Inst.readSlots, hop]
        exact List.mem_cons_self
      have hnonzero : ¬(u.value? j.src1 = some 0 ∧ u.value? j.src2 = none) := fun hzero =>
        hneg ⟨hu.read h.1 hread hzero.1, h₂⟩
      have hfold : u.fold j none = u.subtraction j := by
        obtain ⟨op, dest, src1, src2⟩ := j
        cases hop
        rfl
      rw [hfold, subtraction, if_neg hnonzero, if_neg hne]

/-- Arithmetic on a register and a constant. -/
theorem repeats_constArithmetic (h : Repeats s) (hdest : Slot.isInteger i.dest.toNat = true)
    (hfold : ∀ u : Folding, u.fold i (some c) = u.constArithmetic i c)
    (he : s.constArithmetic i c = .ok s') : Repeats s' := by
  unfold constArithmetic at he
  split at he
  · rw [← Except.ok.inj he]
    exact repeats_learn h hdest 0
  · rename_i hand
    cases hv : s.value? i.src1 with
    | some a =>
      simp only [hv] at he
      exact repeats_learnt h hdest he
    | none =>
      simp only [hv] at he
      split at he
      · exact repeats_move h hdest hv he
      · rename_i hmove
        refine repeats_emit h he (absurd · (Option.some_ne_none _)) fun u hu => ?_
        rw [hfold u]
        exact constArithmetic_of_unknown (hu.unknown hv) hand hmove

/-- An instruction with a form of its own for a known source. -/
theorem repeats_specialize {known : Word → Except Fault Folding} (h : Repeats s)
    (hconst : i.op.constField? = none) (hknown : ∀ a s', known a = .ok s' → Repeats s')
    (hfold : ∀ u : Folding, ∃ known', u.fold i none = u.specialize i known')
    (he : s.specialize i known = .ok s') : Repeats s' := by
  unfold specialize at he
  split at he
  · exact hknown _ _ he
  · rename_i hv
    refine repeats_emit h he (fun _ => hconst) fun u hu => ?_
    obtain ⟨known', hknown'⟩ := hfold u
    rw [hknown', specialize, hu.unknown hv]

theorem fold_immShift {op : Opcode} (h : op.immShift? = some form) {k : UInt8} :
    u.fold { op := form, dest := dest, src1 := src, src2 := k } none
      = u.specialize { op := form, dest := dest, src1 := src, src2 := k }
          fun a => do return u.learn dest (← Alu.evaluate2 form a k.toUInt32) := by
  cases op <;> cases h <;> rfl

/-- A shift by a register: by a known amount it becomes the shift by an immediate. -/
theorem repeats_shift (h : Repeats s) (hform : i.op.immShift? = some form)
    (hdest : Slot.isInteger i.dest.toNat = true) (he : s.shift i = .ok s') : Repeats s' := by
  obtain ⟨hsig, hformsig, -⟩ := immShift_spec hform
  have hfold : ∀ u : Folding, u.fold i none = u.shift i := by
    intro u
    obtain ⟨op, dest, src1, src2⟩ := i
    cases op <;> cases hform <;> rfl
  have hconst : i.op.constField? = none := by
    rw [Opcode.constField?, hsig]
    rfl
  have hemit : s.value? i.src2 = none → s.emit i none = .ok s' → Repeats s' := by
    intro h₂ he
    refine repeats_emit h he (fun _ => hconst) fun u hu => ?_
    rw [hfold u]
    unfold shift
    rw [hu.unknown h₂]
    cases u.value? i.src1 <;> rfl
  unfold shift at he
  cases h₂ : s.value? i.src2 with
  | none =>
    cases h₁ : s.value? i.src1 <;> simp only [h₁, h₂] at he <;> exact hemit h₂ he
  | some b =>
    cases h₁ : s.value? i.src1 with
    | some a =>
      simp only [h₁, h₂] at he
      exact repeats_learnt h hdest he
    | none =>
      simp only [h₁, h₂, hform] at he
      split at he
      · exact repeats_move h hdest h₁ he
      · have hread : ∀ k, (Inst.mk form i.dest i.src1 k).readSlots = [i.src1.toNat] := by
          intro k
          rw [Inst.readSlots, hformsig]
          rfl
        have hwrite : ∀ k, (Inst.mk form i.dest i.src1 k).writeSlots = [i.dest.toNat] := by
          intro k
          rw [Inst.writeSlots, hformsig]
          rfl
        refine repeats_emit h
          ((derive_pushWith h.1 hdest h₁ (hread _) (hwrite _) none).symm.trans he)
          (fun _ => ?_) fun u hu => ?_
        · rw [Opcode.constField?, hformsig]
          rfl
        · rw [fold_immShift hform, specialize, hu.unknown h₁]

/-- An access with a base that is known, and one with a base that is not. -/
theorem repeats_access (h : Repeats s) (hagain : ∀ (u : Folding) (src1 : UInt8) (c : Word),
      u.fold { i with src1 := src1 } (some c) = u.emit { i with src1 := src1 } (some c) ∨
      u.fold { i with src1 := src1 } (some c) = u.access { i with src1 := src1 } c)
    (he : s.access i c = .ok s') : Repeats s' := by
  unfold access at he
  cases hv : s.value? i.src1 with
  | some base =>
    simp only [hv] at he
    refine repeats_emit h he (absurd · (Option.some_ne_none _)) fun u hu => ?_
    rcases hagain u 0 (base + c) with hsame | haccess
    · exact hsame
    · -- slot zero is known to be zero
      rw [haccess, access, hu.zero]
      simp only [UInt32.zero_add]
  | none =>
    simp only [hv] at he
    refine repeats_emit h he (absurd · (Option.some_ne_none _)) fun u hu => ?_
    rcases hagain u i.src1 c with hsame | haccess
    · exact hsame
    · exact haccess.trans (by rw [access, hu.unknown hv])

/-- Leaving for a constant address. -/
theorem repeats_leave (h : Repeats s) (target : Word) (he : s.leave target = .ok s') :
    Repeats s' := by
  have hleave : s.leave target = s.emitExit { op := .exitToConst } (some target) := rfl
  rw [hleave] at he
  refine repeats_emitExit h he (absurd · (Option.some_ne_none _)) fun u hu => ?_
  show (if u.dropExit = true then _ else _) = _
  rw [hu.live, if_neg Bool.false_ne_true]

/-- What a state knows that knows less decides no exit that was open. -/
theorem Fainter.outcome?_none (h : Fainter u s l) (ho : s.outcome? i = none) :
    u.outcome? i = none := by
  have hknown : ∀ q a, u.value? q = some a → ∃ b, s.value? q = some b := by
    intro q a ha
    refine Option.ne_none_iff_exists'.mp fun hnone => ?_
    exact nomatch ha.symm.trans (h.unknown hnone)
  unfold outcome? at ho ⊢
  split
  · rename_i hcond hsig ha hb
    obtain ⟨a', ha'⟩ := hknown _ _ ha
    obtain ⟨b', hb'⟩ := hknown _ _ hb
    rw [hcond, hsig, ha', hb'] at ho
    exact nomatch ho
  · rename_i hcond hsig ha
    obtain ⟨a', ha'⟩ := hknown _ _ ha
    rw [hcond, hsig, ha'] at ho
    exact nomatch ho
  · rfl

/-- A conditional exit: it goes when it is not taken, is an exit to a constant when it is, and is
emitted when that is not known. -/
theorem repeats_decide (h : Repeats s)
    (hfold : ∀ u : Folding, u.fold i (some c) = u.decide? i c (u.outcome? i))
    (he : s.decide? i c (s.outcome? i) = .ok s') : Repeats s' := by
  cases ho : s.outcome? i with
  | none =>
    rw [ho] at he
    refine repeats_emitExit h he (absurd · (Option.some_ne_none _)) fun u hu => ?_
    rw [hfold, hu.outcome?_none ho]
    rfl
  | some outcome =>
    cases outcome with
    | true =>
      rw [ho] at he
      obtain ⟨s₁, h₁, he⟩ := bind_eq_ok.mp he
      rw [← pure_eq_ok.mp he]
      exact repeats_setDropExit (repeats_leave h c h₁) true
    | false =>
      rw [ho] at he
      rw [← Except.ok.inj he]
      exact h

/-- A constant that is appended without flushing or forgetting. -/
theorem repeats_pushWith (h : Repeats s) (hread : j.readSlots = [])
    (hfold : ∀ u : Folding, u.fold j (some c) = u.emit j (some c))
    (he : s.pushWith j (some c) = .ok s') : Repeats s' := by
  obtain ⟨b, hpush, he⟩ := bind_eq_ok.mp he
  rw [← pure_eq_ok.mp he]
  refine repeats_append (l := []) h rfl h.1 rfl
    (fun t ht => ht.foldl_forget_right _) hpush (absurd · (Option.some_ne_none _)) fun u _ => ?_
  rw [hfold, emit_eq, hread]
  rfl

theorem fold_swapped (h : i.op = .fAdd ∨ i.op = .fMul) :
    u.fold i none = u.emit (swapTowardDest i) none := by
  obtain ⟨op, dest, src1, src2⟩ := i
  rcases h with rfl | rfl <;> rfl

/-- **One instruction.** -/
theorem repeats_fold (h : Repeats s) (hi : c? = none → i.op.constField? = none)
    (hdest : ∀ r ∈ i.destGpr, Slot.isInteger r.toNat = true)
    (he : s.fold i c? = .ok s') : Repeats s' := by
  have hemit : (∀ u : Folding, u.fold i c? = u.emit i c?) → s.emit i c? = .ok s' → Repeats s' :=
    fun hfold he => repeats_emit h he hi fun u _ => hfold u
  have hemitExit : (∀ u : Folding, u.fold i c? = u.emitExit i c?) → s.emitExit i c? = .ok s' →
      Repeats s' :=
    fun hfold he => repeats_emitExit h he hi fun u _ => hfold u
  obtain ⟨op, dest, src1, src2⟩ := i
  cases op
  case setConst =>
    rw [← Except.ok.inj he]
    exact repeats_learn h (hdest dest rfl) _
  case sub => exact repeats_subtraction h rfl (hdest dest rfl) he
  -- opcodes that can be folded, in the order of `fold`
  case add | and | or | xor | slt | sltU =>
    refine repeats_arithmetic h (hdest dest rfl) rfl (fun j u hturned _ _ => ?_) he
    obtain ⟨op, dest', src1', src2'⟩ := j
    cases hturned.op
    rfl
  case addConst | subConst | andConst | orConst | xorConst | sltConst | sltUConst =>
    exact repeats_constArithmetic h (hdest dest rfl) (fun u => rfl) he
  case shl | shr | sar | ror => exact repeats_shift h rfl (hdest dest rfl) he
  case neg | not | bSwap16 | bSwap32 | ext8to32 | ext16to32 | reverseBits | clz | shlImm | shrImm
    | sarImm | rorImm =>
    exact repeats_specialize h rfl (fun a s' ha => repeats_learnt h (hdest dest rfl) ha)
      (fun u => ⟨_, rfl⟩) he
  case mov =>
    unfold fold at he
    simp only at he
    split at he
    · rw [← Except.ok.inj he]
      exact h
    · rename_i hne
      refine repeats_specialize (i := ⟨.mov, dest, src1, src2⟩) h rfl (fun a s' ha => ?_)
        (fun u => ⟨_, if_neg hne⟩) he
      rw [← Except.ok.inj ha]
      exact repeats_learn h (hdest dest rfl) a
  case fMovFromGPR =>
    refine repeats_specialize h rfl (fun a s' ha => ?_) (fun u => ⟨_, rfl⟩) he
    exact repeats_pushWith (j := { op := .setConstF, dest := dest }) h rfl (fun u => rfl) ha
  case setPC =>
    refine repeats_specialize h rfl (fun a s' ha => ?_) (fun u => ⟨_, rfl⟩) he
    exact repeats_pushWith h rfl (fun u => rfl) ha
  case setCtrlVFPUReg =>
    refine repeats_specialize h rfl (fun a s' ha => ?_) (fun u => ⟨_, rfl⟩) he
    exact repeats_emit h ha (absurd · (Option.some_ne_none _)) fun u _ => rfl
  case fpCondToReg =>
    unfold fold at he
    simp only at he
    split at he
    · rw [← Except.ok.inj he]
      exact repeats_learn h (hdest dest rfl) _
    · rename_i hv
      refine repeats_emit h he (fun _ => rfl) fun u hu => ?_
      unfold fold
      simp only
      rw [hu.unknown hv]
  case store8 | store16 | store32 | store32Left | store32Right | store32Conditional | load8
    | load8Ext | load16 | load16Ext | load32 | load32Linked =>
    unfold fold at he
    simp only at he
    split at he
    · rename_i heq
      exact hemit (fun u => if_pos heq) he
    · refine repeats_access h (fun u q c => ?_) he
      by_cases heq : q = dest
      · exact Or.inl (if_pos heq)
      · exact Or.inr (if_neg heq)
  case load32Left | load32Right | loadFloat | loadVec4 | storeFloat | storeVec4 =>
    exact repeats_access h (fun u q c => Or.inr rfl) he
  case fAdd | fMul =>
    refine repeats_emit h he (fun _ => ?_) fun u _ => ?_
    · unfold swapTowardDest
      split <;> rfl
    · refine (fold_swapped ?_).trans (by rw [swapTowardDest_swap])
      unfold swapTowardDest
      split <;> simp only [true_or, or_true]
  case exitToConstIfEq | exitToConstIfNeq | exitToConstIfGtZ | exitToConstIfGeZ | exitToConstIfLtZ
    | exitToConstIfLeZ =>
    exact repeats_decide h (fun u => rfl) he
  case exitToConst =>
    unfold fold at he
    simp only at he
    split at he
    · rw [← Except.ok.inj he]
      exact repeats_setDropExit h false
    · refine repeats_emitExit h he hi fun u hu => ?_
      unfold fold
      simp only
      rw [hu.live, if_neg Bool.false_ne_true]
  case exitToReg =>
    unfold fold at he
    simp only at he
    split at he
    · exact repeats_leave h _ he
    · rename_i hv
      refine repeats_emitExit h he (fun _ => rfl) fun u hu => ?_
      unfold fold
      simp only
      rw [hu.unknown hv]
  case syscall | exitToPC | nop => exact hemitExit (fun u => rfl) he
  -- all others are emitted as they are
  all_goals exact hemit (fun u => rfl) he

end Folding

/-! ## Whole blocks -/

open Folding

variable {s s' : Folding} {b q source : Block} {cap limit : Nat}

theorem pool_appendAll {b b' : Block} (is : List Inst) (h : b.appendAll source is = .ok b') :
    b.pool.size ≤ b'.pool.size := by
  induction is generalizing b with
  | nil =>
    cases pure_eq_ok.mp h
    exact Nat.le_refl _
  | cons i is ih =>
    obtain ⟨b₁, h₁, h⟩ := bind_eq_ok.mp h
    obtain ⟨c?, -, hpush⟩ := bind_eq_ok.mp h₁
    exact Nat.le_trans (pool_pushWith hpush).length_le (ih h)

/-- **The walk over a block** whose pool stays below the limit. -/
theorem repeats_walk (is : List Inst) (h : Repeats s)
    (hdest : ∀ i ∈ is, ∀ r ∈ i.destGpr, Slot.isInteger r.toNat = true)
    (hwalk : walk source limit is s = .ok s') (hsize : s'.out.pool.size ≤ limit) : Repeats s' := by
  induction is generalizing s with
  | nil =>
    rw [← Except.ok.inj hwalk]
    exact h
  | cons i is ih =>
    rw [walk] at hwalk
    split at hwalk
    · -- the limit was passed, and the pool has only grown since
      rename_i hlimit
      obtain ⟨s₁, hflush, hwalk⟩ := bind_eq_ok.mp hwalk
      obtain ⟨out, hout, hwalk⟩ := bind_eq_ok.mp hwalk
      rw [← pure_eq_ok.mp hwalk] at hsize
      have hflushed : s.out.pool.size ≤ s₁.out.pool.size := pool_flushes flushOrder hflush
      have hrest : s₁.out.pool.size ≤ out.pool.size := pool_appendAll _ hout
      replace hsize : out.pool.size ≤ limit := hsize
      omega
    · obtain ⟨c?, hc, hwalk⟩ := bind_eq_ok.mp hwalk
      obtain ⟨s₁, hfold, hwalk⟩ := bind_eq_ok.mp hwalk
      refine ih (repeats_fold h (fun hnone => ?_) (hdest i List.mem_cons_self) hfold)
        (fun j hj => hdest j (List.mem_cons_of_mem i hj)) hwalk
      rw [hnone] at hc
      exact Block.constantOf_eq_none hc

theorem repeats_start : Repeats {} := by
  have hrelated : Related {} ⟨{}, ⟨#[]⟩⟩ ⟨{}, ⟨#[]⟩⟩ :=
    related_start (Vector.getElem_replicate (by decide))
  have hplaced : ∀ r, ({} : Folding).placed? r = none := fun r =>
    Vector.getElem_replicate r.toNat_lt
  have hvalue : ∀ r, r ≠ 0 → ({} : Folding).value? r = none := fun r hr =>
    (PerSlot.at_put (Vector.replicate 256 none) 0 r (some 0)).trans
      ((if_neg hr).trans (hplaced r))
  refine ⟨⟨hrelated.unplaced, rfl, hrelated.float, Block.canonical_empty⟩, {}, replayed_empty,
    rfl, fun r hr => ?_, fun r w hr hw => ?_, rfl, rfl⟩
  · rw [hplaced, hvalue r hr]
  · exact nomatch (hvalue r hr).symm.trans hw

theorem asDouble_eq_ok {n k : Nat} (h : asDouble n = .ok k) : k = n := by
  unfold asDouble at h
  split at h
  · exact (Except.ok.inj h).symm
  · exact nomatch h

/-- The output of a run whose pool did not pass the limit is built again by the next run. -/
theorem run_output (h : run cap b = .ok q)
    (hdest : ∀ i ∈ b.insts, ∀ r ∈ i.destGpr, Slot.isInteger r.toNat = true)
    (hsize : q.pool.size ≤ b.pool.size + cap) (hbound : q.pool.size + cap < doubleWords) :
    run cap q = .ok q := by
  obtain ⟨limit, hlimit, h⟩ := bind_eq_ok.mp h
  obtain ⟨s, hwalk, h⟩ := bind_eq_ok.mp h
  obtain ⟨s', hflush, h⟩ := bind_eq_ok.mp h
  cases pure_eq_ok.mp h
  rw [← asDouble_eq_ok hlimit] at hsize
  obtain ⟨hs, t, hreplay, hecho⟩ :=
    repeats_walk b.insts repeats_start hdest hwalk (Nat.le_trans (pool_flushes _ hflush) hsize)
  obtain ⟨g, t', -, hset, hagain, hecho'⟩ := flush_again flushOrder hflush hecho
  have hsame : t.out.pool.size ≤ s.out.pool.size := Nat.le_of_eq (by rw [hecho.out])
  obtain ⟨hreplay', -⟩ := replayed_setConsts g hreplay hs.canonical hsame hset
  -- the second run ends where the first one did, and flushes what it flushed
  have hsecond : walk s'.out (s'.out.pool.size + cap) s'.out.insts {} = .ok (t.learnAll g) := by
    have hend := hreplay'.walk_append s'.out (s'.out.pool.size + cap) [] List.prefix_rfl
      (Nat.le_add_right _ _)
    rwa [List.append_nil] at hend
  refine bind_eq_ok.mpr ⟨_, if_pos hbound, bind_eq_ok.mpr ⟨_, hsecond, ?_⟩⟩
  exact bind_eq_ok.mpr ⟨t', hagain, congrArg Except.ok hecho'.out⟩

/-- **Constant propagation is idempotent on its own output**, where every integer destination is an
integer slot and the pool has not passed the limit: propagating the constants of the output once
more gives the same instructions and the same pool and reports no change. The limit of the second
run has to be a double word again. -/
theorem run_idempotent (h : run cap b = .ok q)
    (hdest : ∀ i ∈ b.insts, ∀ r ∈ i.destGpr, Slot.isInteger r.toNat = true)
    (hsize : q.pool.size ≤ b.pool.size + cap) (hbound : q.pool.size + cap < doubleWords) :
    Pass.constantPropagation.run cap q = .ok (q, false) := by
  show (run cap q >>= fun out => pure (out, out != q)) = _
  rw [run_output h hdest hsize hbound]
  show Except.ok (q, q != q) = _
  rw [bne_self_eq_false]

/-- A constant that is folded into one instruction and needed by none: it moves to the end of the
block, and stays there. -/
theorem run_idempotent_moved :
    let b : Block := ⟨[⟨.setConst, 1, 0, 0⟩, ⟨.add, 2, 3, 1⟩, ⟨.not, 4, 1, 0⟩], ⟨[5]⟩⟩
    let q : Block := ⟨[⟨.addConst, 2, 3, 0⟩, ⟨.setConst, 1, 0, 0⟩, ⟨.setConst, 4, 1, 0⟩],
      ⟨[5, 0xfffffffa]⟩⟩
    run 128 b = .ok q ∧ q.pool.size ≤ b.pool.size + 128 ∧
      Pass.constantPropagation.run 128 q = .ok (q, false) := by
  intro b q
  have hrun : run 128 b = .ok q := by
    rw [← runTable_eq]
    decide
  have hdest : ∀ i ∈ b.insts, ∀ r ∈ i.destGpr, Slot.isInteger r.toNat = true := by
    decide
  exact ⟨hrun, by decide, run_idempotent hrun hdest (by decide) (by decide)⟩

/-- **Neither condition can be dropped.** A move into a float slot is not seen to change what is
known of it, so that the second run uses a constant that is no longer there. And a limit that is
just below a double word is too large for an output with more constants. -/
theorem run_idempotent_fails :
    (let b : Block := ⟨[⟨.setConst, 40, 0, 0⟩, ⟨.exitToConstIfEq, 1, 5, 6⟩, ⟨.addConst, 40, 1, 2⟩,
        ⟨.add, 2, 40, 3⟩], ⟨[5, 0x100, 0]⟩⟩
      ∃ q, b.InRange ∧ run 128 b = .ok q ∧ q.pool.size ≤ b.pool.size + 128 ∧
        Pass.constantPropagation.run 128 q ≠ .ok (q, false)) ∧
    (let b : Block := ⟨[⟨.setConst, 1, 0, 0⟩, ⟨.not, 2, 1, 0⟩], ⟨[5]⟩⟩
      let cap := doubleWords - 2
      ∃ q, b.InRange ∧ run cap b = .ok q ∧ q.pool.size ≤ b.pool.size + cap ∧
        Pass.constantPropagation.run cap q ≠ .ok (q, false)) := by
  have hpass : ∀ {cap : Nat} {q : Block}, runTable cap q ≠ .ok q →
      Pass.constantPropagation.run cap q ≠ .ok (q, false) := by
    intro cap q hne hrun
    rw [runTable_eq] at hne
    exact hne (Pass.run_unchanged_iff.mp hrun)
  refine ⟨⟨⟨[⟨.setConst, 40, 0, 0⟩, ⟨.exitToConstIfEq, 1, 5, 6⟩, ⟨.mov, 40, 1, 0⟩,
    ⟨.add, 2, 40, 3⟩], ⟨[5, 0x100]⟩⟩, by decide, ?_, by decide, hpass (by decide)⟩,
    ⟨⟨[⟨.setConst, 1, 0, 0⟩, ⟨.setConst, 2, 1, 0⟩], ⟨[5, 0xfffffffa]⟩⟩, by decide, ?_, by decide,
      hpass (by decide)⟩⟩
  all_goals
    rw [← runTable_eq]
    decide

end Dynarec.Optimize.ConstantPropagation
