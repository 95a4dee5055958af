/-
What the fold does to the block being built.

The fold never looks at the block that it builds. What it knows decides which instructions it
appends, each with a constant or without, and what it knows then; the block decides only where the
constants go, and whether there is room for them. `Did` lists the few things that can happen on the
way, and `Composed` says of a step that this is all it does, whatever has been built. The opcodes
are gone through once (`composed_fold`), and what is true of these few things is then true of the
pass: of what it builds on, of the words that it asks for, and of the pool that it leaves.

Of the instructions that are appended some are new, and some flush a value that is known. A new one
is as good as the instruction that is folded (`Inherits`), and all new ones have the same word for
their constant. It is also the only word that is learnt: the constant of the instruction, or the
result of its operation on known words.
-/
import Dynarec.Proofs.Optimize.ConstantPropagation

set_option autoImplicit false

namespace Dynarec

/-- Append several instructions, each with the given constant. -/
def Block.pushAll (b : Block) (l : List (Inst × Option Word)) : Except Fault Block :=
  l.foldlM (fun b p => b.pushWith p.1 p.2) b

theorem Block.pushAll_append (b : Block) (l l' : List (Inst × Option Word)) :
    b.pushAll (l ++ l') = b.pushAll l >>= fun b => b.pushAll l' :=
  List.foldlM_append

theorem Block.pushAll_singleton (b : Block) (p : Inst × Option Word) :
    b.pushAll [p] = b.pushWith p.1 p.2 := by
  rw [pushAll, List.foldlM_cons]
  exact bind_pure _

theorem Block.pushAll_cons (b : Block) (p : Inst × Option Word) (l : List (Inst × Option Word)) :
    b.pushAll (p :: l) = b.pushWith p.1 p.2 >>= fun b => b.pushAll l :=
  List.foldlM_cons

namespace Optimize.ConstantPropagation.Folding

/-- Instructions that the pass may append. -/
def Appendable (j : Inst) : Prop := Eligible j ∧ j.op ≠ .nop

/-- There is no constant for an instruction that has none. -/
def Fielded (p : Inst × Option Word) : Prop := p.2 = none ∨ p.1.op.constField?.isSome = true

/-- There is a constant for an instruction that has one. -/
def Filled (p : Inst × Option Word) : Prop := p.2 = none → p.1.op.constField? = none

/-- One instruction with its constant is as good as another. -/
structure Inherits (p q : Inst × Option Word) : Prop where
  appendable : Appendable p.1 → Appendable q.1
  fielded : Fielded p → Fielded q
  filled : Filled p → Filled q

/-- An instruction without a constant. -/
theorem inherits_plain {p : Inst × Option Word} {j : Inst} (h : Appendable p.1 → Appendable j)
    (hj : j.op.constField? = none) : Inherits p (j, none) :=
  ⟨h, fun _ => Or.inl rfl, fun _ _ => hj⟩

/-- An instruction with a constant. -/
theorem inherits_constant {p : Inst × Option Word} {j : Inst} {c : Word}
    (h : Appendable p.1 → Appendable j) (hj : j.op.constField?.isSome = true) :
    Inherits p (j, some c) :=
  ⟨h, fun _ => Or.inr hj, nofun⟩

/-- What the fold of an instruction `p` can do, if it brings no word with it but the one in `v?`:
from a state it gets to another, and the listed instructions are appended on the way. -/
inductive Did (p : Inst × Option Word) (v? : Option Word) :
    Folding → List (Inst × Option Word) → Folding → Prop where
  | nothing (s : Folding) : Did p v? s [] s
  | andThen {s t u : Folding} {l l' : List (Inst × Option Word)} (h : Did p v? s l t)
      (h' : Did p v? t l' u) : Did p v? s (l ++ l') u
  | learn (s : Folding) {r : UInt8} {v : Word} (hr : Appendable p.1 → Slot.isInteger r.toNat = true)
      (hv : v? = some v) : Did p v? s [] (s.learn r v)
  | forget (s : Folding) (r : UInt8) : Did p v? s [] (s.forget r)
  | setDrop (s : Folding) (drop : Bool) : Did p v? s [] { s with dropExit := drop }
  | append (s : Folding) {q : Inst × Option Word} (hq : Inherits p q)
      (hv : ∀ v, q.2 = some v → v? = some v) : Did p v? s [q] s
  | flush (s : Folding) {r : UInt8} {w : Word} (hr : r ≠ 0) (hw : s.value? r = some w) :
      Did p v? s [({ op := .setConst, dest := r }, some w)] (s.place r w s.out)

/-- The state with another block built so far. -/
def on (s : Folding) (b : Block) : Folding := { s with out := b }

/-- With what is known in `s`, the step does the same on any block that has been built. -/
def Composed (p : Inst × Option Word) (v? : Option Word) (s : Folding)
    (x : Block → Except Fault Folding) : Prop :=
  ∃ l t, Did p v? s l t ∧ ∀ b, x b = b.pushAll l >>= fun b' => .ok (t.on b')

section

variable {p q : Inst × Option Word} {v w : Word} {s : Folding} {i : Inst} {r dest src : UInt8}
  {c? v? : Option Word} {x y : Block → Except Fault Folding} {k : Folding → Except Fault Folding}

theorem Composed.congr (hy : Composed p v? s y) (h : ∀ b, x b = y b) : Composed p v? s x := by
  rw [show x = y from funext h]
  exact hy

theorem composed_bind (h : Composed p v? s x) (hk : ∀ t, Composed p v? t fun b => k (t.on b)) :
    Composed p v? s fun b => x b >>= k := by
  obtain ⟨l, t, hdid, hx⟩ := h
  obtain ⟨l', t', hdid', hk⟩ := hk t
  refine ⟨l ++ l', t', hdid.andThen hdid', fun b => ?_⟩
  beta_reduce
  rw [hx, Block.pushAll_append, bind_assoc, bind_assoc]
  exact congrArg (b.pushAll l >>= ·) (funext hk)

/-- Nothing is appended. -/
theorem composed_of_did {t : Folding} (h : Did p v? s [] t) : Composed p v? s fun b => .ok (t.on b) :=
  ⟨[], t, h, fun _ => rfl⟩

theorem composed_ok : Composed p v? s fun b => .ok (s.on b) := composed_of_did (.nothing s)

/-! ## Appending -/

theorem composed_append (hq : Inherits p q) (hv : ∀ v, q.2 = some v → v? = some v) :
    Composed p v? s fun b => b.pushWith q.1 q.2 >>= fun b => .ok (s.on b) :=
  ⟨[q], s, .append s hq hv, fun b => by rw [Block.pushAll_singleton]⟩

/-- An instruction without a constant. -/
theorem composed_push (h : Appendable p.1 → Appendable i) (hi : i.op.constField? = none) :
    Composed p v? s fun b => .ok ((s.on b).push i) :=
  composed_append (inherits_plain h hi) nofun

/-- An instruction with the word that is brought. -/
theorem composed_constant (h : Appendable p.1 → Appendable i) (hi : i.op.constField?.isSome = true) :
    Composed p (some v) s fun b => b.pushWith i (some v) >>= fun b => .ok (s.on b) :=
  composed_append (inherits_constant h hi) fun _ => id

/-! ## Knowledge -/

theorem learn_on (s : Folding) (r : UInt8) (w : Word) (b : Block) :
    (s.on b).learn r w = (s.learn r w).on b := by
  rw [learn, learn]
  split <;> rfl

theorem forget_on (s : Folding) (r : UInt8) (b : Block) :
    (s.on b).forget r = (s.forget r).on b := by
  rw [forget, forget]
  split <;> rfl

theorem foldl_forget_on (rs : List UInt8) (s : Folding) (b : Block) :
    rs.foldl forget (s.on b) = (rs.foldl forget s).on b := by
  induction rs generalizing s with
  | nil => rfl
  | cons r rs ih => rw [List.foldl_cons, List.foldl_cons, forget_on, ih]

theorem did_forgets (rs : List UInt8) (s : Folding) : Did p v? s [] (rs.foldl forget s) := by
  induction rs generalizing s with
  | nil => exact .nothing s
  | cons r rs ih => exact (Did.forget s r).andThen (ih (s.forget r))

theorem composed_learn (hr : Appendable p.1 → Slot.isInteger r.toNat = true) :
    Composed p (some v) s fun b => .ok ((s.on b).learn r v) :=
  (composed_of_did (.learn s hr rfl)).congr fun b => congrArg _ (learn_on s r v b)

theorem composed_flush (r : UInt8) : Composed p v? s fun b => (s.on b).flush r := by
  unfold flush
  cases hw : s.value? r with
  | none => exact composed_ok.congr fun b => by simp only [show (s.on b).value? r = none from hw]
  | some w =>
    simp only [show ∀ b, (s.on b).value? r = some w from fun _ => hw]
    by_cases hplaced : r = 0 ∨ PerSlot.at s.placed r = some w
    · exact composed_ok.congr fun b => if_pos hplaced
    · refine ⟨_, _, .flush s (fun hr => hplaced (Or.inl hr)) hw, fun b => ?_⟩
      rw [Block.pushAll_singleton]
      exact if_neg hplaced

theorem composed_flushes (rs : List UInt8) : Composed p v? s fun b => rs.foldlM flush (s.on b) := by
  induction rs generalizing s with
  | nil => exact composed_ok
  | cons r rs ih => exact composed_bind (composed_flush r) fun t => ih

theorem composed_flushAll : Composed p v? s fun b => (s.on b).flushAll := composed_flushes flushOrder

/-! ## Emission -/

theorem composed_emit (hq : Inherits p (i, c?)) (hv : ∀ v, c? = some v → v? = some v) :
    Composed p v? s fun b => (s.on b).emit i c? := by
  refine composed_bind (composed_flushes _) fun t => ?_
  have hforget : Composed p v? t fun b =>
      .ok ((integerBytes i.writeSlots).foldl forget (t.on b)) :=
    (composed_of_did (did_forgets _ t)).congr fun b => congrArg _ (foldl_forget_on _ t b)
  exact composed_bind (k := fun t => t.pushWith i c?) hforget fun u => composed_append hq hv

theorem composed_emitExit (hq : Inherits p (i, c?)) (hv : ∀ v, c? = some v → v? = some v) :
    Composed p v? s fun b => (s.on b).emitExit i c? :=
  composed_bind composed_flushAll fun _ => composed_emit hq hv

theorem composed_derive (dest src : UInt8) : Composed p v? s fun b => (s.on b).derive dest src := by
  unfold derive
  by_cases h : dest = src
  · simp only [if_pos h]
    exact composed_flush src
  · simp only [if_neg h, forget_on]
    refine composed_bind (x := fun b => .ok ((s.forget dest).on b)) (k := fun t => t.flush src)
      (composed_of_did (.forget s dest)) fun t => composed_flush src

/-! ## Moving and leaving -/

/-- The first is an integer slot other than zero, the second is an integer slot. -/
structure Operands (dest src : UInt8) : Prop where
  ne_zero : dest ≠ 0
  dest : Slot.isInteger dest.toNat = true
  src : Slot.isInteger src.toNat = true

/-- An instruction that writes an integer register from another. -/
theorem Operands.appendable {op : Opcode} (h : Operands dest src) {kind : OperandKind}
    (hsig : op.signature = { dest := .gpr, src1 := .gpr, src2 := kind }) {k : UInt8}
    (hkind : kind.fits k = true) : Appendable ⟨op, dest, src, k⟩ := by
  refine ⟨⟨?_, ?_, fun hop => ?_⟩, ?_⟩
  · rw [Inst.fits_iff, hsig]
    exact ⟨h.dest, h.src, hkind⟩
  · rw [Inst.writeSlots, hsig]
    exact fun h0 => h.ne_zero (UInt8.toNat_inj.mp (List.mem_singleton.mp h0).symm)
  · rcases hop with h | h <;> rw [show op = _ from h] at hsig <;> cases hsig
  · rintro rfl
    cases hsig

theorem composed_move (ho : Appendable p.1 → Operands dest src) :
    Composed p v? s fun b => .ok ((s.on b).move dest src) := by
  unfold move
  by_cases h : dest = src
  · simp only [if_pos h]
    exact composed_ok
  · simp only [if_neg h]
    exact composed_push (fun hp => (ho hp).appendable rfl rfl) rfl

theorem appendable_exit : Appendable { op := .exitToConst } :=
  ⟨⟨rfl, List.not_mem_nil, fun hop => by rcases hop with h | h <;> cases h⟩, nofun⟩

theorem composed_leave : Composed p (some v) s fun b => (s.on b).leave v :=
  composed_bind composed_flushAll fun t =>
    composed_constant (s := t) (i := { op := .exitToConst }) (fun _ => appendable_exit) rfl

/-! ## Rules -/

theorem composed_partlyKnown {op form : Opcode} (hform : op.constForm? = some form)
    (ho : Appendable p.1 → Operands dest src) :
    Composed p (some v) s fun b => (s.on b).partlyKnown op dest src v := by
  obtain ⟨-, hsig, -, -⟩ := constForm_spec hform
  have hfield : form.constField? = some .src2 := by
    rw [Opcode.constField?, hsig]
    rfl
  refine composed_bind (composed_derive dest src) fun t => ?_
  by_cases hmove : v = 0 ∧ zeroIsMove op
  · simp only [if_pos hmove]
    exact composed_move ho
  · simp only [if_neg hmove, constOp, hform]
    refine (composed_constant (s := t) (i := { op := form, dest := dest, src1 := src })
      (fun hp => (ho hp).appendable hsig rfl) (Option.isSome_of_eq_some hfield)).congr fun b => ?_
    rw [Block.pushConst_eq hfield]
    rfl

/-! ### An instruction and what replaces it -/

theorem Operands.of_eligible (hi : Eligible i) (hd : i.op.signature.dest = .gpr)
    (hr : i.op.signature.role = .result) (hs : i.op.signature.src1 = .gpr) :
    Operands i.dest i.src1 :=
  ⟨(hi.dest hd hr).1, (hi.dest hd hr).2, hi.src1 hs⟩

theorem composed_arithmetic {form : Opcode} (hform : i.op.constForm? = some form) :
    ∃ v?, Composed (i, c?) v? s fun b => (s.on b).arithmetic i := by
  obtain ⟨hsig, -, -, f, hf⟩ := constForm_spec hform
  have hre := reordered_swap i
  unfold arithmetic
  simp only
  -- turned round or not, it is an instruction of the same opcode
  generalize (if isSymmetric i.op = true then swapTowardDest i else i) = j at hre
  have hj : Appendable i → Eligible j := fun hi => hre.eligible hi.1 hsig
  rw [← hre.op] at hform hf hsig
  have ho : Appendable i → Operands j.dest j.src1 ∧ Operands j.dest j.src2 := fun hi =>
    have ho := Operands.of_eligible (hj hi) (by rw [hsig]) (by rw [hsig]) (by rw [hsig])
    ⟨ho, ho.ne_zero, ho.dest, (hj hi).src2 (by rw [hsig])⟩
  have hemit : ∃ v?, Composed (i, c?) v? s fun b => (s.on b).emit j none := by
    refine ⟨none, composed_emit (inherits_plain (fun hi => ⟨hj hi, ?_⟩) ?_) nofun⟩
    · rw [hre.op]
      exact hi.2
    · rw [Opcode.constField?, hsig]
      rfl
  have hlearn : ∀ v, Composed (i, c?) (some v) s fun b => .ok ((s.on b).learn j.dest v) := fun v =>
    composed_learn fun hi => (ho hi).1.dest
  have hvalue : ∀ b r, (s.on b).value? r = s.value? r := fun _ _ => rfl
  simp only [hvalue]
  cases ha : s.value? j.src1 with
  | some a =>
    cases hb : s.value? j.src2 with
    | some b =>
      simp only [Alu.evaluate2, hf]
      exact ⟨some (f a b), hlearn _⟩
    | none =>
      by_cases hand : j.op = .and ∧ (some a = some 0 ∨ (none : Option Word) = some 0)
      · simp only [if_pos hand]
        exact ⟨some 0, hlearn 0⟩
      · simp only [if_neg hand]
        by_cases hsym : isSymmetric j.op = true
        · simp only [if_pos hsym]
          exact ⟨some a, composed_partlyKnown hform fun hi => (ho hi).2⟩
        · simp only [if_neg hsym]
          exact hemit
  | none =>
    cases hb : s.value? j.src2 with
    | some b =>
      by_cases hand : j.op = .and ∧ ((none : Option Word) = some 0 ∨ some b = some 0)
      · simp only [if_pos hand]
        exact ⟨some 0, hlearn 0⟩
      · simp only [if_neg hand]
        exact ⟨some b, composed_partlyKnown hform fun hi => (ho hi).1⟩
    | none =>
      simp only [reduceCtorEq, or_self, and_false, if_false]
      exact hemit

theorem composed_subtraction (hop : i.op = .sub) :
    ∃ v?, Composed (i, c?) v? s fun b => (s.on b).subtraction i := by
  have hvalue : ∀ b r, (s.on b).value? r = s.value? r := fun _ _ => rfl
  have hsig : i.op.signature = { dest := .gpr, src1 := .gpr, src2 := .gpr } := by rw [hop]; rfl
  have ho : Appendable i → Operands i.dest i.src2 := fun hi =>
    have hd := hi.1.dest (by rw [hsig]) (by rw [hsig])
    ⟨hd.1, hd.2, hi.1.src2 (by rw [hsig])⟩
  unfold subtraction
  simp only [hvalue]
  by_cases hneg : s.value? i.src1 = some 0 ∧ s.value? i.src2 = none
  · simp only [if_pos hneg]
    exact ⟨none, composed_bind (composed_derive _ _) fun t =>
      composed_push (fun hi => (ho hi).appendable rfl rfl) rfl⟩
  · simp only [if_neg hneg]
    by_cases hsame : i.src1 = i.src2
    · simp only [if_pos hsame]
      exact ⟨some 0, composed_learn fun hi => (ho hi).dest⟩
    · simp only [if_neg hsame]
      have hform : i.op.constForm? = some .subConst := by rw [hop]; rfl
      exact composed_arithmetic hform

theorem composed_constArithmetic {f : Word → Word → Word} (hf : i.op.binary? = some f)
    (hsig : i.op.signature = { dest := .gpr, src1 := .gpr, src2 := .const }) (c : Word) :
    ∃ v?, Composed (i, c?) v? s fun b => (s.on b).constArithmetic i c := by
  have hvalue : ∀ b r, (s.on b).value? r = s.value? r := fun _ _ => rfl
  have ho : Appendable i → Operands i.dest i.src1 := fun hi =>
    Operands.of_eligible hi.1 (by rw [hsig]) (by rw [hsig]) (by rw [hsig])
  have hlearn : ∀ v, Composed (i, c?) (some v) s fun b => .ok ((s.on b).learn i.dest v) := fun v =>
    composed_learn fun hi => (ho hi).dest
  unfold constArithmetic
  simp only [hvalue]
  by_cases hand : i.op = .andConst ∧ c = 0
  · simp only [if_pos hand]
    exact ⟨some 0, hlearn 0⟩
  · simp only [if_neg hand]
    cases ha : s.value? i.src1 with
    | some a =>
      simp only [Alu.evaluate2, hf]
      exact ⟨some (f a c), hlearn _⟩
    | none =>
      by_cases hmove : c = 0 ∧ zeroIsMove i.op
      · simp only [if_pos hmove]
        exact ⟨none, composed_bind (composed_derive _ _) fun t => composed_move ho⟩
      · simp only [if_neg hmove]
        have hfield : i.op.constField?.isSome = true := by
          rw [Opcode.constField?, hsig]
          rfl
        exact ⟨some c, composed_emit (inherits_constant id hfield) fun _ => id⟩

theorem composed_shift {form : Opcode} (hform : i.op.immShift? = some form) :
    ∃ v?, Composed (i, c?) v? s fun b => (s.on b).shift i := by
  obtain ⟨hsig, hsig', -, f, hf⟩ := immShift_spec hform
  have hvalue : ∀ b r, (s.on b).value? r = s.value? r := fun _ _ => rfl
  have ho : Appendable i → Operands i.dest i.src1 := fun hi =>
    Operands.of_eligible hi.1 (by rw [hsig]) (by rw [hsig]) (by rw [hsig])
  unfold shift
  simp only [hvalue]
  cases hb : s.value? i.src2 with
  | none =>
    have hemit : ∃ v?, Composed (i, c?) v? s fun b => (s.on b).emit i none :=
      ⟨none, composed_emit (inherits_plain id (by rw [Opcode.constField?, hsig]; rfl)) nofun⟩
    cases ha : s.value? i.src1 <;> exact hemit
  | some b =>
    cases ha : s.value? i.src1 with
    | some a =>
      simp only [Alu.evaluate2, hf]
      exact ⟨some (f a b), composed_learn fun hi => (ho hi).dest⟩
    | none =>
      refine ⟨none, composed_bind (composed_derive _ _) fun t => ?_⟩
      by_cases hzero : (b &&& 31).toUInt8 = 0
      · simp only [if_pos hzero]
        exact composed_move ho
      · simp only [if_neg hzero, hform]
        refine composed_push (fun hi => (ho hi).appendable hsig' rfl) ?_
        rw [Opcode.constField?, hsig']
        rfl

theorem composed_specialize {g : Folding → Word → Except Fault Folding}
    (hi : i.op.constField? = none)
    (hg : ∀ a, ∃ v?, Composed (i, c?) v? s fun b => g (s.on b) a) :
    ∃ v?, Composed (i, c?) v? s fun b => (s.on b).specialize i (g (s.on b)) := by
  have hvalue : ∀ b r, (s.on b).value? r = s.value? r := fun _ _ => rfl
  unfold specialize
  simp only [hvalue]
  cases ha : s.value? i.src1 with
  | some a => exact hg a
  | none => exact ⟨none, composed_emit (inherits_plain id hi) nofun⟩

theorem composed_access (hi : i.op.constField?.isSome = true) (hsrc1 : i.op.signature.src1 = .gpr)
    (c : Word) : ∃ v?, Composed (i, c?) v? s fun b => (s.on b).access i c := by
  have hvalue : ∀ b r, (s.on b).value? r = s.value? r := fun _ _ => rfl
  unfold access
  simp only [hvalue]
  cases ha : s.value? i.src1 with
  | none => exact ⟨some c, composed_emit (inherits_constant id hi) fun _ => id⟩
  | some base =>
    have hbased : Appendable i → Appendable { i with src1 := 0 } := by
      rintro ⟨he, hop⟩
      obtain ⟨hdest, -, hsrc2⟩ := Inst.fits_iff.mp he.fits
      refine ⟨⟨Inst.fits_iff.mpr ⟨hdest, ?_, hsrc2⟩, he.zero, fun hfloat => ?_⟩, hop⟩
      · simp only [hsrc1]
        rfl
      · rcases hfloat with h | h <;> rw [show i.op = _ from h] at hsrc1 <;> exact nomatch hsrc1
    exact ⟨some (base + c), composed_emit (inherits_constant hbased hi) fun _ => id⟩

theorem composed_decide (hi : i.op.constField?.isSome = true) (c : Word) (outcome : Option Bool) :
    ∃ v?, Composed (i, c?) v? s fun b => (s.on b).decide? i c outcome := by
  rcases outcome with _ | _ | _
  · exact ⟨some c, composed_emitExit (inherits_constant id hi) fun _ => id⟩
  · exact ⟨none, composed_ok⟩
  · exact ⟨some c, composed_bind composed_leave fun t => composed_of_did (.setDrop t true)⟩

/-- **The fold of one instruction is composed of these steps.** -/
theorem composed_fold (s : Folding) (i : Inst) (c? : Option Word) :
    ∃ v?, Composed (i, c?) v? s fun b => (s.on b).fold i c? := by
  have hvalue : ∀ b r, (s.on b).value? r = s.value? r := fun _ _ => rfl
  have hself : Inherits (i, c?) (i, c?) := ⟨id, id, id⟩
  have hemit : ∃ v?, Composed (i, c?) v? s fun b => (s.on b).emit i c? :=
    ⟨c?, composed_emit hself fun _ => id⟩
  have hemitExit : ∃ v?, Composed (i, c?) v? s fun b => (s.on b).emitExit i c? :=
    ⟨c?, composed_emitExit hself fun _ => id⟩
  obtain ⟨op, dest, src1, src2⟩ := i
  cases op
  case setConst => exact ⟨_, composed_learn fun hi => (hi.1.dest rfl rfl).2⟩
  case sub => exact composed_subtraction rfl
  -- opcodes that can be folded, in the order of `fold`
  case add | and | or | xor | slt | sltU => exact composed_arithmetic rfl
  case addConst | subConst | andConst | orConst | xorConst | sltConst | sltUConst =>
    exact composed_constArithmetic rfl rfl _
  case shl | shr | sar | ror => exact composed_shift rfl
  case neg | not | bSwap16 | bSwap32 | ext8to32 | ext16to32 | reverseBits | clz =>
    exact composed_specialize (g := fun t a => do return t.learn dest (← Alu.evaluate1 _ a)) rfl
      fun a => ⟨_, composed_learn fun hi => (hi.1.dest rfl rfl).2⟩
  case shlImm | shrImm | sarImm | rorImm =>
    exact composed_specialize
      (g := fun t a => do return t.learn dest (← Alu.evaluate2 _ a src2.toUInt32)) rfl
      fun a => ⟨_, composed_learn fun hi => (hi.1.dest rfl rfl).2⟩
  case mov =>
    unfold fold
    by_cases hsame : dest = src1
    · simp only [if_pos hsame]
      exact ⟨none, composed_ok⟩
    · simp only [if_neg hsame]
      exact composed_specialize (g := fun t a => .ok (t.learn dest a)) rfl
        fun a => ⟨some a, composed_learn fun hi => (hi.1.dest rfl rfl).2⟩
  case fMovFromGPR =>
    refine composed_specialize (g := fun t a => do return { t with out := ← t.out.setConstF dest a })
      rfl fun a => ⟨some a, composed_constant (i := { op := .setConstF, dest := dest })
        (fun ⟨hi, _⟩ => ?_) rfl⟩
    exact ⟨⟨Inst.fits_iff.mpr ⟨(Inst.fits_iff.mp hi.fits).1, rfl, rfl⟩, hi.zero,
      fun hfloat => by rcases hfloat with h | h <;> cases h⟩, nofun⟩
  case setPC =>
    refine composed_specialize (g := fun t a => t.pushWith { op := .setPCConst } (some a))
      rfl fun a => ⟨some a, composed_constant (fun _ => ?_) rfl⟩
    exact ⟨⟨rfl, List.not_mem_nil, fun hfloat => by rcases hfloat with h | h <;> cases h⟩, nofun⟩
  case setCtrlVFPUReg =>
    refine composed_specialize (g := fun t a => t.emit { op := .setCtrlVFPU, dest := dest } (some a))
      rfl fun a => ⟨some a, composed_emit (inherits_constant (fun ⟨hi, _⟩ => ?_) rfl) fun _ => id⟩
    exact ⟨⟨rfl, hi.zero, fun hfloat => by rcases hfloat with h | h <;> cases h⟩, nofun⟩
  case fpCondToReg =>
    unfold fold
    simp only [hvalue]
    cases ha : s.value? (UInt8.ofNat Slot.fpCond) with
    | some a => exact ⟨some a, composed_learn fun hi => (hi.1.dest rfl rfl).2⟩
    | none => exact ⟨none, composed_emit (inherits_plain id rfl) nofun⟩
  case store8 | store16 | store32 | store32Left | store32Right | store32Conditional | load8
    | load8Ext | load16 | load16Ext | load32 | load32Linked =>
    unfold fold
    by_cases hsame : src1 = dest
    · simp only [if_pos hsame]
      exact hemit
    · simp only [if_neg hsame]
      exact composed_access rfl rfl _
  case load32Left | load32Right | loadFloat | loadVec4 | storeFloat | storeVec4 =>
    exact composed_access rfl rfl _
  case fAdd =>
    refine ⟨none, composed_emit (inherits_plain (fun ⟨hi, hop⟩ => ?_) ?_) nofun⟩
    · rw [swapTowardDest_eq hi (Or.inl rfl)]
      exact ⟨hi, hop⟩
    · rcases swapTowardDest_cases ⟨.fAdd, dest, src1, src2⟩ with h | h <;> rw [h] <;> rfl
  case fMul =>
    refine ⟨none, composed_emit (inherits_plain (fun ⟨hi, hop⟩ => ?_) ?_) nofun⟩
    · rw [swapTowardDest_eq hi (Or.inr rfl)]
      exact ⟨hi, hop⟩
    · rcases swapTowardDest_cases ⟨.fMul, dest, src1, src2⟩ with h | h <;> rw [h] <;> rfl
  case exitToConstIfEq | exitToConstIfNeq | exitToConstIfGtZ | exitToConstIfGeZ | exitToConstIfLtZ
    | exitToConstIfLeZ =>
    exact composed_decide rfl _ (s.outcome? _)
  case exitToConst =>
    have hdrop : ∀ b, (s.on b).dropExit = s.dropExit := fun _ => rfl
    unfold fold
    simp only [hdrop]
    by_cases h : s.dropExit = true
    · simp only [if_pos h]
      exact ⟨none, composed_of_did (.setDrop s false)⟩
    · simp only [if_neg h]
      exact hemitExit
  case exitToReg =>
    unfold fold
    simp only [hvalue]
    cases ha : s.value? src1 with
    | some a => exact ⟨some a, composed_leave⟩
    | none => exact ⟨none, composed_emitExit (inherits_plain id rfl) nofun⟩
  case syscall | exitToPC | nop => exact hemitExit
  -- all others are emitted as they are
  all_goals exact hemit

end

end Optimize.ConstantPropagation.Folding

end Dynarec
