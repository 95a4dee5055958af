/-
Constant propagation preserves meaning.

The block that the pass builds ends as the block it reads: with the same exit and the same machine,
temporaries included, and if the block read stops at a memory fault, so does the other one, at the
same access and with the same memory. Registers may differ after a fault, since a known value need
not have been put into its register yet.

Each rule of the pass is one of three things: the result is known and only learned, the
instruction is emitted in its own or in a cheaper form, or the exit is decided. What the cheaper
form relies on is a law of the operation (`zeroIsMove_law`, `isSymmetric_law`, `immShift_law`) or of
the address of an access (`step_rebase`); that the fold state stays true to both machines is the
business of `Folding`.

The pass assumes that instructions name registers of the right class, that nothing writes slot
zero, and that a sum or product of floats does not have its destination as second operand alone:
there the operands are exchanged, and of two payloads that are no numbers the other one would win.
-/
import Dynarec.Guest.Run
import Dynarec.Proofs.Optimize.Evaluation

set_option autoImplicit false
set_option maxRecDepth 2048

namespace Dynarec.Optimize.ConstantPropagation

open Guest

/-! ## Laws of the operations -/

section Laws

variable {op form : Opcode} {f : Word → Word → Word}

theorem constForm_spec (h : op.constForm? = some form) :
    op.signature = { dest := .gpr, src1 := .gpr, src2 := .gpr }
      ∧ form.signature = { dest := .gpr, src1 := .gpr, src2 := .const }
      ∧ form.binary? = op.binary? ∧ ∃ f, op.binary? = some f := by
  cases op <;> cases h <;> exact ⟨rfl, rfl, rfl, _, rfl⟩

theorem immShift_spec (h : op.immShift? = some form) :
    op.signature = { dest := .gpr, src1 := .gpr, src2 := .gpr }
      ∧ form.signature = { dest := .gpr, src1 := .gpr, src2 := .imm }
      ∧ form.binary? = op.binary? ∧ ∃ f, op.binary? = some f := by
  cases op <;> cases h <;> exact ⟨rfl, rfl, rfl, _, rfl⟩

/-- The operands of a symmetric operation may be exchanged. -/
theorem isSymmetric_law (h : Folding.isSymmetric op = true) (hf : op.binary? = some f)
    (a b : Word) : f a b = f b a := by
  cases op <;> first | exact absurd h (by decide) | skip
  case add => cases hf; exact UInt32.add_comm a b
  case and => cases hf; exact UInt32.and_comm a b
  case or => cases hf; exact UInt32.or_comm a b
  case xor => cases hf; exact UInt32.xor_comm a b

/-- Zero is neutral on the right. -/
theorem zeroIsMove_law (h : Folding.zeroIsMove op = true) (hf : op.binary? = some f) (a : Word) :
    f a 0 = a := by
  cases op <;> first | exact absurd h (by decide) | skip
  case add | addConst => cases hf; exact UInt32.add_zero a
  case sub | subConst => cases hf; exact UInt32.sub_zero a
  case or | orConst => cases hf; exact UInt32.or_zero
  case xor | xorConst => cases hf; exact UInt32.xor_zero

/-- Zero absorbs on both sides of a mask. -/
theorem and_law (h : op = .and ∨ op = .andConst) (hf : op.binary? = some f) (a : Word) :
    f a 0 = 0 ∧ f 0 a = 0 := by
  rcases h with rfl | rfl <;> cases hf <;> exact ⟨UInt32.and_zero, UInt32.zero_and⟩

/-- An amount counts modulo 32. -/
theorem amount_toUInt32 (b : Word) : (b &&& 31).toUInt8.toUInt32 = b &&& 31 := by
  have hle : (b &&& 31).toNat ≤ 31 := by
    rw [UInt32.toNat_and]
    exact Nat.and_le_right
  refine UInt32.toNat_inj.mp ?_
  rw [UInt8.toNat_toUInt32, UInt32.toNat_toUInt8]
  omega

theorem and_31_and_31 (b : Word) : b &&& 31 &&& 31 = b &&& 31 := by
  rw [UInt32.and_assoc, UInt32.and_self]

/-- A shift by the low five bits is a shift by the whole word, and one by no bits is a move. -/
theorem immShift_law (h : op.immShift? = some form) (hf : op.binary? = some f) (a b : Word) :
    f a (b &&& 31) = f a b ∧ (b &&& 31 = 0 → f a b = a) := by
  cases op <;> cases h
  case shl =>
    cases hf
    refine ⟨congrArg (a <<< ·) (and_31_and_31 b), fun h0 => ?_⟩
    show a <<< (b &&& 31) = a
    rw [h0]
    exact UInt32.shiftLeft_zero
  case shr =>
    cases hf
    refine ⟨congrArg (a >>> ·) (and_31_and_31 b), fun h0 => ?_⟩
    show a >>> (b &&& 31) = a
    rw [h0]
    exact UInt32.shiftRight_zero
  case sar =>
    cases hf
    refine ⟨?_, fun h0 => ?_⟩
    · simp only [Word.sar, and_31_and_31]
    · simp only [Word.sar, h0]
      show (a.toInt32 >>> (0 : Int32)).toUInt32 = a
      rw [Int32.shiftRight_zero]
      exact a.toUInt32_toInt32
  case ror =>
    cases hf
    refine ⟨?_, fun h0 => ?_⟩
    · simp only [Word.ror, and_31_and_31]
    · simp only [Word.ror, h0]
      show a >>> (0 : Word) ||| a <<< (0 : Word) = a
      rw [UInt32.shiftRight_zero, UInt32.shiftLeft_zero, UInt32.or_self]

/-- An access whose base is a known word may be based on a register that holds zero. -/
theorem step_rebase {i : Inst} {c base : Word} {m : Machine} (hop : i.op.binary? = none)
    (hsrc1 : i.op.signature.src1 = .gpr) (hsrc2 : i.op.signature.src2 = .const)
    (hbase : m.state.reg i.src1 = base) (hzero : m.state.reg 0 = 0) :
    step i c m = step { i with src1 := 0 } (base + c) m := by
  have haddr : m.state.reg i.src1 + c = m.state.reg 0 + (base + c) := by
    rw [hbase, hzero, UInt32.zero_add]
  obtain ⟨op, dest, src1, src2⟩ := i
  cases op <;> cases hsrc1 <;> cases hsrc2 <;> cases hop <;>
    simp only [step, effect, Opcode.binary?, Opcode.unary?, effectOther, haddr]

end Laws

/-! ## Instructions that the pass is made for -/

/-- The operands are of the right class, slot zero is not written, and the operands of a float sum
or product need not be exchanged. -/
structure Eligible (i : Inst) : Prop where
  fits : i.fits = true
  zero : 0 ∉ i.writeSlots
  ordered : i.op = .fAdd ∨ i.op = .fMul → i.src2 = i.dest → i.src1 = i.dest

variable {i : Inst} {s s' : Folding} {m n : Machine} {c : Word}

/-- An integer result goes into an integer slot other than zero. -/
theorem Eligible.dest (hi : Eligible i) (hd : i.op.signature.dest = .gpr)
    (hr : i.op.signature.role = .result) :
    i.dest ≠ 0 ∧ Slot.isInteger i.dest.toNat = true := by
  have hfits := (Inst.fits_iff.mp hi.fits).1
  rw [hd] at hfits
  refine ⟨fun h0 => hi.zero ?_, hfits⟩
  rw [Inst.writeSlots, hd, hr, h0]
  exact List.mem_append_left _ (List.mem_singleton.mpr rfl)

theorem Eligible.src1 (hi : Eligible i) (hs : i.op.signature.src1 = .gpr) :
    Slot.isInteger i.src1.toNat = true := by
  have hfits := (Inst.fits_iff.mp hi.fits).2.1
  rwa [hs] at hfits

theorem Eligible.src2 (hi : Eligible i) (hs : i.op.signature.src2 = .gpr) :
    Slot.isInteger i.src2.toNat = true := by
  have hfits := (Inst.fits_iff.mp hi.fits).2.2
  rwa [hs] at hfits

/-! ## Arithmetic -/

namespace Folding

/-- A register operand of a machine that runs the source. -/
theorem Related.reg_eq {r : UInt8} {w : Word} (h : Related s m n) (hv : s.value? r = some w) :
    m.state.reg r = w := by
  rw [State.reg_eq_slot]
  exact h.known r w hv

theorem Related.reg_zero (h : Related s m n) : m.state.reg 0 = 0 := h.reg_eq h.zero

section Derived

variable {dest src : UInt8} {w : Word}

theorem derive_self (hsrc : s.value? src = none) : s.derive src src = .ok s := by
  rw [derive, if_pos rfl]
  exact flush_of_synced (Or.inr (Or.inl hsrc))

/-- A move after getting ready. -/
theorem simulates_move (h : s.derive dest src = .ok s') (hd : dest ≠ 0)
    (hdint : Slot.isInteger dest.toNat = true) (hsint : Slot.isInteger src.toNat = true)
    (hsrc : s.value? src = none) :
    s.Simulates (s'.move dest src)
      fun m => (.ok none, m.setReg dest (m.state.reg src)) := by
  by_cases heq : dest = src
  · subst heq
    rw [derive_self hsrc] at h
    cases h
    rw [move, if_pos rfl]
    refine Block.Simulates.of_silent fun m n hR => ⟨m, ?_, hR⟩
    rw [State.reg_eq_slot, Machine.setReg_slot]
  · rw [move, if_neg heq]
    have hp : s'.out.pushWith { op := .mov, dest := dest, src1 := src } none
        = .ok (s'.out.push { op := .mov, dest := dest, src1 := src }) := rfl
    exact simulates_derive h hd hsrc hp (fun _ => rfl) (Inst.fits_iff.mpr ⟨hdint, hsint, rfl⟩)
      rfl rfl rfl

/-- An operation whose second operand is its second field, after getting ready. -/
theorem simulates_immediate {op : Opcode} {f : Word → Word → Word}
    (h : s.derive dest src = .ok s')
    (hsig : op.signature = { dest := .gpr, src1 := .gpr, src2 := .imm })
    (hf : op.binary? = some f) (hd : dest ≠ 0) (hdint : Slot.isInteger dest.toNat = true)
    (hsint : Slot.isInteger src.toNat = true) (hsrc : s.value? src = none) (amount : UInt8) :
    s.Simulates (s'.push ⟨op, dest, src, amount⟩)
      fun m => (.ok none, m.setReg dest (f (m.state.reg src) amount.toUInt32)) := by
  generalize hj : (⟨op, dest, src, amount⟩ : Inst) = j
  have hjsig : j.op.signature = { dest := .gpr, src1 := .gpr, src2 := .imm } := by
    rw [← hj, hsig]
  have hp : s'.out.pushWith j none = .ok (s'.out.push j) := rfl
  refine (simulates_derive h hd hsrc hp (fun _ => ?_) ?_ ?_ ?_ ?_).congr fun m n hR => ?_
  · rw [Inst.constantIndex, Opcode.constField?, hjsig]
    rfl
  · rw [Inst.fits_iff, hjsig, ← hj]
    exact ⟨hdint, hsint, rfl⟩
  · rw [Inst.readSlots, hjsig, ← hj]
    rfl
  · rw [Inst.writeSlots, hjsig, ← hj]
    rfl
  · rw [Inst.isExit, hjsig]
  · have hjf : j.op.binary? = some f := by rw [← hj, hf]
    rw [step_binary hjf, secondOperand, hjsig, ← hj]

/-- An operation on an unknown register and a known word. -/
theorem simulates_partlyKnown {op form : Opcode} {f : Word → Word → Word}
    (h : s.partlyKnown op dest src w = .ok s') (hform : op.constForm? = some form)
    (hf : op.binary? = some f) (hd : dest ≠ 0) (hdint : Slot.isInteger dest.toNat = true)
    (hsint : Slot.isInteger src.toNat = true) (hsrc : s.value? src = none) :
    s.Simulates s' fun m => (.ok none, m.setReg dest (f (m.state.reg src) w)) := by
  obtain ⟨s₁, h₁, h⟩ := bind_eq_ok.mp h
  split at h
  · rename_i hmove
    rw [← pure_eq_ok.mp h]
    refine (simulates_move h₁ hd hdint hsint hsrc).congr fun m n hR => ?_
    rw [hmove.1, zeroIsMove_law hmove.2 hf]
  · obtain ⟨-, hsig, hbin, -⟩ := constForm_spec hform
    rw [constOp, hform] at h
    obtain ⟨b, hb, hs⟩ := bind_eq_ok.mp h
    rw [← pure_eq_ok.mp hs]
    rw [Block.pushConst_eq (by rw [Opcode.constField?, hsig]; rfl)] at hb
    have hfits : Inst.fits { op := form, dest := dest, src1 := src } = true := by
      rw [Inst.fits_iff, hsig]
      exact ⟨hdint, hsint, rfl⟩
    refine (simulates_derive h₁ hd hsrc hb (fun hn => nomatch hn) hfits ?_ ?_ ?_).congr
      fun m n hR => ?_
    · rw [Inst.readSlots, hsig]
      rfl
    · rw [Inst.writeSlots, hsig]
      rfl
    · rw [Inst.isExit, hsig]
    · rw [step_binary (hbin.trans hf), secondOperand, hsig]
      rfl

end Derived

/-- `j` is `i`, or `i` with the operands of a symmetric operation exchanged. -/
structure Reordered (i j : Inst) : Prop where
  op : j.op = i.op
  dest : j.dest = i.dest
  srcs : (j.src1 = i.src1 ∧ j.src2 = i.src2) ∨
    (isSymmetric i.op = true ∧ j.src1 = i.src2 ∧ j.src2 = i.src1)

/-- Putting the destination first changes nothing or exchanges the operands. -/
theorem swapTowardDest_cases (i : Inst) :
    swapTowardDest i = i ∨ swapTowardDest i = { i with src1 := i.src2, src2 := i.src1 } := by
  rw [swapTowardDest]
  split
  · exact Or.inr rfl
  · exact Or.inl rfl

theorem reordered_swap (i : Inst) :
    Reordered i (if isSymmetric i.op then swapTowardDest i else i) := by
  split
  · rename_i hsym
    rcases swapTowardDest_cases i with hsame | hswap
    · rw [hsame]
      exact ⟨rfl, rfl, Or.inl ⟨rfl, rfl⟩⟩
    · rw [hswap]
      exact ⟨rfl, rfl, Or.inr ⟨hsym, rfl, rfl⟩⟩
  · exact ⟨rfl, rfl, Or.inl ⟨rfl, rfl⟩⟩

section Reordered

variable {j : Inst}

theorem Reordered.step_eq {f : Word → Word → Word} (h : Reordered i j) (hf : i.op.binary? = some f)
    (hsig : i.op.signature.src2 = .gpr) (m : Machine) :
    step i 0 m = (.ok none, m.setReg j.dest (f (m.state.reg j.src1) (m.state.reg j.src2))) := by
  rw [step_binary hf, secondOperand, hsig, h.dest]
  rcases h.srcs with ⟨h1, h2⟩ | ⟨hsym, h1, h2⟩
  · rw [h1, h2]
  · rw [h1, h2, isSymmetric_law hsym hf]

theorem Reordered.eligible (h : Reordered i j) (hi : Eligible i)
    (hsig : i.op.signature = { dest := .gpr, src1 := .gpr, src2 := .gpr }) : Eligible j := by
  have hsig' : j.op.signature = { dest := .gpr, src1 := .gpr, src2 := .gpr } := by
    rw [h.op, hsig]
  have hdest := (hi.dest (by rw [hsig]) (by rw [hsig])).2
  have hsrc1 := hi.src1 (by rw [hsig])
  have hsrc2 := hi.src2 (by rw [hsig])
  refine ⟨?_, ?_, fun hop => ?_⟩
  · rw [Inst.fits_iff, hsig', h.dest]
    rcases h.srcs with ⟨h1, h2⟩ | ⟨-, h1, h2⟩
    · rw [h1, h2]
      exact ⟨hdest, hsrc1, hsrc2⟩
    · rw [h1, h2]
      exact ⟨hdest, hsrc2, hsrc1⟩
  · have hzero := hi.zero
    rw [Inst.writeSlots, hsig] at hzero
    rw [Inst.writeSlots, hsig', h.dest]
    exact hzero
  · -- a float operation has another signature
    rcases hop with hop | hop
    · rw [hop] at hsig'
      cases hsig'
    · rw [hop] at hsig'
      cases hsig'

end Reordered

/-- Arithmetic on two registers. -/
theorem simulates_arithmetic {form : Opcode} (hi : Eligible i)
    (hform : i.op.constForm? = some form) (h : s.arithmetic i = .ok s') :
    s.Simulates s' (step i 0) := by
  obtain ⟨hsig, -, -, f, hf⟩ := constForm_spec hform
  have hre := reordered_swap i
  simp only [arithmetic] at h
  -- from here on `j` is the instruction with its operands in the order of the pass
  generalize (if isSymmetric i.op = true then swapTowardDest i else i) = j at h hre
  have hstep := hre.step_eq hf (by rw [hsig])
  have hj := hre.eligible hi hsig
  rw [← hre.op] at hform hf hsig
  obtain ⟨hd, hdint⟩ := hj.dest (by rw [hsig]) (by rw [hsig])
  have hint1 := hj.src1 (by rw [hsig])
  have hint2 := hj.src2 (by rw [hsig])
  have hemit : s.emit j none = .ok s' → s.Simulates s' (step i 0) := by
    intro he
    have hconst : j.constantIndex = none := by
      rw [Inst.constantIndex, Opcode.constField?, hsig]
      rfl
    have hstay : j.isExit = false := by rw [Inst.isExit, hsig]
    refine (simulates_emit he (fun _ => hconst) hj.fits hj.zero (Or.inl hstay)).congr
      fun m n hR => ?_
    rw [hstep, step_binary hf, secondOperand, hsig]
  cases ha : s.value? j.src1 with
  | some a =>
    cases hb : s.value? j.src2 with
    | some b =>
      simp only [ha, hb, Alu.evaluate2, hf] at h
      cases h
      refine simulates_learn hd hdint fun m n hR => ?_
      rw [hstep, hR.reg_eq ha, hR.reg_eq hb]
    | none =>
      simp only [ha, hb] at h
      split at h
      · rename_i hand
        cases h
        -- zero and anything is zero
        have ha0 : a = 0 := Option.some.inj (hand.2.resolve_right (by rintro ⟨⟩))
        refine simulates_learn hd hdint fun m n hR => ?_
        rw [hstep, hR.reg_eq ha, ha0, (and_law (Or.inl hand.1) hf _).2]
      · split at h
        · rename_i hsym
          refine (simulates_partlyKnown h hform hf hd hdint hint2 hb).congr fun m n hR => ?_
          rw [hstep, hR.reg_eq ha, isSymmetric_law hsym hf]
        · exact hemit h
  | none =>
    cases hb : s.value? j.src2 with
    | some b =>
      simp only [ha, hb] at h
      split at h
      · rename_i hand
        cases h
        have hb0 : b = 0 := Option.some.inj (hand.2.resolve_left (by rintro ⟨⟩))
        refine simulates_learn hd hdint fun m n hR => ?_
        rw [hstep, hR.reg_eq hb, hb0, (and_law (Or.inl hand.1) hf _).1]
      · refine (simulates_partlyKnown h hform hf hd hdint hint1 ha).congr fun m n hR => ?_
        rw [hstep, hR.reg_eq hb]
    | none =>
      simp only [ha, hb, reduceCtorEq, or_self, and_false, if_false] at h
      exact hemit h

/-- Subtraction. -/
theorem simulates_subtraction (hi : Eligible i) (hop : i.op = .sub)
    (h : s.subtraction i = .ok s') : s.Simulates s' (step i 0) := by
  obtain ⟨op, dest, src1, src2⟩ := i
  cases hop
  obtain ⟨hd, hdint⟩ := hi.dest rfl rfl
  rw [subtraction] at h
  split at h
  · rename_i hneg
    obtain ⟨s₁, h₁, hs⟩ := bind_eq_ok.mp h
    rw [← pure_eq_ok.mp hs]
    have hp : s₁.out.pushWith { op := .neg, dest := dest, src1 := src2 } none
        = .ok (s₁.out.push { op := .neg, dest := dest, src1 := src2 }) := rfl
    refine (simulates_derive h₁ hd hneg.2 hp (fun _ => rfl)
      (Inst.fits_iff.mpr ⟨hdint, hi.src2 rfl, rfl⟩) rfl rfl rfl).congr fun m n hR => ?_
    rw [step_binary rfl, step_unary rfl rfl, hR.reg_eq hneg.1]
    exact congrArg (fun w => (Except.ok none, m.setReg dest w)) (UInt32.zero_sub _)
  · split at h
    · rename_i hsame
      cases h
      refine simulates_learn hd hdint fun m n hR => ?_
      rw [step_binary rfl]
      cases hsame
      exact congrArg (fun w => (Except.ok none, m.setReg dest w)) (UInt32.sub_self _)
    · exact simulates_arithmetic hi rfl h

/-- Arithmetic on a register and a constant. -/
theorem simulates_constArithmetic {f : Word → Word → Word} (hi : Eligible i)
    (hsig : i.op.signature = { dest := .gpr, src1 := .gpr, src2 := .const })
    (hf : i.op.binary? = some f) (h : s.constArithmetic i c = .ok s') :
    s.Simulates s' (step i c) := by
  obtain ⟨hd, hdint⟩ := hi.dest (by rw [hsig]) (by rw [hsig])
  have hstep : ∀ m, step i c m = (.ok none, m.setReg i.dest (f (m.state.reg i.src1) c)) := by
    intro m
    rw [step_binary hf, secondOperand, hsig]
  rw [constArithmetic] at h
  split at h
  · rename_i hand
    cases h
    refine simulates_learn hd hdint fun m n hR => ?_
    rw [hstep, hand.2, (and_law (Or.inr hand.1) hf _).1]
  · cases ha : s.value? i.src1 with
    | some a =>
      simp only [ha, Alu.evaluate2, hf] at h
      cases h
      refine simulates_learn hd hdint fun m n hR => ?_
      rw [hstep, hR.reg_eq ha]
    | none =>
      simp only [ha] at h
      split at h
      · rename_i hmove
        obtain ⟨s₁, h₁, hs⟩ := bind_eq_ok.mp h
        rw [← pure_eq_ok.mp hs]
        refine (simulates_move h₁ hd hdint (hi.src1 (by rw [hsig])) ha).congr fun m n hR => ?_
        rw [hstep, hmove.1, zeroIsMove_law hmove.2 hf]
      · exact simulates_emit h (by rintro ⟨⟩) hi.fits hi.zero
          (Or.inl (by rw [Inst.isExit, hsig]))

/-- Shifts and rotations by a register. -/
theorem simulates_shift {form : Opcode} (hi : Eligible i) (hform : i.op.immShift? = some form)
    (h : s.shift i = .ok s') : s.Simulates s' (step i 0) := by
  obtain ⟨hsig, hsig', hbin, f, hf⟩ := immShift_spec hform
  obtain ⟨hd, hdint⟩ := hi.dest (by rw [hsig]) (by rw [hsig])
  have hsint := hi.src1 (by rw [hsig])
  have hstep : ∀ m, step i 0 m
      = (.ok none, m.setReg i.dest (f (m.state.reg i.src1) (m.state.reg i.src2))) := by
    intro m
    rw [step_binary hf, secondOperand, hsig]
  rw [shift] at h
  cases hb : s.value? i.src2 with
  | none =>
    have h' : s.emit i none = .ok s' := by
      cases ha : s.value? i.src1 <;> simpa only [ha, hb] using h
    refine simulates_emit h' (fun _ => ?_) hi.fits hi.zero (Or.inl (by rw [Inst.isExit, hsig]))
    rw [Inst.constantIndex, Opcode.constField?, hsig]
    rfl
  | some b =>
    cases ha : s.value? i.src1 with
    | some a =>
      simp only [ha, hb, Alu.evaluate2, hf] at h
      cases h
      refine simulates_learn hd hdint fun m n hR => ?_
      rw [hstep, hR.reg_eq ha, hR.reg_eq hb]
    | none =>
      simp only [ha, hb, hform] at h
      obtain ⟨s₁, h₁, h⟩ := bind_eq_ok.mp h
      split at h
      · rename_i hzero
        rw [← pure_eq_ok.mp h]
        -- a shift by no bits is a move
        have hb0 : b &&& 31 = 0 := by
          rw [← amount_toUInt32, hzero]
          rfl
        refine (simulates_move h₁ hd hdint hsint ha).congr fun m n hR => ?_
        rw [hstep, hR.reg_eq hb, (immShift_law hform hf _ b).2 hb0]
      · rw [← pure_eq_ok.mp h]
        refine (simulates_immediate h₁ hsig' (hbin.trans hf) hd hdint hsint ha _).congr
          fun m n hR => ?_
        rw [hstep, hR.reg_eq hb, amount_toUInt32, (immShift_law hform hf _ b).1]

/-! ## Moves, accesses and exits -/

/-- An instruction without constant that has a cheaper form when its source is known. -/
theorem simulates_specialize {known : Word → Except Fault Folding} (hi : Eligible i)
    (hconst : i.constantIndex = none) (hexit : i.isExit = false)
    (hknown : ∀ a, s.value? i.src1 = some a → known a = .ok s' → s.Simulates s' (step i 0))
    (h : s.specialize i known = .ok s') : s.Simulates s' (step i 0) := by
  rw [specialize] at h
  cases ha : s.value? i.src1 with
  | some a =>
    simp only [ha] at h
    exact hknown a ha h
  | none =>
    simp only [ha] at h
    exact simulates_emit h (fun _ => hconst) hi.fits hi.zero (Or.inl hexit)

/-- An access whose base may be known. -/
theorem simulates_access (hi : Eligible i) (hop : i.op.binary? = none)
    (hsrc1 : i.op.signature.src1 = .gpr) (hsrc2 : i.op.signature.src2 = .const)
    (hexit : i.isExit = false) (h : s.access i c = .ok s') : s.Simulates s' (step i c) := by
  rw [access] at h
  cases ha : s.value? i.src1 with
  | some base =>
    simp only [ha] at h
    have hfits : ({ i with src1 := 0 } : Inst).fits = true := by
      have hi' := Inst.fits_iff.mp hi.fits
      refine Inst.fits_iff.mpr ⟨hi'.1, ?_, hi'.2.2⟩
      simp only [hsrc1]
      rfl
    refine (simulates_emit h (fun hn => nomatch hn) hfits hi.zero (Or.inl hexit)).congr
      fun m n hR => ?_
    exact step_rebase hop hsrc1 hsrc2 (hR.reg_eq ha) hR.reg_zero
  | none =>
    simp only [ha] at h
    exact simulates_emit h (fun hn => nomatch hn) hi.fits hi.zero (Or.inl hexit)

/-- A conditional exit in the source. -/
theorem step_exitCondition {taken : Word → Word → Bool} (h : i.op.exitCondition? = some taken)
    (c : Word) (m : Machine) :
    step i c m
      = (.ok (if taken (m.state.reg i.src1) (m.state.reg i.src2) then some c else none), m) := by
  obtain ⟨op, dest, src1, src2⟩ := i
  cases op <;> cases h <;>
    simp only [step, effect, Opcode.binary?, Opcode.unary?, effectOther, Opcode.exitCondition?] <;>
    split <;> rfl

/-- The outcome that the pass decides on is the one of the source. -/
theorem outcome?_eq {taken : Word → Word → Bool} {outcome : Bool} (h : Related s m n)
    (ht : i.op.exitCondition? = some taken) (ho : s.outcome? i = some outcome) :
    taken (m.state.reg i.src1) (m.state.reg i.src2) = outcome := by
  obtain ⟨op, dest, src1, src2⟩ := i
  cases op <;> cases ht
  -- two operands
  case exitToConstIfEq | exitToConstIfNeq =>
    simp only [outcome?, Opcode.exitCondition?, Opcode.signature] at ho
    split at ho
    · rename_i heq hsig ha hb
      cases heq
      cases ho
      rw [h.reg_eq ha, h.reg_eq hb]
    · rename_i hsig _
      cases hsig
    · cases ho
  -- one operand; the condition does not look at the second word
  case exitToConstIfGtZ | exitToConstIfGeZ | exitToConstIfLtZ | exitToConstIfLeZ =>
    simp only [outcome?, Opcode.exitCondition?, Opcode.signature] at ho
    split at ho
    · rename_i hsig _ _
      cases hsig
    · rename_i heq _ ha
      cases heq
      cases ho
      rw [h.reg_eq ha]
    · cases ho

/-- A conditional exit. -/
theorem simulates_decide {taken : Word → Word → Bool} (hi : Eligible i)
    (ht : i.op.exitCondition? = some taken) (h : s.decide? i c (s.outcome? i) = .ok s') :
    s.Simulates s' (step i c) := by
  unfold decide? at h
  split at h
  · rename_i hout
    obtain ⟨s₁, h₁, hs⟩ := bind_eq_ok.mp h
    rw [← pure_eq_ok.mp hs]
    have htaken : ∀ m n, Related s m n → step i c m = (.ok (some c), m) := by
      intro m n hR
      rw [step_exitCondition ht, outcome?_eq hR ht hout]
      rfl
    exact (simulates_leave h₁ htaken : s.out.Simulates s₁.out _ _ _)
  · rename_i hout
    cases h
    refine Block.Simulates.of_silent fun m n hR => ⟨m, ?_, hR⟩
    rw [step_exitCondition ht, outcome?_eq hR ht hout]
    rfl
  · exact simulates_emitExit h (fun hn => nomatch hn) hi.fits hi.zero

/-! ## Rules of single opcodes -/

section Single

variable {dest src1 src2 : UInt8}

/-- A move; one from a register to itself vanishes. -/
theorem simulates_mov (hi : Eligible ⟨.mov, dest, src1, src2⟩)
    (h : s.fold ⟨.mov, dest, src1, src2⟩ none = .ok s') :
    s.Simulates s' (step ⟨.mov, dest, src1, src2⟩ 0) := by
  obtain ⟨hd, hdint⟩ := hi.dest rfl rfl
  have hstep : ∀ m, step ⟨.mov, dest, src1, src2⟩ 0 m
      = (.ok none, m.setReg dest (m.state.reg src1)) := fun m => step_gpr rfl
  simp only [fold] at h
  split at h
  · rename_i hsame
    cases h
    cases hsame
    refine Block.Simulates.of_silent fun m n hR => ⟨m, ?_, hR⟩
    rw [hstep, State.reg_eq_slot, Machine.setReg_slot]
  · refine simulates_specialize hi rfl rfl (fun a ha hk => ?_) h
    cases hk
    refine simulates_learn hd hdint fun m n hR => ?_
    rw [hstep, hR.reg_eq ha]

/-- A float register set from a known integer register is set to a constant. The tables have
nothing about float registers, so nothing needs to be forgotten. -/
theorem simulates_fMovFromGPR (hi : Eligible ⟨.fMovFromGPR, dest, src1, src2⟩)
    (h : s.fold ⟨.fMovFromGPR, dest, src1, src2⟩ none = .ok s') :
    s.Simulates s' (step ⟨.fMovFromGPR, dest, src1, src2⟩ 0) := by
  refine simulates_specialize hi rfl rfl (fun a ha hk => ?_) h
  obtain ⟨b, hb, hs⟩ := bind_eq_ok.mp hk
  rw [← pure_eq_ok.mp hs]
  rw [Block.setConstF_eq] at hb
  have hfits := (Inst.fits_iff.mp hi.fits).1
  have hfloat : Slot.isInteger (Slot.ofFloat dest) = false := by
    have hlt : Slot.ofFloat dest < 208 := of_decide_eq_true hfits
    have hge : 32 ≤ Slot.ofFloat dest := Nat.le_add_right 32 _
    exact Bool.or_eq_false_iff.mpr
      ⟨decide_eq_false (Nat.not_lt.mpr hge), decide_eq_false (Nat.not_le.mpr hlt)⟩
  have hpush : s.Simulates { s with out := b }
      (step { op := .setConstF, dest := dest } ((some a).getD 0)) := by
    refine simulates_push hb (fun hn => nomatch hn) (Inst.fits_iff.mpr ⟨hfits, rfl, rfl⟩) hi.zero
      (fun r hr => absurd hr List.not_mem_nil) (fun m n hR => ?_) (Or.inl rfl)
    refine ⟨fun r hr => ?_, fun r _ => ⟨rfl, rfl⟩, rfl⟩
    have hr' : r.toNat = Slot.ofFloat dest := List.mem_singleton.mp hr
    have hunknown := hR.float r (by rw [hr', hfloat])
    exact ⟨hunknown, hR.unplaced r hunknown⟩
  refine hpush.congr fun m n hR => ?_
  simp only [step, effect, effectOther, Opcode.binary?, Opcode.unary?, hR.reg_eq ha,
    Option.getD_some]

/-- The program counter set from a known register. -/
theorem simulates_setPC (hi : Eligible ⟨.setPC, dest, src1, src2⟩)
    (h : s.fold ⟨.setPC, dest, src1, src2⟩ none = .ok s') :
    s.Simulates s' (step ⟨.setPC, dest, src1, src2⟩ 0) := by
  refine simulates_specialize hi rfl rfl (fun a ha hk => ?_) h
  obtain ⟨b, hb, hs⟩ := bind_eq_ok.mp hk
  rw [← pure_eq_ok.mp hs]
  have hpush : s.Simulates { s with out := b }
      (step { op := .setPCConst } ((some a).getD 0)) := by
    refine simulates_push hb (fun hn => nomatch hn) rfl List.not_mem_nil
      (fun r hr => absurd hr List.not_mem_nil) (fun m n hR => ?_) (Or.inl rfl)
    exact ⟨fun r hr => absurd hr List.not_mem_nil, fun r _ => ⟨rfl, rfl⟩, rfl⟩
  refine hpush.congr fun m n hR => ?_
  simp only [step, effect, effectOther, Opcode.binary?, Opcode.unary?, hR.reg_eq ha,
    Option.getD_some]

/-- A control register set from a known register. -/
theorem simulates_setCtrl (hi : Eligible ⟨.setCtrlVFPUReg, dest, src1, src2⟩)
    (h : s.fold ⟨.setCtrlVFPUReg, dest, src1, src2⟩ none = .ok s') :
    s.Simulates s' (step ⟨.setCtrlVFPUReg, dest, src1, src2⟩ 0) := by
  refine simulates_specialize hi rfl rfl (fun a ha hk => ?_) h
  refine (simulates_emit hk (fun hn => nomatch hn) rfl hi.zero (Or.inl rfl)).congr
    fun m n hR => ?_
  simp only [step, effect, effectOther, Opcode.binary?, Opcode.unary?, hR.reg_eq ha,
    Option.getD_some]

/-- The outcome of a comparison read into a register. -/
theorem simulates_fpCondToReg (hi : Eligible ⟨.fpCondToReg, dest, src1, src2⟩)
    (h : s.fold ⟨.fpCondToReg, dest, src1, src2⟩ none = .ok s') :
    s.Simulates s' (step ⟨.fpCondToReg, dest, src1, src2⟩ 0) := by
  obtain ⟨hd, hdint⟩ := hi.dest rfl rfl
  simp only [fold] at h
  split at h
  · rename_i a ha
    cases h
    refine simulates_learn hd hdint fun m n hR => ?_
    have hcond : m.state.slot Slot.fpCond = a := hR.known _ a ha
    rw [← hcond]
    exact step_gpr rfl
  · exact simulates_emit h (fun _ => rfl) hi.fits hi.zero (Or.inl rfl)

end Single

/-- The operands of an eligible float sum or product are not exchanged. -/
theorem swapTowardDest_eq (hi : Eligible i) (hop : i.op = .fAdd ∨ i.op = .fMul) :
    swapTowardDest i = i := by
  rw [swapTowardDest, if_neg]
  rintro ⟨h2, hne⟩
  exact hne ((hi.ordered hop h2).trans h2.symm)

/-- An exit to the address in a register. -/
theorem simulates_exitToReg {dest src1 src2 : UInt8} (hi : Eligible ⟨.exitToReg, dest, src1, src2⟩)
    (h : s.fold ⟨.exitToReg, dest, src1, src2⟩ none = .ok s') :
    s.Simulates s' (step ⟨.exitToReg, dest, src1, src2⟩ 0) := by
  simp only [fold] at h
  split at h
  · rename_i a ha
    refine simulates_leave h fun m n hR => ?_
    rw [← hR.reg_eq ha]
    rfl
  · exact simulates_emitExit h (fun _ => rfl) hi.fits hi.zero

/-- An unconditional exit. After a decided one it is unreachable and left out. -/
theorem simulates_exitToConst {c? : Option Word} (hi : Eligible i) (hop : i.op = .exitToConst)
    (hc : c? = none → i.constantIndex = none) (h : s.fold i c? = .ok s') :
    s.Simulates s' (step i (c?.getD 0)) := by
  simp only [fold, hop] at h
  split at h
  · rename_i hdrop
    cases h
    refine Block.Simulates.of_silent fun m n hR => ?_
    rw [hR.live] at hdrop
    exact absurd hdrop Bool.false_ne_true
  · exact simulates_emitExit h hc hi.fits hi.zero

/-! ## The whole walk -/

/-- **One instruction.** What the pass makes of an instruction simulates it. -/
theorem simulates_fold {c? : Option Word} (hi : Eligible i)
    (hc : c? = none ↔ i.constantIndex = none) (h : s.fold i c? = .ok s') :
    s.Simulates s' (step i (c?.getD 0)) := by
  have hemit : i.isExit = false → s.emit i c? = .ok s' → s.Simulates s' (step i (c?.getD 0)) :=
    fun hx he => simulates_emit he hc.mp hi.fits hi.zero (Or.inl hx)
  have hemitExit : s.emitExit i c? = .ok s' → s.Simulates s' (step i (c?.getD 0)) :=
    fun he => simulates_emitExit he hc.mp hi.fits hi.zero
  obtain ⟨op, dest, src1, src2⟩ := i
  cases op
  case setConst =>
    cases h
    obtain ⟨hd, hdint⟩ := hi.dest rfl rfl
    exact simulates_learn hd hdint fun m n hR => step_gpr rfl
  case sub =>
    cases hc.mpr rfl
    exact simulates_subtraction hi rfl h
  case add | and | or | xor | slt | sltU =>
    cases hc.mpr rfl
    exact simulates_arithmetic hi rfl h
  case addConst | subConst | andConst | orConst | xorConst | sltConst | sltUConst =>
    exact simulates_constArithmetic hi rfl rfl h
  case shl | shr | sar | ror =>
    cases hc.mpr rfl
    exact simulates_shift hi rfl h
  case neg | not | bSwap16 | bSwap32 | ext8to32 | ext16to32 | reverseBits | clz =>
    cases hc.mpr rfl
    refine simulates_specialize hi rfl rfl (fun a ha hk => ?_) h
    cases hk
    obtain ⟨hd, hdint⟩ := hi.dest rfl rfl
    refine simulates_learn hd hdint fun m n hR => ?_
    rw [step_unary rfl rfl, hR.reg_eq ha]
  case shlImm | shrImm | sarImm | rorImm =>
    cases hc.mpr rfl
    refine simulates_specialize hi rfl rfl (fun a ha hk => ?_) h
    cases hk
    obtain ⟨hd, hdint⟩ := hi.dest rfl rfl
    refine simulates_learn hd hdint fun m n hR => ?_
    rw [step_binary rfl, hR.reg_eq ha]
    rfl
  case mov =>
    cases hc.mpr rfl
    exact simulates_mov hi h
  case fMovFromGPR =>
    cases hc.mpr rfl
    exact simulates_fMovFromGPR hi h
  case setPC =>
    cases hc.mpr rfl
    exact simulates_setPC hi h
  case setCtrlVFPUReg =>
    cases hc.mpr rfl
    exact simulates_setCtrl hi h
  case fpCondToReg =>
    cases hc.mpr rfl
    exact simulates_fpCondToReg hi h
  case store8 | store16 | store32 | store32Left | store32Right | store32Conditional | load8
    | load8Ext | load16 | load16Ext | load32 | load32Linked =>
    simp only [fold] at h
    -- an access that could not be represented is emitted as it is
    split at h
    · exact hemit rfl h
    · exact simulates_access hi rfl rfl rfl rfl h
  case load32Left | load32Right | loadFloat | loadVec4 | storeFloat | storeVec4 =>
    exact simulates_access hi rfl rfl rfl rfl h
  case fAdd =>
    cases hc.mpr rfl
    simp only [fold, swapTowardDest_eq hi (Or.inl rfl)] at h
    exact hemit rfl h
  case fMul =>
    cases hc.mpr rfl
    simp only [fold, swapTowardDest_eq hi (Or.inr rfl)] at h
    exact hemit rfl h
  case exitToConstIfEq | exitToConstIfNeq | exitToConstIfGtZ | exitToConstIfGeZ | exitToConstIfLtZ
    | exitToConstIfLeZ =>
    exact simulates_decide hi rfl h
  case exitToConst => exact simulates_exitToConst hi rfl hc.mp h
  case exitToReg =>
    cases hc.mpr rfl
    exact simulates_exitToReg hi h
  case syscall | exitToPC | nop => exact hemitExit h
  all_goals exact hemit rfl h

end Folding

open Folding

/-- Taking the rest over unchanged once everything is synced. -/
theorem simulates_appendAll {source b : Block} (insts : List Inst) (hall : ∀ r, s.Synced r)
    (hrange : ∀ i ∈ insts, ∀ k, i.constantIndex = some k → k.toNat < source.pool.size)
    (h : s.out.appendAll source insts = .ok b) :
    s.out.Simulates b (Related s) Eq (runCode (source.pool.resolve insts)) := by
  refine fun hb => ⟨_, Block.emits_appendAll insts hb hrange h, fun m n hR => ?_⟩
  rw [hR.eq_of_synced hall]
  exact Follows.of_eq fun _ => rfl

/-- **The walk.** What is built from the instructions still to come, up to and including the last
flush, runs as they do; at the end both machines are the same. -/
theorem simulates_walk {source : Block} {limit : Nat} {s₁ s₂ : Folding} (insts : List Inst)
    (hi : ∀ i ∈ insts, Eligible i)
    (hrange : ∀ i ∈ insts, ∀ k, i.constantIndex = some k → k.toNat < source.pool.size)
    (h : walk source limit insts s = .ok s₁) (hlast : s₁.flushAll = .ok s₂) :
    s.out.Simulates s₂.out (Related s) Eq (runCode (source.pool.resolve insts)) := by
  induction insts generalizing s with
  | nil =>
    cases h
    obtain ⟨hflush, hall⟩ := flushed_flushAll hlast
    refine hflush.then (Block.Simulates.of_silent fun m n hR => ⟨m, rfl, ?_⟩)
    exact (hR.eq_of_synced hall).symm
  | cons i insts ih =>
    rw [walk] at h
    split at h
    · -- the pool is large: everything is flushed, so the last flush has nothing to do
      obtain ⟨s₃, h₃, h⟩ := bind_eq_ok.mp h
      obtain ⟨b, hb, h⟩ := bind_eq_ok.mp h
      obtain ⟨hflush, hall⟩ := flushed_flushAll h₃
      have hall₁ : ∀ r, s₁.Synced r := by
        rw [← pure_eq_ok.mp h]
        exact hall
      rw [flushAll_of_synced hall₁] at hlast
      cases hlast
      rw [← pure_eq_ok.mp h]
      exact hflush.then (simulates_appendAll (i :: insts) hall hrange hb)
    · obtain ⟨c?, hc, h⟩ := bind_eq_ok.mp h
      obtain ⟨s₃, h₃, h⟩ := bind_eq_ok.mp h
      rw [Block.constantOf_eq (hrange i List.mem_cons_self)] at hc
      have hfold : s.Simulates s₃ (step i (source.pool.constant i)) := by
        rw [← source.pool.constant_getD i, Except.ok.inj hc]
        refine simulates_fold (hi i List.mem_cons_self) ?_ h₃
        rw [← Except.ok.inj hc, Option.map_eq_none_iff]
      exact hfold.trans (ih (fun j hj => hi j (List.mem_cons_of_mem i hj))
        (fun j hj => hrange j (List.mem_cons_of_mem i hj)) h)

theorem placed?_start (r : UInt8) : ({} : Folding).placed? r = none :=
  Vector.getElem_replicate r.toNat_lt

/-- At the start nothing is known but slot zero. -/
theorem value?_start (r : UInt8) : ({} : Folding).value? r = if r = 0 then some 0 else none := by
  refine (PerSlot.at_put (Vector.replicate 256 none) 0 r (some 0)).trans ?_
  rw [PerSlot.at]
  exact congrArg _ (placed?_start r)

/-- Where nothing is known but slot zero there is nothing to flush. -/
theorem flushAll_start (out : Block) :
    Folding.flushAll { out := out } = .ok { out := out } := by
  refine flushAll_of_synced fun r => ?_
  by_cases hr : r = 0
  · exact .inl hr
  · exact .inr (.inl ((value?_start r).trans (if_neg hr)))

/-- At the start there is one machine. -/
theorem related_start (hm : m.state.slot 0 = 0) : Related {} m m := by
  have hplaced := placed?_start
  have hvalue := value?_start
  refine { known := fun r w hw => ?_, unknown := fun _ _ => rfl, placed := fun r w hw => ?_,
           unplaced := fun r _ => hplaced r, float := fun r hr => ?_, zero := rfl,
           zeroSlot := hm, pc := rfl, downcount := rfl, syscall := rfl, memory := rfl,
           live := rfl }
  · rw [hvalue] at hw
    split at hw
    · rename_i h0
      rw [h0, ← Option.some.inj hw]
      exact hm
    · exact nomatch hw
  · rw [hplaced] at hw
    exact nomatch hw
  · rw [hvalue, if_neg]
    rintro rfl
    exact nomatch hr

/-- **Constant propagation preserves meaning.** Let every instruction of a block be eligible, with
positions in range, and let slot zero hold zero. If the block ends with an exit or at its end, the
block built does the same with the same machine; if it stops at a memory fault, the block built
stops at the same access with the same memory. -/
theorem run_preserves {cap : Nat} {b b' : Block} (h : run cap b = .ok b') (hb : b.InRange)
    (hi : ∀ i ∈ b.insts, Eligible i) (hm : m.state.slot 0 = 0) :
    (∀ t m', runBlock b m = (.ok t, m') → runBlock b' m = (.ok t, m')) ∧
    ∀ a k m', runBlock b m = (.error (.memory a k), m') →
      ∃ n', runBlock b' m = (.error (.memory a k), n') ∧ n'.memory = m'.memory := by
  obtain ⟨limit, -, h⟩ := bind_eq_ok.mp h
  obtain ⟨s₁, h₁, h⟩ := bind_eq_ok.mp h
  obtain ⟨s₂, h₂, h⟩ := bind_eq_ok.mp h
  rw [← pure_eq_ok.mp h]
  obtain ⟨code, hemit, hcode⟩ := simulates_walk b.insts hi hb h₁ h₂ Block.tidy_empty
  have hfollows : Follows Eq (runBlock b m) (runBlock s₂.out m) := by
    rw [runBlock_eq_runCode hb, hemit.run]
    exact hcode m m (related_start hm)
  refine ⟨fun t m' hrun => ?_, fun a k m' hrun => hfollows.fault a k m' hrun⟩
  cases t with
  | none =>
    obtain ⟨n, hn, rfl⟩ := hfollows.next m' hrun
    exact hn
  | some t => rw [hfollows.exit t m' hrun, hrun]

/-- The sum gets its constant form and the store an absolute address; the constant itself is put
into its register last. -/
theorem run_preserves_absolute_store :
    let b : Block := ⟨[⟨.setConst, 4, 0, 0⟩, ⟨.add, 6, 4, 5⟩, ⟨.store32, 6, 4, 1⟩], ⟨[4, 0]⟩⟩
    let b' : Block := ⟨[⟨.addConst, 6, 5, 0⟩, ⟨.store32, 6, 0, 0⟩, ⟨.setConst, 4, 0, 0⟩], ⟨[4]⟩⟩
    let m : Machine := ⟨({} : State).setSlot 5 3, Memory.zeroed 8⟩
    run 0 b = .ok b' ∧ (runBlock b m).1 = .ok none ∧ runBlock b' m = runBlock b m := by
  intro b b' m
  have hrun : run 0 b = .ok b' := by
    rw [← runTable_eq]
    decide
  have hend : (runBlock b m).1 = .ok none := by decide
  have hrange : b.InRange := by decide
  have heligible : ∀ i ∈ b.insts, Eligible i := by
    have hall : ∀ i ∈ b.insts, i.fits = true ∧ 0 ∉ i.writeSlots
        ∧ (i.op = .fAdd ∨ i.op = .fMul → i.src2 = i.dest → i.src1 = i.dest) := by decide
    exact fun i hi => ⟨(hall i hi).1, (hall i hi).2.1, (hall i hi).2.2⟩
  have hpair : runBlock b m = (.ok none, (runBlock b m).2) := by rw [← hend]
  have hzero : m.state.slot 0 = 0 := by decide
  refine ⟨hrun, hend, ?_⟩
  rw [(run_preserves hrun hrange heligible hzero).1 _ _ hpair, ← hpair]

end Dynarec.Optimize.ConstantPropagation
