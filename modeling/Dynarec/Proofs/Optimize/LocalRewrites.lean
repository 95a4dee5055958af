/-
Passes that look at one or two instructions.

Three passes go over a block once and look at an instruction together with the last one at most.
A float that comes back from an integer register comes from the register it was copied from, since
the copy still equals it. A load that reads back what the store before it wrote finds the word that
is in the register already. Arithmetic on three different registers does the same as a move and an
update in place. In each case the machine after the instruction is the same, temporaries included.
-/
import Dynarec.Proofs.Guest.Stores
import Dynarec.Proofs.Optimize.Refinement

set_option autoImplicit false

namespace Dynarec

open Guest
open Optimize (Rewrites Admissible Refines)
open Optimize.ConstantPropagation (Eligible)

/-! ## Float registers -/

namespace Guest

variable {m : Machine} {f d : UInt8} {w : Word}

theorem State.slot_of_float {s : State} (h : s.float f = .ok w) :
    Slot.ofFloat f < 256 ∧ s.slot (Slot.ofFloat f) = w := by
  rw [State.float, State.slot?_eq] at h
  split at h
  · rename_i hlt
    exact ⟨hlt, Except.ok.inj h⟩
  · cases h

/-- What a step does depends on the effect only. -/
theorem step_of_effect {i j : Inst} {c d : Word} (h : effect i c m = effect j d m) :
    step i c m = step j d m := by
  rw [step, step, h]

/-- The second of two words put into one slot stays. -/
theorem State.setSlot_setSlot (s : State) (k : Slot) (v w : Word) :
    (s.setSlot k v).setSlot k w = s.setSlot k w := by
  refine State.ext_slots (fun j => ?_) rfl rfl rfl
  rw [State.slot_setSlot, State.slot_setSlot, State.slot_setSlot]
  by_cases h : j = k ∧ k < 256
  · rw [if_pos h, if_pos h]
  · rw [if_neg h, if_neg h, if_neg h]

/-- An operation on two float registers fails when a register is none of the file. -/
theorem step_floatBinary {i : Inst} {c : Word} {f : Word → Word → Word}
    (h : effect i c m = floatBinary i m.state f) :
    step i c m = if Slot.ofFloat i.src1 < 256 ∧ Slot.ofFloat i.src2 < 256 ∧ Slot.ofFloat i.dest < 256
      then (.ok none, m.setFloat i.dest
        (f (m.state.slot (Slot.ofFloat i.src1)) (m.state.slot (Slot.ofFloat i.src2))))
      else (.error .outOfBounds, m) := by
  have hfloat : ∀ g, m.state.float g = if Slot.ofFloat g < 256
      then .ok (m.state.slot (Slot.ofFloat g)) else .error .outOfBounds :=
    fun g => State.slot?_eq m.state _
  rw [step, h, floatBinary, hfloat, hfloat]
  by_cases h1 : Slot.ofFloat i.src1 < 256
  · by_cases h2 : Slot.ofFloat i.src2 < 256
    · by_cases hd : Slot.ofFloat i.dest < 256
      · rw [if_pos h1, if_pos h2, if_pos ⟨h1, h2, hd⟩]
        have hok : ∀ w, Effect.float i.dest w = .ok { slots := [(Slot.ofFloat i.dest, w)] } :=
          fun w => if_pos hd
        simp only [bind, Except.bind, hok]
        rfl
      · rw [if_pos h1, if_pos h2, if_neg fun hall => hd hall.2.2]
        have herror : ∀ w, Effect.float i.dest w = .error .outOfBounds := fun w => if_neg hd
        simp only [bind, Except.bind, herror]
    · simp only [h1, h2, if_true, if_false, false_and, and_false]
      rfl
  · simp only [h1, if_false, false_and]
    rfl

end Guest

namespace Optimize

variable {source b b' : Block} {i : Inst}

/-- Appending an instruction without a constant. -/
theorem append_eq_push {j : Inst} (hj : j.constantIndex = none) (h : b.append source j = .ok b') :
    b' = b.push j := by
  obtain ⟨c?, hc, h⟩ := bind_eq_ok.mp h
  rw [Block.constantOf, hj] at hc
  cases hc
  cases h
  rfl

/-! ## Floats that pass through an integer register -/

namespace FloatMoves

variable {p p' : Progress}

/-- The integer register that the last instruction copied a float into still equals it. -/
def Copied (p : Progress) (m : Machine) : Prop :=
  ∀ q, p.last = some q → q.op = .fMovToGPR → m.state.float q.src1 = .ok (m.state.reg q.dest)

theorem forwarded?_eq_some {last : Option Inst} {f : UInt8} (h : forwarded? last i = some f) :
    ∃ q, last = some q ∧ i.op = .fMovFromGPR ∧ q.op = .fMovToGPR ∧ q.dest = i.src1
      ∧ q.src1 = f := by
  unfold forwarded? at h
  split at h
  · rename_i q
    split at h
    · rename_i hq
      exact ⟨q, rfl, hq.1, hq.2.1, hq.2.2, Option.some.inj h⟩
    · exact nomatch h
  · exact nomatch h

/-- After a float has been copied into an integer register the two are equal, also if the register
is the slot of the float. -/
theorem copied_of_step {c : Word} {m m' : Machine} {q : Inst} (hop : q.op = .fMovToGPR)
    (h : Guest.step q c m = (.ok none, m')) :
    m'.state.float q.src1 = .ok (m'.state.reg q.dest) := by
  obtain ⟨op, dest, src1, src2⟩ := q
  cases hop
  have heffect : effect ⟨.fMovToGPR, dest, src1, src2⟩ c m
      = (do return Effect.gpr dest (← m.state.float src1)) := by rfl
  obtain ⟨e, he, -⟩ := step_eq_ok h
  rw [heffect] at he
  obtain ⟨w, hw, -⟩ := bind_eq_ok.mp he
  obtain ⟨hlt, hslot⟩ := State.slot_of_float hw
  rw [hw] at heffect
  rw [step_gpr heffect] at h
  cases h
  rw [State.float_eq hlt, State.reg_eq_slot, Machine.slot_setReg, if_pos rfl]
  refine congrArg Except.ok ((State.slot_setSlot ..).trans ?_)
  rw [hslot, ite_self]

theorem emit_eq_ok (h : p.emit source i = .ok p') :
    p.out.append source i = .ok p'.out ∧ p'.last = some i := by
  obtain ⟨out, hout, hp'⟩ := bind_eq_ok.mp h
  rw [← pure_eq_ok.mp hp']
  exact ⟨hout, rfl⟩

/-- **One instruction.** -/
theorem rewrites_step (h : FloatMoves.step source p i = .ok p') :
    Rewrites source i (Copied p) (Copied p') p.out p'.out := by
  unfold FloatMoves.step at h
  split at h
  · rename_i f hf
    obtain ⟨q, hlast, hiop, hqop, hsrc, rfl⟩ := forwarded?_eq_some hf
    have hnop : i.op ≠ .nop := by
      rw [hiop]
      decide
    obtain ⟨op, dest, src1, src2⟩ := i
    cases hiop
    cases hsrc
    have heffect : ∀ m, effect ⟨.fMovFromGPR, dest, q.dest, src2⟩ 0 m
        = Effect.float dest (m.state.reg q.dest) := fun _ => rfl
    split at h
    · rename_i hsame
      cases h
      cases hsame
      -- the float goes back to where it came from
      refine .replaced [] rfl hnop (List.forall_mem_nil _) fun m hm => ?_
      obtain ⟨hlt, hslot⟩ := State.slot_of_float (hm q hlast hqop)
      have hstep := step_float hlt (heffect m)
      rw [← hslot, Machine.setFloat, State.setSlot_slot] at hstep
      show Follows _ (Guest.step _ 0 m) _
      rw [hstep]
      exact Follows.of_next ⟨rfl, hm⟩
    · obtain ⟨hout, hlast'⟩ := emit_eq_ok h
      refine .replaced [{ op := .fMov, dest := dest, src1 := q.src1 }] (append_eq_push rfl hout) hnop
        (by simp [Inst.constantIndex, Opcode.constField?, Opcode.signature]) fun m hm => ?_
      have hmov : effect { op := .fMov, dest := dest, src1 := q.src1 } 0 m
          = Effect.float dest (m.state.reg q.dest) := by
        show (do Effect.float dest (id (← m.state.float q.src1))) = _
        rw [hm q hlast hqop]
        rfl
      rw [List.map_singleton, runCode_singleton]
      refine follows_same (step_of_effect (hmov.trans (heffect m).symm)) fun m' _ x hx hop => ?_
      rw [hlast'] at hx
      cases hx
      cases hop
  · obtain ⟨hout, hlast⟩ := emit_eq_ok h
    refine .taken hout (fun hnop m _ x hx hop => ?_) fun m m' _ hm' x hx hop => ?_
    · rw [hlast] at hx
      cases hx
      rw [hnop] at hop
      cases hop
    · rw [hlast] at hx
      cases hx
      exact copied_of_step hop hm'

/-- What is emitted and remembered is eligible. -/
def AllEligible (p : Progress) : Prop :=
  (∀ q, p.last = some q → Eligible q) ∧ ∀ j ∈ p.out.insts, Eligible j

theorem allEligible_emit (hp : AllEligible p) (hi : Eligible i) (h : p.emit source i = .ok p') :
    AllEligible p' := by
  obtain ⟨hout, hlast⟩ := emit_eq_ok h
  refine ⟨fun q hq => ?_, eligible_append_ok hout hi hp.2⟩
  rw [hlast] at hq
  cases hq
  exact hi

theorem allEligible_step (hp : AllEligible p) (hi : Eligible i)
    (h : FloatMoves.step source p i = .ok p') : AllEligible p' := by
  unfold FloatMoves.step at h
  split at h
  · rename_i f hf
    obtain ⟨q, hlast, hiop, hqop, -, rfl⟩ := forwarded?_eq_some hf
    have hdest := (Inst.fits_iff.mp hi.fits).1
    have hsrc := (Inst.fits_iff.mp (hp.1 q hlast).fits).2.1
    rw [hiop] at hdest
    rw [hqop] at hsrc
    split at h
    · cases h
      exact hp
    · refine allEligible_emit hp ⟨Inst.fits_iff.mpr ⟨hdest, hsrc, rfl⟩, ?_, ?_⟩ h
      · have hzero := hi.zero
        rw [Inst.writeSlots, hiop] at hzero
        exact hzero
      · rintro (hop | hop) <;> cases hop
  · exact allEligible_emit hp hi h

/-- **Forwarding floats changes nothing.** -/
theorem run_refines (hb : Admissible b) (h : run b = .ok b') : Admissible b' ∧ Refines b b' := by
  obtain ⟨p, hp, hout⟩ := bind_eq_ok.mp h
  rw [← pure_eq_ok.mp hout]
  exact refines_of_foldlM (B := Progress.out) (P := Copied) (I := AllEligible) (s := {}) hb rfl
    ⟨nofun, fun j hj => absurd hj List.not_mem_nil⟩ (fun m q hq => nomatch hq) (fun s hs => hs.2)
    (fun p i p' hp hi _ h => ⟨allEligible_step hp hi h, rewrites_step h⟩) hp

end FloatMoves

/-! ## Three-operand arithmetic -/

namespace TwoOperand

/-- What the two instructions are that replace one, and why they may. -/
theorem split?_eq_some {move update : Inst} (h : split? i = some (move, update)) :
    ∃ op, moveFor? i.op = some op ∧ i.dest ≠ i.src1 ∧ i.dest ≠ i.src2
      ∧ ¬(op = .mov ∧ i.dest = 0) ∧ move = { op := op, dest := i.dest, src1 := i.src1 }
      ∧ update = { i with src1 := i.dest } := by
  unfold split? at h
  split at h
  · rename_i op hop
    split at h
    · rename_i hne
      obtain ⟨rfl, rfl⟩ := Prod.mk.inj (Option.some.inj h)
      exact ⟨op, hop, hne.1, hne.2.1, hne.2.2, rfl, rfl⟩
    · exact nomatch h
  · exact nomatch h

/-- The operation is on integer registers, or on floats. -/
theorem moveFor?_cases {op move : Opcode} (h : moveFor? op = some move) :
    (move = .mov ∧ op.signature = { dest := .gpr, src1 := .gpr, src2 := .gpr }
        ∧ ∃ f, op.binary? = some f)
      ∨ (move = .fMov ∧ op.signature = { dest := .fpr, src1 := .fpr, src2 := .fpr }
        ∧ ∃ f : Word → Word → Word, ∀ (i : Inst) (c : Word) (m : Machine), i.op = op →
          effect i c m = floatBinary i m.state f) := by
  cases op <;> cases h
  case add | sub | and | or | xor | slt | sltU => exact Or.inl ⟨rfl, rfl, _, rfl⟩
  case fAdd => exact Or.inr ⟨rfl, rfl, Single.add, fun ⟨_, _, _, _⟩ _ _ hop => by cases hop; rfl⟩
  case fSub => exact Or.inr ⟨rfl, rfl, Single.sub, fun ⟨_, _, _, _⟩ _ _ hop => by cases hop; rfl⟩
  case fMul =>
    exact Or.inr ⟨rfl, rfl, Single.guestMul, fun ⟨_, _, _, _⟩ _ _ hop => by cases hop; rfl⟩
  case fDiv => exact Or.inr ⟨rfl, rfl, Single.div, fun ⟨_, _, _, _⟩ _ _ hop => by cases hop; rfl⟩

variable {move update : Inst} {c : Word} {m : Machine}

/-- No placeholder is involved, and what an instruction is split into has no constant. -/
theorem split?_plain (h : split? i = some (move, update)) :
    i.op ≠ .nop ∧ (move.op ≠ .nop ∧ update.op ≠ .nop)
      ∧ move.constantIndex = none ∧ update.constantIndex = none := by
  obtain ⟨op, hop, -, -, -, rfl, rfl⟩ := split?_eq_some h
  have hnop : i.op ≠ .nop := by
    intro hn
    rw [hn] at hop
    cases hop
  rcases moveFor?_cases hop with ⟨rfl, hsig, -⟩ | ⟨rfl, hsig, -⟩
  all_goals
    refine ⟨hnop, ⟨fun hmove => ?_, hnop⟩, rfl, ?_⟩
    · cases hmove
    · rw [Inst.constantIndex, Opcode.constField?, hsig]
      rfl

/-- Both instructions are eligible. -/
theorem split?_eligible (hi : Eligible i) (h : split? i = some (move, update)) :
    Eligible move ∧ Eligible update := by
  obtain ⟨op, hop, -, hne2, -, rfl, rfl⟩ := split?_eq_some h
  obtain ⟨hdest, hsrc1, hsrc2⟩ := Inst.fits_iff.mp hi.fits
  have hzero := hi.zero
  rcases moveFor?_cases hop with ⟨rfl, hsig, -⟩ | ⟨rfl, hsig, -⟩ <;>
    rw [Inst.writeSlots, hsig] at hzero <;> rw [hsig] at hdest hsrc1 hsrc2
  -- the destination is another register than the second source, so nothing is out of order
  all_goals
    refine ⟨⟨?_, hzero, fun hop => ?_⟩, ⟨?_, ?_, fun _ hsame => absurd hsame.symm hne2⟩⟩
    · exact Inst.fits_iff.mpr ⟨hdest, hsrc1, rfl⟩
    · rcases hop with h | h <;> cases h
    · rw [Inst.fits_iff, hsig]
      exact ⟨hdest, hdest, hsrc2⟩
    · rw [Inst.writeSlots, hsig]
      exact hzero

/-- **A move and an update in place do what the operation does**, or the operation names a float
register that is none of the file. -/
theorem step_split (h : split? i = some (move, update)) (c : Word) (m : Machine) :
    Guest.step i c m = (.error .outOfBounds, m)
      ∨ Outcome.andThen (Guest.step move 0 m) (Guest.step update 0) = Guest.step i c m := by
  obtain ⟨op, hop, -, hne2, -, rfl, rfl⟩ := split?_eq_some h
  rcases moveFor?_cases hop with ⟨rfl, hsig, f, hf⟩ | ⟨rfl, hsig, f, hf⟩
  · -- the move overwrites the destination, which is not the second source
    right
    have hmove : Guest.step { op := .mov, dest := i.dest, src1 := i.src1 } 0 m
        = (.ok none, m.setReg i.dest (m.state.reg i.src1)) := step_gpr rfl
    rw [step_binary hf, secondOperand, hsig, hmove, Outcome.andThen_next,
      step_binary (i := { i with src1 := i.dest }) hf, secondOperand, hsig]
    simp only [State.reg_eq_slot, Machine.slot_setReg, if_neg (Ne.symm hne2), if_true]
    exact congrArg (fun s => (Except.ok none, Machine.mk s m.memory)) (State.setSlot_setSlot ..)
  · -- the same on float registers, where a number has to be in range to name a slot
    rw [step_floatBinary (hf i c m rfl)]
    split
    · rename_i hfile
      obtain ⟨h1, h2, hd⟩ := hfile
      right
      have hmove : Guest.step { op := .fMov, dest := i.dest, src1 := i.src1 } 0 m
          = (.ok none, m.setFloat i.dest (m.state.slot (Slot.ofFloat i.src1))) := by
        refine step_float (i := { op := .fMov, dest := i.dest, src1 := i.src1 }) hd ?_
        show (do Effect.float i.dest (id (← m.state.float i.src1))) = _
        rw [State.float_eq h1]
        rfl
      have hne : Slot.ofFloat i.src2 ≠ Slot.ofFloat i.dest := fun heq =>
        hne2 (UInt8.toNat_inj.mp (Nat.add_left_cancel heq)).symm
      rw [hmove, Outcome.andThen_next, step_floatBinary (hf { i with src1 := i.dest } 0 _ rfl),
        if_pos ⟨hd, h2, hd⟩]
      simp only [Machine.setFloat, State.slot_setSlot_ne _ _ hne]
      rw [State.slot_setSlot, if_pos ⟨rfl, hd⟩, State.setSlot_setSlot]
    · left
      rfl

/-- **One instruction.** -/
theorem rewrites_step (h : TwoOperand.step source b i = .ok b') :
    Rewrites source i (fun _ => True) (fun _ => True) b b' := by
  unfold TwoOperand.step at h
  split at h
  · rename_i move update hsplit
    cases h
    obtain ⟨hop, ⟨hmove, hupdate⟩, hmc, huc⟩ := split?_plain hsplit
    refine .replaced [move, update] rfl hop ?_ fun m _ => ?_
    · intro j hj
      simp only [List.mem_cons, List.not_mem_nil, or_false] at hj
      rcases hj with rfl | rfl
      · exact ⟨hmove, hmc⟩
      · exact ⟨hupdate, huc⟩
    · rcases step_split hsplit (source.pool.constant i) m with hfail | hsame
      · rw [hfail]
        exact follows_outOfBounds _ m _
      · refine follows_same ?_ fun _ _ => trivial
        rw [← hsame]
        exact congrArg _ (funext fun n => runCode_singleton update 0 n)
  · exact .taken h (fun _ _ _ => trivial) fun _ _ _ _ => trivial

theorem eligible_step (hi : Eligible i) (hb : ∀ j ∈ b.insts, Eligible j)
    (h : TwoOperand.step source b i = .ok b') : ∀ j ∈ b'.insts, Eligible j := by
  unfold TwoOperand.step at h
  split at h
  · rename_i move update hsplit
    cases h
    obtain ⟨hmove, hupdate⟩ := split?_eligible hi hsplit
    exact eligible_append rfl hupdate (eligible_append rfl hmove hb)
  · exact eligible_append_ok h hi hb

/-- **Splitting changes nothing.** -/
theorem run_refines (hb : Admissible b) (h : run b = .ok b') : Admissible b' ∧ Refines b b' :=
  refines_of_foldlM (B := id) (P := fun _ _ => True) (I := fun b => ∀ j ∈ b.insts, Eligible j) hb rfl
    (fun _ hj => absurd hj List.not_mem_nil) (fun _ => trivial) (fun _ hs => hs)
    (fun _ _ _ hs hi _ h => ⟨eligible_step hi hs h, rewrites_step h⟩) h

end TwoOperand

/-! ## Reloads -/

namespace StoreReload

variable {p p' : Progress} {c : Word} {m m' : Machine} {s : Inst}

/-- What the store wrote is still there: loading it again changes nothing. -/
def Reloads (s : Inst) (c : Word) (m : Machine) : Prop :=
  ∀ i : Inst, reload? s.op = some i.op → i.dest = s.dest → i.src1 = s.src1 →
    Guest.step i c m = (.ok none, m)

/-- A step that only stores. -/
theorem step_stores {stores : List (Word × List UInt8)} (he : effect s c m = .ok { stores := stores })
    (h : Guest.step s c m = (.ok none, m')) :
    m'.state = m.state ∧ storeAll stores m.memory = (.ok (), m'.memory) := by
  obtain ⟨e, he', -, hstate, hmem⟩ := step_eq_ok h
  rw [he] at he'
  cases he'
  exact ⟨hstate, hmem⟩

theorem reloads_word {dest src1 src2 : UInt8}
    (h : Guest.step ⟨.store32, dest, src1, src2⟩ c m = (.ok none, m')) :
    Reloads ⟨.store32, dest, src1, src2⟩ c m' := by
  obtain ⟨hstate, hmem⟩ := step_stores rfl h
  have hread := read32_storeAll [(m.state.reg src1 + c, m.state.reg dest)] hmem
    (List.pairwise_singleton _ _) _ List.mem_cons_self
  rintro ⟨op, dest', src1', src2'⟩ hop hdest hsrc
  cases hop
  cases hdest
  cases hsrc
  have heffect : effect ⟨.load32, dest, src1, src2'⟩ c m'
      = .ok (Effect.gpr dest (m'.state.slot dest.toNat)) := by
    show (do return Effect.gpr dest (← m'.memory.read32 (m'.state.reg src1 + c))) = _
    rw [hstate, hread, ← State.reg_eq_slot]
    rfl
  rw [step_gpr heffect, Machine.setReg_slot]

/-- The words in a vector operand, which lies in the register file. -/
theorem lanes_eq_ok {s : State} {f : UInt8} {v : Lanes} (h : s.lanes f = .ok v) :
    Slot.ofFloat f + 3 < Slot.count ∧ v = #v[s.slot (Slot.ofFloat f), s.slot (Slot.ofFloat f + 1),
      s.slot (Slot.ofFloat f + 2), s.slot (Slot.ofFloat f + 3)] := by
  have hslot : ∀ {k : Slot} {w : Word}, s.slot? k = .ok w → k < 256 ∧ w = s.slot k := by
    intro k w hw
    rw [State.slot?_eq] at hw
    split at hw
    · rename_i hlt
      exact ⟨hlt, (Except.ok.inj hw).symm⟩
    · cases hw
  unfold State.lanes at h
  simp only [bind_eq_ok, pure_eq_ok] at h
  obtain ⟨_, h0, _, h1, _, h2, _, h3, rfl⟩ := h
  obtain ⟨-, rfl⟩ := hslot h0
  obtain ⟨-, rfl⟩ := hslot h1
  obtain ⟨-, rfl⟩ := hslot h2
  obtain ⟨hlt, rfl⟩ := hslot h3
  exact ⟨hlt, rfl⟩

theorem reloads_vector {dest src1 src2 : UInt8}
    (h : Guest.step ⟨.storeVec4, dest, src1, src2⟩ c m = (.ok none, m')) :
    Reloads ⟨.storeVec4, dest, src1, src2⟩ c m' := by
  obtain ⟨e, he, -⟩ := step_eq_ok h
  obtain ⟨v, hv, -⟩ := bind_eq_ok.mp he
  obtain ⟨hle, rfl⟩ := lanes_eq_ok hv
  have hstore : effect ⟨.storeVec4, dest, src1, src2⟩ c m = .ok { stores := (wordStores
      [(m.state.reg src1 + c, m.state.slot (Slot.ofFloat dest)),
       (m.state.reg src1 + c + 4, m.state.slot (Slot.ofFloat dest + 1)),
       (m.state.reg src1 + c + 8, m.state.slot (Slot.ofFloat dest + 2)),
       (m.state.reg src1 + c + 12, m.state.slot (Slot.ofFloat dest + 3))]) } := by
    simp only [effect, Opcode.binary?, Opcode.unary?, effectOther, hv]
    rfl
  obtain ⟨hstate, hmem⟩ := step_stores hstore h
  have hapart : ∀ {d e : Word}, d.toNat ≤ 12 → e.toNat ≤ 12 → d.toNat + 4 ≤ e.toNat →
      Apart (m.state.reg src1 + c + e) (m.state.reg src1 + c + d) :=
    fun hd he h => apart_add _ hd he h
  have hzero : ∀ {e : Word}, e.toNat ≤ 12 → 4 ≤ e.toNat →
      Apart (m.state.reg src1 + c + e) (m.state.reg src1 + c) := by
    intro e he h
    have := hapart (d := 0) (by decide) he (by rwa [UInt32.toNat_zero, Nat.zero_add])
    rwa [UInt32.add_zero] at this
  have hread := read32_storeAll _ hmem (by
    simp only [List.pairwise_cons, List.mem_cons, List.not_mem_nil, or_false, forall_eq_or_imp,
      forall_eq, IsEmpty.forall_iff, implies_true, List.Pairwise.nil, and_true]
    refine ⟨⟨hzero ?_ ?_, hzero ?_ ?_, hzero ?_ ?_⟩, ⟨hapart ?_ ?_ ?_, hapart ?_ ?_ ?_⟩,
      hapart ?_ ?_ ?_⟩ <;> decide)
  simp only [List.mem_cons, List.not_mem_nil, or_false, forall_eq_or_imp, forall_eq] at hread
  obtain ⟨h0, h1, h2, h3⟩ := hread
  rintro ⟨op, dest', src1', src2'⟩ hop hdest hsrc
  cases hop
  cases hdest
  cases hsrc
  have heffect : effect ⟨.loadVec4, dest, src1, src2'⟩ c m' = .ok { slots :=
      [(Slot.ofFloat dest, m'.state.slot (Slot.ofFloat dest)),
       (Slot.ofFloat dest + 1, m'.state.slot (Slot.ofFloat dest + 1)),
       (Slot.ofFloat dest + 2, m'.state.slot (Slot.ofFloat dest + 2)),
       (Slot.ofFloat dest + 3, m'.state.slot (Slot.ofFloat dest + 3))] } := by
    simp only [effect, Opcode.binary?, Opcode.unary?, effectOther, hstate, h0, h1, h2, h3]
    exact if_pos hle
  rw [Guest.step, heffect]
  refine congrArg (fun s => (Except.ok none, Machine.mk s m'.memory)) ?_
  show m'.state.setSlots _ = m'.state
  simp only [State.setSlots, List.foldl_cons, List.foldl_nil, State.setSlot_slot]

/-- After a store that is watched its reloads change nothing. -/
theorem reloads_of_step (hwatched : (reload? s.op).isSome = true)
    (h : Guest.step s c m = (.ok none, m')) : Reloads s c m' := by
  obtain ⟨op, dest, src1, src2⟩ := s
  cases op <;> cases hwatched
  case store32 => exact reloads_word h
  case storeVec4 => exact reloads_vector h

/-- A load of what the store has written, by the constants that the two resolve to. -/
def Reload (source : Block) (s i : Inst) : Prop :=
  reload? s.op = some i.op ∧ i.dest = s.dest ∧ i.src1 = s.src1
    ∧ source.pool.constant i = source.pool.constant s

instance (source : Block) (s i : Inst) : Decidable (Reload source s i) :=
  inferInstanceAs (Decidable (_ ∧ _))

/-- A watched store and its reload both have a constant. -/
theorem constantIndex_reload (h : reload? s.op = some i.op) :
    (∃ k, s.constantIndex = some k) ∧ ∃ k, i.constantIndex = some k := by
  obtain ⟨op, dest, src1, src2⟩ := s
  obtain ⟨op', dest', src1', src2'⟩ := i
  cases op <;> cases h <;> exact ⟨⟨_, rfl⟩, ⟨_, rfl⟩⟩

theorem isReload_eq (hs : ∀ k, s.constantIndex = some k → k.toNat < source.pool.size)
    (hi : ∀ k, i.constantIndex = some k → k.toNat < source.pool.size) :
    isReload source s i = .ok (decide (Reload source s i)) := by
  unfold isReload
  split
  · rename_i hmatch
    obtain ⟨⟨k, hk⟩, l, hl⟩ := constantIndex_reload hmatch.1
    have hreload : (some (source.pool.constant i) == some (source.pool.constant s))
        = decide (Reload source s i) := by
      simp [Reload, hmatch, beq_eq_decide]
    rw [Block.constantOf_eq hs, Block.constantOf_eq hi, hk, hl, ← hreload]
    rfl
  · rename_i hmatch
    have hnone : ¬Reload source s i := fun h => hmatch ⟨h.1, h.2.1, h.2.2.1⟩
    rw [decide_eq_false hnone]

/-- The store that is being watched is an instruction of the block. -/
def Watches (source : Block) (p : Progress) : Prop :=
  ∀ s, p.store = some s → ∀ k, s.constantIndex = some k → k.toNat < source.pool.size

/-- What the store that is being watched wrote is still there. -/
def Stored (source : Block) (p : Progress) (m : Machine) : Prop :=
  ∀ s, p.store = some s → Reloads s (source.pool.constant s) m

theorem emit_eq_ok (h : p.emit source i = .ok p') :
    p.out.append source i = .ok p'.out
      ∧ p'.store = if (reload? i.op).isSome then some i else none := by
  obtain ⟨out, hout, hp'⟩ := bind_eq_ok.mp h
  rw [← pure_eq_ok.mp hp']
  exact ⟨hout, rfl⟩

/-- Only the instruction that was emitted last is watched. -/
theorem store_emit (h : p.emit source i = .ok p') (hs : p'.store = some s) :
    s = i ∧ (reload? i.op).isSome = true := by
  rw [(emit_eq_ok h).2] at hs
  split at hs
  · rename_i hsome
    exact ⟨(Option.some.inj hs).symm, hsome⟩
  · exact nomatch hs

theorem rewrites_emit (hi : ∀ k, i.constantIndex = some k → k.toNat < source.pool.size)
    (h : p.emit source i = .ok p') :
    Watches source p' ∧ Rewrites source i (Stored source p) (Stored source p') p.out p'.out := by
  refine ⟨fun s hs => ?_, .taken (emit_eq_ok h).1 ?_ ?_⟩
  · rw [(store_emit h hs).1]
    exact hi
  · intro hnop m _ s hs
    have hsome := (store_emit h hs).2
    rw [hnop] at hsome
    exact nomatch hsome
  · intro m m' _ hm' s hs
    obtain ⟨rfl, hsome⟩ := store_emit h hs
    exact reloads_of_step hsome hm'

/-- **One instruction.** -/
theorem rewrites_step (hp : Watches source p)
    (hi : ∀ k, i.constantIndex = some k → k.toNat < source.pool.size)
    (h : StoreReload.step source p i = .ok p') :
    Watches source p' ∧ Rewrites source i (Stored source p) (Stored source p') p.out p'.out := by
  unfold StoreReload.step at h
  split at h
  · exact rewrites_emit hi h
  · rename_i s hstore
    rw [isReload_eq (hp s hstore) hi] at h
    obtain ⟨_, ⟨⟩, h⟩ := bind_eq_ok.mp h
    split at h
    · rename_i hreload
      obtain ⟨hop, hdest, hsrc, hconst⟩ := of_decide_eq_true hreload
      rw [← pure_eq_ok.mp h]
      have hnop : i.op ≠ .nop := by
        intro hn
        rw [hn] at hop
        cases hs : s.op <;> rw [hs] at hop <;> exact nomatch hop
      refine ⟨hp, .replaced [] rfl hnop nofun fun m hm => ?_⟩
      rw [hconst, hm s hstore i hop hdest hsrc]
      exact Follows.of_next ⟨rfl, hm⟩
    · exact rewrites_emit hi h

theorem eligible_step (hi : Eligible i) (hp : ∀ j ∈ p.out.insts, Eligible j)
    (h : StoreReload.step source p i = .ok p') : ∀ j ∈ p'.out.insts, Eligible j := by
  unfold StoreReload.step at h
  split at h
  · exact eligible_append_ok (emit_eq_ok h).1 hi hp
  · obtain ⟨reload, -, h⟩ := bind_eq_ok.mp h
    split at h
    · rw [← pure_eq_ok.mp h]
      exact hp
    · exact eligible_append_ok (emit_eq_ok h).1 hi hp

/-- **Dropping reloads changes nothing.** -/
theorem run_refines (hb : Admissible b) (h : run b = .ok b') : Admissible b' ∧ Refines b b' := by
  obtain ⟨p, hp, hout⟩ := bind_eq_ok.mp h
  rw [← pure_eq_ok.mp hout]
  exact refines_of_foldlM (B := Progress.out) (P := Stored b)
    (I := fun p => Watches b p ∧ ∀ j ∈ p.out.insts, Eligible j) (s := {}) hb rfl
    ⟨nofun, fun j hj => absurd hj List.not_mem_nil⟩ (fun m s hs => nomatch hs) (fun p hp => hp.2)
    (fun p i p' hp hi hrange h => by
      obtain ⟨hwatches, hrewrites⟩ := rewrites_step hp.1 hrange h
      exact ⟨⟨hwatches, eligible_step hi hp.2 h⟩, hrewrites⟩) hp

end StoreReload

end Optimize

end Dynarec
