/-
What a fold state promises about the two machines.

During constant propagation one machine runs the instructions read so far and another one the block
built so far. The second may be behind: a value that is known need not be in its register yet.
`Related s m n` is the promise that the state `s` makes about the two.

* A known value is in its register on the first machine; a register about which nothing is known
  is the same on both.
* A placed constant is in its register on the second machine, and only known registers have one.
  The second half is what allows an operation to update an unknown register in place without
  touching the tables.
* Float registers are never known, slot zero is known to be zero, and everything else is the same.

A slot is synced when the tables show that it is the same on both machines. The file proves what
flushing, learning and emitting do to the promise; the rules of the pass are built from these
three.
-/
import Dynarec.Optimize.ConstantPropagation
import Dynarec.Proofs.Guest.Code
import Dynarec.Proofs.Guest.Footprint

set_option autoImplicit false

namespace Dynarec.Optimize.ConstantPropagation

open Guest

/-! ## Tables -/

theorem PerSlot.at_put {α : Type} (t : PerSlot α) (r q : UInt8) (a : α) :
    PerSlot.at (PerSlot.put t r a) q = if q = r then a else PerSlot.at t q := by
  have hq : q.toNat < 256 := q.toNat_lt
  show (t.set r.toNat a r.toNat_lt)[q.toNat] = if q = r then a else t[q.toNat]
  rw [Vector.getElem_set]
  by_cases h : q = r
  · rw [if_pos (congrArg UInt8.toNat h.symm), if_pos h]
  · rw [if_neg fun hn => h (UInt8.toNat_inj.mp hn.symm), if_neg h]

namespace Folding

variable {s s' : Folding} {r q : UInt8} {w : Word}

/-- The constant that the block being built has left in a slot. -/
def placed? (s : Folding) (r : UInt8) : Option Word := PerSlot.at s.placed r

theorem value?_learn (hr : r ≠ 0) (q : UInt8) :
    (s.learn r w).value? q = if q = r then some w else s.value? q := by
  rw [learn, if_neg hr]
  exact PerSlot.at_put s.known r q (some w)

theorem learn_eq (hr : r ≠ 0) :
    (s.learn r w).placed = s.placed ∧ (s.learn r w).out = s.out
      ∧ (s.learn r w).dropExit = s.dropExit := by
  rw [learn, if_neg hr]
  exact ⟨rfl, rfl, rfl⟩

theorem forget_eq (s : Folding) (r : UInt8) :
    (s.forget r).out = s.out ∧ (s.forget r).dropExit = s.dropExit := by
  rw [forget]
  split <;> exact ⟨rfl, rfl⟩

theorem value?_forget (hr : r ≠ 0) (q : UInt8) :
    (s.forget r).value? q = if q = r then none else s.value? q := by
  rw [forget, if_neg hr]
  exact PerSlot.at_put s.known r q none

theorem placed?_forget (hr : r ≠ 0) (q : UInt8) :
    (s.forget r).placed? q = if q = r then none else s.placed? q := by
  rw [forget, if_neg hr]
  exact PerSlot.at_put s.placed r q none

/-! ## The promise -/

/-- The slots `ws` have become unknown and nothing else has changed in the tables. -/
structure Cleared (s s' : Folding) (ws : List Slot) : Prop where
  written : ∀ r : UInt8, r.toNat ∈ ws → s'.value? r = none ∧ s'.placed? r = none
  kept : ∀ r : UInt8, r.toNat ∉ ws → s'.value? r = s.value? r ∧ s'.placed? r = s.placed? r
  dropExit : s'.dropExit = s.dropExit

/-- What a fold state says about the machine that runs the block read, `m`, and the one that runs
the block built, `n`. -/
structure Related (s : Folding) (m n : Machine) : Prop where
  known : ∀ r w, s.value? r = some w → m.state.slot r.toNat = w
  unknown : ∀ r, s.value? r = none → n.state.slot r.toNat = m.state.slot r.toNat
  placed : ∀ r w, s.placed? r = some w → n.state.slot r.toNat = w
  unplaced : ∀ r, s.value? r = none → s.placed? r = none
  float : ∀ r : UInt8, Slot.isInteger r.toNat = false → s.value? r = none
  zero : s.value? 0 = some 0
  zeroSlot : n.state.slot 0 = 0
  pc : n.state.pc = m.state.pc
  downcount : n.state.downcount = m.state.downcount
  syscall : n.state.syscall = m.state.syscall
  memory : n.memory = m.memory
  /-- After a decided exit nothing is promised: nothing runs there. -/
  live : s.dropExit = false

/-- The tables show that a slot is the same on both machines. -/
def Synced (s : Folding) (r : UInt8) : Prop :=
  r = 0 ∨ s.value? r = none ∨ s.placed? r = s.value? r

variable {m n : Machine}

theorem Related.slot_eq (h : Related s m n) (hr : s.Synced r) :
    n.state.slot r.toNat = m.state.slot r.toNat := by
  cases hv : s.value? r with
  | none => exact h.unknown r hv
  | some w =>
    rw [h.known r w hv]
    rcases hr with rfl | hnone | hplaced
    · rw [h.zero] at hv
      rw [← Option.some.inj hv]
      exact h.zeroSlot
    · rw [hv] at hnone
      exact nomatch hnone
    · exact h.placed r w (hplaced.trans hv)

/-- Machines on which every slot is synced are the same. -/
theorem Related.eq_of_synced (h : Related s m n) (hs : ∀ r, s.Synced r) : n = m := by
  have hstate : n.state = m.state := by
    refine State.ext_slots (fun k => ?_) h.pc h.downcount h.syscall
    by_cases hk : k < 256
    · rw [← toNat_ofNat_of_lt hk]
      exact h.slot_eq (hs _)
    · -- there are no slots beyond 256
      have hge : 256 ≤ k := Nat.le_of_not_lt hk
      rw [State.slot_of_ge _ hge, State.slot_of_ge _ hge]
  obtain ⟨nstate, nmemory⟩ := n
  obtain ⟨mstate, mmemory⟩ := m
  exact congrArg₂ Machine.mk hstate h.memory

/-- The machines agree on integer slots that are synced; on float slots they always do. -/
theorem Related.agree {slots : List Slot} (h : Related s m n) (hlt : ∀ k ∈ slots, k < 256)
    (hs : ∀ r : UInt8, r.toNat ∈ slots → Slot.isInteger r.toNat = true → s.Synced r) :
    Agree (0 :: slots) m n := by
  refine ⟨fun k hk => ?_, h.pc.symm, h.downcount.symm, h.syscall.symm, h.memory.symm⟩
  rcases List.mem_cons.mp hk with rfl | hk
  · rw [h.zeroSlot]
    exact h.known 0 0 h.zero
  · obtain ⟨r, rfl⟩ : ∃ r : UInt8, r.toNat = k := ⟨UInt8.ofNat k, toNat_ofNat_of_lt (hlt k hk)⟩
    refine (h.slot_eq ?_).symm
    cases hint : Slot.isInteger r.toNat with
    | true => exact hs r hk hint
    | false => exact Or.inr (Or.inl (h.float r hint))

/-- Running an instruction on both machines keeps the promise, if what it reads is synced and what
it writes is forgotten. An instruction that may leave needs all slots synced. -/
theorem Related.step {j : Inst} (h : Related s m n) (hfits : j.fits = true)
    (hzero : 0 ∉ j.writeSlots)
    (hread : ∀ r : UInt8, r.toNat ∈ j.readSlots → Slot.isInteger r.toNat = true → s.Synced r)
    (hwrite : Cleared s s' j.writeSlots) (hexit : j.isExit = false ∨ ∀ r, s.Synced r) (c : Word) :
    Follows (Related s') (Guest.step j c m) (Guest.step j c n) := by
  have hagree : Agree (0 :: j.readSlots) m n := h.agree (fun k => Inst.readSlot_lt hfits) hread
  refine ⟨fun m' hm => ?_, fun t m' hm => ?_, fun a k m' hm => ?_⟩
  · obtain ⟨n', hn, hagree'⟩ := step_transfer hagree hm
    have hm_frame := step_frame hm
    have hn_frame := step_frame hn
    refine ⟨n', hn, ?_⟩
    -- a slot was written, and is the same on both sides, or is as it was on each side
    refine { known := ?known, unknown := ?unknown, placed := ?placed, unplaced := ?unplaced,
             float := ?float, zero := ?zero, zeroSlot := ?zeroSlot, pc := hagree'.pc.symm,
             downcount := hagree'.downcount.symm, syscall := hagree'.syscall.symm,
             memory := hagree'.memory.symm, live := ?live }
    case known =>
      intro r w hv
      by_cases hw : r.toNat ∈ j.writeSlots
      · rw [(hwrite.written r hw).1] at hv
        exact nomatch hv
      · rw [hm_frame.slot _ hw]
        exact h.known r w ((hwrite.kept r hw).1 ▸ hv)
    case unknown =>
      intro r hv
      by_cases hw : r.toNat ∈ j.writeSlots
      · exact (hagree'.slot _ hw).symm
      · rw [hm_frame.slot _ hw, hn_frame.slot _ hw]
        exact h.unknown r ((hwrite.kept r hw).1 ▸ hv)
    case placed =>
      intro r w hp
      by_cases hw : r.toNat ∈ j.writeSlots
      · rw [(hwrite.written r hw).2] at hp
        exact nomatch hp
      · rw [hn_frame.slot _ hw]
        exact h.placed r w ((hwrite.kept r hw).2 ▸ hp)
    case unplaced =>
      intro r hv
      by_cases hw : r.toNat ∈ j.writeSlots
      · exact (hwrite.written r hw).2
      · rw [(hwrite.kept r hw).2]
        exact h.unplaced r ((hwrite.kept r hw).1 ▸ hv)
    case float =>
      intro r hr
      by_cases hw : r.toNat ∈ j.writeSlots
      · exact (hwrite.written r hw).1
      · rw [(hwrite.kept r hw).1]
        exact h.float r hr
    case zero =>
      rw [(hwrite.kept 0 hzero).1]
      exact h.zero
    case zeroSlot =>
      rw [hn_frame.slot 0 hzero]
      exact h.zeroSlot
    case live =>
      rw [hwrite.dropExit]
      exact h.live
  · rcases hexit with hno | hall
    · exact nomatch step_exit hno hm
    · rw [h.eq_of_synced hall]
  · obtain ⟨n', hn, hmemory⟩ :=
      step_transfer_error (hagree.mono fun k hk => List.mem_cons_of_mem 0 hk) hm
    exact ⟨n', hn, hmemory⟩

/-! ## Forgetting -/

theorem mem_integerBytes {slots : List Slot} (hr : Slot.isInteger r.toNat = true) :
    r.toNat ∈ slots → r ∈ integerBytes slots := by
  intro h
  exact List.mem_map.mpr ⟨r.toNat, List.mem_filter.mpr ⟨h, hr⟩, UInt8.ofNat_toNat⟩

theorem of_mem_integerBytes {slots : List Slot} (hlt : ∀ k ∈ slots, k < 256)
    (h : r ∈ integerBytes slots) : r.toNat ∈ slots := by
  obtain ⟨k, hk, rfl⟩ := List.mem_map.mp h
  have hmem : k ∈ slots := (List.mem_filter.mp hk).1
  rw [toNat_ofNat_of_lt (hlt k hmem)]
  exact hmem

/-- Forgetting several slots, none of them slot zero. -/
theorem foldl_forget (l : List UInt8) (s : Folding) (hl : 0 ∉ l) :
    (l.foldl forget s).out = s.out ∧ (l.foldl forget s).dropExit = s.dropExit ∧
    ∀ q, (q ∈ l → (l.foldl forget s).value? q = none ∧ (l.foldl forget s).placed? q = none)
      ∧ (q ∉ l → (l.foldl forget s).value? q = s.value? q
        ∧ (l.foldl forget s).placed? q = s.placed? q) := by
  induction l generalizing s with
  | nil => exact ⟨rfl, rfl, fun q => ⟨fun hq => absurd hq List.not_mem_nil, fun _ => ⟨rfl, rfl⟩⟩⟩
  | cons r l ih =>
    obtain ⟨hr, hl'⟩ := not_or.mp (mt List.mem_cons.mpr hl)
    replace hr : r ≠ 0 := Ne.symm hr
    obtain ⟨hout, hdrop, hq⟩ := ih (s.forget r) hl'
    rw [List.foldl_cons]
    refine ⟨hout.trans (s.forget_eq r).1, hdrop.trans (s.forget_eq r).2, fun q => ⟨?_, ?_⟩⟩
    · intro hmem
      by_cases hql : q ∈ l
      · exact (hq q).1 hql
      · obtain rfl : q = r := (List.mem_cons.mp hmem).resolve_right hql
        rw [((hq q).2 hql).1, ((hq q).2 hql).2, value?_forget hr, placed?_forget hr, if_pos rfl,
          if_pos rfl]
        exact ⟨rfl, rfl⟩
    · intro hmem
      obtain ⟨hne, hql⟩ := not_or.mp (mt List.mem_cons.mpr hmem)
      rw [((hq q).2 hql).1, ((hq q).2 hql).2, value?_forget hr, placed?_forget hr, if_neg hne,
        if_neg hne]
      exact ⟨rfl, rfl⟩

/-- Forgetting the integer slots in a list clears the whole list: float slots were not known. -/
theorem Related.cleared_forget {ws : List Slot} (h : Related s m n) (hzero : 0 ∉ ws)
    (hlt : ∀ k ∈ ws, k < 256) : Cleared s ((integerBytes ws).foldl forget s) ws := by
  have hzero' : 0 ∉ integerBytes ws := fun hmem => hzero (of_mem_integerBytes hlt hmem)
  obtain ⟨-, hdrop, hq⟩ := foldl_forget (integerBytes ws) s hzero'
  refine ⟨fun r hr => ?_, fun r hr => ?_, hdrop⟩
  · cases hint : Slot.isInteger r.toNat with
    | true => exact (hq r).1 (mem_integerBytes hint hr)
    | false =>
      have hfloat := h.float r hint
      by_cases hmem : r ∈ integerBytes ws
      · exact (hq r).1 hmem
      · rw [((hq r).2 hmem).1, ((hq r).2 hmem).2]
        exact ⟨hfloat, h.unplaced r hfloat⟩
  · exact (hq r).2 fun hmem => hr (of_mem_integerBytes hlt hmem)

/-! ## Simulation by a fold -/

/-- The fold went from `s` to `s'` while `source` was read. -/
abbrev Simulates (s s' : Folding) (source : Machine → Outcome) : Prop :=
  s.out.Simulates s'.out (Related s) (Related s') source

/-- Nothing happens in the source. -/
def idle (m : Machine) : Outcome := (.ok none, m)

/-- Values have been put into their registers, and what is known is still known. -/
structure Flushed (s s' : Folding) : Prop where
  simulates : s.Simulates s' idle
  known : s'.known = s.known
  synced : ∀ r, s.Synced r → s'.Synced r

theorem Flushed.refl (s : Folding) : Flushed s s :=
  ⟨Block.Simulates.of_silent fun m _ h => ⟨m, rfl, h⟩, rfl, fun _ h => h⟩

theorem Flushed.trans {s'' : Folding} (h : Flushed s s') (h' : Flushed s' s'') : Flushed s s'' :=
  ⟨h.simulates.trans h'.simulates, h'.known.trans h.known, fun r hr => h'.synced r (h.synced r hr)⟩

/-- What happens in the source after flushing happens as if nothing had been flushed. -/
theorem Flushed.then {b : Block} {R : Machine → Machine → Prop} {source : Machine → Outcome}
    (h : Flushed s s') (h' : s'.out.Simulates b (Related s') R source) :
    s.out.Simulates b (Related s) R source :=
  h.simulates.trans h'

/-- A synced slot needs no flush. -/
theorem flush_of_synced (h : s.Synced r) : s.flush r = .ok s := by
  rw [flush]
  cases hv : s.value? r with
  | none => rfl
  | some w =>
    refine if_pos ?_
    rcases h with h0 | hnone | hplaced
    · exact Or.inl h0
    · rw [hv] at hnone
      exact nomatch hnone
    · exact Or.inr (hplaced.trans hv)

/-- The state after a flush: `b` is built, and the word of a slot is in its register. -/
def place (s : Folding) (r : UInt8) (w : Word) (b : Block) : Folding :=
  { s with out := b, placed := PerSlot.put s.placed r (some w) }

theorem placed?_place (s : Folding) (r : UInt8) (w : Word) (b : Block) (q : UInt8) :
    (s.place r w b).placed? q = if q = r then some w else s.placed? q :=
  PerSlot.at_put s.placed r q (some w)

theorem Related.place {b : Block} (h : Related s m n) (hr : r ≠ 0) (hv : s.value? r = some w) :
    Related (s.place r w b) m (n.setReg r w) := by
  -- the register is known, so the promise about unknown ones is not about it
  have hne : ∀ q, s.value? q = none → q ≠ r := by
    rintro _ hq rfl
    exact nomatch hv.symm.trans hq
  refine { h with
    unknown := ?unknown, placed := ?placed, unplaced := ?unplaced, zeroSlot := ?zeroSlot }
  case unknown =>
    intro q hq
    rw [Machine.slot_setReg, if_neg (hne q hq)]
    exact h.unknown q hq
  case placed =>
    intro q x hx
    rw [placed?_place] at hx
    rw [Machine.slot_setReg]
    by_cases hqr : q = r
    · rw [if_pos hqr] at hx ⊢
      exact Option.some.inj hx
    · rw [if_neg hqr] at hx ⊢
      exact h.placed q x hx
  case unplaced =>
    intro q hq
    rw [placed?_place, if_neg (hne q hq)]
    exact h.unplaced q hq
  case zeroSlot =>
    exact (Machine.slot_setReg n r 0 w).trans ((if_neg hr.symm).trans h.zeroSlot)

/-- **A flush puts a value where the source has it.** -/
theorem flushed_flush (h : s.flush r = .ok s') : Flushed s s' ∧ s'.Synced r := by
  rw [flush] at h
  cases hv : s.value? r with
  | none =>
    rw [hv] at h
    cases h
    exact ⟨Flushed.refl s, Or.inr (Or.inl hv)⟩
  | some w =>
    simp only [hv] at h
    split at h
    · rename_i hdone
      cases h
      refine ⟨Flushed.refl s, ?_⟩
      rcases hdone with h0 | hplaced
      · exact Or.inl h0
      · exact Or.inr (Or.inr (hplaced.trans hv.symm))
    · rename_i htodo
      obtain ⟨b, hb, hs⟩ := bind_eq_ok.mp h
      obtain rfl : s.place r w b = s' := pure_eq_ok.mp hs
      have hr : r ≠ 0 := fun h0 => htodo (Or.inl h0)
      refine ⟨⟨?_, rfl, fun q hq => ?_⟩, Or.inr (Or.inr ?_)⟩
      · rw [Block.setConst_eq] at hb
        refine Block.Simulates.of_pushWith hb (fun hn => nomatch hn) fun m n hR => ?_
        rw [step_gpr rfl]
        exact Follows.of_next (hR.place hr hv)
      · -- a slot that was synced still is
        by_cases hqr : q = r
        · refine Or.inr (Or.inr ?_)
          rw [placed?_place, if_pos hqr, hqr]
          exact hv.symm
        · refine hq.imp_right (Or.imp_right fun hp => ?_)
          rw [placed?_place, if_neg hqr]
          exact hp
      · rw [placed?_place, if_pos rfl]
        exact hv.symm

/-- Flushing several slots. -/
theorem flushed_foldlM (l : List UInt8) (h : l.foldlM flush s = .ok s') :
    Flushed s s' ∧ ∀ r ∈ l, s'.Synced r := by
  induction l generalizing s with
  | nil =>
    rw [← pure_eq_ok.mp h]
    exact ⟨Flushed.refl s, fun r hr => absurd hr List.not_mem_nil⟩
  | cons q l ih =>
    obtain ⟨s₁, h₁, h⟩ := bind_eq_ok.mp h
    obtain ⟨hflush, hq⟩ := flushed_flush h₁
    obtain ⟨hrest, hl⟩ := ih h
    refine ⟨hflush.trans hrest, fun r hr => ?_⟩
    rcases List.mem_cons.mp hr with rfl | hr
    · exact hrest.synced r hq
    · exact hl r hr

theorem mem_flushOrder (hr : r ≠ 0) : r ∈ flushOrder := by
  refine List.mem_map.mpr ⟨r.toNat, List.mem_range'_1.mpr ?_, UInt8.ofNat_toNat⟩
  have hlt := r.toNat_lt
  have hne : r.toNat ≠ 0 := fun h0 => hr (UInt8.toNat_inj.mp h0)
  omega

/-- Flushing everything. -/
theorem flushed_flushAll (h : s.flushAll = .ok s') : Flushed s s' ∧ ∀ r, s'.Synced r := by
  obtain ⟨hflush, hl⟩ := flushed_foldlM flushOrder h
  refine ⟨hflush, fun r => ?_⟩
  by_cases hr : r = 0
  · exact Or.inl hr
  · exact hl r (mem_flushOrder hr)

/-- Where everything is synced nothing is flushed. -/
theorem flushAll_of_synced (h : ∀ r, s.Synced r) : s.flushAll = .ok s := by
  have hl : ∀ l : List UInt8, l.foldlM flush s = .ok s := by
    intro l
    induction l with
    | nil => rfl
    | cons r l ih => exact bind_eq_ok.mpr ⟨s, flush_of_synced (h r), ih⟩
  exact hl flushOrder

/-! ## Learning and emitting -/

/-- **Learning a value.** The source computes a value that is known, and nothing is emitted. -/
theorem simulates_learn {source : Machine → Outcome} (hr : r ≠ 0)
    (hint : Slot.isInteger r.toNat = true)
    (h : ∀ m n, Related s m n → source m = (.ok none, m.setReg r w)) :
    s.Simulates (s.learn r w) source := by
  obtain ⟨hplaced, hout, hdrop⟩ := learn_eq (s := s) (w := w) hr
  rw [Simulates, hout]
  refine Block.Simulates.of_silent fun m n hR => ⟨m.setReg r w, h m n hR, ?_⟩
  -- what is still unknown was unknown before, and is another register
  have hother : ∀ q, (s.learn r w).value? q = none → q ≠ r ∧ s.value? q = none := by
    intro q hq
    rw [value?_learn hr] at hq
    by_cases hqr : q = r
    · rw [if_pos hqr] at hq
      exact nomatch hq
    · rw [if_neg hqr] at hq
      exact ⟨hqr, hq⟩
  refine { hR with
    known := ?known, unknown := ?unknown, placed := ?placed, unplaced := ?unplaced,
    float := ?float, zero := ?zero, live := hdrop.trans hR.live }
  case known =>
    intro q x hx
    rw [value?_learn hr] at hx
    rw [Machine.slot_setReg]
    by_cases hqr : q = r
    · rw [if_pos hqr] at hx ⊢
      exact Option.some.inj hx
    · rw [if_neg hqr] at hx ⊢
      exact hR.known q x hx
  case unknown =>
    intro q hq
    obtain ⟨hqr, hnone⟩ := hother q hq
    rw [Machine.slot_setReg, if_neg hqr]
    exact hR.unknown q hnone
  case placed =>
    intro q x hx
    rw [placed?, hplaced] at hx
    exact hR.placed q x hx
  case unplaced =>
    intro q hq
    rw [placed?, hplaced]
    exact hR.unplaced q (hother q hq).2
  case float =>
    intro q hq
    have hqr : q ≠ r := by
      rintro rfl
      exact nomatch hint.symm.trans hq
    rw [value?_learn hr, if_neg hqr]
    exact hR.float q hq
  case zero =>
    rw [value?_learn hr, if_neg hr.symm]
    exact hR.zero

/-- Appending an instruction that the source runs too. -/
theorem simulates_push {j : Inst} {c? : Option Word} (hp : s.out.pushWith j c? = .ok s'.out)
    (hj : c? = none → j.constantIndex = none) (hfits : j.fits = true) (hzero : 0 ∉ j.writeSlots)
    (hread : ∀ r : UInt8, r.toNat ∈ j.readSlots → Slot.isInteger r.toNat = true → s.Synced r)
    (hwrite : ∀ m n, Related s m n → Cleared s s' j.writeSlots)
    (hexit : j.isExit = false ∨ ∀ r, s.Synced r) :
    s.Simulates s' (step j (c?.getD 0)) :=
  Block.Simulates.of_pushWith hp hj fun m n hR =>
    hR.step hfits hzero hread (hwrite m n hR) hexit (c?.getD 0)

/-- **Emitting an instruction.** -/
theorem simulates_emit {j : Inst} {c? : Option Word} (h : s.emit j c? = .ok s')
    (hj : c? = none → j.constantIndex = none) (hfits : j.fits = true) (hzero : 0 ∉ j.writeSlots)
    (hexit : j.isExit = false ∨ ∀ r, s.Synced r) : s.Simulates s' (step j (c?.getD 0)) := by
  obtain ⟨s₁, h₁, h⟩ := bind_eq_ok.mp h
  obtain ⟨b, hb, hs⟩ := bind_eq_ok.mp h
  obtain ⟨hflush, hread⟩ := flushed_foldlM _ h₁
  have hzero' : 0 ∉ integerBytes j.writeSlots := fun hmem =>
    hzero (of_mem_integerBytes (fun k => Inst.writeSlot_lt hfits) hmem)
  have hout := (foldl_forget (integerBytes j.writeSlots) s₁ hzero').1
  rw [hout] at hb
  rw [← pure_eq_ok.mp hs]
  refine hflush.then (simulates_push hb hj hfits hzero ?_ (fun m n hR => ?_) ?_)
  · exact fun r hr hint => hread r (mem_integerBytes hint hr)
  · obtain ⟨hwritten, hkept, hdrop⟩ := hR.cleared_forget hzero fun k => Inst.writeSlot_lt hfits
    exact ⟨hwritten, hkept, hdrop⟩
  · exact hexit.imp_right fun hall r => hflush.synced r (hall r)

/-- Emitting an instruction that may leave: everything is flushed before. -/
theorem simulates_emitExit {j : Inst} {c? : Option Word} (h : s.emitExit j c? = .ok s')
    (hj : c? = none → j.constantIndex = none) (hfits : j.fits = true) (hzero : 0 ∉ j.writeSlots) :
    s.Simulates s' (step j (c?.getD 0)) := by
  obtain ⟨s₁, h₁, h⟩ := bind_eq_ok.mp h
  obtain ⟨hflush, hall⟩ := flushed_flushAll h₁
  exact hflush.then (simulates_emit h hj hfits hzero (Or.inr hall))

/-- Leaving for a constant address. Nothing runs afterwards, so the relation there is free. -/
theorem simulates_leave {target : Word} {R : Machine → Machine → Prop}
    {source : Machine → Outcome} (h : s.leave target = .ok s')
    (hs : ∀ m n, Related s m n → source m = (.ok (some target), m)) :
    s.out.Simulates s'.out (Related s) R source := by
  obtain ⟨s₁, h₁, h⟩ := bind_eq_ok.mp h
  obtain ⟨b, hb, h⟩ := bind_eq_ok.mp h
  obtain ⟨hflush, hall⟩ := flushed_flushAll h₁
  rw [← pure_eq_ok.mp h]
  rw [Block.exitToConst_eq] at hb
  have hexit : s₁.out.Simulates b (Related s₁) R fun m => (.ok (some target), m) := by
    refine Block.Simulates.of_pushWith hb (fun hn => nomatch hn) fun m n hR => ?_
    rw [hR.eq_of_synced hall]
    exact Follows.of_exit target m
  exact (hflush.then hexit).congr hs

/-- Getting ready to write a register from one about which nothing is known: only the destination
is forgotten. If it is the source itself, the tables have nothing about it already. -/
theorem derive_cleared {dest src : UInt8} (h : s.derive dest src = .ok s') (hd : dest ≠ 0)
    (hsrc : s.value? src = none) :
    s'.out = s.out ∧ ∀ m n, Related s m n → Cleared s s' [dest.toNat] := by
  have hmem : ∀ r : UInt8, r.toNat ∈ [dest.toNat] ↔ r = dest := fun r =>
    List.mem_singleton.trans UInt8.toNat_inj
  rw [derive] at h
  split at h
  · rename_i heq
    subst heq
    rw [flush_of_synced (Or.inr (Or.inl hsrc))] at h
    cases h
    refine ⟨rfl, fun m n hR => ⟨fun r hr => ?_, fun r _ => ⟨rfl, rfl⟩, rfl⟩⟩
    rw [(hmem r).mp hr]
    exact ⟨hsrc, hR.unplaced dest hsrc⟩
  · rename_i hne
    have hnone : (s.forget dest).value? src = none := by
      rw [value?_forget hd, if_neg (Ne.symm hne)]
      exact hsrc
    rw [flush_of_synced (Or.inr (Or.inl hnone))] at h
    cases h
    refine ⟨(s.forget_eq dest).1, fun m n hR => ⟨fun r hr => ?_, fun r hr => ?_, ?_⟩⟩
    · rw [value?_forget hd, placed?_forget hd, if_pos ((hmem r).mp hr), if_pos ((hmem r).mp hr)]
      exact ⟨rfl, rfl⟩
    · have hrd : r ≠ dest := fun hrd => hr ((hmem r).mpr hrd)
      rw [value?_forget hd, placed?_forget hd, if_neg hrd, if_neg hrd]
      exact ⟨rfl, rfl⟩
    · exact (s.forget_eq dest).2

/-- Appending, after getting ready, an instruction that writes the destination from the source. -/
theorem simulates_derive {dest src : UInt8} {j : Inst} {c? : Option Word} {b : Block}
    (h : s.derive dest src = .ok s') (hd : dest ≠ 0) (hsrc : s.value? src = none)
    (hp : s'.out.pushWith j c? = .ok b) (hj : c? = none → j.constantIndex = none)
    (hfits : j.fits = true) (hread : j.readSlots = [src.toNat])
    (hwrite : j.writeSlots = [dest.toNat]) (hexit : j.isExit = false) :
    s.Simulates { s' with out := b } (step j (c?.getD 0)) := by
  obtain ⟨hout, hclear⟩ := derive_cleared h hd hsrc
  rw [hout] at hp
  refine simulates_push hp hj hfits ?_ (fun r hr _ => ?_) (fun m n hR => ?_) (Or.inl hexit)
  · rw [hwrite, List.mem_singleton]
    exact fun h0 => hd (UInt8.toNat_inj.mp h0.symm)
  · rw [hread, List.mem_singleton] at hr
    rw [UInt8.toNat_inj.mp hr]
    exact Or.inr (Or.inl hsrc)
  · obtain ⟨hwritten, hkept, hdrop⟩ := hclear m n hR
    rw [hwrite]
    exact ⟨hwritten, hkept, hdrop⟩

end Folding

end Dynarec.Optimize.ConstantPropagation
