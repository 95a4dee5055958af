/-
Loads narrowed to what a mask keeps of them.

A narrower load finds the low bits of what the wide one finds (`narrow?_spec`). Between it and the
mask the register differs from what it would be, and nobody may see that. A `Promise` is a narrowed
load whose mask is still to come; `Tracks` says that two machines are the same up to promises. An
instruction that does not read the registers of promises keeps the machines apart no further
(`Tracks.step`), a narrowed load makes a promise (`Tracks.narrowed`) and at the mask it is settled
(`Tracks.masked`).

A mask that stays in the block forgives a register that was overwritten in between; one that is
dropped does not, since the word that was put there keeps the bits that the mask would have cleared.
That is why a promise remembers where its load is.
-/
import Dynarec.Optimize.NarrowLoads
import Dynarec.Proofs.Guest.Bytes
import Dynarec.Proofs.Guest.Footprint

set_option autoImplicit false

namespace Dynarec.Optimize.NarrowLoads

open Guest

/-! ## A narrower load -/

/-- The word that a load into an integer register finds at an address. -/
def loaded (op : Opcode) (memory : Memory) (addr : Word) : Except Fault Word :=
  match op with
  | .load8 => do return (← memory.read8 addr).toUInt32
  | .load16 => memory.read16 addr
  | .load16Ext => do return Word.extend16 (← memory.read16 addr)
  | _ => memory.read32 addr

variable {i : Inst} {c w addr v : Word} {m m' n : Machine} {t : Option Word} {load op : Opcode}
  {keep : Bool} {memory : Memory}

theorem effect_load (h : i.op = .load8 ∨ isWide i.op = true) (c : Word) (m : Machine) :
    effect i c m = (loaded i.op m.memory (m.state.reg i.src1 + c)).map (Effect.gpr i.dest) := by
  obtain ⟨op, dest, src1, src2⟩ := i
  replace h : op = .load8 ∨ isWide op = true := h
  cases op <;> first | exact absurd h (by decide) | clear h
  case load8 =>
    show (m.memory.read8 (m.state.reg src1 + c) >>= _) = Except.map _ (_ >>= _)
    cases m.memory.read8 (m.state.reg src1 + c) <;> rfl
  case load16 | load16Ext =>
    show (m.memory.read16 (m.state.reg src1 + c) >>= _) = Except.map _ _
    simp only [loaded]
    cases m.memory.read16 (m.state.reg src1 + c) <;> rfl
  case load32 =>
    show (m.memory.read32 (m.state.reg src1 + c) >>= _) = Except.map _ _
    simp only [loaded]
    cases m.memory.read32 (m.state.reg src1 + c) <;> rfl

/-- A load that finds a word puts it into its register. -/
theorem step_loaded (h : i.op = .load8 ∨ isWide i.op = true)
    (hv : loaded i.op m.memory (m.state.reg i.src1 + c) = .ok v) :
    step i c m = (.ok none, m.setReg i.dest v) :=
  step_gpr (by rw [effect_load h, hv]; rfl)

/-- A load that succeeds has found a word. -/
theorem step_load_ok (h : i.op = .load8 ∨ isWide i.op = true) (hs : step i c m = (.ok t, m')) :
    ∃ v, loaded i.op m.memory (m.state.reg i.src1 + c) = .ok v ∧ t = none
      ∧ m' = m.setReg i.dest v := by
  cases hv : loaded i.op m.memory (m.state.reg i.src1 + c) with
  | error f =>
    rw [step, effect_load h, hv] at hs
    cases hs
  | ok v =>
    rw [step_loaded h hv] at hs
    cases hs
    exact ⟨v, rfl, rfl, rfl⟩

theorem loaded_byte (h : isWide load = true) (hv : loaded load memory addr = .ok v) :
    loaded .load8 memory addr = .ok (v &&& 0xff) := by
  have hread : ∀ u, (∃ x, memory.read8 addr = .ok x ∧ x.toUInt32 = u) →
      loaded .load8 memory addr = .ok u := by
    rintro u ⟨x, hx, rfl⟩
    rw [loaded, hx]
    rfl
  cases load <;> first | exact absurd h (by decide) | clear h
  case load16 => exact hread _ (Memory.read8_of_read16 hv)
  case load16Ext =>
    obtain ⟨x, hx, hv⟩ := bind_eq_ok.mp hv
    cases hv
    rw [Word.extend16_and_byte]
    exact hread _ (Memory.read8_of_read16 hx)
  case load32 => exact hread _ (Memory.read8_of_read32 hv)

/-- The bits that a narrower load may set. -/
def lowBits : Opcode → Word
  | .load8 => 0xff
  | _ => 0xffff

/-- **The narrower load.** It finds the low bits of what the wide one finds; the mask looks at no
others, and a mask that is dropped keeps them all. -/
theorem narrow?_spec (h : narrow? load w = some (op, keep)) :
    (op = .load8 ∨ isWide op = true) ∧ isWide load = true ∧
    w &&& lowBits op = w ∧ (keep = false → w = lowBits op) ∧
      ∀ memory addr v, loaded load memory addr = .ok v →
        loaded op memory addr = .ok (v &&& lowBits op) := by
  -- a word without high bits is the same under a mask of the low ones
  have hmask : ∀ {low high : Word}, w &&& high = 0 → low ||| high = 0xffffffff → w &&& low = w := by
    intro low high hzero hall
    have hsplit : w &&& (low ||| high) = w := by
      rw [hall]
      exact UInt32.and_neg_one
    rwa [UInt32.and_comm, Word.and_or_distrib_right, UInt32.and_comm, UInt32.and_comm high, hzero,
      UInt32.or_zero] at hsplit
  rw [narrow?] at h
  split at h
  · rename_i hbyte
    obtain ⟨hwide, hzero⟩ := Bool.and_eq_true_iff.mp hbyte
    cases h
    refine ⟨Or.inl rfl, hwide, hmask (eq_of_beq hzero) rfl, fun hk => ?_, fun _ _ _ =>
      loaded_byte hwide⟩
    exact Decidable.of_not_not fun hne => nomatch (bne_iff_ne.mpr hne).symm.trans hk
  · split at h
    · rename_i hhalf
      obtain ⟨hload, hzero⟩ := Bool.and_eq_true_iff.mp hhalf
      cases h
      obtain rfl : load = .load32 := of_decide_eq_true hload
      refine ⟨Or.inr rfl, rfl, hmask (eq_of_beq hzero) rfl, fun hk => ?_, fun _ _ _ =>
        Memory.read16_of_read32⟩
      exact Decidable.of_not_not fun hne => nomatch (bne_iff_ne.mpr hne).symm.trans hk
    · exact nomatch h

/-! ## Registers that differ for a while -/

/-- A narrowed load whose mask is still to come. -/
structure Promise where
  /-- The position of the load. -/
  load : Nat
  reg : UInt8
  mask : Word
  /-- The position of the mask, if it is dropped. -/
  dropped : Option Nat
  nonzero : reg ≠ 0

/-- An instruction between position `load` and position `here` writes a register. -/
def Overwritten (b : Block) (load : Nat) (reg : UInt8) (here : Nat) : Prop :=
  ∃ i ∈ (b.insts.take here).drop (load + 1), reg.toNat ∈ i.writeSlots

/-- What a promise says about the machine that runs the source, `m`, and the other one, before
position `here`. A register that was overwritten holds the same word on both. -/
structure Promise.Kept (b : Block) (here : Nat) (p : Promise) (m n : Machine) : Prop where
  masked : n.state.slot p.reg.toNat &&& p.mask = m.state.slot p.reg.toNat &&& p.mask
  fresh : p.dropped ≠ none → ¬ Overwritten b p.load p.reg here →
    n.state.slot p.reg.toNat = m.state.slot p.reg.toNat &&& p.mask
  stale : Overwritten b p.load p.reg here →
    n.state.slot p.reg.toNat = m.state.slot p.reg.toNat

/-- The machines are the same up to promises. -/
structure Tracks (b : Block) (here : Nat) (ps : List Promise) (m n : Machine) : Prop where
  slot : ∀ k, (∀ p ∈ ps, p.reg.toNat ≠ k) → m.state.slot k = n.state.slot k
  kept : ∀ p ∈ ps, p.Kept b here m n
  pc : m.state.pc = n.state.pc
  downcount : m.state.downcount = n.state.downcount
  syscall : m.state.syscall = n.state.syscall
  memory : m.memory = n.memory

variable {ps : List Promise} {b : Block} {here : Nat} {insts rest : List Inst}

theorem overwritten_succ {load : Nat} {reg : UInt8} (hload : load < here)
    (hi : b.insts[here]? = some i) :
    Overwritten b load reg (here + 1)
      ↔ Overwritten b load reg here ∨ reg.toNat ∈ i.writeSlots := by
  obtain ⟨hlt, -⟩ := List.getElem?_eq_some_iff.mp hi
  have hlist : (b.insts.take (here + 1)).drop (load + 1)
      = (b.insts.take here).drop (load + 1) ++ [i] := by
    rw [List.take_add_one, hi, Option.toList_some, List.drop_append_of_le_length]
    rw [List.length_take, Nat.min_eq_left (Nat.le_of_lt hlt)]
    exact hload
  unfold Overwritten
  rw [hlist]
  simp only [List.mem_append, List.mem_singleton, or_and_right, exists_or, exists_eq_left]

theorem Tracks.refl (b : Block) (m : Machine) : Tracks b 0 [] m m :=
  ⟨fun _ _ => rfl, fun _ hp => absurd hp List.not_mem_nil, rfl, rfl, rfl, rfl⟩

/-- Without promises there is one machine. -/
theorem Tracks.eq (h : Tracks b here [] m n) : m = n := by
  have hstate : m.state = n.state :=
    State.ext_slots (fun k => h.slot k fun _ hp => absurd hp List.not_mem_nil) h.pc h.downcount
      h.syscall
  obtain ⟨mstate, mmemory⟩ := m
  obtain ⟨nstate, nmemory⟩ := n
  exact congrArg₂ Machine.mk hstate h.memory

/-- Slots that no promise is about. -/
theorem Tracks.agree {slots : List Slot} (h : Tracks b here ps m n)
    (hs : ∀ p ∈ ps, p.reg.toNat ∉ slots) : Agree (0 :: slots) m n := by
  refine ⟨fun k hk => h.slot k fun p hp => ?_, h.pc, h.downcount, h.syscall, h.memory⟩
  rintro rfl
  rcases List.mem_cons.mp hk with h0 | hk
  · exact p.nonzero (UInt8.toNat_inj.mp h0)
  · exact hs p hp hk

theorem Tracks.reg_eq {r : UInt8} (h : Tracks b here ps m n) (hr : ∀ p ∈ ps, p.reg ≠ r) :
    m.state.reg r = n.state.reg r := by
  rw [State.reg_eq_slot, State.reg_eq_slot]
  exact h.slot r.toNat fun p hp heq => hr p hp (UInt8.toNat_inj.mp heq)

/-- A promise about a register that an instruction does not write and that both machines leave
alone. -/
theorem Promise.Kept.frame {p : Promise} {n' : Machine} (h : p.Kept b here m n)
    (hload : p.load < here) (hi : b.insts[here]? = some i) (hw : p.reg.toNat ∉ i.writeSlots)
    (hm : m'.state.slot p.reg.toNat = m.state.slot p.reg.toNat)
    (hn : n'.state.slot p.reg.toNat = n.state.slot p.reg.toNat) : p.Kept b (here + 1) m' n' := by
  have hover : Overwritten b p.load p.reg (here + 1) ↔ Overwritten b p.load p.reg here :=
    (overwritten_succ hload hi).trans (or_iff_left hw)
  refine ⟨?_, fun hd hfresh => ?_, fun hstale => ?_⟩
  · rw [hm, hn, h.masked]
  · rw [hm, hn, h.fresh hd fun hstale => hfresh (hover.mpr hstale)]
  · rw [hm, hn, h.stale (hover.mp hstale)]

/-- **An instruction in between.** It does not read the registers of promises, and one that it
writes holds the same word on both machines afterwards. -/
theorem Tracks.step (h : Tracks b here ps m n) (hi : b.insts[here]? = some i)
    (hload : ∀ p ∈ ps, p.load < here) (hread : ∀ p ∈ ps, p.reg.toNat ∉ i.readSlots)
    (hm : Guest.step i c m = (.ok t, m')) :
    ∃ n', Guest.step i c n = (.ok t, n') ∧ Tracks b (here + 1) ps m' n' := by
  -- the footprint of the instruction decides: what it writes depends on what it reads
  obtain ⟨n', hn, hagree⟩ := step_transfer (h.agree hread) hm
  have hm_frame := step_frame hm
  have hn_frame := step_frame hn
  refine ⟨n', hn, fun k hk => ?_, fun p hp => ?_, hagree.pc, hagree.downcount, hagree.syscall,
    hagree.memory⟩
  · by_cases hw : k ∈ i.writeSlots
    · exact hagree.slot k hw
    · rw [hm_frame.slot k hw, hn_frame.slot k hw]
      exact h.slot k hk
  · by_cases hw : p.reg.toNat ∈ i.writeSlots
    · have hover : Overwritten b p.load p.reg (here + 1) :=
        (overwritten_succ (hload p hp) hi).mpr (Or.inr hw)
      refine ⟨?_, fun _ hfresh => absurd hover hfresh, fun _ => (hagree.slot _ hw).symm⟩
      rw [hagree.slot _ hw]
    · exact (h.kept p hp).frame (hload p hp) hi hw (hm_frame.slot _ hw) (hn_frame.slot _ hw)

/-- A load that may be narrowed is an instruction with an integer source and destination. -/
theorem wide_signature (h : isWide op = true) : op.signature.src1 = .gpr
    ∧ op.signature.dest = .gpr ∧ op.signature.role ≠ .source
    ∧ op.signature.implicitWrites = [] := by
  revert h
  cases op <;> decide

/-- **The load.** The two loads start a promise. -/
theorem Tracks.narrowed {dropped : Option Nat} (h : Tracks b here ps m n)
    (hi : b.insts[here]? = some i) (hload : ∀ p ∈ ps, p.load < here) (hreg : i.dest ≠ 0)
    (hnarrow : narrow? i.op w = some (op, keep)) (hdropped : dropped ≠ none → keep = false)
    (hread : ∀ p ∈ ps, p.reg ≠ i.src1) (hdest : ∀ p ∈ ps, p.reg ≠ i.dest)
    (hm : Guest.step i c m = (.ok t, m')) :
    t = none ∧ ∃ n', Guest.step { i with op := op } c n = (.ok none, n')
      ∧ Tracks b (here + 1) (⟨here, i.dest, w, dropped, hreg⟩ :: ps) m' n' := by
  obtain ⟨hop, hwide, hlow, hkeep, hloaded⟩ := narrow?_spec hnarrow
  generalize lowBits op = low at hlow hkeep hloaded
  obtain ⟨v, hv, rfl, rfl⟩ := step_load_ok (Or.inr hwide) hm
  have hv' : loaded op n.memory (n.state.reg i.src1 + c) = .ok (v &&& low) := by
    rw [← h.reg_eq hread, ← h.memory]
    exact hloaded _ _ _ hv
  refine ⟨rfl, n.setReg i.dest (v &&& low), step_loaded (i := { i with op := op }) hop hv', ?_⟩
  -- the new promise is about what the load has just put there
  have hself : ∀ (x : Machine) (u : Word), (x.setReg i.dest u).state.slot i.dest.toNat = u := by
    intro x u
    rw [Machine.slot_setReg, if_pos rfl]
  refine ⟨fun k hk => ?_, fun p hp => ?_, h.pc, h.downcount, h.syscall, h.memory⟩
  · have hne : k ≠ i.dest.toNat := (hk _ List.mem_cons_self).symm
    rw [Machine.setReg, Machine.setReg, State.slot_setSlot_ne _ _ hne,
      State.slot_setSlot_ne _ _ hne]
    exact h.slot k fun p hp => hk p (List.mem_cons_of_mem _ hp)
  · rcases List.mem_cons.mp hp with rfl | hp
    · -- nothing lies between the load and the position after it
      have hfresh : ¬ Overwritten b here i.dest (here + 1) := by
        rintro ⟨j, hj, -⟩
        rw [List.drop_eq_nil_of_le (List.length_take_le _ _)] at hj
        exact absurd hj List.not_mem_nil
      refine ⟨?_, fun hd _ => ?_, fun hstale => absurd hstale hfresh⟩
      · show (n.setReg i.dest (v &&& low)).state.slot i.dest.toNat &&& w
          = (m.setReg i.dest v).state.slot i.dest.toNat &&& w
        rw [hself, hself, UInt32.and_assoc, UInt32.and_comm low, hlow]
      · show (n.setReg i.dest (v &&& low)).state.slot i.dest.toNat
          = (m.setReg i.dest v).state.slot i.dest.toNat &&& w
        rw [hself, hself, hkeep (hdropped hd)]
    · have hother : ∀ (x : Machine) (u : Word),
          (x.setReg i.dest u).state.slot p.reg.toNat = x.state.slot p.reg.toNat := by
        intro x u
        rw [Machine.slot_setReg, if_neg (hdest p hp)]
      have hw : p.reg.toNat ∉ i.writeSlots := by
        obtain ⟨-, hgpr, hrole, himplicit⟩ := wide_signature hwide
        rw [Inst.writeSlots, if_neg hrole, hgpr, himplicit, List.append_nil]
        exact fun hmem => hdest p hp (UInt8.toNat_inj.mp (List.mem_singleton.mp hmem))
      exact (h.kept p hp).frame (hload p hp) hi hw (hother m v) (hother n (v &&& low))

/-- The promises that are left after the mask of a register. -/
def others (ps : List Promise) (r : UInt8) : List Promise := ps.filter fun p => p.reg ≠ r

theorem mem_others {p : Promise} {r : UInt8} : p ∈ others ps r ↔ p ∈ ps ∧ p.reg ≠ r := by
  rw [others, List.mem_filter, decide_eq_true_iff]

/-- The register of a mask is settled when it holds the same word on both machines. -/
theorem Tracks.settle {r : UInt8} {u : Word} {n' : Machine} (h : Tracks b here ps m n)
    (hi : b.insts[here]? = some i) (hload : ∀ p ∈ ps, p.load < here)
    (hw : ∀ k ∈ i.writeSlots, k = r.toNat) (hn : n' = n ∨ ∃ v, n' = n.setReg r v)
    (hr : n'.state.slot r.toNat = u) : Tracks b (here + 1) (others ps r) (m.setReg r u) n' := by
  have hn_other : ∀ k, k ≠ r.toNat → n'.state.slot k = n.state.slot k := by
    intro k hk
    rcases hn with rfl | ⟨v, rfl⟩
    · rfl
    · exact State.slot_setSlot_ne _ _ hk
  have hn_rest : n'.state.pc = n.state.pc ∧ n'.state.downcount = n.state.downcount
      ∧ n'.state.syscall = n.state.syscall ∧ n'.memory = n.memory := by
    rcases hn with rfl | ⟨v, rfl⟩ <;> exact ⟨rfl, rfl, rfl, rfl⟩
  obtain ⟨hpc, hdown, hsys, hmem⟩ := hn_rest
  have hm_other : ∀ k, k ≠ r.toNat → (m.setReg r u).state.slot k = m.state.slot k :=
    fun k hk => State.slot_setSlot_ne _ _ hk
  refine ⟨fun k hk => ?_, fun p hp => ?_, h.pc.trans hpc.symm, h.downcount.trans hdown.symm,
    h.syscall.trans hsys.symm, h.memory.trans hmem.symm⟩
  · by_cases hkr : k = r.toNat
    · rw [hkr, Machine.slot_setReg, if_pos rfl, hr]
    · rw [hm_other k hkr, hn_other k hkr]
      refine h.slot k fun p hp hpk => ?_
      by_cases hpr : p.reg = r
      · exact hkr (by rw [← hpk, hpr])
      · exact hk p (mem_others.mpr ⟨hp, hpr⟩) hpk
  · obtain ⟨hp, hpr⟩ := mem_others.mp hp
    have hne : p.reg.toNat ≠ r.toNat := fun heq => hpr (UInt8.toNat_inj.mp heq)
    exact (h.kept p hp).frame (hload p hp) hi (fun hmem => hne (hw _ hmem)) (hm_other _ hne)
      (hn_other _ hne)

/-! ## The mask -/

/-- The instruction is the mask of a promise. -/
structure Masks (b : Block) (i : Inst) (p : Promise) : Prop where
  op : i.op = .andConst
  dest : i.dest = p.reg
  src : i.src1 = p.reg
  const : b.pool.constant i = p.mask

/-- The instruction is none that a promise waits for. -/
structure Passes (i : Inst) (p : Promise) : Prop where
  exit : i.isExit = false
  read : p.reg.toNat ∉ i.readSlots
  dest : i.destGpr ≠ some p.reg

/-- The mask of a promise comes before anything that reads the register, names it as its
destination or leaves the block. -/
inductive Awaits (b : Block) (p : Promise) : Nat → List Inst → Prop
  | mask {here : Nat} {i : Inst} {rest : List Inst} (hmask : Masks b i p)
      (hdrop : ∀ j, p.dropped = some j → j = here) : Awaits b p here (i :: rest)
  | pass {here : Nat} {i : Inst} {rest : List Inst} (hpass : Passes i p)
      (hrest : Awaits b p (here + 1) rest) : Awaits b p here (i :: rest)

theorem Awaits.le_dropped {p : Promise} (h : Awaits b p here insts) :
    ∀ j, p.dropped = some j → here ≤ j := by
  induction h with
  | mask _ hdrop => exact fun j hj => Nat.le_of_eq (hdrop j hj).symm
  | pass _ _ ih => exact fun j hj => Nat.le_of_succ_le (ih j hj)

theorem Awaits.masks_or_passes {p : Promise} (h : Awaits b p here (i :: rest)) :
    (Masks b i p ∧ ∀ j, p.dropped = some j → j = here)
      ∨ (Passes i p ∧ Awaits b p (here + 1) rest) := by
  cases h with
  | mask hmask hdrop => exact Or.inl ⟨hmask, hdrop⟩
  | pass hpass hrest => exact Or.inr ⟨hpass, hrest⟩

/-- A mask reads the register, so it is passed over by no promise about it. -/
theorem Masks.reg_ne {p q : Promise} (h : Masks b i p) (hq : Passes i q) : q.reg ≠ p.reg := by
  intro heq
  refine hq.read ?_
  rw [Inst.readSlots, h.op, h.src, heq]
  exact List.mem_cons_self

theorem Masks.writeSlots {p : Promise} (h : Masks b i p) : i.writeSlots = [p.reg.toNat] := by
  rw [Inst.writeSlots, h.op, h.dest]
  rfl

theorem Masks.step {p : Promise} (h : Masks b i p) (m : Machine) :
    Guest.step i (b.pool.constant i) m
      = (.ok none, m.setReg p.reg (m.state.slot p.reg.toNat &&& p.mask)) := by
  obtain ⟨hop, hdest, hsrc, hconst⟩ := h
  rw [hconst]
  obtain ⟨op, dest, src1, src2⟩ := i
  cases hop
  cases hdest
  cases hsrc
  rw [step_binary rfl, State.reg_eq_slot]
  rfl

/-- **The mask.** If it stays, both machines have the same masked word. If it is dropped, they have
it if the register has not been overwritten since the load, or if the mask would not change the word
that is there. -/
theorem Tracks.masked {p : Promise} (h : Tracks b here ps m n) (hi : b.insts[here]? = some i)
    (hload : ∀ p ∈ ps, p.load < here) (hp : p ∈ ps) (hmask : Masks b i p)
    (hfits : p.dropped ≠ none → Overwritten b p.load p.reg here →
      m.state.slot p.reg.toNat &&& p.mask = m.state.slot p.reg.toNat)
    (hm : Guest.step i (b.pool.constant i) m = (.ok t, m')) :
    t = none ∧ (p.dropped ≠ none → Tracks b (here + 1) (others ps p.reg) m' n) ∧
      ∃ n', Guest.step i (b.pool.constant i) n = (.ok none, n')
        ∧ Tracks b (here + 1) (others ps p.reg) m' n' := by
  rw [hmask.step] at hm
  cases hm
  have hw : ∀ k ∈ i.writeSlots, k = p.reg.toNat := by
    rw [hmask.writeSlots]
    exact fun k hk => List.mem_singleton.mp hk
  have hkept := h.kept p hp
  refine ⟨rfl, fun hd => ?_, _, hmask.step n, ?_⟩
  · refine h.settle hi hload hw (Or.inl rfl) ?_
    by_cases hover : Overwritten b p.load p.reg here
    · rw [hkept.stale hover, hfits hd hover]
    · exact hkept.fresh hd hover
  · refine h.settle hi hload hw (Or.inr ⟨_, rfl⟩) ?_
    rw [Machine.slot_setReg, if_pos rfl]
    exact hkept.masked

end Dynarec.Optimize.NarrowLoads
