/-
Accesses to memory, and what a fault leaves behind.

`accesses` lists what an instruction reads or writes in memory, each access an address and a number
of bytes, in the order in which they are made. An instruction whose slots lie in the register file
stands or falls with this list: it fails exactly if one of its accesses leaves the memory, and then
with the fault of the first that does (`step_refused`, `step_admitted`).

Whatever an instruction reads it reads before it changes anything, so only the stores of an
instruction that makes several of them can have been carried out when it faults. That is the store
of a vector: the lanes before the refused one are in memory, and nothing else has changed.
-/
import Dynarec.Proofs.Guest.Stores

set_option autoImplicit false
set_option maxRecDepth 2048

namespace Dynarec

/-- The opcodes that read memory before they do anything else. An unaligned store reads the word
that it changes a part of. -/
def Opcode.fetches : Opcode → Bool
  | .load8 | .load8Ext | .load16 | .load16Ext | .load32 | .load32Left | .load32Right
  | .load32Linked | .loadFloat | .loadVec4 | .store32Left | .store32Right => true
  | _ => false

namespace Guest

/-! ## Accesses -/

/-- An access: an address and the number of bytes from there on. -/
abbrev Access := Word × Nat

/-- The fault of an access that is refused. -/
def Access.fault (a : Access) : Fault := .memory a.1 (UInt32.ofNat a.2)

/-- The first of the accesses that leaves the memory. -/
def Memory.refused? (m : Memory) (l : List Access) : Option Access :=
  l.find? fun a => !m.covers a.1 a.2

/-- The accesses of a vector: its four words. -/
def lanePlaces (addr : Word) : List Word := [addr, addr + 4, addr + 8, addr + 12]

/-- What an instruction accesses in memory, in order. -/
def accesses (i : Inst) (c : Word) (s : State) : List Access :=
  let addr := s.reg i.src1 + c
  match i.op with
  | .load8 | .load8Ext | .store8 => [(addr, 1)]
  | .load16 | .load16Ext | .store16 => [(addr, 2)]
  | .load32 | .load32Linked | .loadFloat | .store32 | .storeFloat => [(addr, 4)]
  | .load32Left | .load32Right | .store32Left | .store32Right => [(aligned addr, 4)]
  | .store32Conditional => if s.slot Slot.llBit != 0 then [(addr, 4)] else []
  | .loadVec4 | .storeVec4 => (lanePlaces addr).map (·, 4)
  | _ => []

/-- The words that a vector is stored as, and their addresses. -/
def laneWords (s : State) (f : UInt8) (addr : Word) : List (Word × Word) :=
  (lanePlaces addr).zip ((OperandKind.vec4.slots f).map s.slot)

namespace Memory

variable {m m' : Memory} {l l' : List Access} {a : Access}

theorem covers_iff {addr : Word} {n : Nat} : m.covers addr n = true ↔ addr.toNat + n ≤ m.size :=
  decide_eq_true_iff

theorem refused?_append : m.refused? (l ++ l') = (m.refused? l).or (m.refused? l') :=
  List.find?_append

theorem refused?_eq_none_iff :
    m.refused? l = none ↔ ∀ a ∈ l, a.1.toNat + a.2 ≤ m.size := by
  simp only [refused?, List.find?_eq_none, Bool.not_eq_true', Bool.not_eq_false, covers_iff]

/-- A refused access reaches past the end. -/
theorem lt_of_refused? (h : m.refused? l = some a) : m.size < a.1.toNat + a.2 := by
  have hout := List.find?_some h
  rw [Bool.not_eq_true', ← Bool.not_eq_true, covers_iff] at hout
  exact Nat.lt_of_not_le hout

/-- Which accesses are refused depends on the size only. -/
theorem refused?_of_size_eq (h : m'.size = m.size) : m'.refused? l = m.refused? l := by
  unfold refused? covers
  rw [h]

end Memory

/-! ## Computations that access memory -/

/-- A computation that makes certain accesses: it succeeds if none is refused, and otherwise fails
with the fault of the first. -/
structure Makes {α : Type} (m : Memory) (l : List Access) (x : Except Fault α) : Prop where
  admitted : m.refused? l = none → ∃ v, x = .ok v
  refused : ∀ a, m.refused? l = some a → x = .error a.fault

section

variable {α β : Type} {m : Memory} {l l' : List Access}

theorem makes_ok (v : α) : Makes m [] (.ok v : Except Fault α) :=
  ⟨fun _ => ⟨v, rfl⟩, fun _ h => nomatch h⟩

theorem makes_bind {x : Except Fault α} {f : α → Except Fault β} (hx : Makes m l x)
    (hf : ∀ v, Makes m l' (f v)) : Makes m (l ++ l') (x >>= f) := by
  constructor
  · intro h
    rw [Memory.refused?_append, Option.or_eq_none_iff] at h
    obtain ⟨v, rfl⟩ := hx.admitted h.1
    exact (hf v).admitted h.2
  · intro a h
    rw [Memory.refused?_append, Option.or_eq_some_iff] at h
    rcases h with h | ⟨h, h'⟩
    · rw [hx.refused a h]
      rfl
    · obtain ⟨v, rfl⟩ := hx.admitted h
      exact (hf v).refused a h'

theorem makes_check (addr : Word) (n : Nat) : Makes m [(addr, n)] (m.check addr n) := by
  unfold Memory.check
  cases hc : m.covers addr n with
  | true =>
    have hnone : m.refused? [(addr, n)] = none := by
      rw [Memory.refused?, List.find?_singleton, hc]
      rfl
    exact ⟨fun _ => ⟨(), if_pos rfl⟩, fun a h => (nomatch hnone.symm.trans h)⟩
  | false =>
    have hsome : m.refused? [(addr, n)] = some (addr, n) := by
      rw [Memory.refused?, List.find?_singleton, hc]
      rfl
    refine ⟨fun h => (nomatch hsome.symm.trans h), fun a h => ?_⟩
    cases hsome.symm.trans h
    exact if_neg (by decide)

theorem makes_read8 (addr : Word) : Makes m [(addr, 1)] (m.read8 addr) :=
  makes_bind (makes_check addr 1) fun _ => makes_ok _

theorem makes_read16 (addr : Word) : Makes m [(addr, 2)] (m.read16 addr) :=
  makes_bind (makes_check addr 2) fun _ => makes_ok _

theorem makes_read32 (addr : Word) : Makes m [(addr, 4)] (m.read32 addr) :=
  makes_bind (makes_check addr 4) fun _ => makes_ok _

theorem makes_write (addr : Word) (data : List UInt8) :
    Makes m [(addr, data.length)] (m.write addr data) :=
  makes_bind (makes_check addr data.length) fun _ => makes_ok _

/-! Registers are no part of memory, and reading or writing one inside the register file cannot
fail. -/

theorem makes_slot? (s : State) {k : Slot} (h : k < Slot.count) : Makes m [] (s.slot? k) := by
  have hk : k < 256 := h
  rw [State.slot?_eq, if_pos hk]
  exact makes_ok _

theorem makes_float (s : State) {f : UInt8} (h : ∀ k ∈ OperandKind.fpr.slots f, k < Slot.count) :
    Makes m [] (s.float f) :=
  makes_slot? s (h _ List.mem_cons_self)

theorem makes_lanes (s : State) {f : UInt8} (h : ∀ k ∈ OperandKind.vec4.slots f, k < Slot.count) :
    Makes m [] (s.lanes f) := by
  simp only [OperandKind.slots, List.mem_cons, List.not_mem_nil, or_false, forall_eq_or_imp,
    forall_eq] at h
  obtain ⟨h0, h1, h2, h3⟩ := h
  exact makes_bind (makes_slot? s h0) fun _ => makes_bind (makes_slot? s h1) fun _ =>
    makes_bind (makes_slot? s h2) fun _ => makes_bind (makes_slot? s h3) fun _ => makes_ok _

theorem makes_putFloat {f : UInt8} (w : Word) (h : ∀ k ∈ OperandKind.fpr.slots f, k < Slot.count) :
    Makes m [] (Effect.float f w) := by
  have hlt : Slot.ofFloat f < Slot.count := h _ List.mem_cons_self
  unfold Effect.float
  rw [if_pos hlt]
  exact makes_ok _

theorem makes_putLanes {f : UInt8} (v : Lanes)
    (h : ∀ k ∈ OperandKind.vec4.slots f, k < Slot.count) :
    Makes m [] (Effect.lanes f v) := by
  have hlt : Slot.ofFloat f + 3 < Slot.count := h _ (by simp [OperandKind.slots])
  unfold Effect.lanes
  rw [if_pos hlt]
  exact makes_ok _

end

/-! ## What an effect accesses -/

/-- The accesses that are made before anything is changed. -/
def fetches (i : Inst) (c : Word) (s : State) : List Access :=
  if i.op.fetches then accesses i c s else []

variable {i : Inst} {c : Word} {m m' : Machine}

/-- The slots that the operands name are read or written. -/
theorem operand_slots {P : Slot → Prop} (h : ∀ k ∈ i.readSlots ++ i.writeSlots, P k) :
    (∀ k ∈ i.op.signature.dest.slots i.dest, P k) ∧
      (∀ k ∈ i.op.signature.src1.slots i.src1, P k) ∧
      ∀ k ∈ i.op.signature.src2.slots i.src2, P k := by
  refine ⟨fun k hk => h k ?_, fun k hk => h k ?_, fun k hk => h k ?_⟩
  · cases hrole : i.op.signature.role <;> simp [Inst.readSlots, Inst.writeSlots, hrole, hk]
  · simp [Inst.readSlots, hk]
  · simp [Inst.readSlots, hk]

/-- **Fetching is all that can go wrong before the stores.** One group of opcodes for each order of
reading operands and memory. -/
theorem makes_effect (hop : i.op ≠ .nop)
    (hslots : ∀ k ∈ i.readSlots ++ i.writeSlots, k < Slot.count) (c : Word) (m : Machine) :
    Makes m.memory (fetches i c m.state) (effect i c m) := by
  obtain ⟨hdest, hsrc1, hsrc2⟩ := operand_slots hslots
  clear hslots
  obtain ⟨op, dest, src1, src2⟩ := i
  cases op
  case nop => exact absurd rfl hop
  -- integers only
  case mov | setConst | add | sub | neg | not | and | or | xor | addConst | subConst | andConst
    | orConst | xorConst | ext8to32 | ext16to32 | bSwap16 | bSwap32 | clz | reverseBits | shl | shr
    | sar | ror | shlImm | shrImm | sarImm | rorImm | slt | sltConst | sltU | sltUConst | max | min
    | movZ | movNZ | mtLo | mtHi | mfLo | mfHi | mult | multU | madd | maddU | msub | msubU | div
    | divU | fpCondFromReg | fpCondToReg | setCtrlVFPU | setCtrlVFPUReg | setPC | setPCConst
    | downcount | syscall | exitToConst | exitToReg | exitToPC | exitToConstIfEq | exitToConstIfNeq
    | exitToConstIfGtZ | exitToConstIfGeZ | exitToConstIfLtZ | exitToConstIfLeZ | store8 | store16
    | store32 | store32Conditional =>
    exact makes_ok _
  -- floats and vectors
  case setConstF | fMovFromGPR => exact makes_putFloat _ hdest
  case vec4Init => exact makes_putLanes _ hdest
  case fSqrt | fNeg | fAbs | fMov | fRound | fTrunc | fCeil | fFloor | fCvtWS | fCvtSW =>
    exact makes_bind (makes_float _ hsrc1) fun _ => makes_putFloat _ hdest
  case fAdd | fSub | fMul | fDiv | fMin | fMax =>
    exact makes_bind (makes_float _ hsrc1) fun _ => makes_bind (makes_float _ hsrc2) fun _ =>
      makes_putFloat _ hdest
  case fCmp =>
    exact makes_bind (makes_float _ hsrc1) fun _ => makes_bind (makes_float _ hsrc2) fun _ =>
      makes_ok _
  case fMovToGPR => exact makes_bind (makes_float _ hsrc1) fun _ => makes_ok _
  case storeFloat => exact makes_bind (makes_float _ hdest) fun _ => makes_ok _
  case storeVec4 => exact makes_bind (makes_lanes _ hdest) fun _ => makes_ok _
  case vec4Shuffle | vec4Mov | vec4Neg | vec4Abs | vec4ClampToZero =>
    exact makes_bind (makes_lanes _ hsrc1) fun _ => makes_putLanes _ hdest
  case vec4Blend =>
    exact makes_bind (makes_lanes _ hsrc1) fun _ => makes_bind (makes_lanes _ hdest) fun _ =>
      makes_putLanes _ hdest
  case vec4Add | vec4Sub | vec4Mul | vec4Div =>
    exact makes_bind (makes_lanes _ hsrc1) fun _ => makes_bind (makes_lanes _ hsrc2) fun _ =>
      makes_putLanes _ hdest
  case vec4Scale =>
    exact makes_bind (makes_float _ hsrc2) fun _ => makes_bind (makes_lanes _ hsrc1) fun _ =>
      makes_putLanes _ hdest
  case vec4Dot =>
    exact makes_bind (makes_lanes _ hsrc1) fun _ => makes_bind (makes_lanes _ hsrc2) fun _ =>
      makes_putFloat _ hdest
  -- memory
  case load8 | load8Ext => exact makes_bind (makes_read8 _) fun _ => makes_ok _
  case load16 | load16Ext => exact makes_bind (makes_read16 _) fun _ => makes_ok _
  case load32 | load32Left | load32Right | load32Linked | store32Left | store32Right =>
    exact makes_bind (makes_read32 _) fun _ => makes_ok _
  case loadFloat => exact makes_bind (makes_read32 _) fun _ => makes_putFloat _ hdest
  case loadVec4 =>
    exact makes_bind (makes_read32 _) fun _ => makes_bind (makes_read32 _) fun _ =>
      makes_bind (makes_read32 _) fun _ => makes_bind (makes_read32 _) fun _ =>
        makes_putLanes _ hdest

/-- The accesses of some stores. -/
def storeAccesses (stores : List (Word × List UInt8)) : List Access :=
  stores.map fun p => (p.1, p.2.length)

/-- The words of a vector operand inside the register file. -/
theorem lanes_eq_ok {s : State} {f : UInt8} {v : Lanes} (h : s.lanes f = .ok v) (addr : Word) :
    ∃ w0 w1 w2 w3, v = #v[w0, w1, w2, w3] ∧
      laneWords s f addr = [(addr, w0), (addr + 4, w1), (addr + 8, w2), (addr + 12, w3)] := by
  obtain ⟨w0, h0, h⟩ := bind_eq_ok.mp h
  obtain ⟨w1, h1, h⟩ := bind_eq_ok.mp h
  obtain ⟨w2, h2, h⟩ := bind_eq_ok.mp h
  obtain ⟨w3, h3, h⟩ := bind_eq_ok.mp h
  cases h
  have hslot : ∀ {k : Slot} {w : Word}, s.slot? k = .ok w → s.slot k = w := by
    intro k w hk
    rw [State.slot?_eq] at hk
    split at hk
    · exact Except.ok.inj hk
    · cases hk
  refine ⟨w0, w1, w2, w3, rfl, ?_⟩
  simp only [laneWords, lanePlaces, OperandKind.slots, List.map_cons, List.map_nil, hslot h0,
    hslot h1, hslot h2, hslot h3]
  rfl

/-- An effect stores where the instruction accesses memory, if it is one that stores. -/
theorem stores_effect {e : Effect} (h : effect i c m = .ok e) :
    storeAccesses e.stores = if i.op.isStore then accesses i c m.state else [] := by
  cases hs : i.op.isStore with
  | false =>
    rw [(effect_within i c m e h).stores hs]
    rfl
  | true =>
    obtain ⟨op, dest, src1, src2⟩ := i
    cases op
    case store8 | store16 | store32 =>
      cases h
      rfl
    case store32Left | store32Right | storeFloat =>
      obtain ⟨w, -, h⟩ := bind_eq_ok.mp h
      cases h
      rfl
    case storeVec4 =>
      obtain ⟨v, -, h⟩ := bind_eq_ok.mp h
      cases h
      rfl
    case store32Conditional =>
      cases h
      simp only [storeAccesses, accesses, State.reg_eq_slot, if_true]
      split <;> rfl
    all_goals exact nomatch hs

/-- A vector is stored as its words. -/
theorem stores_storeVec4 {e : Effect} (hop : i.op = .storeVec4) (h : effect i c m = .ok e) :
    e.stores = wordStores (laneWords m.state i.dest (m.state.reg i.src1 + c)) := by
  obtain ⟨op, dest, src1, src2⟩ := i
  cases hop
  obtain ⟨v, hv, h⟩ := bind_eq_ok.mp h
  cases h
  obtain ⟨w0, w1, w2, w3, rfl, hwords⟩ := lanes_eq_ok hv (m.state.reg src1 + c)
  rw [hwords]
  rfl

/-- What is neither fetched nor stored is not accessed. -/
theorem accesses_eq_nil (hf : i.op.fetches = false) (hs : i.op.isStore = false) (c : Word)
    (s : State) : accesses i c s = [] := by
  obtain ⟨op, dest, src1, src2⟩ := i
  cases op
  case load8 | load8Ext | load16 | load16Ext | load32 | load32Left | load32Right | load32Linked
    | loadFloat | loadVec4 | store32Left | store32Right =>
    exact nomatch hf
  case store8 | store16 | store32 | store32Conditional | storeFloat | storeVec4 =>
    exact nomatch hs
  all_goals rfl

/-- No access is longer than a word. -/
theorem size_le_of_mem_accesses {a : Access} {s : State} (h : a ∈ accesses i c s) : a.2 ≤ 4 := by
  obtain ⟨op, dest, src1, src2⟩ := i
  cases op
  case load8 | load8Ext | store8 =>
    rw [List.mem_singleton.mp h]
    exact (by decide : 1 ≤ 4)
  case load16 | load16Ext | store16 =>
    rw [List.mem_singleton.mp h]
    exact (by decide : 2 ≤ 4)
  case load32 | load32Linked | loadFloat | store32 | storeFloat | load32Left | load32Right
    | store32Left | store32Right =>
    exact Nat.le_of_eq (congrArg Prod.snd (List.mem_singleton.mp h))
  case store32Conditional =>
    simp only [accesses] at h
    split at h
    · exact Nat.le_of_eq (congrArg Prod.snd (List.mem_singleton.mp h))
    · exact absurd h List.not_mem_nil
  case loadVec4 | storeVec4 =>
    obtain ⟨addr, -, rfl⟩ := List.mem_map.mp h
    exact Nat.le_refl 4
  all_goals exact absurd h List.not_mem_nil

/-- Only the store of a vector stores more than once. -/
theorem length_accesses_le (hs : i.op.isStore = true) (hop : i.op ≠ .storeVec4) (c : Word)
    (s : State) : (accesses i c s).length ≤ 1 := by
  obtain ⟨op, dest, src1, src2⟩ := i
  cases op
  case storeVec4 => exact absurd rfl hop
  case store32Conditional =>
    simp only [accesses]
    split
    · exact Nat.le_refl 1
    · exact Nat.zero_le 1
  case store8 | store16 | store32 | store32Left | store32Right | storeFloat => exact Nat.le_refl 1
  all_goals exact nomatch hs

/-! ## Stores one after the other -/

/-- Stores that are all carried out change the bytes under them only. -/
theorem byteAt_storeAll {stores : List (Word × List UInt8)} {m m' : Memory}
    (h : storeAll stores m = (.ok (), m')) :
    m'.size = m.size ∧ ∀ k, (∀ p ∈ stores, k < p.1.toNat ∨ p.1.toNat + p.2.length ≤ k) →
      m'.byteAt k = m.byteAt k := by
  induction stores generalizing m with
  | nil =>
    cases h
    exact ⟨rfl, fun _ _ => rfl⟩
  | cons p stores ih =>
    obtain ⟨addr, data⟩ := p
    rw [storeAll] at h
    split at h
    · rename_i m₁ hwrite
      obtain ⟨-, hsize, hbyte⟩ := Memory.write_eq_ok hwrite
      obtain ⟨hsize', hbyte'⟩ := ih h
      refine ⟨hsize'.trans hsize, fun k hk => ?_⟩
      obtain ⟨hhere, hrest⟩ := List.forall_mem_cons.mp hk
      simp only at hhere
      rw [hbyte' k hrest, hbyte k, if_neg (by omega)]
    · cases h

/-- **Stores end at the first that is refused.** Those before it have been carried out. -/
theorem storeAll_refused {stores : List (Word × List UInt8)} {m : Memory} :
    (m.refused? (storeAccesses stores) = none → ∃ m', storeAll stores m = (.ok (), m')) ∧
      ∀ a, m.refused? (storeAccesses stores) = some a → ∃ n m', n < stores.length ∧
        (storeAccesses stores)[n]? = some a ∧ storeAll stores m = (.error a.fault, m') ∧
        storeAll (stores.take n) m = (.ok (), m') := by
  induction stores generalizing m with
  | nil => exact ⟨fun _ => ⟨m, rfl⟩, fun _ h => nomatch h⟩
  | cons p stores ih =>
    obtain ⟨addr, data⟩ := p
    have hcons : storeAccesses ((addr, data) :: stores)
        = [(addr, data.length)] ++ storeAccesses stores := rfl
    have hwrite := makes_write (m := m) addr data
    rw [hcons, Memory.refused?_append]
    constructor
    · intro h
      rw [Option.or_eq_none_iff] at h
      obtain ⟨m₁, hm₁⟩ := hwrite.admitted h.1
      have hsize := (Memory.write_eq_ok hm₁).2.1
      obtain ⟨m', hm'⟩ := (ih (m := m₁)).1 ((Memory.refused?_of_size_eq hsize).trans h.2)
      refine ⟨m', ?_⟩
      rw [storeAll, hm₁]
      exact hm'
    · intro a h
      rw [Option.or_eq_some_iff] at h
      rcases h with h | ⟨h, h'⟩
      · refine ⟨0, m, Nat.succ_pos _, ?_, ?_, rfl⟩
        · exact congrArg some (List.mem_singleton.mp (List.mem_of_find?_eq_some h)).symm
        · rw [storeAll, hwrite.refused a h]
      · obtain ⟨m₁, hm₁⟩ := hwrite.admitted h
        have hsize := (Memory.write_eq_ok hm₁).2.1
        obtain ⟨n, m', hn, ha, hall, hbefore⟩ :=
          (ih (m := m₁)).2 a ((Memory.refused?_of_size_eq hsize).trans h')
        refine ⟨n + 1, m', Nat.succ_lt_succ hn, ha, ?_, ?_⟩
        · rw [storeAll, hm₁]
          exact hall
        · rw [List.take_succ_cons, storeAll, hm₁]
          exact hbefore

/-- `m'` is `m` with words stored at addresses: each is read back from there, and no byte apart from
them has changed. -/
structure Stored (words : List (Word × Word)) (m m' : Memory) : Prop where
  word : ∀ p ∈ words, m'.read32 p.1 = .ok p.2
  size : m'.size = m.size
  byte : ∀ k, (∀ p ∈ words, k < p.1.toNat ∨ p.1.toNat + 4 ≤ k) → m'.byteAt k = m.byteAt k

theorem stored_of_storeAll {words : List (Word × Word)} {m m' : Memory}
    (h : storeAll (wordStores words) m = (.ok (), m'))
    (hapart : words.Pairwise fun p q => Apart q.1 p.1) : Stored words m m' := by
  obtain ⟨hsize, hbyte⟩ := byteAt_storeAll h
  refine ⟨read32_storeAll words h hapart, hsize, fun k hk => hbyte k fun p hp => ?_⟩
  obtain ⟨q, hq, rfl⟩ := List.mem_map.mp hp
  exact hk q hq

/-- The four words of a vector lie apart. -/
theorem pairwise_laneWords (s : State) (f : UInt8) (addr : Word) :
    (laneWords s f addr).Pairwise fun p q => Apart q.1 p.1 := by
  have hfirst : ∀ d : Word, d.toNat ≤ 12 → 4 ≤ d.toNat → Apart (addr + d) addr := by
    intro d hd h
    have hapart := apart_add addr (c := 0) (by decide) hd h
    rwa [UInt32.add_zero] at hapart
  simp only [laneWords, lanePlaces, OperandKind.slots, List.map_cons, List.map_nil,
    List.zip_cons_cons, List.zip_nil_right, List.pairwise_cons, List.mem_cons, List.not_mem_nil,
    or_false, forall_eq_or_imp, forall_eq, false_imp_iff, implies_true, and_true, List.Pairwise.nil]
  exact ⟨⟨hfirst 4 (by decide) (by decide), hfirst 8 (by decide) (by decide),
    hfirst 12 (by decide) (by decide)⟩,
    ⟨apart_add addr (by decide) (by decide) (by decide),
      apart_add addr (by decide) (by decide) (by decide)⟩,
    apart_add addr (by decide) (by decide) (by decide)⟩

/-! ## One step -/

/-- An instruction whose accesses are all inside the memory succeeds. -/
theorem step_admitted (hop : i.op ≠ .nop)
    (hslots : ∀ k ∈ i.readSlots ++ i.writeSlots, k < Slot.count)
    (h : m.memory.refused? (accesses i c m.state) = none) : ∃ t m', step i c m = (.ok t, m') := by
  have hfetch : m.memory.refused? (fetches i c m.state) = none := by
    unfold fetches
    split
    · exact h
    · rfl
  obtain ⟨e, he⟩ := (makes_effect hop hslots c m).admitted hfetch
  have hstores : m.memory.refused? (storeAccesses e.stores) = none := by
    rw [stores_effect he]
    split
    · exact h
    · rfl
  obtain ⟨memory, hmem⟩ := storeAll_refused.1 hstores
  refine ⟨e.exit, { state := e.onState m.state, memory }, ?_⟩
  rw [step, he]
  simp only [Effect.apply, hmem]

/-- **An instruction faults with the first access that is refused.** If it has fetched, nothing has
changed; if it stores, the stores before the refused one have been carried out. -/
theorem step_refused (hop : i.op ≠ .nop)
    (hslots : ∀ k ∈ i.readSlots ++ i.writeSlots, k < Slot.count) {a : Access}
    (h : m.memory.refused? (accesses i c m.state) = some a) :
    ∃ m', step i c m = (.error a.fault, m') ∧ (i.op.fetches = true ∧ m' = m ∨
      ∃ e n, effect i c m = .ok e ∧ i.op.isStore = true ∧ n < e.stores.length ∧
        (storeAccesses e.stores)[n]? = some a ∧ m'.state = m.state ∧
        storeAll (e.stores.take n) m.memory = (.ok (), m'.memory)) := by
  have hmakes := makes_effect hop hslots c m
  unfold fetches at hmakes
  cases hf : i.op.fetches with
  | true =>
    rw [hf, if_pos rfl] at hmakes
    exact ⟨m, by rw [step, hmakes.refused a h], Or.inl ⟨rfl, rfl⟩⟩
  | false =>
    rw [hf] at hmakes
    obtain ⟨e, he⟩ := hmakes.admitted rfl
    have hs : i.op.isStore = true := by
      by_contra hn
      rw [accesses_eq_nil hf (Bool.not_eq_true _ ▸ hn)] at h
      cases h
    have hstores := stores_effect he
    rw [hs, if_pos rfl] at hstores
    obtain ⟨n, memory, hn, ha, hall, hbefore⟩ := storeAll_refused.2 a (hstores ▸ h)
    refine ⟨{ m with memory }, ?_, Or.inr ⟨e, n, he, hs, hn, ha, rfl, hbefore⟩⟩
    rw [step, he]
    simp only [Effect.apply, hall]

theorem toNat_size_of_mem_accesses {a : Access} {s : State} (h : a ∈ accesses i c s) :
    (UInt32.ofNat a.2).toNat = a.2 :=
  UInt32.toNat_ofNat_of_lt' (Nat.lt_of_le_of_lt (size_le_of_mem_accesses h) (by decide))

/-- A fault tells which access is meant. -/
theorem eq_of_fault_eq {a b : Access} {s : State} (ha : a ∈ accesses i c s)
    (hb : b ∈ accesses i c s) (h : a.fault = b.fault) : a = b := by
  obtain ⟨haddr, hcount⟩ := Fault.memory.inj h
  have hsize : a.2 = b.2 := by
    rw [← toNat_size_of_mem_accesses ha, hcount, toNat_size_of_mem_accesses hb]
  exact Prod.ext haddr hsize

/-- The only instruction without a meaning. -/
theorem step_placeholder (hop : i.op = .nop) (c : Word) (m : Machine) :
    step i c m = (.error (.violation (.notExecutable .nop)), m) := by
  obtain ⟨op, dest, src1, src2⟩ := i
  cases hop
  rfl

/-- The memory that a fault of a single store leaves: the only store is the refused one. -/
theorem unchanged_before_refused {e : Effect} {n : Nat} {memory : Memory}
    (hop : i.op ≠ .storeVec4) (hs : i.op.isStore = true) (he : effect i c m = .ok e)
    (hn : n < e.stores.length) (h : storeAll (e.stores.take n) m.memory = (.ok (), memory)) :
    memory = m.memory := by
  have hlength := congrArg List.length (stores_effect he)
  rw [storeAccesses, List.length_map, hs, if_pos rfl] at hlength
  have hone := length_accesses_le hs hop c m.state
  have hzero : n = 0 := by omega
  subst hzero
  exact (Prod.mk.inj h).2.symm

/-- The memory that a fault of the store of a vector leaves. -/
theorem stored_before_refused {e : Effect} {n : Nat} {memory : Memory} {a : Access}
    (hop : i.op = .storeVec4) (he : effect i c m = .ok e) (hn : n < e.stores.length)
    (ha : (storeAccesses e.stores)[n]? = some a)
    (h : storeAll (e.stores.take n) m.memory = (.ok (), memory)) :
    n < 4 ∧ (lanePlaces (m.state.reg i.src1 + c))[n]? = some a.1 ∧
      Stored ((laneWords m.state i.dest (m.state.reg i.src1 + c)).take n) m.memory memory := by
  have hstores := stores_storeVec4 hop he
  have hplaces : storeAccesses e.stores = (lanePlaces (m.state.reg i.src1 + c)).map (·, 4) := by
    rw [stores_effect he, hop]
    simp only [Opcode.isStore, if_true, accesses, hop]
  refine ⟨?_, ?_, ?_⟩
  · rw [hstores] at hn
    exact hn
  · rw [hplaces, List.getElem?_map] at ha
    obtain ⟨addr, haddr, rfl⟩ := Option.map_eq_some_iff.mp ha
    exact haddr
  · rw [hstores, wordStores, ← List.map_take] at h
    exact stored_of_storeAll h
      ((pairwise_laneWords _ _ _).sublist (List.take_sublist _ _))

/-- **A faulting instruction changes nothing that it has not reported.** An instruction with its
slots in the register file that returns a fault reports an access that it makes and that reaches
past the end of memory, the first such one; registers and control words are as before, and so is
memory, except that of a vector the lanes before the refused one have been stored. Conversely no
access inside the memory is ever reported, and an instruction all of whose accesses are inside
succeeds. The only failure that is no fault of this kind is that of `nop`, which has no meaning. -/
theorem step_reports_refused (i : Inst) (c : Word) (m : Machine)
    (hslots : ∀ k ∈ i.readSlots ++ i.writeSlots, k < Slot.count) :
    (∀ f m', step i c m = (.error f, m') → f.isAbort = false →
      ∃ addr size, f = .memory addr size ∧ m.memory.size < addr.toNat + size.toNat ∧
        m.memory.refused? (accesses i c m.state) = some (addr, size.toNat) ∧
        m'.state = m.state ∧ (i.op ≠ .storeVec4 → m'.memory = m.memory) ∧
        (i.op = .storeVec4 → ∃ n, n < 4 ∧
          (lanePlaces (m.state.reg i.src1 + c))[n]? = some addr ∧
          Stored ((laneWords m.state i.dest (m.state.reg i.src1 + c)).take n) m.memory
            m'.memory)) ∧
    (∀ a ∈ accesses i c m.state, a.1.toNat + a.2 ≤ m.memory.size →
      (step i c m).1 ≠ .error a.fault) ∧
    (i.op ≠ .nop → (∀ a ∈ accesses i c m.state, a.1.toNat + a.2 ≤ m.memory.size) →
      ∃ t m', step i c m = (.ok t, m')) ∧
    ∀ f, (step i c m).1 = .error f → f.isAbort = true → i.op = .nop := by
  by_cases hop : i.op = .nop
  · -- `nop` accesses nothing, and what it fails with is no fault
    have hnone : accesses i c m.state = [] :=
      accesses_eq_nil (by rw [hop]; rfl) (by rw [hop]; rfl) c m.state
    rw [step_placeholder hop, hnone]
    refine ⟨fun f m' h hf => ?_, fun a ha => absurd ha List.not_mem_nil, fun h => absurd hop h,
      fun _ _ _ => hop⟩
    cases h
    exact nomatch hf
  · rcases hr : m.memory.refused? (accesses i c m.state) with _ | a
    · obtain ⟨t, m', hstep⟩ := step_admitted hop hslots hr
      rw [hstep]
      exact ⟨fun f _ h => (nomatch h), fun _ _ _ h => (nomatch h), fun _ _ => ⟨t, m', rfl⟩,
        fun f h => nomatch h⟩
    · have hmem := List.mem_of_find?_eq_some hr
      have hsize := toNat_size_of_mem_accesses hmem
      have hout := Memory.lt_of_refused? hr
      obtain ⟨m₁, hstep, hleft⟩ := step_refused hop hslots hr
      rw [hstep]
      refine ⟨fun f m' h _ => ?_, fun b hb hin h => ?_, fun _ hall => ?_, fun f h hf => ?_⟩
      · cases h
        refine ⟨a.1, UInt32.ofNat a.2, rfl, by rw [hsize]; exact hout, by rw [hsize], ?_⟩
        rcases hleft with ⟨hfetch, rfl⟩ | ⟨e, n, he, hs, hn, ha, hstate, hbefore⟩
        · refine ⟨rfl, fun _ => rfl, fun hvec => ?_⟩
          rw [hvec] at hfetch
          exact nomatch hfetch
        · exact ⟨hstate, fun hvec => unchanged_before_refused hvec hs he hn hbefore,
            fun hvec => ⟨n, stored_before_refused hvec he hn ha hbefore⟩⟩
      · rw [eq_of_fault_eq hb hmem (Except.error.inj h).symm] at hin
        exact Nat.not_le_of_lt hout hin
      · exact absurd (hr.symm.trans (Memory.refused?_eq_none_iff.mpr hall)) (Option.some_ne_none a)
      · cases h
        exact nomatch hf

/-- A vector stored at the start of a memory of twelve bytes: its last lane is refused, and the
first three are there. -/
theorem step_reports_refused_lane :
    let i : Inst := { op := .storeVec4, dest := 0, src1 := 4 }
    let s : State := ((({} : State).setSlot 32 1).setSlot 33 2).setSlot 34 3
    let m : Machine := { state := s, memory := Memory.zeroed 12 }
    (∀ k ∈ i.readSlots ++ i.writeSlots, k < Slot.count) ∧
      step i 0 m = (.error (.memory 12 4), (step i 0 m).2) ∧
      ∃ n, n < 4 ∧ (lanePlaces 0)[n]? = some 12 ∧
        Stored ([(0, 1), (4, 2), (8, 3), (12, 0)].take n) m.memory (step i 0 m).2.memory := by
  intro i s m
  have hslots : ∀ k ∈ i.readSlots ++ i.writeSlots, k < Slot.count := by decide
  have hfault : (step i 0 m).1 = .error (.memory 12 4) := by decide
  have hstep : step i 0 m = (.error (.memory 12 4), (step i 0 m).2) := by rw [← hfault]
  have haddr : m.state.reg i.src1 + 0 = 0 := by decide
  have hwords : laneWords m.state i.dest 0 = [(0, 1), (4, 2), (8, 3), (12, 0)] := by
    decide
  obtain ⟨addr, size, hf, -, -, -, -, hlanes⟩ :=
    (step_reports_refused i 0 m hslots).1 _ _ hstep rfl
  obtain ⟨rfl, rfl⟩ := Fault.memory.inj hf
  have hstored := hlanes rfl
  rw [haddr, hwords] at hstored
  exact ⟨hslots, hstep, hstored⟩

end Guest

end Dynarec
