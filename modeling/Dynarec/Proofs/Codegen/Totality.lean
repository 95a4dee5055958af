/-
Every block in range compiles.

The code generator for x86-64 fails if a register cannot be handed out, if the engine asks for an
action that cannot be spelled, if a constant is missing, or if the assembler refuses the code. An
instruction maps at most three vectors or four integer slots, which leaves registers of either
class, so that the engine is supplied all along. What the engine asks for then can be spelled
(`spelled_of_fits`), and no step of lowering fails (`Composed.lowers`). So a block whose fields name
registers of their own class and whose constants exist is lowered (`exists_lowerItems`), and it
compiles with an assembler that takes well-formed code (`exists_compile`).
-/
import Dynarec.Proofs.Codegen.Items
import Dynarec.Proofs.Guest.Code
import Dynarec.Proofs.Guest.Footprint
import Dynarec.Proofs.Registers.Supply

set_option autoImplicit false

namespace Dynarec.Amd64

open Dynarec.Codegen Dynarec.Registers

/-! ## Spelling what fits -/

variable {r : HostReg} {a : Action}

theorem lt_of_has_gpr (h : host.Has .gpr r) : r < 16 := by
  have hbank : (if r < 16 then Bank.gpr else .fpr) = .gpr := h.bank
  by_contra hge
  rw [if_neg hge] at hbank
  exact nomatch hbank

theorem integerReg_ok (h : r < 16) : ∃ x, integerReg r = .ok x := ⟨_, dif_pos h⟩

theorem vectorReg_ok (hr : 16 ≤ r) (hlt : r < host.count) : ∃ x, vectorReg r = .ok x := by
  have hlt' : r < 32 := hlt
  exact ⟨_, dif_pos ⟨hr, show r - 16 < 16 by unfold HostReg at *; omega⟩⟩

theorem vectorReg_of_has (h : host.Has .fpr r) : ∃ x, vectorReg r = .ok x := by
  refine vectorReg_ok (Nat.le_of_not_lt fun hlt => ?_) h.lt
  have hbank : (if r < 16 then Bank.gpr else .fpr) = .fpr := h.bank
  rw [if_pos hlt] at hbank
  exact nomatch hbank

/-- Every place of a list has an instruction. -/
def Spelled (l : List (Except Fault Instr)) : Prop := ∀ i ∈ l, ∃ x, i = .ok x

theorem spelled_withReg {x : Except Fault Reg} {f : Reg → List Instr} (hx : ∃ y, x = .ok y) :
    Spelled (withReg x f) := by
  obtain ⟨y, rfl⟩ := hx
  intro i hi
  obtain ⟨j, -, rfl⟩ := List.mem_map.mp hi
  exact ⟨j, rfl⟩

theorem spelled_withRegs {x y : Except Fault Reg} {f : Reg → Reg → List Instr}
    (hx : ∃ z, x = .ok z) (hy : ∃ z, y = .ok z) : Spelled (withRegs x y f) := by
  obtain ⟨x', rfl⟩ := hx
  obtain ⟨y', rfl⟩ := hy
  intro i hi
  obtain ⟨j, -, rfl⟩ := List.mem_map.mp hi
  exact ⟨j, rfl⟩

theorem spelled_withSlot {t : Slot} {f : Mem → List (Except Fault Instr)} (ht : t < Slot.count)
    (hf : ∀ m, Spelled (f m)) : Spelled (withSlot t f) := by
  have hlt : Guest.Layout.slot t < doubleWords :=
    calc 4 * t < 4 * 256 := Nat.mul_lt_mul_of_pos_left ht (by decide)
      _ < doubleWords := by decide
  have hoffset : Guest.Layout.slotOffset t = .ok (UInt32.ofNat (Guest.Layout.slot t)) := by
    unfold Guest.Layout.slotOffset asDouble
    rw [if_pos hlt]
    rfl
  unfold withSlot
  rw [hoffset]
  exact hf _

/-- A vector register or an integer register, whichever it is. -/
theorem spelled_either {f g : Reg → List Instr} (hr : r < host.count) :
    Spelled (if isVector r then withReg (vectorReg r) f else withReg (integerReg r) g) := by
  split
  · rename_i hvector
    exact spelled_withReg (vectorReg_ok (of_decide_eq_true hvector) hr)
  · rename_i hvector
    exact spelled_withReg (integerReg_ok (Nat.lt_of_not_le fun h => hvector (decide_eq_true h)))

theorem spelled_fillLane {x : Reg} {lane : Nat} {source : LaneSource} (hlane : lane < 4)
    (h : source.Fits host) : Spelled (fillLane x lane source) := by
  cases source with
  | keep => exact fun _ hi => nomatch hi
  | lane q k =>
    obtain ⟨y, hy⟩ := vectorReg_of_has h.1
    have hselector : laneSelector k lane = .ok (UInt8.ofNat (64 * k + 16 * lane)) := by
      have hk := h.2
      exact if_pos (by omega)
    intro i hi
    rw [fillLane, hy, hselector, List.mem_singleton] at hi
    exact ⟨_, hi⟩
  | guest t =>
    rw [fillLane]
    exact spelled_withSlot h fun m i hi => ⟨_, List.mem_singleton.mp hi⟩
  | value w =>
    rw [fillLane]
    split
    · exact fun i hi => ⟨_, List.mem_singleton.mp hi⟩
    · intro i hi
      simp only [List.mem_cons, List.not_mem_nil, or_false] at hi
      obtain rfl | rfl | rfl := hi <;> exact ⟨_, rfl⟩

/-- **What fits can be spelled.** -/
theorem spelled_of_fits (h : a.Fits host) : Spelled (spell a) := by
  have hreg : ∀ {q}, q < host.count → isVector q = true → ∃ x, vectorReg q = .ok x :=
    fun hq hv => vectorReg_ok (of_decide_eq_true hv) hq
  have hint : ∀ {q}, isVector q = false → ∃ x, integerReg q = .ok x :=
    fun hv => integerReg_ok (Nat.lt_of_not_le (of_decide_eq_false hv))
  cases a with
  | load r t lanes =>
    rw [spell]
    exact spelled_withSlot h.2 fun m => spelled_either h.1
  | store r t lane count =>
    rw [spell]
    exact spelled_withSlot h.2 fun m => spelled_either h.1
  | setValue r w =>
    rw [spell]
    exact spelled_either h
  | storeValue t w =>
    rw [spell]
    exact spelled_withSlot h fun m i hi => ⟨_, List.mem_singleton.mp hi⟩
  | addBase r => exact spelled_withReg (integerReg_ok (lt_of_has_gpr h))
  | removeBase r => exact spelled_withReg (integerReg_ok (lt_of_has_gpr h))
  | move d s =>
    cases hd : isVector d <;> cases hs : isVector s <;> simp only [spell, hd, hs]
    · exact spelled_withRegs (hint hd) (hint hs)
    · exact spelled_withRegs (hint hd) (hreg h.2 hs)
    · exact spelled_withRegs (hreg h.1 hd) (hint hs)
    · exact spelled_withRegs (hreg h.1 hd) (hreg h.2 hs)
  | extract d s lane =>
    exact spelled_withRegs (vectorReg_of_has h.1) (vectorReg_of_has h.2)
  | compose d sources =>
    obtain ⟨x, hx⟩ := vectorReg_of_has h.1
    simp only [spell, hx]
    intro i hi
    obtain ⟨⟨source, lane⟩, hmem, hi⟩ := List.mem_flatMap.mp hi
    have hlane : lane < 4 := by
      have hlt := List.snd_lt_of_mem_zipIdx hmem
      rwa [Vector.length_toList] at hlt
    exact spelled_fillLane hlane (h.2 source (List.fst_mem_of_mem_zipIdx hmem)) i hi

theorem pushUntil_of_spelled {l : List (Except Fault Instr)} (h : Spelled l) (asm : Assembler) :
    ∃ asm', asm.pushUntil l = (asm', .ok ()) := by
  induction l generalizing asm with
  | nil => exact ⟨asm, rfl⟩
  | cons i l ih =>
    obtain ⟨x, rfl⟩ := h i List.mem_cons_self
    exact ih (fun j hj => h j (List.mem_cons_of_mem _ hj)) (asm.push x)

/-- What the engine asks for can be laid down. -/
theorem performAll_ok {actions : Array Action} (h : ∀ a ∈ actions, a.Fits host)
    (asm : Assembler) : ∃ asm', asm.performAll actions = .ok asm' := by
  have hlist : ∀ a ∈ actions.toList, a.Fits host := fun a ha => h a (Array.mem_def.mpr ha)
  unfold Assembler.performAll
  rw [← Array.foldlM_toList]
  generalize actions.toList = l at hlist
  induction l generalizing asm with
  | nil => exact ⟨asm, rfl⟩
  | cons a l ih =>
    obtain ⟨asm₁, h₁⟩ := pushUntil_of_spelled (spelled_of_fits (hlist a List.mem_cons_self)) asm
    obtain ⟨asm₂, h₂⟩ := ih asm₁ fun b hb => hlist b (List.mem_cons_of_mem a hb)
    refine ⟨asm₂, ?_⟩
    rw [List.foldlM_cons]
    unfold Assembler.perform
    rw [h₁]
    exact h₂

/-! ## Steps that succeed

The number says how many slots may be locked. -/

/-- The engine is supplied and has locked no more than `n` slots. -/
def Stocked (n : Nat) (st : LowerState) : Prop :=
  ∃ slots, slots.length ≤ n ∧ st.engine.Supplied host slots

/-- With `n` slots locked a step succeeds, and then no more than `m` are. -/
def Lowers {α : Type} (n m : Nat) (op : LowerM α) : Prop :=
  ∀ st, Stocked n st → Yields op st fun _ st' => Stocked m st'

section

variable {α β : Type} {n m k : Nat} {op : LowerM α}

theorem Stocked.mono {st : LowerState} (h : Stocked n st) (hle : n ≤ m) : Stocked m st := by
  obtain ⟨slots, hlen, h⟩ := h
  exact ⟨slots, Nat.le_trans hlen hle, h⟩

theorem Lowers.mono (h : Lowers n m op) (hle : m ≤ k) : Lowers n k op :=
  fun st hst => (h st hst).mono fun _ _ h => h.mono hle

theorem lowers_pure (a : α) (hle : n ≤ m) : Lowers n m (pure a) :=
  fun _ h => yields_pure (h.mono hle)

theorem lowers_bind {f : α → LowerM β} (hop : Lowers n m op) (hf : ∀ a, Lowers m k (f a)) :
    Lowers n k (op >>= f) :=
  fun st h => yields_bind ((hop st h).mono fun a st' h' => hf a st' h')

theorem yields_except {x : Except Fault α} {a : α} {st : LowerState} {P : α → LowerState → Prop}
    (hx : x = .ok a) (h : P a st) : Yields (liftM x : LowerM α) st P := by
  rw [hx]
  exact ⟨a, st, rfl, h⟩

/-- A step that leaves the engine alone. -/
theorem lowers_modify {f : LowerState → LowerState} (hf : ∀ st, (f st).engine = st.engine)
    (hle : n ≤ m) : Lowers n m (modify f) := by
  refine fun st h => yields_modify (P := fun _ st' => Stocked m st') ?_
  obtain ⟨slots, hlen, h⟩ := h.mono hle
  exact ⟨slots, hlen, by rw [hf]; exact h⟩

theorem lowers_emit (i : Instr) (hle : n ≤ m) : Lowers n m (emit i) :=
  lowers_modify (fun _ => rfl) hle

theorem lowers_emitAll (is : List Instr) (hle : n ≤ m) : Lowers n m (emitAll is) :=
  lowers_modify (fun _ => rfl) hle

/-- An operation of the engine that succeeds, with the actions laid down. -/
theorem yields_engine {op : EngineM α} {st : LowerState} {P : α → Prop}
    (h : Yields op st.engine fun a e' => P a ∧ ∃ slots, slots.length ≤ m ∧ e'.Supplied host slots) :
    Yields (withEngine op) st fun a st' => P a ∧ Stocked m st' := by
  obtain ⟨a, e', hop, hP, slots, hlen, h⟩ := h
  obtain ⟨asm, hasm⟩ := performAll_ok (fun x hx => h.host ▸ h.asks x hx) st.asm
  exact yields_withEngine hop hasm ⟨hP, slots, hlen, h.handOver⟩

theorem lowers_withEngine {op : EngineM α} (hop : ∀ (e : Engine) (slots : List Slot),
      slots.length ≤ n → e.Supplied host slots →
        Yields op e fun _ e' => ∃ slots', slots'.length ≤ m ∧ e'.Supplied host slots') :
    Lowers n m (withEngine op) := by
  intro st h
  obtain ⟨slots, hlen, h⟩ := h
  exact (yields_engine (P := fun _ => True) ((hop _ slots hlen h).mono
    fun _ _ h => ⟨trivial, h⟩)).mono fun _ _ h => h.2

end

/-! ## Operands -/

section

variable {n m : Nat}

theorem nodup_order (bank : Bank) : (host.order bank false).Nodup := by
  cases bank <;> decide

/-- A mapping succeeds and gives a register of the right class. -/
theorem yields_request (q : Request) (hq : q.Fits) {st : LowerState} (h : Stocked n st)
    (hroom : n + q.width + 1 < (host.order q.bankOf false).length) :
    Yields (withEngine q.run) st fun r st' => host.Has q.bankOf r ∧ Stocked (n + q.width) st' := by
  obtain ⟨slots, hlen, h⟩ := h
  refine yields_engine ((q.yields_run hq h (nodup_order _) (by omega)).mono
    fun r e' hr => ⟨hr.1, _, ?_, hr.2⟩)
  rw [List.length_append, q.length_slotList]
  omega

theorem lowers_flushAll : Lowers n n (withEngine Registers.flushAll) :=
  lowers_withEngine fun _ slots hlen h => h.yields_flushAll.mono fun _ _ h => ⟨slots, hlen, h⟩

/-! ## Instructions -/

theorem lowers_skipping (c : Cond) (target : Word) : Lowers n n (skipping c target) := by
  intro st h
  refine yields_get (yields_set (yields_bind ?_))
  -- what is laid down leaves the engine alone
  exact ⟨(), _, rfl, yields_modify h⟩

theorem lowers_lowerCall (helper : UInt64) (i : Inst) (c : Word) :
    Lowers 0 12 (lowerCall helper i c) := by
  refine lowers_bind (lowers_withEngine fun _ slots hlen h =>
    (h.yields_flushBeforeCall i.writeSlots).mono fun _ _ h => ⟨slots, hlen, h⟩) fun _ => ?_
  refine lowers_bind (lowers_emitAll _ (Nat.le_refl 0)) fun _ => ?_
  refine lowers_bind (lowers_modify (fun _ => rfl) (Nat.zero_le 12)) fun _ => ?_
  exact lowers_withEngine fun _ slots hlen h =>
    (h.yields_reloadAfterCall i.writeSlots).mono fun _ _ h => ⟨slots, hlen, h⟩

/-- **Every step of lowering succeeds** if the slots that it names are of their kind. -/
theorem Composed.lowers {ok : Prop} {α : Type} {op : LowerM α} (hok : ok)
    (h : Composed ok n m op) : Lowers n m op := by
  induction h with
  | pure a => exact lowers_pure a (Nat.le_refl _)
  | bind _ _ hop hf => exact lowers_bind hop hf
  | mono _ hle hop => exact hop.mono hle
  | read _ hf => exact fun st h => yields_get (hf st st h)
  | code is => exact lowers_emitAll is (Nat.le_refl _)
  | leave c => exact lowers_modify (fun _ => rfl) (Nat.le_refl _)
  | skip c target => exact lowers_skipping c target
  | integer hq hbank hroom =>
    refine fun st h => yields_bind ((yields_request _ (hq hok) h ?_).mono fun r st' hr => ?_)
    · rw [hbank]
      exact hroom
    · rw [hbank] at hr
      obtain ⟨x, hx⟩ := integerReg_ok (lt_of_has_gpr hr.1)
      exact yields_except hx hr.2
  | vector hq hbank hroom =>
    refine fun st h => yields_bind ((yields_request _ (hq hok) h ?_).mono fun r st' hr => ?_)
    · rw [hbank]
      exact hroom
    · rw [hbank] at hr
      obtain ⟨x, hx⟩ := vectorReg_of_has hr.1
      exact yields_except hx hr.2
  | knownValue hs =>
    exact lowers_withEngine fun _ slots hlen h => (h.yields_knownValue (hs hok)).mono
      fun _ _ h => ⟨slots, hlen, h⟩
  | setKnown hs w =>
    exact lowers_withEngine fun _ slots hlen h => (h.yields_setKnown (hs hok).1 (hs hok).2 w).mono
      fun _ _ h => ⟨_ :: slots, Nat.succ_le_succ hlen, h⟩
  | flushAll => exact lowers_flushAll
  | missing hnot => exact absurd hok hnot

end

/-! ## Blocks -/

/-- The instructions from a position on are lowered. The induction carries that the engine is
supplied between two instructions. -/
theorem lowers_walk (helper : UInt64) {b : Block} {insts : List Inst}
    (hfits : ∀ i ∈ insts, i.fits = true) (hconst : ∀ i ∈ insts, ∃ c, b.constantOf i = .ok c)
    (k : Nat) : Lowers 12 12 ((lowering helper).walk b k insts) := by
  induction insts generalizing k with
  | nil => exact lowers_pure _ (Nat.le_refl 12)
  | cons i rest ih =>
    replace ih := ih (fun j hj => hfits j (List.mem_cons_of_mem i hj))
      fun j hj => hconst j (List.mem_cons_of_mem i hj)
    have hf := hfits i List.mem_cons_self
    unfold Lowering.walk
    split
    · exact ih (k + 1)
    · rename_i hnop
      obtain ⟨c, hc⟩ := hconst i List.mem_cons_self
      -- the locks of the instruction before are dropped
      have hbegin : Lowers 12 0 ((lowering helper).beginInst k) := by
        rintro st ⟨slots, -, h⟩
        exact yields_modify (P := fun _ st' => Stocked 0 st') ⟨[], Nat.le_refl 0, h.beginInst k⟩
      have hfinish : Lowers 12 12 (lowering helper).finishInst := by
        rintro st ⟨slots, hlen, h⟩
        exact yields_get (yields_except h.tables.check_eq ⟨slots, hlen, h⟩)
      have hlast : Lowers 12 12 ((lowering helper).finishInst >>= fun _ =>
          (lowering helper).walk b (k + 1) rest >>= fun lowered =>
            pure ((i.op, (lowering helper).isNative i.op && !i.mixesLanes) :: lowered)) :=
        lowers_bind hfinish fun _ => lowers_bind (ih (k + 1)) fun _ =>
          lowers_pure _ (Nat.le_refl 12)
      refine lowers_bind hbegin fun _ st h => yields_lift hc ?_
      simp only
      split
      · rename_i hnative
        have hcode : HasCode i := ⟨hf, (Bool.and_eq_true_iff.mp hnative).1, hnop⟩
        exact lowers_bind ((composed_lowerNative i _).lowers hcode) (fun _ => hlast) st h
      · exact lowers_bind (lowers_lowerCall helper i _) (fun _ => hlast) st h

/-- The engine at the start of a block. -/
theorem supplied_start (s : Settings) (insts : List Inst) :
    ((Engine.new host (policy s)).start insts).Supplied host [] := by
  have hsane : (Engine.new host (policy s)).host.Sane := amd64_sane
  have hslot : ∀ t, ((Engine.new host (policy s)).start insts).slotAt t = {} := fun t =>
    (fresh_start insts hsane).noSlot t List.not_mem_nil
  refine ⟨(coherent_start 0 insts .zeros hsane).toTables,
    (fun _ h => nomatch h), rfl, rfl, fun t ht => ?_, fun r hr => ?_⟩
  · rw [hslot] at ht
    exact nomatch ht
  · have hnone : ((Engine.new host (policy s)).start insts).hostAt r = {} := by
      show ((Array.replicate host.count ({} : HostState))[r]?).getD {} = {}
      rw [Array.getElem?_replicate]
      split <;> rfl
    rw [hnone] at hr
    exact nomatch hr

/-- **Every block in range is lowered.** -/
theorem exists_lowerItems (helper : UInt64) (s : Settings) {b : Block} (hb : b.InRange)
    (hfits : ∀ i ∈ b.insts, i.fits = true) :
    ∃ lowered st, lowerItems helper b (initial s b) = .ok (lowered, st) := by
  have hblock : Lowers 0 12 (lowerItems helper b) := by
    unfold lowerItems
    refine lowers_bind (lowers_emitAll _ (Nat.zero_le 12)) fun _ => ?_
    refine lowers_bind (lowers_walk helper hfits
      (fun i hi => ⟨_, Block.constantOf_eq (hb i hi)⟩) 0) fun lowered => ?_
    -- dropping the locks is what moving on to the same instruction does
    have hrelease : Lowers 12 0 (modify fun st : LowerState =>
        { st with engine := st.engine.releaseLocks } : LowerM Unit) := by
      rintro st ⟨slots, -, h⟩
      exact yields_modify (P := fun _ st' => Stocked 0 st')
        ⟨[], Nat.le_refl 0, h.beginInst st.engine.index⟩
    refine lowers_bind hrelease fun _ => lowers_bind lowers_flushAll fun _ => ?_
    refine lowers_bind (lowers_emit _ (Nat.le_refl 0)) fun _ => ?_
    refine lowers_bind (lowers_modify (fun _ => rfl) (Nat.zero_le 12)) fun _ => ?_
    exact lowers_bind (lowers_emitAll _ (Nat.le_refl 12)) fun _ => lowers_pure _ (Nat.le_refl 12)
  obtain ⟨lowered, st, hrun, -⟩ := hblock (initial s b)
    ⟨[], Nat.le_refl 0, supplied_start s b.insts⟩
  exact ⟨lowered, st, hrun⟩

/-- Compiling is lowering and assembling. -/
theorem compile_of_finish {assemble : Assemble} {helper : UInt64} {s : Settings} {b : Block}
    {lowered : List (Opcode × Bool)} {st : LowerState} {code : List UInt8}
    (hrun : lowerItems helper b (initial s b) = .ok (lowered, st))
    (hcode : st.asm.finish assemble = .ok code) :
    compile assemble helper s b
      = .ok { code := code, lowered := lowered, spills := st.engine.spills } := by
  have hblock : Yields (lowerBlock assemble helper b) (initial s b) fun c _ =>
      c = { code := code, lowered := lowered, spills := st.engine.spills } :=
    yields_bind ⟨lowered, st, hrun, yields_get (yields_lift hcode (yields_pure rfl))⟩
  obtain ⟨c, st', hblock, rfl⟩ := hblock
  exact congrArg (Prod.fst <$> ·) hblock

/-- The code is so short that any branch reaches any label. -/
def InBranchRange (helper : UInt64) (s : Settings) (b : Block) : Prop :=
  ∀ lowered st, lowerItems helper b (initial s b) = .ok (lowered, st) →
    15 * st.asm.items.size < 2 ^ 31

/-- **Every block in range compiles**, with any assembler that takes well-formed code. -/
theorem exists_compile {assemble : Assemble} (haccepts : assemble.Accepts) {helper : UInt64}
    {s : Settings} {b : Block} (hb : b.InRange) (hfits : ∀ i ∈ b.insts, i.fits = true)
    (hrange : InBranchRange helper s b) : ∃ c, compile assemble helper s b = .ok c := by
  obtain ⟨lowered, st, hrun⟩ := exists_lowerItems helper s hb hfits
  obtain ⟨bytes, hbytes⟩ := haccepts _ (wellFormed_lowerItems hrun) (hrange lowered st hrun)
  have hcode : st.asm.finish assemble = .ok bytes := by
    rw [Assembler.finish, hbytes]
    rfl
  exact ⟨_, compile_of_finish hrun hcode⟩

end Dynarec.Amd64
