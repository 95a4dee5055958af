/-
Code generators do not run out of registers.

The code generator for AArch64 can fail for many reasons: an operand of the wrong class, a constant
that is missing, a branch that is too long. None of them is that every register is locked. Its
instructions map four operands at most, and the shorter order of a class leaves a register after
four groups. So no step of lowering an instruction runs out of them (`Composed.lowers`), and the
locks are dropped between two instructions.

With what is known of the code generator for x86-64 no block makes either of them run out, and the
operands of one instruction are in place when its code is laid down (`registers_suffice`).
-/
import Dynarec.Proofs.Codegen.Totality
import Dynarec.Proofs.Registers.Operands

set_option autoImplicit false
set_option maxRecDepth 8192

namespace Dynarec.Aarch64

open Dynarec.Codegen Dynarec.Registers

/-! ## Faults of the assembler -/

theorem harmless_check (i : Instr) : Harmless i.check := by
  unfold Instr.check
  split
  · exact harmless_require rfl
  · exact harmless_require rfl
  · split
    · exact harmless_error rfl
    · exact harmless_require rfl
  · exact harmless_require rfl
  · exact harmless_require rfl
  · exact harmless_ok ()

theorem harmless_push (a : Assembler) (i : Instr) : Harmless (a.push i) :=
  harmless_bind (harmless_check i) fun _ => harmless_ok _

theorem harmless_pushAll (a : Assembler) (is : List Instr) : Harmless (a.pushAll is) :=
  harmless_foldlM harmless_push is a

theorem harmless_branch (a : Assembler) (op : BranchOp) : Harmless (a.branch op) :=
  harmless_bind (harmless_push a _) fun _ => harmless_ok _

theorem harmless_resolve (a : Assembler) (b : Branch) : Harmless (a.resolve b) := by
  unfold Assembler.resolve Assembler.resolveTo
  simp only
  split
  · exact harmless_error rfl
  · split
    · exact harmless_error rfl
    · split
      · split
        · exact harmless_error rfl
        · exact harmless_ok _
      · exact harmless_error rfl

theorem harmless_resolveAll (a : Assembler) (bs : Array Branch) : Harmless (a.resolveAll bs) := by
  unfold Assembler.resolveAll
  rw [← Array.foldlM_toList]
  exact harmless_foldlM harmless_resolve bs.toList a

theorem harmless_finish (a : Assembler) : Harmless a.finish := harmless_require rfl

theorem harmless_integerReg (r : HostReg) : Harmless (integerReg r) := harmless_require rfl

theorem harmless_vectorReg (r : HostReg) : Harmless (vectorReg r) := harmless_require rfl

theorem harmless_slotOffset (s : Slot) : Harmless (Guest.Layout.slotOffset s) :=
  harmless_bind (harmless_require rfl) fun _ => harmless_ok _

/-- No place of a list is a fault for want of a register. -/
def AllHarmless (l : List (Except Fault Instr)) : Prop := ∀ i ∈ l, Harmless i

theorem allHarmless_map (is : List Instr) : AllHarmless (is.map .ok) := by
  intro i hi
  obtain ⟨j, -, rfl⟩ := List.mem_map.mp hi
  exact harmless_ok j

theorem allHarmless_singleton {i : Except Fault Instr} (hi : Harmless i) : AllHarmless [i] := by
  intro j hj
  rw [List.mem_singleton.mp hj]
  exact hi

theorem AllHarmless.append {l l' : List (Except Fault Instr)} (h : AllHarmless l)
    (h' : AllHarmless l') : AllHarmless (l ++ l') :=
  fun i hi => (List.mem_append.mp hi).elim (h i) (h' i)

theorem allHarmless_spread {x : Sequence} (h : Plain x) : AllHarmless (spread x) := by
  obtain ⟨is, rfl, -⟩ := h
  exact allHarmless_map is

theorem allHarmless_accessState (op : MemOp) (rt : Reg) (offset : Word) :
    AllHarmless (accessState op rt offset) :=
  allHarmless_spread (plain_accessAt _ _ _ _ _)

theorem allHarmless_moveConst (rd : Reg) (w : Word) : AllHarmless (spread (moveConst rd w)) :=
  allHarmless_spread (plain_moveConst rd w)

theorem allHarmless_withReg {x : Except Fault Reg} (hx : Harmless x)
    {f : Reg → List (Except Fault Instr)} (hf : ∀ r, AllHarmless (f r)) :
    AllHarmless (withReg x f) := by
  cases x with
  | error g => exact allHarmless_singleton (harmless_error (hx g rfl))
  | ok r => exact hf r

theorem allHarmless_withSlot {s : Slot} {f : Word → List (Except Fault Instr)}
    (hf : ∀ offset, AllHarmless (f offset)) : AllHarmless (withSlot s f) := by
  have hoffset := harmless_slotOffset s
  unfold withSlot
  split
  · exact hf _
  · rename_i g hg
    exact allHarmless_singleton (harmless_error (hoffset g hg))

theorem allHarmless_fillLane (d : Reg) (lane : UInt8) (source : LaneSource) :
    AllHarmless (fillLane d lane source) := by
  cases source with
  | keep => exact fun _ hi => nomatch hi
  | lane r k =>
    exact allHarmless_withReg (harmless_vectorReg r) fun _ =>
      allHarmless_singleton (harmless_ok _)
  | guest s =>
    exact allHarmless_withSlot fun _ =>
      (allHarmless_accessState _ _ _).append (allHarmless_singleton (harmless_ok _))
  | value w =>
    rw [fillLane]
    split
    · exact allHarmless_singleton (harmless_ok _)
    · exact (allHarmless_moveConst _ _).append (allHarmless_singleton (harmless_ok _))

theorem allHarmless_spell (a : Action) : AllHarmless (spell a) := by
  have hone : ∀ i, AllHarmless [.ok i] := fun i => allHarmless_singleton (harmless_ok i)
  have hpair : ∀ (d s : HostReg) (f : Reg → Reg → Instr), AllHarmless [do
      let d ← vectorReg d
      let s ← vectorReg s
      return f d s] := fun d s f =>
    allHarmless_singleton (harmless_bind (harmless_vectorReg d) fun _ =>
      harmless_bind (harmless_vectorReg s) fun _ => harmless_ok _)
  cases a with
  | load r s lanes =>
    refine allHarmless_withSlot fun offset => ?_
    split
    · exact allHarmless_withReg (harmless_vectorReg r) fun _ => allHarmless_accessState _ _ _
    · exact allHarmless_accessState _ _ _
  | store r s lane count =>
    refine allHarmless_withSlot fun offset => ?_
    split
    · exact allHarmless_accessState _ _ _
    · refine allHarmless_withReg (harmless_vectorReg r) fun v => ?_
      split
      · exact allHarmless_accessState _ _ _
      · split
        · exact allHarmless_accessState _ _ _
        · exact (hone _).append (allHarmless_accessState _ _ _)
  | setValue r w =>
    rw [spell]
    split
    · exact (allHarmless_moveConst _ _).append
        (allHarmless_withReg (harmless_vectorReg r) fun _ => hone _)
    · exact allHarmless_moveConst _ _
  | storeValue s w =>
    refine allHarmless_withSlot fun offset => ?_
    split
    · exact allHarmless_accessState _ _ _
    · exact (allHarmless_moveConst _ _).append (allHarmless_accessState _ _ _)
  | addBase r => exact allHarmless_withReg (harmless_integerReg r) fun _ => hone _
  | removeBase r => exact allHarmless_withReg (harmless_integerReg r) fun _ => hone _
  | move d s =>
    rw [spell]
    split
    · exact hone _
    · exact allHarmless_withReg (harmless_vectorReg d) fun _ => hone _
    · exact allHarmless_withReg (harmless_vectorReg s) fun _ => hone _
    · exact hpair d s _
  | extract d s lane => exact hpair d s _
  | compose d sources =>
    have hd := harmless_vectorReg d
    rw [spell]
    split
    · rename_i g hg
      exact allHarmless_singleton (harmless_error (hd g hg))
    · intro i hi
      obtain ⟨⟨source, lane⟩, -, hi⟩ := List.mem_flatMap.mp hi
      exact allHarmless_fillLane _ _ source i hi

theorem harmless_pushUntil {l : List (Except Fault Instr)} (hl : AllHarmless l) (a : Assembler) :
    Harmless (a.pushUntil l).2 := by
  induction l generalizing a with
  | nil => exact harmless_ok ()
  | cons i l ih =>
    cases i with
    | error g => exact harmless_error (hl _ List.mem_cons_self g rfl)
    | ok i =>
      have hpush := harmless_push a i
      unfold Assembler.pushUntil
      split
      · rename_i g hg
        exact harmless_error (hpush g hg)
      · exact ih (fun j hj => hl j (List.mem_cons_of_mem _ hj)) _

/-- **What the engine asks for** is spelled, or fails for another reason. -/
theorem harmless_performAll (a : Assembler) (actions : Array Action) :
    Harmless (a.performAll actions) := by
  unfold Assembler.performAll
  rw [← Array.foldlM_toList]
  refine harmless_foldlM (fun a action => ?_) actions.toList a
  have hperform := harmless_pushUntil (allHarmless_spell action) a
  unfold Assembler.perform
  split
  · exact harmless_ok _
  · rename_i g hg
    rw [hg] at hperform
    exact harmless_error (hperform g rfl)

/-! ## Steps that are secure

The number says how many operands have been mapped. -/

/-- The engine is ready and has locked no more slots than `k` operands have. -/
def Stocked (p : Policy) (k : Nat) (st : LowerState) : Prop :=
  ∃ slots, slots.length ≤ 4 * k ∧ st.engine.Ready host p slots

/-- With `k` operands mapped a step does not run out of registers, and then no more than `m` are. -/
def Lowers {α : Type} (p : Policy) (k m : Nat) (op : LowerM α) : Prop :=
  ∀ st, Stocked p k st → Secure op st fun _ st' => Stocked p m st'

section

variable {α β : Type} {p : Policy} {k m n : Nat} {op : LowerM α}

theorem Stocked.mono {st : LowerState} (h : Stocked p k st) (hle : k ≤ m) : Stocked p m st := by
  obtain ⟨slots, hlen, h⟩ := h
  exact ⟨slots, Nat.le_trans hlen (Nat.mul_le_mul_left 4 hle), h⟩

theorem Lowers.mono (h : Lowers p k m op) (hle : m ≤ n) : Lowers p k n op :=
  fun st hst => (h st hst).mono fun _ _ h => h.mono hle

theorem lowers_pure (a : α) (hle : k ≤ m) : Lowers p k m (pure a) :=
  fun _ h => secure_pure (h.mono hle)

theorem lowers_bind {f : α → LowerM β} (hop : Lowers p k m op) (hf : ∀ a, Lowers p m n (f a)) :
    Lowers p k n (op >>= f) :=
  fun st h => secure_bind ((hop st h).mono fun a st' h' => hf a st' h')

theorem lowers_lift {x : Except Fault α} (hx : Harmless x) : Lowers p k k (liftM x : LowerM α) := by
  intro st h
  rw [← bind_pure (liftM x : LowerM α)]
  exact secure_lift hx fun a _ => secure_pure h

/-- A step that leaves the engine alone. -/
theorem lowers_update {γ : Type} {x : LowerState → Except Fault γ}
    {f : LowerState → γ → LowerState} (hx : ∀ st, Harmless (x st))
    (hf : ∀ st c, (f st c).engine = st.engine) (hle : k ≤ m) :
    Lowers p k m (do let st ← get; set (f st (← x st)) : LowerM Unit) := by
  intro st h
  refine secure_get (secure_lift (hx st) fun c _ => ?_)
  obtain ⟨slots, hlen, h⟩ := h.mono hle
  exact secure_modify (f := fun _ => f st c) ⟨slots, hlen, by rw [hf]; exact h⟩

theorem lowers_emit (i : Instr) (hle : k ≤ m) : Lowers p k m (emit i) :=
  lowers_update (fun st => harmless_push st.asm i) (fun _ _ => rfl) hle

theorem lowers_emitAll (is : List Instr) (hle : k ≤ m) : Lowers p k m (emitAll is) :=
  lowers_update (fun st => harmless_pushAll st.asm is) (fun _ _ => rfl) hle

/-- A sequence that can be put together. -/
theorem lowers_emitSeq {x : Sequence} (hplain : Plain x) (hle : k ≤ m) :
    Lowers p k m (emitSeq x) := by
  obtain ⟨is, rfl, -⟩ := hplain
  exact lowers_emitAll is hle

theorem lowers_branchToEpilogue (op : BranchOp) (hle : k ≤ m) :
    Lowers p k m (branchToEpilogue op) :=
  lowers_update (f := fun (st : LowerState) (b : Branch × Assembler) =>
    { st with asm := b.2, exits := st.exits.push b.1 })
    (fun st => harmless_branch st.asm op) (fun _ _ => rfl) hle

/-- An operation of the engine, with the actions laid down. -/
theorem lowers_withEngine {op : EngineM α} (hop : ∀ (e : Engine) (slots : List Slot),
      slots.length ≤ 4 * k → e.Ready host p slots →
        Secure op e fun _ e' => ∃ slots', slots'.length ≤ 4 * m ∧ e'.Ready host p slots') :
    Lowers p k m (withEngine op) := by
  rintro st ⟨slots, hlen, h⟩
  have hsecure := hop st.engine slots hlen h
  unfold withEngine
  refine secure_get (secure_lift hsecure.supplied fun b hb => ?_)
  refine secure_lift (harmless_performAll _ _) fun asm _ => secure_set (secure_pure ?_)
  obtain ⟨slots', hlen', h'⟩ := hsecure.leads b.1 b.2 hb
  exact ⟨slots', hlen', h'.toOrderly.of_alike b.2.alike_handOver fun _ hr => hr, h'.pinned.slot,
    h'.pinned.reg⟩

/-- A store maps no operand. -/
theorem lowers_operation (op : Operation) (hop : ∀ {p}, op.SparesBindings host p)
    (hlasting : ∀ {e : Engine} {I : Engine → Prop}, Engine.Lasting I → I e →
      Secure op.run e fun _ e' => I e') : Lowers p k k (withEngine op.run) :=
  lowers_withEngine fun _ slots hlen h => (h.store hop hlasting).mono fun _ _ h' =>
    ⟨slots, hlen, h'⟩

end

/-! ## Operands -/

section

variable {p : Policy} {k m : Nat}

/-- An order has no register twice and leaves one when four groups are locked and one more register
is set aside. -/
theorem order_suffices (bank : Bank) (useStatics : Bool) :
    (host.order bank useStatics).Nodup ∧ 17 < (host.order bank useStatics).length := by
  cases bank <;> cases useStatics <;> decide

/-- One of four operands is mapped. -/
theorem lowers_request (q : Request) (hk : k ≤ 3) : Lowers p k (k + 1) (withEngine q.run) := by
  refine lowers_withEngine fun e slots hlen h => ?_
  obtain ⟨hnodup, hlength⟩ := order_suffices q.bankOf p.useStatics
  have hwidth := q.width_le
  have hafford : Request.Affordable host p slots q.bankOf [q] := by
    refine ⟨fun q' hq' => by rw [List.mem_singleton.mp hq'], hnodup, ?_⟩
    rw [List.map_cons, List.map_nil, List.sum_singleton]
    omega
  refine ((hafford.secure h).and_leads (q.leads_ready_run h)).mono fun _ _ ⟨_, h'⟩ => ⟨_, ?_, h'⟩
  rw [List.length_append, q.length_slotList]
  omega

theorem lowers_setKnown (s : Slot) (w : Word) :
    Lowers p k k (withEngine (Registers.setKnown s w)) :=
  lowers_operation (.setKnown s w) trivial fun hI hi => hI.secure_setKnown hi w

theorem lowers_flushAll : Lowers p k k (withEngine Registers.flushAll) :=
  lowers_operation .flushAll trivial fun hI hi => hI.secure_flushAll hi

theorem lowers_flushBeforeCall (writes : List Slot) :
    Lowers p k k (withEngine (Registers.flushBeforeCall writes)) :=
  lowers_operation (.flushBeforeCall writes) trivial fun hI hi =>
    hI.secure_flushBeforeCall hi writes

theorem lowers_reloadAfterCall (writes : List Slot) :
    Lowers p k k (withEngine (Registers.reloadAfterCall writes)) :=
  lowers_operation (.reloadAfterCall writes) trivial fun hI hi =>
    hI.secure_reloadAfterCall hi writes

theorem lowers_reloadStatics : Lowers p k k (withEngine Registers.reloadStatics) :=
  lowers_operation .reloadStatics trivial fun hI hi => hI.secure_reloadStatics hi

theorem lowers_knownValue (s : Slot) : Lowers p k k (withEngine (Registers.knownValue s)) := by
  refine lowers_withEngine fun e slots hlen h => ?_
  unfold knownValue
  exact secure_requireSlot fun _ => secure_get (secure_pure ⟨slots, hlen, h⟩)

/-! ## Instructions -/

theorem lowers_leaveIf (a b : Reg) (c : Cond) (target : Word) :
    Lowers p k k (leaveIf a b c target) := by
  refine lowers_bind (lowers_emit _ (Nat.le_refl k)) fun _ st h => ?_
  refine secure_get (secure_lift (harmless_branch _ _) fun b _ => secure_set (secure_bind ?_))
  have hexit : Lowers p k k (exitTo target) :=
    lowers_bind (lowers_emitSeq (plain_setFieldConst _ _) (Nat.le_refl k)) fun _ =>
      lowers_bind (lowers_emit _ (Nat.le_refl k)) fun _ => lowers_branchToEpilogue _ (Nat.le_refl k)
  refine (hexit { st with asm := b.2 } h).mono fun _ st' h' => ?_
  exact lowers_update (x := fun st : LowerState => st.asm.resolve b.1)
    (f := fun st asm => { st with asm := asm }) (fun _ => harmless_resolve _ _) (fun _ _ => rfl)
    (Nat.le_refl k) st' h'

theorem lowers_lowerCall (helper : UInt64) (i : Inst) (c : Word) :
    Lowers p 0 4 (lowerCall helper i c) := by
  refine lowers_bind (lowers_flushBeforeCall i.writeSlots) fun _ => ?_
  refine lowers_bind (lowers_emitSeq (plain_callCode helper i c) (Nat.le_refl 0)) fun _ => ?_
  refine lowers_bind (lowers_branchToEpilogue _ (Nat.zero_le 4)) fun _ => ?_
  exact lowers_reloadAfterCall i.writeSlots

/-- **No step of lowering runs out of registers**, whatever slots it names. -/
theorem Composed.lowers {ok : Prop} {α : Type} {core : List Cell} {op : LowerM α}
    (h : Composed ok k m core op) : Lowers p k m op := by
  induction h with
  | pure a => exact lowers_pure a (Nat.le_refl _)
  | bind _ _ hop hf => exact lowers_bind hop hf
  | mono _ hle hop => exact hop.mono hle
  | read _ hf => exact fun st h => secure_get (hf st st h)
  | code hplain => exact lowers_emitSeq hplain (Nat.le_refl _)
  | leave => exact lowers_branchToEpilogue _ (Nat.le_refl _)
  | leaveIf a b c target => exact lowers_leaveIf a b c target
  | operand _ hk => exact lowers_request _ hk
  | vector _ _ hk =>
    exact lowers_bind (lowers_request _ hk) fun r => lowers_lift (harmless_vectorReg r)
  | knownValue => exact lowers_knownValue _
  | setKnown _ w => exact lowers_setKnown _ w
  | flushAll => exact lowers_flushAll
  | missing _ target op => exact fun _ _ => ⟨harmless_error rfl, fun _ _ h => by cases h⟩

end

/-! ## Blocks -/

theorem harmless_constantOf (b : Block) (i : Inst) : Harmless (b.constantOf i) := by
  unfold Block.constantOf
  split
  · exact harmless_ok _
  · refine harmless_map ?_
    unfold Pool.get
    split
    · exact harmless_ok _
    · exact harmless_error rfl

/-- The instructions from a position on. The induction carries that the engine is ready between two
instructions. -/
theorem lowers_walk {p : Policy} (helper : UInt64) (b : Block) (insts : List Inst) (k : Nat) :
    Lowers p 4 4 ((lowering helper).walk b k insts) := by
  induction insts generalizing k with
  | nil => exact lowers_pure _ (Nat.le_refl 4)
  | cons i rest ih =>
    unfold Lowering.walk
    split
    · exact ih (k + 1)
    · -- the locks of the instruction before are dropped
      have hbegin : Lowers p 4 0 ((lowering helper).beginInst k) := by
        rintro st ⟨slots, -, h⟩
        exact secure_modify ⟨[], Nat.le_refl 0, h.toOrderly.ready_beginInst k⟩
      have hfinish : Lowers p 4 4 (lowering helper).finishInst := by
        intro st h
        have hcheck : Harmless st.engine.check := by
          obtain ⟨_, _, hready⟩ := h
          rw [hready.tables.check_eq]
          exact harmless_ok ()
        exact secure_get (lowers_lift hcheck st h)
      have hlast : Lowers p 4 4 ((lowering helper).finishInst >>= fun _ =>
          (lowering helper).walk b (k + 1) rest >>= fun lowered =>
            pure ((i.op, (lowering helper).isNative i.op && !i.mixesLanes) :: lowered)) :=
        lowers_bind hfinish fun _ => lowers_bind (ih (k + 1)) fun _ =>
          lowers_pure _ (Nat.le_refl 4)
      refine lowers_bind hbegin fun _ => lowers_bind (lowers_lift (harmless_constantOf b i))
        fun c => ?_
      simp only
      split
      · exact lowers_bind (composed_lowerNative i _).lowers fun _ => hlast
      · exact lowers_bind (lowers_lowerCall helper i _) fun _ => hlast

/-- **Compiling a block does not run out of registers.** -/
theorem harmless_compile (helper : UInt64) (s : Settings) (b : Block) :
    Harmless (compile helper s b) := by
  have hblock : Lowers (policy s) 0 4 (lowerBlock helper b) := by
    unfold lowerBlock
    refine lowers_bind (lowers_emitAll _ (Nat.le_refl 0)) fun _ => ?_
    refine lowers_bind (lowers_reloadStatics.mono (Nat.zero_le 4)) fun _ => ?_
    refine lowers_bind (lowers_walk helper b b.insts 0) fun lowered => ?_
    -- dropping the locks is what moving on to the same instruction does
    have hrelease : Lowers (policy s) 4 0 (modify fun st : LowerState =>
        { st with engine := st.engine.releaseLocks } : LowerM Unit) := by
      rintro st ⟨slots, -, h⟩
      exact secure_modify (P := fun _ st' => Stocked (policy s) 0 st')
        ⟨[], Nat.le_refl 0, h.toOrderly.ready_beginInst st.engine.index⟩
    have hexits : Lowers (policy s) 0 0 resolveExits :=
      lowers_update (f := fun (st : LowerState) asm => { st with asm := asm, exits := #[] })
        (fun st => harmless_resolveAll st.asm st.exits) (fun _ _ => rfl) (Nat.le_refl 0)
    refine lowers_bind hrelease fun _ => lowers_bind lowers_flushAll fun _ => ?_
    refine lowers_bind (lowers_emit _ (Nat.le_refl 0)) fun _ => lowers_bind hexits fun _ => ?_
    refine lowers_bind (lowers_emitAll _ (Nat.zero_le 4)) fun _ st h => secure_get ?_
    exact secure_lift (harmless_finish _) fun _ _ => secure_pure h
  obtain ⟨e, hhost, hpolicy, hnew⟩ := Engine.exists_new host (policy s)
  have hready : ((Engine.new host (policy s)).start b.insts).Ready host (policy s) [] := by
    obtain ⟨hhost', hpolicy', -⟩ := e.start_fixed []
    have hstart := Engine.ready_start (e := e.start []) b.insts
      (by rw [hhost', hhost]; exact aarch64_sane)
    rw [hhost', hpolicy', hhost, hpolicy, ← hnew] at hstart
    exact hstart
  exact harmless_map (hblock { engine := (Engine.new host (policy s)).start b.insts }
    ⟨[], Nat.le_refl 0, hready⟩).supplied

end Dynarec.Aarch64

namespace Dynarec.Amd64

open Dynarec.Codegen Dynarec.Registers

/-- **Compiling a block does not run out of registers**, whatever the assembler says to its code. -/
theorem harmless_compile (assemble : Assemble) (helper : UInt64) (s : Settings) {b : Block}
    (hb : b.InRange) (hfits : ∀ i ∈ b.insts, i.fits = true) :
    Harmless (compile assemble helper s b) := by
  obtain ⟨lowered, st, hrun⟩ := exists_lowerItems helper s hb hfits
  have hitems : Secure (lowerItems helper b) (initial s b) fun _ _ => True :=
    ⟨by rw [hrun]; exact harmless_ok _, fun _ _ _ => trivial⟩
  have hfinish : ∀ a : Assembler, Harmless (a.finish assemble) := by
    intro a
    unfold Assembler.finish
    cases assemble a.items.toList with
    | error reason => exact harmless_error rfl
    | ok bytes => exact harmless_ok bytes
  have hblock : Secure (lowerBlock assemble helper b) (initial s b) fun _ _ => True :=
    secure_bind (hitems.mono fun _ st _ => secure_get
      (secure_lift (hfinish st.asm) fun _ _ => secure_pure trivial))
  exact harmless_map hblock.supplied

end Dynarec.Amd64

namespace Dynarec.Codegen

open Dynarec.Registers

/-- **No block makes a code generator run out of registers.** -/
theorem harmless_compile (p : Platform) (s : Settings) {b : Block} (hb : b.InRange)
    (hfits : ∀ i ∈ b.insts, i.fits = true) : Harmless (compile p s b) := by
  unfold compile
  split
  · exact Aarch64.harmless_compile p.helper s b
  · exact Amd64.harmless_compile p.assemble p.helper s hb hfits

/-- **Registers suffice for the operands of an instruction.** On the hosts of the code generators,
whatever operations have gone before, up to four integer slots or three floats and groups can be
mapped, and stay in place until all are. So on no platform does compiling a block with operands in
range fail because every register is locked. -/
theorem registers_suffice {host : Host} {policy : Policy}
    (hhost : host = Aarch64.host ∨ host = Amd64.host) {ops : List Operation}
    (hops : ∀ op ∈ ops, op.SparesBindings host policy) {e : Engine}
    (hrun : Operation.runAll ops (Engine.new host policy) = .ok ((), e)) (i : Nat)
    {qs : List Request} (hqs : Request.Few qs) :
    (e.beginInst i).Accommodates qs
    ∧ ∀ (p : Platform) (s : Settings) (b : Block), b.InRange → (∀ j ∈ b.insts, j.fits = true) →
      ∀ bank k op, compile p s b ≠ .error (.violation (.exhausted bank k op)) := by
  refine ⟨Operation.accommodates hhost hops hrun i hqs, fun p s b hb hfits bank k op hfail => ?_⟩
  exact nomatch harmless_compile p s hb hfits _ hfail

/-- Three groups are mapped on x86-64 while a slot of the first one lives in a register of its
own. -/
theorem registers_suffice_groups :
    let ops := [.start [], .beginInst 0, .map (.float 33 .readWrite)]
    let qs : List Request := [.group 32 .read, .group 36 .read, .group 40 .write]
    ∃ e rs e', Operation.runAll ops (Engine.new Amd64.host {}) = .ok ((), e) ∧
      Request.Few qs ∧ qs.mapM Request.run (e.beginInst 1) = .ok (rs, e') ∧ rs.length = 3 := by
  intro ops qs
  obtain ⟨e, hrun⟩ : ∃ e, Operation.runAll ops (Engine.new Amd64.host {}) = .ok ((), e) := by
    have hrun : (Operation.runAll ops (Engine.new Amd64.host {})).toOption.isSome = true := by
      with_unfolding_all decide
    cases hres : Operation.runAll ops (Engine.new Amd64.host {}) with
    | error g =>
      rw [hres] at hrun
      exact nomatch hrun
    | ok p => exact ⟨p.2, rfl⟩
  have hfew : Request.Few qs := by
    refine .floats (by decide) (by decide) ?_
    have hapart : ∀ {first first' : Slot} {mode mode' : Mode}, first + 4 ≤ first' →
        Request.Apart (.group first mode) (.group first' mode') := by
      intro first first' mode mode' hle
      refine Or.inr (Set.disjoint_left.mpr fun t ht ht' => ?_)
      exact absurd (Nat.lt_of_lt_of_le ht.2 hle) (Nat.not_lt.mpr ht'.1)
    simp only [qs, List.pairwise_cons, List.mem_cons, List.not_mem_nil, or_false]
    refine ⟨?_, ?_, by simp⟩
    · rintro q (rfl | rfl) <;> exact hapart (by decide)
    · rintro q rfl
      exact hapart (by decide)
  obtain ⟨haccommodates, -⟩ := registers_suffice (Or.inr rfl)
    (fun op _ => by cases op <;> first | trivial | exact fun h => nomatch h) hrun 1 hfew
  obtain ⟨rs, e', hmap⟩ := haccommodates.succeeds fun q hq => by
    simp only [qs, List.mem_cons, List.not_mem_nil, or_false] at hq
    obtain rfl | rfl | rfl := hq <;> exact ⟨by decide, by decide⟩
  exact ⟨e, rs, e', hrun, hfew, hmap, haccommodates.length hmap⟩

end Dynarec.Codegen
