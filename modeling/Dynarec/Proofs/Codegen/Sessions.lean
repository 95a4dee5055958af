/-
Code generators at work on the register engine.

Both code generators drive the engine in the same way: they start an instruction, map its operands,
lay down the code that puts the results into the registers mapped for them, and make a call where
there is no such code. So whatever block is being compiled, the engine is always that of a session,
and what holds of all sessions holds during compilation (`Amd64.attained_of_reaches`,
`Aarch64.attained_of_reaches`).
-/
import Dynarec.Codegen
import Dynarec.Proofs.Codegen.Aarch64Steps
import Dynarec.Proofs.Codegen.Amd64Steps
import Dynarec.Proofs.Registers.CallSession

set_option autoImplicit false

namespace Dynarec.Registers

open Storage

/-! ## Engines of sessions -/

/-- The engine of a session in which nothing is due. -/
def Engine.Attained (base : UInt64) (e₀ : Engine) (insts : List Inst) (e : Engine) : Prop :=
  ∃ w : Session, w.Visited base e₀ insts ∧ w.due = none ∧ w.engine = e

namespace Engine.Attained

variable {base : UInt64} {e₀ : Engine} {insts : List Inst} {e e' : Engine}

theorem beginInst (h : Attained base e₀ insts e) (k : Nat) :
    Attained base e₀ insts (e.beginInst k) := by
  obtain ⟨w, hw, hdue, rfl⟩ := h
  exact ⟨_, hw.step (.beginInst k hdue), hdue, rfl⟩

/-- An operation that a session can go on with leads from one engine of a session to another. -/
theorem run {α : Type} {op : EngineM α} {a : α} (hsane : e₀.host.Sane)
    (hkeeps : e₀.host.KeepsStatics) (h : Attained base e₀ insts e) (hop : op e = .ok (a, e'))
    (hafter : ∀ {last lost x}, Coherent base last lost e x → ∃ Q, After base op e x Q)
    (hnext : ∀ {w : Session} {y}, w.Visited base e₀ insts → w.due = none → w.engine = e →
      Ran base op w.engine w.storage a e' y →
        ∃ w' : Session, w'.Visited base e₀ insts ∧ w'.engine = e') :
    Attained base e₀ insts { e' with actions := #[] } := by
  obtain ⟨w, hw, hdue, rfl⟩ := h
  obtain ⟨Q, hQ⟩ := hafter ((hw.sound hsane hkeeps).1.settled hdue)
  obtain ⟨-, as, has, -⟩ := hQ a e' hop
  obtain ⟨y, hy⟩ := exists_performsAll w.engine.host base as w.storage
  obtain ⟨w', hw', rfl⟩ := hnext hw hdue rfl ⟨hop, as, has, hy⟩
  obtain ⟨v, hv, hengine, -, hnone⟩ := hw'.settle
  exact ⟨_, hv.handOver, hnone, by rw [hengine]⟩

section

variable (hsane : e₀.host.Sane) (hkeeps : e₀.host.KeepsStatics) (h : Attained base e₀ insts e)

include hsane hkeeps h

theorem map (q : Request) {r : HostReg} (hop : q.run e = .ok (r, e')) :
    Attained base e₀ insts { e' with actions := #[] } :=
  h.run hsane hkeeps hop (fun hc => ⟨_, q.after_run hc⟩) fun hw hdue _ hran =>
    ⟨_, hw.step (.map q hdue hran), rfl⟩

theorem setKnown {s : Slot} {v : Word} (hop : Registers.setKnown s v e = .ok ((), e')) :
    Attained base e₀ insts { e' with actions := #[] } :=
  h.run hsane hkeeps hop (fun hc => ⟨_, after_setKnown hc v⟩) fun hw hdue _ hran =>
    ⟨_, hw.step (.setKnown s v hdue hran), rfl⟩

theorem flushAll (hop : Registers.flushAll e = .ok ((), e')) :
    Attained base e₀ insts { e' with actions := #[] } :=
  h.run hsane hkeeps hop (fun hc => ⟨_, after_flushAll hc⟩) fun hw hdue _ hran =>
    ⟨_, hw.step (.flushAll hdue hran), rfl⟩

/-- A call that changes nothing is as good as any. -/
theorem call {writes : List Slot} {e₁ e₂ : Engine}
    (hflush : flushBeforeCall writes e = .ok ((), e₁))
    (hreload : reloadAfterCall writes { e₁ with actions := #[] } = .ok ((), e₂)) :
    Attained base e₀ insts { e₂ with actions := #[] } := by
  obtain ⟨w, hw, hdue, rfl⟩ := h
  have hc := (hw.sound hsane hkeeps).1.settled hdue
  obtain ⟨hforce, hkept⟩ := hw.inForce hsane hkeeps
  obtain ⟨-, as, has, hafter⟩ := after_flushBeforeCall hc () e₁ hflush
  obtain ⟨x₁, hx₁⟩ := exists_performsAll w.engine.host base as w.storage
  have hran₁ : Ran base (flushBeforeCall writes) w.engine w.storage () e₁ x₁ :=
    ⟨hflush, as, has, hx₁⟩
  have hcall : Called w.engine.host writes x₁ x₁ :=
    ⟨fun _ _ => rfl, fun _ _ _ => rfl, fun _ _ _ _ _ => rfl⟩
  obtain ⟨-, as', has', -⟩ := hc.after_call #[] hforce hkept hran₁ hcall () e₂ hreload
  obtain ⟨x₃, hx₃⟩ := exists_performsAll e₁.host base as' x₁
  exact ⟨_, (hw.call writes hdue hran₁ hcall ⟨hreload, as', has', hx₃⟩).handOver, rfl, rfl⟩

end

end Engine.Attained

/-- The engine of a block that has just been started. -/
theorem Engine.attained_start {base : UInt64} {e₀ e : Engine} {insts : List Inst}
    (hsane : e₀.host.Sane) (hop : reloadStatics (e₀.start insts) = .ok ((), e)) :
    Engine.Attained base e₀ insts { e with actions := #[] } := by
  let x : Storage := ⟨fun _ => 0, fun _ _ => 0, fun _ => 0⟩
  have hafter : After base reloadStatics (e₀.start insts) x _ := after_reloadStatics insts x hsane
  obtain ⟨-, as, has, -⟩ := hafter () e hop
  obtain ⟨y, hy⟩ := exists_performsAll (e₀.start insts).host base as x
  exact ⟨_, (Session.Visited.start ⟨hop, as, has, hy⟩).handOver, rfl, rfl⟩

theorem knownValue_eq {s : Slot} {e e' : Engine} {v : Option Word}
    (hop : knownValue s e = .ok (v, e')) : e' = e := by
  unfold knownValue requireSlot at hop
  split at hop
  · cases hop
    rfl
  · exact nomatch hop

/-- A property of the engine that code generation keeps, whatever the block. -/
structure Engine.Persists (I : Engine → Prop) : Prop where
  beginInst : ∀ {e : Engine} (k : Nat), I e → I (e.beginInst k)
  map : ∀ {e e' : Engine} {r : HostReg} (q : Request), I e → q.run e = .ok (r, e') →
    I { e' with actions := #[] }
  known : ∀ {e : Engine}, I e → I { e with actions := #[] }
  setKnown : ∀ {e e' : Engine} {s : Slot} {v : Word}, I e →
    Registers.setKnown s v e = .ok ((), e') → I { e' with actions := #[] }
  flushAll : ∀ {e e' : Engine}, I e → Registers.flushAll e = .ok ((), e') →
    I { e' with actions := #[] }
  call : ∀ {e e₁ e₂ : Engine} {writes : List Slot}, I e →
    flushBeforeCall writes e = .ok ((), e₁) →
    reloadAfterCall writes { e₁ with actions := #[] } = .ok ((), e₂) → I { e₂ with actions := #[] }

theorem Engine.persists_attained {base : UInt64} {e₀ : Engine} {insts : List Inst}
    (hsane : e₀.host.Sane) (hkeeps : e₀.host.KeepsStatics) :
    Engine.Persists (Engine.Attained base e₀ insts) where
  beginInst k h := h.beginInst k
  map q h hop := h.map hsane hkeeps q hop
  known := by
    rintro e ⟨w, hw, hdue, rfl⟩
    exact ⟨_, hw.handOver, hdue, rfl⟩
  setKnown h hop := h.setKnown hsane hkeeps hop
  flushAll h hop := h.flushAll hsane hkeeps hop
  call h hflush hreload := h.call hsane hkeeps hflush hreload

end Dynarec.Registers

/-! ## Steps of code generation -/

namespace Dynarec.Codegen

open Dynarec.Registers

/-- The step keeps a property of a part of the state. -/
def Keeps {σ ε α : Type} (part : σ → ε) (I : ε → Prop) (op : StateT σ (Except Fault) α) : Prop :=
  ∀ st, I (part st) → Leads op st fun _ st' => I (part st')

section Keeps

variable {σ ε α β : Type} {part : σ → ε} {I : ε → Prop} {op : StateT σ (Except Fault) α}

theorem keeps_pure (a : α) : Keeps part I (pure a) := fun _ h => leads_pure h

theorem keeps_bind {f : α → StateT σ (Except Fault) β} (hop : Keeps part I op)
    (hf : ∀ a, Keeps part I (f a)) : Keeps part I (op >>= f) :=
  fun st h => leads_bind ((hop st h).mono fun a st' h' => hf a st' h')

theorem keeps_lift (m : Except Fault α) :
    Keeps part I (liftM m : StateT σ (Except Fault) α) := by
  intro st h a st' ha
  cases m with
  | error g => exact nomatch ha
  | ok b =>
    cases ha
    exact h

theorem keeps_violate (v : Violation) :
    Keeps part I (violate v : StateT σ (Except Fault) α) :=
  fun _ _ _ _ ha => by cases ha

theorem keeps_get {f : σ → StateT σ (Except Fault) β} (hf : ∀ st, Keeps part I (f st)) :
    Keeps part I (get >>= f) :=
  fun st h => leads_get (hf st st h)

/-- A step that works on something else. -/
theorem keeps_modify {f : σ → σ} (hf : ∀ st, part (f st) = part st) :
    Keeps part I (modify f : StateT σ (Except Fault) Unit) := by
  intro st h
  refine leads_modify ?_
  rw [hf]
  exact h

/-- The same for a step that may fail. -/
theorem keeps_update {γ : Type} {m : σ → Except Fault γ} {f : σ → γ → σ}
    (hf : ∀ st c, part (f st c) = part st) :
    Keeps part I (do let st ← get; set (f st (← m st)) : StateT σ (Except Fault) Unit) := by
  intro st h
  refine leads_get (leads_lift fun c _ => ?_)
  intro a st' ha
  cases ha
  show I (part (f st c))
  rw [hf]
  exact h

/-- What the lowering of each instruction keeps, the lowering of a block keeps. -/
theorem keeps_walk {l : Lowering (StateT σ (Except Fault))}
    (hbegin : ∀ k, Keeps part I (l.beginInst k)) (hnative : ∀ i c, Keeps part I (l.native i c))
    (hcall : ∀ i c, Keeps part I (l.call i c)) (hfinish : Keeps part I l.finishInst) (b : Block)
    (insts : List Inst) (k : Nat) : Keeps part I (l.walk b k insts) := by
  induction insts generalizing k with
  | nil => exact keeps_pure _
  | cons i rest ih =>
    unfold Lowering.walk
    split
    · exact ih (k + 1)
    · refine keeps_bind (hbegin k) fun _ => keeps_bind (keeps_lift _) fun c => ?_
      have hlast : Keeps part I (l.finishInst >>= fun _ => l.walk b (k + 1) rest >>= fun lowered =>
          pure ((i.op, l.isNative i.op && !i.mixesLanes) :: lowered)) :=
        keeps_bind hfinish fun _ => keeps_bind (ih (k + 1)) fun _ => keeps_pure _
      simp only
      split
      · exact keeps_bind (hnative _ _) fun _ => hlast
      · exact keeps_bind (hcall _ _) fun _ => hlast

end Keeps

end Dynarec.Codegen

/-! ## The code generator for x86-64 -/

namespace Dynarec.Amd64

open Dynarec.Codegen Dynarec.Registers

variable {I : Engine → Prop}

theorem leads_withEngine {α : Type} {op : EngineM α} {st : LowerState}
    {P : α → LowerState → Prop}
    (h : ∀ a e' asm, op st.engine = .ok (a, e') →
      P a { st with engine := { e' with actions := #[] }, asm := asm }) :
    Leads (withEngine op) st P := by
  unfold withEngine
  refine leads_get (leads_lift fun p hp => leads_lift fun asm _ => leads_set (leads_pure ?_))
  exact h p.1 p.2 asm hp

theorem yields_withEngine {α : Type} {op : EngineM α} {st : LowerState} {a : α} {e' : Engine}
    {asm : Assembler} {P : α → LowerState → Prop} (hop : op st.engine = .ok (a, e'))
    (hasm : st.asm.performAll e'.actions = .ok asm)
    (h : P a { st with engine := { e' with actions := #[] }, asm := asm }) :
    Yields (withEngine op) st P := by
  unfold withEngine
  exact yields_get (yields_lift hop (yields_lift hasm (yields_set (yields_pure h))))

theorem keeps_emit (i : Instr) : Keeps LowerState.engine I (emit i) := keeps_modify fun _ => rfl

theorem keeps_emitAll (is : List Instr) : Keeps LowerState.engine I (emitAll is) :=
  keeps_modify fun _ => rfl

theorem keeps_branchToEpilogue (c : Option Cond) :
    Keeps LowerState.engine I (branchToEpilogue c) :=
  keeps_modify fun _ => rfl

theorem keeps_leave (result : Word) : Keeps LowerState.engine I (leave result) :=
  keeps_bind (keeps_emit _) fun _ => keeps_branchToEpilogue _

theorem keeps_exitTo (target : Word) : Keeps LowerState.engine I (exitTo target) :=
  keeps_bind (keeps_emit _) fun _ => keeps_leave _

theorem keeps_skipping (c : Cond) (target : Word) :
    Keeps LowerState.engine I (skipping c target) := by
  intro st h
  refine leads_get (leads_set (leads_bind ?_))
  refine (keeps_exitTo target _ ?_).mono fun _ st' h' => leads_modify h'
  exact h

section

variable (hI : Engine.Persists I)

include hI

theorem keeps_request (q : Request) : Keeps LowerState.engine I (withEngine q.run) :=
  fun _ h => leads_withEngine fun _ _ _ hop => hI.map q h hop

theorem keeps_knownValue (s : Slot) :
    Keeps LowerState.engine I (withEngine (Registers.knownValue s)) := by
  refine fun st h => leads_withEngine fun a e' asm hop => ?_
  rw [knownValue_eq hop]
  exact hI.known h

theorem keeps_setKnown (s : Slot) (w : Word) :
    Keeps LowerState.engine I (withEngine (Registers.setKnown s w)) :=
  fun _ h => leads_withEngine fun _ _ _ hop => hI.setKnown h hop

theorem keeps_flushAll : Keeps LowerState.engine I (withEngine Registers.flushAll) :=
  fun _ h => leads_withEngine fun _ _ _ hop => hI.flushAll h hop

theorem keeps_lowerCall (helper : UInt64) (i : Inst) (c : Word) :
    Keeps LowerState.engine I (lowerCall helper i c) := by
  intro st h
  refine leads_bind (leads_withEngine fun _ e₁ asm₁ hflush => ?_)
  refine leads_bind (leads_modify (leads_bind (leads_modify ?_)))
  exact leads_withEngine fun _ e₂ asm₂ hreload => hI.call h hflush hreload

/-- **Every step of lowering keeps what code generation keeps.** -/
theorem Composed.keeps {ok : Prop} {α : Type} {n m : Nat} {op : LowerM α} (h : Composed ok n m op) :
    Keeps LowerState.engine I op := by
  induction h with
  | pure a => exact keeps_pure a
  | bind _ _ hop hf => exact keeps_bind hop hf
  | mono _ _ hop => exact hop
  | read _ hf => exact keeps_get hf
  | code is => exact keeps_emitAll is
  | leave c => exact keeps_branchToEpilogue c
  | skip c target => exact keeps_skipping c target
  | integer => exact keeps_bind (keeps_request hI _) fun _ => keeps_lift _
  | vector => exact keeps_bind (keeps_request hI _) fun _ => keeps_lift _
  | knownValue => exact keeps_knownValue hI _
  | setKnown _ w => exact keeps_setKnown hI _ w
  | flushAll => exact keeps_flushAll hI
  | missing => exact keeps_violate _

theorem keeps_lowerNative (i : Inst) (c : Word) : Keeps LowerState.engine I (lowerNative i c) :=
  (composed_lowerNative i c).keeps hI

/-- What code generation keeps holds when an instruction is about to be lowered. -/
theorem keeps_lowering (helper : UInt64) (b : Block) (insts : List Inst) (k : Nat) :
    Keeps LowerState.engine I ((lowering helper).walk b k insts) := by
  have hfinish : Keeps LowerState.engine I (get >>= fun st => liftM st.engine.check : LowerM Unit) :=
    keeps_get fun _ => keeps_lift _
  exact keeps_walk (l := lowering helper) (fun k st h => leads_modify (hI.beginInst k h))
    (keeps_lowerNative hI) (keeps_lowerCall hI helper) hfinish b insts k

end

/-- The engine when the instructions before position `n` have been lowered and that at `n` is about
to be, in a process with the interpreter at `helper`. -/
def Reaches (helper : UInt64) (s : Settings) (b : Block) (n : Nat) (e : Engine) : Prop :=
  ∃ lowered st asm exit,
    ((lowering helper).walk b 0 (b.insts.take n)).run
        { engine := (Engine.new host (policy s)).start b.insts, asm := asm, exit := exit }
      = .ok (lowered, st) ∧ st.engine.beginInst n = e

theorem attained_of_reaches {helper : UInt64} {s : Settings} {b : Block} {n : Nat} {e : Engine}
    (base : UInt64) (h : Reaches helper s b n e) :
    Engine.Attained base (Engine.new host (policy s)) b.insts e := by
  obtain ⟨lowered, st, asm, exit, hrun, rfl⟩ := h
  have hsane : (Engine.new host (policy s)).host.Sane := amd64_sane
  have hkeeps : (Engine.new host (policy s)).host.KeepsStatics := amd64_keepsStatics
  have hI : Engine.Persists (Engine.Attained base (Engine.new host (policy s)) b.insts) :=
    Engine.persists_attained hsane hkeeps
  refine hI.beginInst n (keeps_lowering hI helper b _ 0 _ ?_ lowered st hrun)
  exact Engine.attained_start hsane rfl

end Dynarec.Amd64

/-! ## The code generator for AArch64 -/

namespace Dynarec.Aarch64

open Dynarec.Codegen Dynarec.Registers

variable {I : Engine → Prop}

theorem leads_withEngine {α : Type} {op : EngineM α} {st : LowerState}
    {P : α → LowerState → Prop}
    (h : ∀ a e' asm, op st.engine = .ok (a, e') →
      P a { st with engine := { e' with actions := #[] }, asm := asm }) :
    Leads (withEngine op) st P := by
  unfold withEngine
  refine leads_get (leads_lift fun p hp => leads_lift fun asm _ => leads_set (leads_pure ?_))
  exact h p.1 p.2 asm hp

theorem keeps_emit (i : Instr) : Keeps LowerState.engine I (emit i) := keeps_update fun _ _ => rfl

theorem keeps_emitAll (is : List Instr) : Keeps LowerState.engine I (emitAll is) :=
  keeps_update fun _ _ => rfl

theorem keeps_emitSeq (x : Sequence) : Keeps LowerState.engine I (emitSeq x) :=
  keeps_bind (keeps_lift x) keeps_emitAll

theorem keeps_branchToEpilogue (op : BranchOp) :
    Keeps LowerState.engine I (branchToEpilogue op) :=
  keeps_update (f := fun (st : LowerState) (p : Branch × Assembler) =>
    { st with asm := p.2, exits := st.exits.push p.1 }) fun _ _ => rfl

theorem keeps_leave (result : UInt16) : Keeps LowerState.engine I (leave result) :=
  keeps_bind (keeps_emit _) fun _ => keeps_branchToEpilogue _

theorem keeps_exitTo (target : Word) : Keeps LowerState.engine I (exitTo target) :=
  keeps_bind (keeps_emitSeq _) fun _ => keeps_leave _

theorem keeps_leaveIf (a b : Reg) (c : Cond) (target : Word) :
    Keeps LowerState.engine I (leaveIf a b c target) := by
  refine keeps_bind (keeps_emit _) fun _ st h => ?_
  refine leads_get (leads_lift fun p _ => leads_set (leads_bind ?_))
  have hexit : Leads (exitTo target) { st with asm := p.2 } fun _ st' => I st'.engine :=
    keeps_exitTo target _ h
  refine hexit.mono fun _ st' h' => ?_
  exact keeps_update (m := fun st : LowerState => st.asm.resolve p.1)
    (f := fun st asm => { st with asm := asm }) (fun _ _ => rfl) st' h'

section

variable (hI : Engine.Persists I)

include hI

theorem keeps_request (q : Request) : Keeps LowerState.engine I (withEngine q.run) :=
  fun _ h => leads_withEngine fun _ _ _ hop => hI.map q h hop

theorem keeps_knownValue (s : Slot) :
    Keeps LowerState.engine I (withEngine (Registers.knownValue s)) := by
  refine fun st h => leads_withEngine fun a e' asm hop => ?_
  rw [knownValue_eq hop]
  exact hI.known h

theorem keeps_setKnown (s : Slot) (w : Word) :
    Keeps LowerState.engine I (withEngine (Registers.setKnown s w)) :=
  fun _ h => leads_withEngine fun _ _ _ hop => hI.setKnown h hop

theorem keeps_flushAll : Keeps LowerState.engine I (withEngine Registers.flushAll) :=
  fun _ h => leads_withEngine fun _ _ _ hop => hI.flushAll h hop

theorem keeps_lowerCall (helper : UInt64) (i : Inst) (c : Word) :
    Keeps LowerState.engine I (lowerCall helper i c) := by
  intro st h
  refine leads_bind (leads_withEngine fun _ e₁ asm₁ hflush => ?_)
  -- the code of the call leaves the engine alone
  let same (e : Engine) : Prop := e = { e₁ with actions := #[] }
  refine leads_bind ((keeps_emitSeq (I := same) _ _ rfl).mono fun _ st₁ h₁ => ?_)
  refine leads_bind ((keeps_branchToEpilogue (I := same) _ st₁ h₁).mono fun _ st₂ h₂ => ?_)
  refine leads_withEngine fun _ e₂ asm₂ hreload => ?_
  rw [show st₂.engine = _ from h₂] at hreload
  exact hI.call h hflush hreload

/-- **Every step of lowering keeps what code generation keeps.** -/
theorem Composed.keeps {ok : Prop} {α : Type} {k m : Nat} {core : List Cell} {op : LowerM α}
    (h : Composed ok k m core op) : Keeps LowerState.engine I op := by
  induction h with
  | pure a => exact keeps_pure a
  | bind _ _ hop hf => exact keeps_bind hop hf
  | mono _ _ hop => exact hop
  | read _ hf => exact keeps_get hf
  | code => exact keeps_emitSeq _
  | leave => exact keeps_branchToEpilogue _
  | leaveIf a b c target => exact keeps_leaveIf a b c target
  | operand => exact keeps_request hI _
  | vector => exact keeps_bind (keeps_request hI _) fun _ => keeps_lift _
  | knownValue => exact keeps_knownValue hI _
  | setKnown _ w => exact keeps_setKnown hI _ w
  | flushAll => exact keeps_flushAll hI
  | missing => exact keeps_violate _

theorem keeps_lowerNative (i : Inst) (c : Word) : Keeps LowerState.engine I (lowerNative i c) :=
  (composed_lowerNative i c).keeps hI

theorem keeps_lowering (helper : UInt64) (b : Block) (insts : List Inst) (k : Nat) :
    Keeps LowerState.engine I ((lowering helper).walk b k insts) := by
  have hfinish : Keeps LowerState.engine I (get >>= fun st => liftM st.engine.check : LowerM Unit) :=
    keeps_get fun _ => keeps_lift _
  exact keeps_walk (l := lowering helper) (fun k st h => leads_modify (hI.beginInst k h))
    (keeps_lowerNative hI) (keeps_lowerCall hI helper) hfinish b insts k

end

/-- The engine when the instructions before position `n` have been lowered and that at `n` is about
to be, in a process with the interpreter at `helper`. -/
def Reaches (helper : UInt64) (s : Settings) (b : Block) (n : Nat) (e : Engine) : Prop :=
  ∃ lowered st asm,
    (withEngine reloadStatics >>= fun _ => (lowering helper).walk b 0 (b.insts.take n)).run
        { engine := (Engine.new host (policy s)).start b.insts, asm := asm }
      = .ok (lowered, st) ∧ st.engine.beginInst n = e

theorem attained_of_reaches {helper : UInt64} {s : Settings} {b : Block} {n : Nat} {e : Engine}
    (base : UInt64) (h : Reaches helper s b n e) :
    Engine.Attained base (Engine.new host (policy s)) b.insts e := by
  obtain ⟨lowered, st, asm, hrun, rfl⟩ := h
  have hsane : (Engine.new host (policy s)).host.Sane := by
    rw [Engine.host_new]
    exact aarch64_sane
  have hkeeps : (Engine.new host (policy s)).host.KeepsStatics := by
    rw [Engine.host_new]
    exact aarch64_keepsStatics
  have hI : Engine.Persists (Engine.Attained base (Engine.new host (policy s)) b.insts) :=
    Engine.persists_attained hsane hkeeps
  refine hI.beginInst n ?_
  refine leads_bind (R := fun _ st => Engine.Attained base _ b.insts st.engine)
    (leads_withEngine fun _ e' asm' hop => ?_) lowered st hrun
  exact keeps_lowering hI helper b _ 0 _ (Engine.attained_start hsane hop)

end Dynarec.Aarch64
