/-
Sessions with calls.

A session of the register engine goes on over the instructions that are lowered as calls of the
interpreter: everything is stored, the helper runs, and the bound registers that it wrote are loaded
again. The code may also write a register that it has mapped to be written more than once.

Two things are followed. One is the last word given to each slot, which the engine keeps except for
slots that it has evicted as dead (`Visited.sound`). The other is where the engine says that the
word of a slot is: that place always has some word and no other place contradicts it, whether the
word is the last one or not (`Visited.definite`). The second is what a call has to preserve.
-/
import Dynarec.Proofs.Registers.Calls

set_option autoImplicit false
set_option maxRecDepth 2048

namespace Dynarec.Registers

open Storage

theorem aarch64_keepsStatics : Aarch64.host.KeepsStatics := by decide

theorem amd64_keepsStatics : Amd64.host.KeepsStatics := by decide

/-- The hosts of the two code generators. -/
theorem sane_of_host {e : Engine} (hhost : e.host = Aarch64.host ∨ e.host = Amd64.host) :
    e.host.Sane ∧ e.host.KeepsStatics := by
  obtain heq | heq := hhost
  · rw [heq]
    exact ⟨aarch64_sane, aarch64_keepsStatics⟩
  · rw [heq]
    exact ⟨amd64_sane, amd64_keepsStatics⟩

/-- An operation that succeeds can be carried out on every host. -/
theorem Completes.ran {α : Type} {base : UInt64} {op : EngineM α} {e : Engine} {x : Storage}
    {Q : α → Engine → Storage → Prop} (hop : Completes op e) (hafter : After base op e x Q) :
    ∃ a e' y, Ran base op e x a e' y := by
  obtain ⟨a, e', ha⟩ := hop
  obtain ⟨-, as, has, -⟩ := hafter a e' ha
  obtain ⟨y, hy⟩ := exists_performsAll e.host base as x
  exact ⟨a, e', y, ha, as, has, hy⟩

/-- An operation that succeeds on known tables can be carried out. -/
theorem exists_ran {α : Type} {base : UInt64} {op : EngineM α} {e : Engine} {x : Storage} {a : α}
    (hop : (op e).toOption.map Prod.fst = some a)
    (hacts : (e.after op).actions.toList.take e.actions.size = e.actions.toList) :
    ∃ y, Ran base op e x a (e.after op) y := by
  obtain ⟨y, hy⟩ := exists_performsAll e.host base ((e.after op).actions.toList.drop e.actions.size) x
  refine ⟨y, ran_of_eval hop ?_ hy⟩
  rw [← hacts, List.take_append_drop]

theorem Engine.alike_handOver (e : Engine) : e.Alike { e with actions := #[] } :=
  ⟨rfl, rfl, rfl, fun _ => rfl, fun _ => rfl, fun _ => rfl⟩

/-! ## Scratch registers -/

theorem after_allocScratch {base : UInt64} {last : Slot → Word} {lost : Set Slot} {e : Engine}
    {x : Storage} (bank : Bank) (hc : Coherent base last lost e x) :
    After base (allocScratch bank) e x fun r e' y =>
      Coherent base last (lost ∪ e.givenUp bank) e' y ∧
        ∀ s, (e'.residence s).reg? ≠ some r := by
  unfold allocScratch
  refine after_bind ((after_alloc bank hc).mono fun r e₁ y ⟨hc₁, hhanded⟩ => ?_)
  refine after_bind (after_modify rfl rfl (after_pure ⟨hc₁.of_alike (e₁.alike_reserve r true), ?_⟩))
  intro s hs
  rw [(e₁.alike_reserve r true).residence] at hs
  obtain ⟨h, hh, -⟩ := hc₁.placed s r hs
  rw [hhanded.free] at hh
  exact nomatch hh

theorem forfeits_allocScratch {e : Engine} {bank : Bank} (ht : Tables e) :
    Leads (allocScratch bank) e fun _ e' =>
      e.Kin e' ∧ ∀ s ∈ e.givenUp bank, e'.residence s = .guest := by
  unfold allocScratch
  refine leads_bind ((forfeits_alloc ∅ ht).mono fun r e₁ h => ?_)
  refine leads_bind (leads_modify (leads_pure ?_))
  have halike := e₁.alike_reserve r true
  refine ⟨h.toKin.trans ⟨halike.host, halike.policy, halike.size, halike.isStatic⟩, fun s hs => ?_⟩
  rw [halike.residence]
  exact h.gone s hs id

namespace Session

variable {base : UInt64} {e₀ : Engine} {insts : List Inst} {w w' : Session} {q : Request}
  {r : HostReg} {y : Storage} {writes : List Slot}

/-- The session after the code has put new words into the register of a mapping. -/
def assigned (w : Session) (q : Request) (r : HostReg) (y : Storage) : Session where
  engine := w.engine
  storage := y
  last s := if q.first ≤ s ∧ s < q.first + q.width then y.lane w.engine.host r (s - q.first)
    else w.last s
  lost := w.lost \ q.slots
  due := none

/-- The session after a call that left host `x₂`, with the bound registers loaded again. -/
def called (w : Session) (writes : List Slot) (x₂ : Storage) (e : Engine) (x₃ : Storage) :
    Session where
  engine := e
  storage := x₃
  last := afterCall w.last writes x₂
  lost := {s | s ∈ w.lost ∧ s ∉ writes}
  due := none

/-- The sessions of a block of instructions some of which may be lowered as calls. -/
inductive Visited (base : UInt64) (e₀ : Engine) (insts : List Inst) : Session → Prop
  | start {x y : Storage} {e : Engine}
    (hran : Ran base reloadStatics (e₀.start insts) x () e y) :
    Visited base e₀ insts { engine := e, storage := y, last := x.guest, lost := ∅, due := none }
  | step {w w' : Session} (h : Visited base e₀ insts w) (hstep : w.Step base w') :
    Visited base e₀ insts w'
  /-- A register that has been mapped to be written is written again. -/
  | put {w : Session} {q : Request} {r : HostReg} {y : Storage} (h : Visited base e₀ insts w)
    (hdue : w.due = none) (hwritable : Writable w.engine r q.first q.width)
    (hput : OnlyReg r w.storage y) : Visited base e₀ insts (w.assigned q r y)
  /-- The actions have been laid down as code and are taken off the list. -/
  | handOver {w : Session} (h : Visited base e₀ insts w) :
    Visited base e₀ insts { w with engine := { w.engine with actions := #[] } }
  | lock {w : Session} (s : Slot) (h : Visited base e₀ insts w) (hdue : w.due = none) :
    Visited base e₀ insts { w with engine := w.engine.lock s }
  /-- A scratch register is handed out, and the code puts anything into it. -/
  | scratch {w : Session} (bank : Bank) {r : HostReg} {e : Engine} {y z : Storage}
    (h : Visited base e₀ insts w) (hdue : w.due = none)
    (hran : Ran base (allocScratch bank) w.engine w.storage r e y) (hput : OnlyReg r y z) :
    Visited base e₀ insts
      { w with engine := e, storage := z, lost := w.lost ∪ w.engine.givenUp bank }
  | flushReg {w : Session} (r : HostReg) {e : Engine} {y : Storage} (h : Visited base e₀ insts w)
    (hdue : w.due = none) (hran : Ran base (flushReg r) w.engine w.storage () e y) :
    Visited base e₀ insts { w with engine := e, storage := y }
  /-- A call. The actions before it may have been taken off the list. -/
  | call {w : Session} (writes : List Slot) {e₁ e₂ : Engine} {x₁ x₂ x₃ : Storage}
    {as : Array Action} (h : Visited base e₀ insts w) (hdue : w.due = none)
    (hflush : Ran base (flushBeforeCall writes) w.engine w.storage () e₁ x₁)
    (hcall : Called w.engine.host writes x₁ x₂)
    (hreload : Ran base (reloadAfterCall writes) { e₁ with actions := as } x₂ () e₂ x₃) :
    Visited base e₀ insts (w.called writes x₂ e₂ x₃)

/-! ## What a session keeps -/

theorem Sound.of_coherent (hdue : w.due = none)
    (hc : Coherent base w.last w.lost w.engine w.storage) : w.Sound base := by
  refine ⟨hc.lose Set.subset_union_left, fun q r hsome => ?_⟩
  rw [hdue] at hsome
  exact nomatch hsome

theorem Sound.settled (hw : w.Sound base) (hdue : w.due = none) :
    Coherent base w.last w.lost w.engine w.storage := by
  have hc := hw.coherent
  rw [unset_eq_empty hdue, Set.union_empty] at hc
  exact hc

theorem Sound.again (hw : w.Sound base) (hdue : w.due = none)
    (hwritable : Writable w.engine r q.first q.width) (hput : OnlyReg r w.storage y) :
    (w.assigned q r y).Sound base := by
  -- as if the mapping had been made just now
  have hmapped : ({ w with due := some (q, r) } : Session).Sound base := by
    refine ⟨(hw.settled hdue).lose Set.subset_union_left, fun q' r' hsome => ?_⟩
    cases hsome
    exact hwritable
  exact Sound.of_coherent rfl (hmapped.put rfl hput)

theorem Sound.call {e₁ e₂ : Engine} {x₁ x₂ x₃ : Storage} {as : Array Action}
    (hw : w.Sound base) (hdue : w.due = none) (hforce : w.engine.InForce)
    (hkeeps : w.engine.host.KeepsStatics)
    (hflush : Ran base (flushBeforeCall writes) w.engine w.storage () e₁ x₁)
    (hcall : Called w.engine.host writes x₁ x₂)
    (hreload : Ran base (reloadAfterCall writes) { e₁ with actions := as } x₂ () e₂ x₃) :
    (w.called writes x₂ e₂ x₃).Sound base :=
  Sound.of_coherent rfl (((hw.settled hdue).after_call _ hforce hkeeps hflush hcall).of_ran hreload)

/-- Which actions are still on the list does not matter. -/
theorem Sound.handOver (hw : w.Sound base) :
    ({ w with engine := { w.engine with actions := #[] } } : Session).Sound base :=
  ⟨hw.coherent.of_alike w.engine.alike_handOver, fun q r hdue =>
    ⟨(hw.writable q r hdue).1, (hw.writable q r hdue).2⟩⟩

theorem Sound.scratch {bank : Bank} {e : Engine} {z : Storage} (hw : w.Sound base)
    (hdue : w.due = none) (hran : Ran base (allocScratch bank) w.engine w.storage r e y)
    (hput : OnlyReg r y z) :
    ({ w with engine := e, storage := z, lost := w.lost ∪ w.engine.givenUp bank } :
      Session).Sound base := by
  obtain ⟨hc, hfree⟩ := (after_allocScratch bank (hw.settled hdue)).of_ran hran
  exact Sound.of_coherent hdue (hc.scribble hput fun s hs => absurd hs (hfree s))

/-- A step keeps what is fixed in a block. -/
theorem Step.kin (hw : w.Sound base) (hstep : w.Step base w') : w.engine.Kin w'.engine := by
  cases hstep with
  | beginInst i hdue =>
    have halike := w.engine.alike_beginInst i
    exact ⟨halike.host, halike.policy, halike.size, halike.isStatic⟩
  | map q hdue hran => exact (q.forfeits_run hw.coherent.toTables _ _ hran.1).toKin
  | put hdue hput => exact Engine.Kin.refl _
  | setKnown s v hdue hran => exact (spares_setKnown (Engine.Spares.refl _ _) _ _ hran.1).toKin
  | flushSlot s hdue hran => exact (spares_flushSlot (Engine.Spares.refl _ _) _ _ hran.1).toKin
  | flushAll hdue hran => exact (spares_flushAll (Engine.Spares.refl _ _) _ _ hran.1).toKin

/-- The bindings that a block starts with are in force. -/
theorem inForce_start (insts : List Inst) (hsane : e₀.host.Sane) : (e₀.start insts).InForce := by
  intro b hb
  have hbindings : (e₀.start insts).bindings = e₀.bindings := by
    unfold Engine.bindings
    rw [(e₀.start_fixed insts).1, (e₀.start_fixed insts).2.1]
  rw [hbindings] at hb
  rw [(fresh_start insts hsane).slot b hb]

/-- **Every session is sound**, and what is fixed in a block has not changed. -/
theorem Visited.sound (hsane : e₀.host.Sane) (hkeeps : e₀.host.KeepsStatics)
    (h : Visited base e₀ insts w) : w.Sound base ∧ (e₀.start insts).Kin w.engine := by
  have hhost : ∀ {w : Session}, (e₀.start insts).Kin w.engine → w.engine.host = e₀.host :=
    fun hkin => hkin.host.trans (e₀.start_fixed insts).1
  induction h with
  | start hran =>
    refine ⟨Sound.of_coherent rfl ((after_reloadStatics insts _ hsane).of_ran hran), ?_⟩
    exact (spares_reloadStatics (Engine.Spares.refl _ _) _ _ hran.1).toKin
  | step _ hstep ih => exact ⟨ih.1.step hstep, ih.2.trans (hstep.kin ih.1)⟩
  | put _ hdue hwritable hput ih => exact ⟨ih.1.again hdue hwritable hput, ih.2⟩
  | handOver _ ih => exact ⟨ih.1.handOver, ih.2.trans ⟨rfl, rfl, rfl, fun _ => rfl⟩⟩
  | @lock w s _ hdue ih =>
    have halike := w.engine.alike_lock s
    exact ⟨Sound.of_coherent hdue ((ih.1.settled hdue).of_alike halike),
      ih.2.trans ⟨halike.host, halike.policy, halike.size, halike.isStatic⟩⟩
  | scratch bank _ hdue hran hput ih =>
    exact ⟨ih.1.scratch hdue hran hput,
      ih.2.trans (forfeits_allocScratch ih.1.coherent.toTables _ _ hran.1).1⟩
  | flushReg r _ hdue hran ih =>
    exact ⟨Sound.of_coherent hdue ((after_flushReg (ih.1.settled hdue)).of_ran hran).1,
      ih.2.trans (spares_flushReg (Engine.Spares.refl Set.univ _) _ _ hran.1).toKin⟩
  | call writes _ hdue hflush hcall hreload ih =>
    have hforce := (inForce_start insts hsane).of_kin ih.2
    have hstored := (spares_flushBeforeCall (Engine.Spares.refl _ _) _ _ hflush.1).toKin
    have hloaded := (spares_reloadAfterCall (Engine.Spares.refl _ _) _ _ hreload.1).toKin
    exact ⟨ih.1.call hdue hforce (by rw [hhost ih.2]; exact hkeeps) hflush hcall hreload,
      (ih.2.trans hstored).trans ⟨hloaded.host, hloaded.policy, hloaded.size, hloaded.isStatic⟩⟩

/-- The bindings stay in force, and on the same host. -/
theorem Visited.inForce (hsane : e₀.host.Sane) (hkeeps : e₀.host.KeepsStatics)
    (h : Visited base e₀ insts w) : w.engine.InForce ∧ w.engine.host.KeepsStatics := by
  have hkin := (h.sound hsane hkeeps).2
  refine ⟨(inForce_start insts hsane).of_kin hkin, ?_⟩
  rw [hkin.host, (e₀.start_fixed insts).1]
  exact hkeeps

/-! ## Every slot has a place -/

/-- The session with other words, none of which is lost. -/
def withWords (w : Session) (words : Slot → Word) : Session := { w with last := words, lost := ∅ }

/-- There are words that the engine keeps for all slots. -/
def Definite (base : UInt64) (w : Session) : Prop := ∃ words, (w.withWords words).Sound base

/-- If the slots that are lost are in guest storage, then what is there is as good as a word. -/
theorem Sound.definite (hw : w.Sound base)
    (hlost : ∀ s ∈ w.lost, w.engine.residence s = .guest) : w.Definite base := by
  classical
  obtain ⟨hc, hwritable⟩ := hw
  refine ⟨fun s => if s ∈ w.lost then w.storage.guest s else w.last s, ⟨?_, hwritable⟩⟩
  show Coherent base (fun s => if s ∈ w.lost then w.storage.guest s else w.last s) (∅ ∪ w.unset)
    w.engine w.storage
  rw [Set.empty_union]
  -- a slot in a register is not lost
  have hin : ∀ {s r}, (w.engine.residence s).reg? = some r → s ∉ w.lost := by
    intro s r hs hl
    rw [hlost s hl] at hs
    exact nomatch hs
  refine ⟨hc.toTables, fun s r h hs hh hl => ?_, fun s r h hs hh hd hl => ?_, fun s hs hl => ?_,
    fun s v hv => ?_⟩
  · rw [if_neg (hin hs)]
    exact hc.value s r h hs hh fun h' => h'.elim (hin hs) hl
  · rw [if_neg (hin hs)]
    exact hc.clean s r h hs hh hd fun h' => h'.elim (hin hs) hl
  · split
    · rfl
    · rename_i hnot
      exact hc.stored s hs fun h' => h'.elim hnot hl
  · split
    · rename_i hl
      rw [hlost s hl] at hv
      exact nomatch hv
    · exact hc.known s v hv

theorem Definite.step (hw : w.Definite base) (hstep : w.Step base w') : w'.Definite base := by
  obtain ⟨words, hw⟩ := hw
  cases hstep with
  | beginInst i hdue =>
    exact (hw.step (Step.beginInst (w := w.withWords words) i hdue)).definite fun _ hs => hs.elim
  | map q hdue hran =>
    -- what is given up is in guest storage
    refine (hw.step (Step.map (w := w.withWords words) q hdue hran)).definite fun s hs => ?_
    have ht := hw.coherent.toTables
    obtain hs | hs := hs
    · exact hs.elim
    · exact (q.forfeits_run ht _ _ hran.1).gone s hs (q.not_mem_slots_of_givenUp ht hs)
  | put hdue hput =>
    exact (hw.step (Step.put (w := w.withWords words) hdue hput)).definite fun _ hs => hs.1.elim
  | setKnown s v hdue hran =>
    exact (hw.step (Step.setKnown (w := w.withWords words) s v hdue hran)).definite
      fun _ hs => hs.1.elim
  | flushSlot s hdue hran =>
    exact (hw.step (Step.flushSlot (w := w.withWords words) s hdue hran)).definite
      fun _ hs => hs.elim
  | flushAll hdue hran =>
    exact (hw.step (Step.flushAll (w := w.withWords words) hdue hran)).definite fun _ hs => hs.elim

/-- **Every slot has a place in every session.** -/
theorem Visited.definite (hsane : e₀.host.Sane) (hkeeps : e₀.host.KeepsStatics)
    (h : Visited base e₀ insts w) : w.Definite base := by
  induction h with
  | start hran =>
    exact ((Visited.start hran).sound hsane hkeeps).1.definite fun _ hs => hs.elim
  | step _ hstep ih => exact ih.step hstep
  | put _ hdue hwritable hput ih =>
    obtain ⟨words, hw⟩ := ih
    exact (hw.again hdue hwritable hput).definite fun _ hs => hs.1.elim
  | handOver _ ih =>
    obtain ⟨words, hw⟩ := ih
    exact ⟨words, hw.handOver⟩
  | lock s _ hdue ih =>
    obtain ⟨words, hw⟩ := ih
    exact ⟨words, Sound.of_coherent hdue ((hw.settled hdue).of_alike (Engine.alike_lock _ s))⟩
  | scratch bank _ hdue hran hput ih =>
    obtain ⟨words, hw⟩ := ih
    have hgone := (forfeits_allocScratch hw.coherent.toTables _ _ hran.1).2
    exact (hw.scratch hdue hran hput).definite fun s hs => hgone s (Or.resolve_left hs id)
  | flushReg r _ hdue hran ih =>
    obtain ⟨words, hw⟩ := ih
    exact ⟨words, Sound.of_coherent hdue ((after_flushReg (hw.settled hdue)).of_ran hran).1⟩
  | call writes h hdue hflush hcall hreload ih =>
    obtain ⟨words, hw⟩ := ih
    obtain ⟨hforce, hkept⟩ := h.inForce hsane hkeeps
    exact (hw.call hdue hforce hkept hflush hcall hreload).definite fun _ hs => hs.1.elim

/-! ## Calls -/

/-- **Guest storage at a call.** Everything is stored: a slot has the value in guest storage that
the engine had for it, and that is the last word given to it, unless its register has been evicted
as dead since. -/
theorem Visited.stored_at_call (hsane : e₀.host.Sane) (hkeeps : e₀.host.KeepsStatics)
    (h : Visited base e₀ insts w) (hdue : w.due = none) (writes : List Slot) :
    (∃ e₁ x₁, Ran base (flushBeforeCall writes) w.engine w.storage () e₁ x₁) ∧
      ∀ e₁ x₁, Ran base (flushBeforeCall writes) w.engine w.storage () e₁ x₁ →
        (∀ s, x₁.guest s = w.engine.current base w.storage s) ∧
          ∀ s, s ∉ w.lost → x₁.guest s = w.last s := by
  have hc := (h.sound hsane hkeeps).1.settled hdue
  obtain ⟨words, hw⟩ := h.definite hsane hkeeps
  have hplace : Coherent base words ∅ w.engine w.storage := hw.settled hdue
  refine ⟨?_, fun e₁ x₁ hflush => ⟨fun s => ?_, fun s hs => ?_⟩⟩
  · obtain ⟨_, e₁, x₁, hran⟩ :=
      (completes_flushBeforeCall writes hc.toTables).ran (after_flushBeforeCall hc)
    exact ⟨e₁, x₁, hran⟩
  · obtain ⟨hplace₁, hready⟩ := (after_flushBeforeCall hplace).of_ran hflush
    rw [hplace₁.guest_of_ready hready id, hplace.current_eq id]
  · obtain ⟨hc₁, hready⟩ := (after_flushBeforeCall hc).of_ran hflush
    exact hc₁.guest_of_ready hready hs

/-- The same session with nothing due: what is in the registers is what was put there. -/
theorem Visited.settle (h : Visited base e₀ insts w) : ∃ w' : Session, Visited base e₀ insts w' ∧
    w'.engine = w.engine ∧ w'.storage = w.storage ∧ w'.due = none := by
  cases hdue : w.due with
  | none => exact ⟨w, h, rfl, rfl, hdue⟩
  | some q => exact ⟨_, h.step (.put hdue (OnlyReg.refl _ _)), rfl, rfl, rfl⟩

/-- **Every slot keeps its value over a call, except that those the call writes get the new one.**
-/
theorem values_outlive_call (hhost : e₀.host = Aarch64.host ∨ e₀.host = Amd64.host)
    (h : Visited base e₀ insts w) (writes : List Slot) :
    (∃ e₁ x₁, Ran base (flushBeforeCall writes) w.engine w.storage () e₁ x₁) ∧
      ∀ e₁ x₁, Ran base (flushBeforeCall writes) w.engine w.storage () e₁ x₁ →
        ∀ x₂, Called w.engine.host writes x₁ x₂ →
          (∃ e₂ x₃, Ran base (reloadAfterCall writes) e₁ x₂ () e₂ x₃) ∧
            ∀ e₂ x₃, Ran base (reloadAfterCall writes) e₁ x₂ () e₂ x₃ →
              (∀ s ∉ writes, e₂.current base x₃ s = w.engine.current base w.storage s) ∧
                ∀ s ∈ writes, e₂.current base x₃ s = x₂.guest s := by
  obtain ⟨hsane, hkeeps⟩ := sane_of_host hhost
  obtain ⟨v, hv, hengine, hstorage, hdue⟩ := h.settle
  rw [← hengine, ← hstorage]
  obtain ⟨hforce, hkept⟩ := hv.inForce hsane hkeeps
  -- whatever the words are that the engine keeps now, it keeps them over the call
  obtain ⟨words, hw⟩ := hv.definite hsane hkeeps
  have hc : Coherent base words ∅ v.engine v.storage := hw.settled hdue
  refine ⟨?_, fun e₁ x₁ hflush x₂ hcall => ⟨?_, fun e₂ x₃ hreload => ?_⟩⟩
  · obtain ⟨_, e₁, x₁, hran⟩ :=
      (completes_flushBeforeCall writes hc.toTables).ran (after_flushBeforeCall hc)
    exact ⟨e₁, x₁, hran⟩
  · obtain ⟨_, e₂, x₃, hran⟩ := (completes_reloadAfterCall writes e₁).ran
      (hc.after_call e₁.actions hforce hkept hflush hcall)
    exact ⟨e₂, x₃, hran⟩
  · have hafter := (hc.after_call e₁.actions hforce hkept hflush hcall).of_ran hreload
    refine ⟨fun s hs => ?_, fun s hs => ?_⟩
    · rw [hafter.current_eq fun hl => hl.1, hc.current_eq id, afterCall_of_not_mem hs]
    · rw [hafter.current_eq fun hl => hl.1, afterCall_of_mem hs]

/-- With the bindings of the host in force as pointers, slot 20 gets the word 77, and a call writes
99 to slot 29, which is bound. -/
theorem values_outlive_call_bound : ∃ w : Session, ∃ e₁ x₁ e₂ x₃,
    Visited 4096 (Engine.new Aarch64.host { useStatics := true, pointerify := true }) [] w ∧
      Ran 4096 (flushBeforeCall [29]) w.engine w.storage () e₁ x₁ ∧
        Ran 4096 (reloadAfterCall [29]) e₁ { x₁ with guest := assign x₁.guest 29 99 } () e₂ x₃ ∧
          e₂.current 4096 x₃ 20 = 77 ∧ e₂.current 4096 x₃ 29 = 99 := by
  let e := (Engine.new Aarch64.host { useStatics := true, pointerify := true }).start []
  obtain ⟨y, hstart⟩ : ∃ y, Ran 4096 reloadStatics e ⟨fun _ => 0, fun _ _ => 0, fun _ => 0⟩ ()
      (e.after reloadStatics) y := exists_ran (by decide) (by decide)
  obtain ⟨z, hmap⟩ : ∃ z, Ran 4096 (mapInteger 20 .write) (e.after reloadStatics) y 25
      ((e.after reloadStatics).after (mapInteger 20 .write)) z :=
    exists_ran (by decide) (by decide)
  have hvisited := ((Visited.start hstart).step (.map (.integer 20 .write) rfl hmap)).step
    (.put rfl (z.onlyReg_setGpr 25 77))
  obtain ⟨⟨e₁, x₁, hflush⟩, hcalls⟩ := values_outlive_call (.inl rfl) hvisited [29]
  -- a call that only writes its slot
  have hcall : Called ((e.after reloadStatics).after (mapInteger 20 .write)).host [29] x₁
      { x₁ with guest := assign x₁.guest 29 99 } :=
    ⟨fun s hs => assign_of_ne (List.ne_of_not_mem_cons hs), fun _ _ _ => rfl, fun _ _ _ _ _ => rfl⟩
  obtain ⟨⟨e₂, x₃, hreload⟩, hvalues⟩ := hcalls e₁ x₁ hflush _ hcall
  obtain ⟨hkept, hwritten⟩ := hvalues e₂ x₃ hreload
  refine ⟨_, e₁, x₁, e₂, x₃, hvisited, hflush, hreload, (hkept 20 (by decide)).trans ?_,
    (hwritten 29 (by decide)).trans (assign_self x₁.guest 29 99)⟩
  have hres : ((e.after reloadStatics).after (mapInteger 20 .write)).residence 20 = .host 25 0 := by
    decide
  have hbank : ((e.after reloadStatics).after (mapInteger 20 .write)).host.bankOf 25 = .gpr := by
    decide
  unfold Engine.current
  rw [hres]
  simp only
  unfold Storage.lane
  rw [hbank]
  rfl

end Session

end Dynarec.Registers
