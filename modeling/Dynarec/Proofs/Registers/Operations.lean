/-
The tables of the register engine after any sequence of operations.

`Operation` lists everything that a code generator can ask of the engine. Each operation keeps four
facts together (`Engine.Orderly`): the two tables agree, the bindings that the policy asks for are
in force, no register that is reserved holds anything, and the host and the policy are what they
were. So these hold after any sequence of operations (`Operation.orderly_runAll`), and with them,
from a new engine on, all that can be read off tables that agree (`Operation.tables_agree`).

Stores are made of a few small changes, none of which puts anything into a register that holds
nothing. A property that these changes keep is kept by every store (`Engine.Lasting`).
-/
import Dynarec.Proofs.Registers.CallSession
import Dynarec.Proofs.Registers.Places

set_option autoImplicit false
set_option maxRecDepth 8192

namespace Dynarec.Registers

/-! ## What stores keep -/

/-- The small changes that stores are made of keep the property. -/
structure Engine.Lasting (I : Engine → Prop) : Prop where
  asked : ∀ {e : Engine} (a : Action), I e → I (e.asked a)
  residence : ∀ {e : Engine} (s : Slot) (v : Residence), I e → I (e.setResidence s v)
  free : ∀ {e : Engine} (r : HostReg), I e → I (e.free r)
  flag : ∀ {e : Engine} (r : HostReg) (f : Holding → Holding), I e → I (e.modifyHolding r f)

namespace Engine.Lasting

variable {I : Engine → Prop} {e : Engine} {r : HostReg} {s : Slot}

theorem clearAll (hI : Lasting I) (h : I e) (slots : List (Slot × Nat)) : I (e.clearAll slots) := by
  unfold Engine.clearAll
  induction slots generalizing e with
  | nil => exact h
  | cons p slots ih => exact ih (hI.residence p.1 .guest h)

theorem detach (hI : Lasting I) (h : I e) (s : Slot) : I (e.detach s) := by
  unfold Engine.detach
  split
  · exact h
  · simp only
    split
    · exact hI.free _ (hI.residence s _ h)
    · exact hI.residence s _ h

theorem discard (hI : Lasting I) (h : I e) (r : HostReg) : I (e.discard r) := by
  unfold Engine.discard
  simp only
  split
  · exact hI.flag r _ h
  · exact hI.free r (hI.clearAll h _)

theorem discardSlot (hI : Lasting I) (h : I e) (s : Slot) : I (e.discardSlot s) := by
  unfold Engine.discardSlot
  split
  · exact h
  · split
    · split
      · exact hI.detach h s
      · exact hI.discard h _
    · exact hI.residence s _ h

theorem secure_storeLanes (hI : Lasting I) (h : I e) (slots : List (Slot × Nat)) :
    Secure (storeLanes r slots) e fun _ e' => I e' := by
  unfold storeLanes
  refine secure_get ?_
  cases e.host.bankOf r with
  | gpr =>
    simp only
    split
    · refine secure_bind (secure_emit ?_)
      split
      · exact secure_emit (hI.asked _ (hI.asked _ h))
      · exact secure_pure (hI.asked _ h)
    · split
      · exact secure_emit (hI.asked _ h)
      · exact secure_pure h
  | fpr =>
    simp only
    split
    · exact secure_pure h
    · split
      · exact secure_emit (hI.asked _ h)
      · split
        · exact secure_emit (hI.asked _ h)
        · exact secure_forM (fun _ _ hd => secure_emit (hI.asked _ hd)) _ h

theorem secure_flushReg (hI : Lasting I) (h : I e) : Secure (flushReg r) e fun _ e' => I e' := by
  unfold flushReg
  refine secure_requireReg (secure_get ?_)
  split
  · exact secure_modify (hI.free r h)
  · rename_i s lane rest _
    have hrelease : ∀ d : Engine, I d → Secure (modify fun d : Engine =>
        (d.clearAll ((s, lane) :: rest)).free r) d fun _ e' => I e' :=
      fun d hd => secure_modify (hI.free r (hI.clearAll hd _))
    simp only
    refine secure_require rfl fun _ => ?_
    split
    · exact secure_bind ((hI.secure_storeLanes h _).mono fun _ d hd => hrelease d hd)
    · exact hrelease e h

theorem secure_writeBack (hI : Lasting I) (h : I e) : Secure (writeBack r) e fun _ e' => I e' := by
  unfold writeBack
  refine secure_get ?_
  simp only
  split
  · refine secure_bind ((hI.secure_storeLanes h _).mono fun _ d hd => ?_)
    split
    · exact secure_bind (secure_emit (secure_modify (hI.flag r _ (hI.asked _ hd))))
    · exact secure_modify (hI.flag r _ hd)
  · exact secure_pure h

theorem secure_pointAgain (hI : Lasting I) (h : I e) :
    Secure (pointAgain s r) e fun _ e' => I e' := by
  unfold pointAgain
  refine secure_get ?_
  split
  · exact secure_bind (secure_emit (secure_modify (hI.residence s _ (hI.flag r _ (hI.asked _ h)))))
  · exact secure_pure h

theorem secure_flushStatic (hI : Lasting I) (h : I e) :
    Secure (flushStatic s r) e fun _ e' => I e' := by
  have hsettle : ∀ d : Engine, I d → Secure (get >>= fun d =>
      if (d.holding r).any (·.pointer) = true then modify (·.setResidence s (.pointer r))
      else modify (·.setResidence s (.host r 0)) >>= fun _ => pointAgain s r) d
        fun _ e' => I e' := by
    intro d hd
    refine secure_get ?_
    split
    · exact secure_modify (hI.residence s _ hd)
    · exact secure_bind (secure_modify (hI.secure_pointAgain (hI.residence s _ hd)))
  unfold flushStatic
  refine secure_get ?_
  simp only
  split
  · split
    · exact secure_bind (secure_emit (secure_bind (secure_modify (secure_bind (secure_emit
        (secure_bind (secure_modify (hsettle _ (hI.flag r _ (hI.asked _ (hI.flag r _
          (hI.asked _ h))))))))))))
    · exact secure_bind (secure_emit (secure_bind (secure_modify
        (hsettle _ (hI.flag r _ (hI.asked _ h))))))
  · exact hsettle e h

theorem secure_flushKnown (hI : Lasting I) (h : I e) : Secure (flushKnown s) e fun _ e' => I e' := by
  unfold flushKnown
  refine secure_get ?_
  simp only
  split
  · split
    · exact secure_bind (secure_emit (secure_modify (hI.residence s _ (hI.asked _ h))))
    · exact secure_pure h
  · exact secure_pure h

theorem secure_forHoldings (hI : Lasting I) {other : HostReg → EngineM Unit}
    (hother : ∀ r d, I d → Secure (other r) d fun _ e' => I e') (h : I e) :
    Secure (forHoldings other) e fun _ e' => I e' := by
  unfold forHoldings
  refine secure_get (secure_forM (fun r d hd => secure_get ?_) _ h)
  split
  · exact secure_pure hd
  · split
    · exact hI.secure_flushStatic hd
    · exact hother r d hd

theorem secure_flushAll (hI : Lasting I) (h : I e) : Secure flushAll e fun _ e' => I e' := by
  unfold flushAll
  refine secure_bind ((secure_forM (fun s d hd => hI.secure_flushKnown hd) _ h).mono fun _ d hd => ?_)
  exact hI.secure_forHoldings (fun r c hc => hI.secure_flushReg hc) hd

theorem secure_flushBeforeCall (hI : Lasting I) (h : I e) (writes : List Slot) :
    Secure (flushBeforeCall writes) e fun _ e' => I e' := by
  unfold flushBeforeCall
  refine secure_bind ((secure_forM (fun s d hd => hI.secure_flushKnown hd) _ h).mono fun _ d hd => ?_)
  refine hI.secure_forHoldings (fun r c hc => secure_get ?_) hd
  split
  · exact hI.secure_flushReg hc
  · exact hI.secure_writeBack hc

theorem secure_reloadStatic (hI : Lasting I) (h : I e) (b : Binding) :
    Secure (reloadStatic b) e fun _ e' => I e' := by
  unfold reloadStatic
  exact secure_bind (secure_emit (secure_bind (secure_modify (hI.secure_pointAgain
    (hI.residence _ _ (hI.flag _ _ (hI.asked _ h)))))))

theorem secure_reloadAfterCall (hI : Lasting I) (h : I e) (writes : List Slot) :
    Secure (reloadAfterCall writes) e fun _ e' => I e' := by
  unfold reloadAfterCall
  refine secure_get ?_
  split
  · refine secure_forM (fun b d hd => ?_) _ h
    split
    · exact hI.secure_reloadStatic hd b
    · exact secure_pure hd
  · exact secure_pure h

theorem secure_reloadStatics (hI : Lasting I) (h : I e) :
    Secure reloadStatics e fun _ e' => I e' := by
  unfold reloadStatics
  refine secure_get ?_
  split
  · exact secure_forM (fun b d hd => hI.secure_reloadStatic hd b) _ h
  · exact secure_pure h

theorem secure_flushSlot (hI : Lasting I) (h : I e) : Secure (flushSlot s) e fun _ e' => I e' := by
  unfold flushSlot
  refine secure_requireSlot fun _ => secure_get ?_
  simp only
  split
  · split
    · exact secure_bind (secure_emit (secure_modify (hI.residence s _ (hI.asked _ h))))
    · exact secure_pure h
    all_goals exact hI.secure_flushReg h
  · exact secure_pure h

theorem secure_setKnown (hI : Lasting I) (h : I e) (w : Word) :
    Secure (setKnown s w) e fun _ e' => I e' := by
  unfold setKnown
  simp only
  refine secure_require rfl fun _ => secure_requireSlot fun _ => secure_get ?_
  split
  · exact secure_bind (secure_emit (secure_modify (hI.residence s _ (hI.flag _ _ (hI.asked _ h)))))
  · exact secure_modify (hI.residence s _ (hI.detach h s))

end Engine.Lasting

/-- A register that holds nothing still does so after a store. -/
theorem Engine.lasting_empty (r : HostReg) : Engine.Lasting fun e => e.holding r = none where
  asked _ h := h
  residence _ _ h := h
  free q h := by
    rw [Engine.holding_free]
    split
    · rfl
    · exact h
  flag q f h := by
    rw [Engine.holding_modifyHolding]
    split
    · rename_i hq
      rw [← hq, h]
      rfl
    · exact h

/-- Locks and reservations stay as they are. -/
theorem Engine.lasting_pinned (slots : List Slot) (regs : List HostReg) :
    Engine.Lasting fun e => e.Pinned slots regs := by
  have hsame : ∀ {e e' : Engine}, e.Pinned slots regs → e.SameLocks e' → e'.Pinned slots regs :=
    fun h hs => ⟨fun t ht => h.slot t ((hs.locked t).symm.trans ht),
      fun q hq => h.reg q ((hs.reserved q).symm.trans hq)⟩
  exact
    { asked := fun _ h => ⟨h.slot, h.reg⟩
      residence := fun s v h => hsame h (sameLocks_setResidence _ s v)
      free := fun r h => hsame h (spares_setHolding _ r none).sameLocks
      flag := fun r _ h => hsame h (spares_setHolding _ r _).sameLocks }

/-! ## Engines in order -/

/-- The tables of an engine for a host and a policy agree, the bindings are in force, and no
reserved register holds anything. -/
structure Engine.Orderly (host : Host) (policy : Policy) (e : Engine) : Prop where
  host : e.host = host
  policy : e.policy = policy
  tables : Tables e
  inForce : e.InForce
  scratch : ∀ r, (e.hostAt r).reserved = true → e.holding r = none

namespace Engine.Orderly

variable {host : Host} {policy : Policy} {e e' : Engine} {S : Set Slot} {r : HostReg}

theorem of_kin (h : e.Orderly host policy) (hkin : e.Kin e') (ht : Tables e')
    (hscratch : ∀ r, (e'.hostAt r).reserved = true → e'.holding r = none) :
    e'.Orderly host policy :=
  ⟨hkin.host.trans h.host, hkin.policy.trans h.policy, ht, h.inForce.of_kin hkin, hscratch⟩

/-- What an operation does that puts nothing into an empty register. -/
theorem of_spares (h : e.Orderly host policy) (hs : e.Spares S e') (ht : Tables e')
    (hempty : ∀ r, e.holding r = none → e'.holding r = none) : e'.Orderly host policy := by
  refine h.of_kin hs.toKin ht fun r hr => hempty r (h.scratch r ?_)
  rw [← hs.reserved]
  exact hr

/-- What a mapping does. -/
theorem of_framed (h : e.Orderly host policy) (hf : e.Framed S e') (ht : Tables e') :
    e'.Orderly host policy := by
  refine h.of_kin hf.toKin ht fun r hr => ?_
  rw [hf.reserved] at hr
  refine Option.eq_none_iff_forall_ne_some.mpr fun g hg => ?_
  -- a reserved register was empty, and takes nothing up
  rw [hf.taken r g hg (h.scratch r hr)] at hr
  exact nomatch hr

/-- A store keeps an engine in order. -/
theorem store {op : EngineM Unit} (h : e.Orderly host policy)
    (htables : Leads op e fun _ e' => Tables e')
    (hspares : Leads op e fun _ e' => e.Spares Set.univ e')
    (hlasting : ∀ {I : Engine → Prop}, Lasting I → I e → Secure op e fun _ e' => I e') :
    Leads op e fun _ e' => e'.Orderly host policy := by
  intro u e' hrun
  refine h.of_spares (hspares u e' hrun) (htables u e' hrun) fun r hr => ?_
  exact (hlasting (lasting_empty r) hr).leads u e' hrun

/-- An engine in order goes on from tables that read the same. -/
theorem of_alike (h : e.Orderly host policy) (halike : e.Alike e')
    (hreserved : ∀ r, (e'.hostAt r).reserved = true → (e.hostAt r).reserved = true) :
    e'.Orderly host policy := by
  refine h.of_kin ⟨halike.host, halike.policy, halike.size, halike.isStatic⟩
    (h.tables.of_alike halike) fun r hr => ?_
  rw [halike.holding]
  exact h.scratch r (hreserved r hr)

theorem beginInst (h : e.Orderly host policy) (i : Nat) : (e.beginInst i).Orderly host policy :=
  h.of_alike (e.alike_beginInst i) fun r hr => nomatch (e.pinned_beginInst i).reg r hr

/-- A bound slot is in its register. -/
theorem reg (h : e.Orderly host policy) (huse : policy.useStatics = true) {b : Binding}
    (hb : b ∈ host.statics) : (e.residence b.slot).reg? = some b.reg := by
  rw [← h.policy] at huse
  rw [← h.host] at hb
  exact h.inForce.reg h.tables (Engine.mem_bindings.mpr ⟨huse, hb⟩)

/-- A register is handed out and serves as scratch. -/
theorem scratched (h : e.Orderly host policy) (bank : Bank) :
    Leads (allocScratch bank) e fun _ e' => e'.Orderly host policy := by
  unfold allocScratch
  refine leads_bind ((leads_handed h.tables).mono ?_)
  rintro r d ⟨hforfeits, htd, x, y, hh⟩
  have hd : d.Orderly host policy := h.of_framed (hh.framed hforfeits.toSpares (S := ∅)) htd
  have halike := d.alike_reserve r true
  refine leads_bind (leads_modify (leads_pure (hd.of_kin
    ⟨halike.host, halike.policy, halike.size, halike.isStatic⟩ (htd.of_alike halike) ?_)))
  intro q hq
  rw [halike.holding]
  by_cases hqr : q = r
  · rw [hqr]
    exact hh.free
  · unfold Engine.reserve at hq
    rw [Engine.hostAt_setHost, if_neg fun hin => hqr hin.1] at hq
    exact hd.scratch q hq

theorem tables_discard (h : e.Orderly host policy)
    (hstatic : ∀ s, (e.residence s).reg? = some r → (e.slotAt s).isStatic = false) :
    Tables (e.discard r) :=
  (after_discard (h.tables.coherent 0 .zeros) hstatic (Set.subset_univ _)
    fun _ _ => Set.mem_univ _).leads (fun _ _ _ h' => h'.1.toTables) () _ rfl

theorem discard (h : e.Orderly host policy)
    (hstatic : ∀ s, (e.residence s).reg? = some r → (e.slotAt s).isStatic = false) :
    (e.discard r).Orderly host policy :=
  h.of_spares (e.spares_discard r (S := ∅)) (h.tables_discard hstatic)
    fun q hq => (lasting_empty q).discard hq r

theorem discardSlot (h : e.Orderly host policy) (s : Slot) :
    (e.discardSlot s).Orderly host policy := by
  unfold Engine.discardSlot
  split
  · exact h
  · rename_i hfree
    rw [Bool.not_eq_true] at hfree
    have hone : ∀ t ∈ ({s} : Set Slot), (e.slotAt t).isStatic = false := by
      rintro _ rfl
      exact hfree
    cases hres : (e.residence s).reg? with
    | none =>
      exact h.of_spares (e.spares_clear s (S := ∅))
        (h.tables.vacate (vacated_clear_of_none h.tables hres) hone) fun _ hq => hq
    | some r =>
      simp only
      split
      · exact h.of_spares (e.spares_detach s (S := ∅))
          (h.tables.vacate (vacated_detach h.tables hres) hone)
          fun q hq => (lasting_empty q).detach hq s
      · refine h.discard fun t ht => Bool.eq_false_iff.mpr fun hstatic => ?_
        -- the register is not a group, so that no other slot lives in it
        rw [h.tables.eq_of_isStatic hres ht hstatic, hstatic] at hfree
        exact nomatch hfree

/-- A bound register is loaded. -/
theorem reloadStatic (h : e.Orderly host policy) (huse : policy.useStatics = true) {b : Binding}
    (hb : b ∈ host.statics) :
    Leads (reloadStatic b) e fun _ e' => e'.Orderly host policy := by
  refine h.store ?_ (spares_reloadStatic (Spares.refl _ e)) fun hI hi => hI.secure_reloadStatic hi b
  have hint : Slot.isInteger b.slot = true := by
    have hsane := h.tables.sane
    rw [h.host] at hsane
    exact (hsane.integer b hb).1
  refine (after_reloadStatic (h.tables.coherent 0 .zeros) hint (h.reg huse hb)
    (fun t ht => assign_of_ne ht) (assign_self ..)).leads fun _ _ _ h' => h'.1.toTables

end Engine.Orderly

/-- The tables at the start of a block are in order. -/
theorem Engine.orderly_start {e : Engine} (insts : List Inst) (hsane : e.host.Sane) :
    (e.start insts).Orderly e.host e.policy := by
  obtain ⟨hhost, hpolicy, -⟩ := e.start_fixed insts
  refine ⟨hhost, hpolicy, (coherent_start 0 insts .zeros hsane).toTables,
    Session.inForce_start insts hsane, fun r hr => ?_⟩
  rw [e.reserved_start] at hr
  exact nomatch hr

theorem Engine.orderly_new {host : Host} (policy : Policy) (hsane : host.Sane) :
    (Engine.new host policy).Orderly host policy := by
  obtain ⟨e, rfl, rfl, hnew⟩ := Engine.exists_new host policy
  rw [hnew]
  exact Engine.orderly_start [] hsane

/-! ## Operations -/

/-- What a code generator can ask of the engine. -/
inductive Operation where
  | start (insts : List Inst)
  | beginInst (index : Nat)
  | releaseLocks
  | lock (s : Slot)
  | map (q : Request)
  | setKnown (s : Slot) (w : Word)
  /-- Ask for a scratch register. -/
  | scratch (bank : Bank)
  | flushSlot (s : Slot)
  | flushReg (r : HostReg)
  | discardReg (r : HostReg)
  | forgetSlot (s : Slot)
  | flushAll
  | flushBeforeCall (writes : List Slot)
  | reloadAfterCall (writes : List Slot)
  | reloadStatics

namespace Operation

/-- Carry out an operation; the registers that it hands out do not matter here. -/
def run : Operation → EngineM Unit
  | start insts => modify (·.start insts)
  | beginInst index => modify (·.beginInst index)
  | releaseLocks => modify (·.releaseLocks)
  | lock s => lockSlot s
  | map q => q.run >>= fun _ => pure ()
  | setKnown s w => Registers.setKnown s w
  | scratch bank => allocScratch bank >>= fun _ => pure ()
  | flushSlot s => Registers.flushSlot s
  | flushReg r => Registers.flushReg r
  | discardReg r => Registers.discardReg r
  | forgetSlot s => Registers.forgetSlot s
  | flushAll => Registers.flushAll
  | flushBeforeCall writes => Registers.flushBeforeCall writes
  | reloadAfterCall writes => Registers.reloadAfterCall writes
  | reloadStatics => Registers.reloadStatics

/-- Carry out operations one after the other. -/
def runAll (ops : List Operation) : EngineM Unit := ops.forM run

/-- The operation does not ask to forget what a bound register holds. -/
def SparesBindings (host : Host) (policy : Policy) : Operation → Prop
  | discardReg r => policy.useStatics = true → ∀ b ∈ host.statics, b.reg ≠ r
  | _ => True

variable {host : Host} {policy : Policy} {e : Engine} {op : Operation}

/-- **Every operation keeps an engine in order.** -/
theorem orderly_run (hop : op.SparesBindings host policy) (h : e.Orderly host policy) :
    Leads op.run e fun _ e' => e'.Orderly host policy := by
  have hc := h.tables.coherent 0 .zeros
  cases op with
  | start insts =>
    refine leads_modify ?_
    rw [← h.host, ← h.policy]
    exact Engine.orderly_start insts h.tables.sane
  | beginInst index => exact leads_modify (h.beginInst index)
  | releaseLocks => exact leads_modify (h.beginInst e.index)
  | lock s =>
    exact leads_requireSlot (leads_modify (h.of_alike (e.alike_lock s) fun _ hr => hr))
  | map q =>
    exact leads_bind (((q.serves_run h.tables).and (q.leads_tables_run h.tables)).mono
      fun _ _ ⟨hserves, ht⟩ => leads_pure (h.of_framed hserves.framed ht))
  | setKnown s w =>
    exact h.store ((after_setKnown hc w).leads fun _ _ _ h' => h'.toTables)
      (spares_setKnown (.refl _ e)) fun hI hi => hI.secure_setKnown hi w
  | scratch bank => exact leads_bind ((h.scratched bank).mono fun _ _ h' => leads_pure h')
  | flushSlot s =>
    exact h.store ((after_flushSlot hc).leads fun _ _ _ h' => h'.toTables)
      (spares_flushSlot (.refl _ e)) fun hI hi => hI.secure_flushSlot hi
  | flushReg r =>
    exact h.store ((after_flushReg hc).leads fun _ _ _ h' => h'.1.toTables)
      (spares_flushReg (.refl _ e)) fun hI hi => hI.secure_flushReg hi
  | discardReg r =>
    refine leads_requireReg (leads_modify (h.discard fun s hs => ?_))
    refine Bool.eq_false_iff.mpr fun hstatic => ?_
    -- a bound slot is in its own register, which the operation spares
    obtain ⟨huse, b, hb, rfl, hreg⟩ := h.tables.bound s hstatic
    rw [h.policy] at huse
    rw [h.host] at hb
    exact hop huse b hb (Option.some.inj (hreg.symm.trans hs))
  | forgetSlot s => exact leads_requireSlot (leads_modify (h.discardSlot s))
  | flushAll =>
    exact h.store ((after_flushAll hc).leads fun _ _ _ h' => h'.toTables)
      (spares_flushAll (.refl _ e)) fun hI hi => hI.secure_flushAll hi
  | flushBeforeCall writes =>
    exact h.store ((after_flushBeforeCall hc).leads fun _ _ _ h' => h'.1.toTables)
      (spares_flushBeforeCall (.refl _ e)) fun hI hi => hI.secure_flushBeforeCall hi writes
  | reloadAfterCall writes =>
    refine leads_get ?_
    rw [h.policy, h.host]
    split
    · rename_i huse
      refine leads_forM_mem _ (fun b hb d hd => ?_) h
      split
      · exact hd.reloadStatic huse hb
      · exact leads_pure hd
    · exact leads_pure h
  | reloadStatics =>
    refine leads_get ?_
    rw [h.policy, h.host]
    split
    · rename_i huse
      exact leads_forM_mem _ (fun b hb d hd => hd.reloadStatic huse hb) h
    · exact leads_pure h

/-- **Any sequence of operations keeps an engine in order.** -/
theorem orderly_runAll {ops : List Operation} (hops : ∀ op ∈ ops, op.SparesBindings host policy)
    (h : e.Orderly host policy) : Leads (runAll ops) e fun _ e' => e'.Orderly host policy :=
  leads_forM_mem ops (fun op hop _ hd => orderly_run (hops op hop) hd) h

/-- **The tables of the engine agree after any operations**, in any order, on any host that it can
work with: no two slots share a lane, a slot is in a lane that its register uses and in a register
of its class, a bound slot keeps its register, and a register that serves as scratch holds
nothing. -/
theorem tables_agree (hsane : host.Sane) {ops : List Operation}
    (hops : ∀ op ∈ ops, op.SparesBindings host policy)
    (hrun : runAll ops (Engine.new host policy) = .ok ((), e)) :
    e.check = .ok ()
    ∧ (∀ s t r, (e.residence s).reg? = some r → (e.residence t).reg? = some r →
        (e.residence s).lane = (e.residence t).lane → s = t)
    ∧ (∀ s r, (e.residence s).reg? = some r →
        ∃ h, e.holding r = some h ∧ (e.residence s).lane < h.width)
    ∧ (∀ s r, (e.residence s).reg? = some r →
        host.bankOf r = if Slot.isInteger s then .gpr else .fpr)
    ∧ (policy.useStatics = true → ∀ b ∈ host.statics, (e.residence b.slot).reg? = some b.reg)
    ∧ ∀ r, (e.hostAt r).reserved = true →
        e.holding r = none ∧ ∀ s, (e.residence s).reg? ≠ some r := by
  have h := orderly_runAll hops (Engine.orderly_new policy hsane) () e hrun
  refine ⟨h.tables.check_eq, ?apart, ?lane, ?bank, fun huse b hb => h.reg huse hb, ?scratch⟩
  case apart =>
    intro s t r hs ht hlane
    obtain ⟨g, hg, hp⟩ := h.tables.placed s r hs
    rw [← hp.first, ← (h.tables.placed_of ht hg).first, hlane]
  case lane =>
    intro s r hs
    obtain ⟨g, hg, hp⟩ := h.tables.placed s r hs
    exact ⟨g, hg, hp.lane⟩
  case bank =>
    intro s r hs
    rw [← h.host]
    split
    · exact (h.tables.bankOf_eq hs).mpr ‹_›
    · exact h.tables.bankOf_float hs (Bool.eq_false_iff.mpr ‹_›)
  case scratch =>
    intro r hr
    refine ⟨h.scratch r hr, fun s hs => ?_⟩
    obtain ⟨g, hg, -⟩ := h.tables.placed s r hs
    rw [h.scratch r hr] at hg
    exact nomatch hg

/-- On the small host: a group is mapped and one of its slots moved out, a scratch register is
handed out, and the bound slot gets a known value and is loaded again. -/
theorem tables_agree_sketch :
    let ops := [.start [], .reloadStatics, .beginInst 0, .map (.group 36 .read),
      .map (.float 38 .readWrite), .map (.integer 5 .readWrite), .scratch .gpr, .setKnown 29 7,
      .flushSlot 5, .reloadAfterCall [29]]
    let policy : Policy := { useStatics := true, pointerify := true }
    sketch.Sane ∧ (∀ op ∈ ops, op.SparesBindings sketch policy) ∧
      ∃ e, runAll ops (Engine.new sketch policy) = .ok ((), e) ∧ e.check = .ok () ∧
        (e.residence 29).reg? = some 3 ∧ (e.hostAt 1).reserved = true ∧ e.holding 1 = none := by
  intro ops policy
  have hops : ∀ op ∈ ops, op.SparesBindings sketch policy := by
    simp [ops, SparesBindings]
  obtain ⟨e, hrun, hreserved⟩ : ∃ e, runAll ops (Engine.new sketch policy) = .ok ((), e) ∧
      (e.hostAt 1).reserved = true := by
    have hrun : ((runAll ops (Engine.new sketch policy)).toOption.map fun p =>
        (p.2.hostAt 1).reserved) = some true := by with_unfolding_all decide
    cases hres : runAll ops (Engine.new sketch policy) with
    | error g =>
      rw [hres] at hrun
      exact nomatch hrun
    | ok p =>
      rw [hres] at hrun
      exact ⟨p.2, rfl, Option.some.inj hrun⟩
  obtain ⟨hcheck, -, -, -, hbound, hscratch⟩ := tables_agree sketch_sane hops hrun
  exact ⟨sketch_sane, hops, e, hrun, hcheck, hbound rfl _ (List.mem_singleton_self _), hreserved,
    (hscratch 1 hreserved).1⟩

end Operation

end Dynarec.Registers
