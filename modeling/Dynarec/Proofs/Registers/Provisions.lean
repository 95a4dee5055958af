/-
Engines that can go on, with or without bindings.

With bindings some registers are never emptied: they are stored where they are, and the memory base
is taken off before and put back after. None of this can fail, and what is asked for fits: a
register with a bound slot is an integer register (`Tables.has_of_isStatic`). So from an engine that
is ready and has asked for nothing that does not fit (`Engine.Equipped`), every store succeeds, and
every mapping of slots that exist does as long as its class has registers left
(`Equipped.yields_request`).
-/
import Dynarec.Proofs.Registers.Operands

set_option autoImplicit false

namespace Dynarec.Registers

variable {e e' : Engine} {r : HostReg} {s : Slot} {h : Holding}

/-! ## Bound registers -/

/-- A register whose first slot is bound is an integer register. -/
theorem Tables.has_of_isStatic (ht : Tables e) (hr : e.holding r = some h)
    (hstatic : (e.slotAt h.first).isStatic = true) : e.host.Has .gpr r := by
  refine ⟨ht.size ▸ e.lt_size_of_holding hr, ?_⟩
  cases hbank : e.host.bankOf r with
  | gpr => rfl
  | fpr =>
    -- float slots are not bound
    obtain ⟨hlo, hhi⟩ := (ht.suits r h hr).fpr hbank
    have hwidth : 0 < h.width := by
      obtain ⟨-, hw⟩ | ⟨-, hw⟩ := h.width_cases <;> omega
    have hfloat : Slot.isInteger h.first = false :=
      Slot.isInteger_eq_false.mpr ⟨hlo, Nat.lt_of_lt_of_le (Nat.lt_add_of_pos_right hwidth) hhi⟩
    rw [ht.isInteger_of_isStatic hstatic] at hfloat
    exact nomatch hfloat

/-- A bound slot lives in the register that holds it. -/
theorem Tables.reg_of_isStatic (ht : Tables e) (hr : e.holding r = some h)
    (hstatic : (e.slotAt h.first).isStatic = true) : (e.residence h.first).reg? = some r := by
  obtain ⟨hg, -⟩ := (ht.suits r h hr).gpr (ht.has_of_isStatic hr hstatic).bank
  obtain ⟨s, hs⟩ := ht.occupied r h hr
  rw [← ht.eq_first hs hr hg]
  exact hs

theorem asks_pointAgain (hg : e.Gives .gpr r) :
    Leads (pointAgain s r) e fun _ e' => e'.Gives .gpr r := by
  unfold pointAgain
  refine leads_get ?_
  split
  · exact leads_ask hg hg.has fun hg => leads_modify (hg.of_silent
      ((Engine.silent_setHolding _ r _).trans (Engine.silent_setResidence _ s _)))
  · exact leads_pure hg

theorem asks_flushStatic (hg : e.Gives .gpr r) (hs : s < Slot.count) :
    Leads (flushStatic s r) e fun _ e' => e'.Gives .gpr r := by
  have hsettle : ∀ d : Engine, d.Gives .gpr r → Leads (get >>= fun d =>
      if (d.holding r).any (·.pointer) = true then modify (·.setResidence s (.pointer r))
      else modify (·.setResidence s (.host r 0)) >>= fun _ => pointAgain s r) d
        fun _ e' => e'.Gives .gpr r := by
    intro d hd
    refine leads_get ?_
    split
    · exact leads_modify (hd.of_silent (d.silent_setResidence s _))
    · exact leads_bind (leads_modify (asks_pointAgain
        (hd.of_silent (d.silent_setResidence s _))))
  -- flags of the register do not change what fits
  have hflag : ∀ {d : Engine} (f : Holding → Holding), d.Gives .gpr r →
      (d.modifyHolding r f).Gives .gpr r := fun f hd => hd.of_silent (Engine.silent_setHolding _ r _)
  unfold flushStatic
  refine leads_get ?_
  simp only
  split
  · split
    · refine leads_ask hg hg.has fun hg => leads_bind (leads_modify ?_)
      refine leads_ask (hflag _ hg) ⟨hg.has.lt, hs⟩ fun hg => leads_bind (leads_modify ?_)
      exact hsettle _ (hflag _ hg)
    · refine leads_ask hg ⟨hg.has.lt, hs⟩ fun hg => leads_bind (leads_modify ?_)
      exact hsettle _ (hflag _ hg)
  · exact hsettle e hg

theorem asks_reloadStatic {b : Binding} (hg : e.Gives .gpr b.reg) (hs : b.slot < Slot.count) :
    Leads (reloadStatic b) e fun _ e' => e'.Gives .gpr b.reg := by
  unfold reloadStatic
  exact leads_ask hg ⟨hg.has.lt, hs⟩ fun hg => leads_bind (leads_modify (asks_pointAgain
    (hg.of_silent ((Engine.silent_setHolding _ _ _).trans (Engine.silent_setResidence _ _ _)))))

/-! ## Stores that succeed -/

/-- The tables agree, and all that has been asked for fits. -/
structure Engine.Steady (e : Engine) : Prop where
  tables : Tables e
  asks : e.Asks

namespace Engine.Steady

variable {α : Type} {op : EngineM α}

/-- What succeeds, keeps the tables and asks for what fits goes on. -/
theorem yields (hop : Completes op e) (ht : Leads op e fun _ e' => Tables e')
    (ha : Leads op e fun _ e' => e'.Asks) : Yields op e fun _ e' => e'.Steady :=
  (hop.yields (ht.and ha)).mono fun _ _ ⟨ht, ha⟩ => ⟨ht, ha⟩

theorem yields_flushKnown (h : e.Steady) (hs : s < Slot.count) :
    Yields (flushKnown s) e fun _ e' => e'.Steady :=
  yields (completes_flushKnown s e) h.tables.leads_flushKnown (leads_asks_flushKnown h.asks hs)

theorem yields_flushReg (h : e.Steady) (hr : r < e.hosts.size)
    (hstatic : ∀ s, (e.residence s).reg? = some r → (e.slotAt s).isStatic = false) :
    Yields (flushReg r) e fun _ e' => e'.Steady :=
  yields (completes_flushReg h.tables hr hstatic)
    ((after_flushReg (h.tables.coherent 0 .zeros)).leads fun _ _ _ h => h.1.toTables)
    (leads_asks_flushReg h.tables h.asks)

theorem yields_writeBack {g : Holding} (h : e.Steady) (hr : e.holding r = some g) :
    Yields (writeBack r) e fun _ e' => e'.Steady :=
  yields (completes_writeBack r e)
    ((after_writeBack (h.tables.coherent 0 .zeros) hr).leads fun _ _ _ h => h.1.toTables)
    (leads_asks_writeBack h.tables h.asks hr)

theorem yields_flushStatic {g : Holding} (h : e.Steady) (hr : e.holding r = some g)
    (hstatic : (e.slotAt g.first).isStatic = true) :
    Yields (flushStatic g.first r) e fun _ e' => e'.Steady := by
  have hreg := h.tables.reg_of_isStatic hr hstatic
  refine yields (completes_flushStatic _ _ e) ?_ ?_
  · exact (after_flushStatic (h.tables.coherent 0 .zeros)
      (h.tables.isInteger_of_isStatic hstatic) hreg).leads fun _ _ _ h => h.toTables
  · exact (asks_flushStatic ⟨h.asks, h.tables.has_of_isStatic hr hstatic⟩
      (Tables.lt_count hreg)).mono fun _ _ h => h.asks

/-- Bound registers are stored; any other has no bound slot. -/
theorem yields_forHoldings {other : HostReg → EngineM Unit} (h : e.Steady)
    (hother : ∀ r g d, d.Steady → d.holding r = some g →
      (∀ s, (d.residence s).reg? = some r → (d.slotAt s).isStatic = false) →
        Yields (other r) d fun _ e' => e'.Steady) :
    Yields (forHoldings other) e fun _ e' => e'.Steady := by
  unfold forHoldings
  refine yields_get (yields_forM _ (fun r _ d hd => yields_get ?_) h)
  split
  · exact yields_pure hd
  · rename_i g hr
    split
    · rename_i hstatic
      exact hd.yields_flushStatic hr hstatic
    · rename_i hfirst
      -- if any slot of the register were bound, it would be the first one
      refine hother r g d hd hr fun s hs => Bool.eq_false_iff.mpr fun hstatic => hfirst ?_
      exact hd.tables.isStatic_first hr hs hstatic

theorem yields_flushAll (h : e.Steady) : Yields flushAll e fun _ e' => e'.Steady := by
  unfold flushAll
  refine yields_bind ((yields_forM _ (fun s hs d hd => hd.yields_flushKnown (List.mem_range.mp hs))
    h).mono fun _ e₁ h₁ => ?_)
  exact h₁.yields_forHoldings fun r g d hd hr hfree =>
    hd.yields_flushReg (d.lt_size_of_holding hr) hfree

theorem yields_flushBeforeCall (h : e.Steady) (writes : List Slot) :
    Yields (flushBeforeCall writes) e fun _ e' => e'.Steady := by
  unfold flushBeforeCall
  refine yields_bind ((yields_forM _ (fun s hs d hd => hd.yields_flushKnown (List.mem_range.mp hs))
    h).mono fun _ e₁ h₁ => ?_)
  refine h₁.yields_forHoldings fun r g d hd hr hfree => yields_get ?_
  split
  · exact hd.yields_flushReg (d.lt_size_of_holding hr) hfree
  · exact hd.yields_writeBack hr

end Engine.Steady

/-! ## Engines that are equipped -/

/-- An engine that is ready and has asked for nothing that does not fit. -/
structure Engine.Equipped (host : Host) (policy : Policy) (slots : List Slot) (e : Engine) : Prop
    extends e.Ready host policy slots where
  asks : e.Asks

namespace Engine.Equipped

variable {host : Host} {policy : Policy} {slots : List Slot}

theorem steady (h : e.Equipped host policy slots) : e.Steady := ⟨h.tables, h.asks⟩

theorem beginInst (h : e.Equipped host policy slots) (k : Nat) :
    (e.beginInst k).Equipped host policy [] :=
  ⟨h.toOrderly.ready_beginInst k, h.asks⟩

/-- What was asked for has been laid down. -/
theorem handOver (h : e.Equipped host policy slots) :
    ({ e with actions := #[] } : Engine).Equipped host policy slots :=
  ⟨⟨h.toOrderly.of_alike e.alike_handOver fun _ hr => hr, h.pinned.slot, h.pinned.reg⟩,
    fun _ ha => absurd ha (Array.not_mem_empty _)⟩

/-- **A store that goes on leaves the engine equipped.** -/
theorem store (op : Operation) (h : e.Equipped host policy slots)
    (hop : op.SparesBindings host policy)
    (hlasting : ∀ {I : Engine → Prop}, Lasting I → I e → Secure op.run e fun _ e' => I e')
    (hyields : Yields op.run e fun _ e' => e'.Steady) :
    Yields op.run e fun _ e' => e'.Equipped host policy slots :=
  (hyields.and_leads (h.toReady.store hop hlasting).leads).mono
    fun _ _ ⟨hsteady, hready⟩ => ⟨hready, hsteady.asks⟩

theorem yields_flushAll (h : e.Equipped host policy slots) :
    Yields flushAll e fun _ e' => e'.Equipped host policy slots :=
  h.store .flushAll trivial (fun hI hi => hI.secure_flushAll hi) h.steady.yields_flushAll

theorem yields_flushBeforeCall (h : e.Equipped host policy slots) (writes : List Slot) :
    Yields (flushBeforeCall writes) e fun _ e' => e'.Equipped host policy slots :=
  h.store (.flushBeforeCall writes) trivial (fun hI hi => hI.secure_flushBeforeCall hi writes)
    (h.steady.yields_flushBeforeCall writes)

/-- A bound register is loaded. -/
theorem yields_reloadStatic (h : e.Equipped host policy slots) (huse : policy.useStatics = true)
    {b : Binding} (hb : b ∈ host.statics) :
    Yields (reloadStatic b) e fun _ e' => e'.Equipped host policy slots := by
  have hsane := h.tables.sane
  rw [h.host] at hsane
  obtain ⟨hint, hcount⟩ := hsane.integer b hb
  have hhas := h.tables.has_of_reg (h.toOrderly.reg huse hb)
  rw [hint] at hhas
  have hsecure := (lasting_pinned slots []).secure_reloadStatic h.pinned b
  refine (((completes_reloadStatic b e).yields (h.toOrderly.reloadStatic huse hb)).and_leads
    (hsecure.leads.and (asks_reloadStatic ⟨h.asks, hhas⟩ hcount))).mono
      fun _ _ ⟨horderly, hpinned, hgives⟩ => ⟨⟨horderly, hpinned⟩, hgives.asks⟩

theorem yields_reloadStatics (h : e.Equipped host policy slots) :
    Yields reloadStatics e fun _ e' => e'.Equipped host policy slots := by
  unfold reloadStatics
  refine yields_get ?_
  rw [h.policy, h.host]
  split
  · rename_i huse
    exact yields_forM _ (fun b hb d hd => hd.yields_reloadStatic huse hb) h
  · exact yields_pure h

theorem yields_reloadAfterCall (h : e.Equipped host policy slots) (writes : List Slot) :
    Yields (reloadAfterCall writes) e fun _ e' => e'.Equipped host policy slots := by
  unfold reloadAfterCall
  refine yields_get ?_
  rw [h.policy, h.host]
  split
  · rename_i huse
    refine yields_forM _ (fun b hb d hd => ?_) h
    split
    · exact hd.yields_reloadStatic huse hb
    · exact yields_pure hd
  · exact yields_pure h

theorem yields_knownValue (h : e.Equipped host policy slots) (hs : s < Slot.count) :
    Yields (knownValue s) e fun _ e' => e'.Equipped host policy slots := by
  unfold knownValue
  exact yields_requireSlot hs (yields_get (yields_pure h))

theorem yields_setKnown (h : e.Equipped host policy slots) (hs : s < Slot.count)
    (hint : Slot.isInteger s = true) (w : Word) :
    Yields (setKnown s w) e fun _ e' => e'.Equipped host policy slots := by
  refine h.store (.setKnown s w) trivial (fun hI hi => hI.secure_setKnown hi w) ?_
  have htables : Leads (setKnown s w) e fun _ e' => Tables e' :=
    (after_setKnown (h.tables.coherent 0 .zeros) w).leads fun _ _ _ h => h.toTables
  have hasks : Yields (setKnown s w) e fun _ e' => e'.Asks := by
    unfold setKnown
    simp only
    refine yields_require (by rw [hint]; decide) (yields_requireSlot hs (yields_get ?_))
    split
    · -- a bound register takes the value at once
      rename_i r hstatic hreg
      have hlt := (h.tables.has_of_reg hreg).lt
      exact yields_modify ((h.asks.asked (a := .setValue r w) hlt).of_silent
        ((Engine.silent_setHolding _ r _).trans (Engine.silent_setResidence _ s _)))
    · exact yields_modify (h.asks.of_silent
        ((e.silent_detach s).trans (Engine.silent_setResidence _ s _)))
  exact (hasks.and_leads htables).mono fun _ _ ⟨ha, ht⟩ => ⟨ht, ha⟩

/-- **A mapping that can be afforded succeeds**, and gives a register of its class. -/
theorem yields_request {q : Request} (h : e.Equipped host policy slots) (hq : q.Fits)
    (hroom : Request.Affordable host policy slots q.bankOf [q]) :
    Yields q.run e fun r e' => host.Has q.bankOf r ∧ e'.Equipped host policy (q.slotList ++ slots) := by
  have hgives := (hroom.completes hq h.toReady).yields (q.asks_run hq h.tables h.asks)
  refine (hgives.and_leads (q.leads_ready_run h.toReady)).mono fun r e' ⟨hg, hready⟩ => ⟨?_, ?_⟩
  · rw [← hready.host]
    exact hg.has
  · exact ⟨hready, hg.asks⟩

end Engine.Equipped

theorem Engine.actions_start (e : Engine) (insts : List Inst) :
    (e.start insts).actions = e.actions := by
  have hbind : ∀ (bs : List Binding) (d : Engine), (bs.foldl bindStatic d).actions = d.actions := by
    intro bs
    induction bs with
    | nil => exact fun _ => rfl
    | cons b bs ih => exact fun d => ih (d.bindStatic b)
  rw [Engine.start_eq]
  exact hbind _ _

theorem Engine.actions_new (host : Host) (policy : Policy) (insts : List Inst) :
    ((Engine.new host policy).start insts).actions = #[] := by
  rw [Engine.actions_start]
  -- a new engine is one that has been started without instructions
  exact Engine.actions_start ⟨host, policy, Vector.replicate 256 {}, Array.replicate host.count {},
    [], 0, 0, #[]⟩ []

/-- **A new engine is equipped when a block starts.** -/
theorem Engine.equipped_start {host : Host} (policy : Policy) (insts : List Inst)
    (hsane : host.Sane) : ((Engine.new host policy).start insts).Equipped host policy [] := by
  obtain ⟨e, hhost, hpolicy, hnew⟩ := Engine.exists_new host policy
  obtain ⟨hhost', hpolicy', -⟩ := e.start_fixed []
  refine ⟨?_, fun a ha => ?_⟩
  · have hstart := Engine.ready_start (e := e.start []) insts (by rw [hhost', hhost]; exact hsane)
    rw [hhost', hpolicy', hhost, hpolicy, ← hnew] at hstart
    exact hstart
  · rw [Engine.actions_new] at ha
    exact absurd ha (Array.not_mem_empty _)

end Dynarec.Registers
