/-
Registers do not run out.

A request for a register fails only if every register of the class is pinned: it is reserved, or a
slot that lives in it is locked or bound. A locked slot lives in one register at most, and bound
registers are not handed out, so there are no more pinned registers than locked slots and reserved
registers together. As long as an order is longer than that, a register is free or can be evicted
(`Tables.exists_available`), and every mapping succeeds.

The other thing that could go wrong is an action that the host cannot spell. `Action.Fits` says that
the registers of an action exist and are of the class that the action is about, that its slots
exist and that lanes are below four. Everything that the engine asks for fits (`Engine.Asks`).
-/
import Mathlib.Data.List.Perm.Subperm
import Dynarec.Proofs.Registers.Calls

set_option autoImplicit false

namespace Dynarec.Registers

variable {e e' : Engine} {bank : Bank} {r : HostReg} {s : Slot} {slots : List Slot}
  {regs : List HostReg} {mode : Mode}

/-! ## Pinned registers -/

/-- Only the given slots are locked and only the given registers are reserved. -/
structure Engine.Pinned (e : Engine) (slots : List Slot) (regs : List HostReg) : Prop where
  slot : ∀ s, (e.slotAt s).locked = true → s ∈ slots
  reg : ∀ r, (e.hostAt r).reserved = true → r ∈ regs

theorem Engine.Pinned.reserve (h : e.Pinned slots regs) (r : HostReg) (b : Bool) :
    (e.reserve r b).Pinned slots (r :: regs) := by
  refine ⟨h.slot, fun q hq => ?_⟩
  unfold Engine.reserve at hq
  rw [Engine.hostAt_setHost] at hq
  split at hq
  · rename_i hqr
    rw [hqr.1]
    exact List.mem_cons_self
  · exact List.mem_cons_of_mem r (h.reg q hq)

/-- Slots that are spared are not locked on the way. -/
theorem Engine.Pinned.of_spares (h : e.Pinned slots regs) (more : List Slot)
    (hs : e.Spares {t | t ∈ more} e') : e'.Pinned (more ++ slots) regs := by
  refine ⟨fun t ht => ?_, fun q hq => h.reg q (by rwa [hs.reserved] at hq)⟩
  by_cases hmore : t ∈ more
  · exact List.mem_append_left _ hmore
  · rw [hs.locked t hmore] at ht
    exact List.mem_append_right _ (h.slot t ht)

/-- The order has no register twice and is longer than what can be pinned. -/
structure Engine.Roomy (e : Engine) (bank : Bank) (slots : List Slot) (regs : List HostReg) :
    Prop extends e.Pinned slots regs where
  nodup : (e.host.order bank e.policy.useStatics).Nodup
  room : slots.length + regs.length < (e.host.order bank e.policy.useStatics).length

/-- A register of an order that may not be evicted although it holds something and is not reserved
is the home of a locked slot. -/
theorem Tables.locked_of_not_evictable (ht : Tables e)
    (hr : r ∈ e.host.order bank e.policy.useStatics) (hheld : (e.holding r).isSome = true)
    (hfree : (e.hostAt r).reserved = false) (hev : e.isEvictable r = false) :
    ∃ s, (e.residence s).reg? = some r ∧ (e.slotAt s).locked = true := by
  unfold Engine.isEvictable at hev
  unfold Engine.holding at hheld
  simp only [hheld, hfree, Bool.not_false, Bool.true_and, Bool.not_eq_false', List.any_eq_true,
    Bool.or_eq_true] at hev
  obtain ⟨⟨s, k⟩, hmem, hpinned⟩ := hev
  obtain ⟨hs, -⟩ := (ht.mem_residents k).mp hmem
  refine ⟨s, hs, hpinned.resolve_right fun hstatic => ?_⟩
  -- a bound register is not in the order
  obtain ⟨huse, b, hb, rfl, hreg⟩ := ht.bound s hstatic
  rw [hs] at hreg
  cases hreg
  rw [huse] at hr
  exact ht.sane.apart b hb bank hr

/-- **A register is free or can be evicted.** -/
theorem Tables.exists_available (ht : Tables e) (hroom : e.Roomy bank slots regs) :
    (∃ r, e.findFree bank = some r) ∨ ∃ v, e.victim bank = some v := by
  by_contra hnone
  obtain ⟨hfree, hvictim⟩ := not_or.mp hnone
  replace hfree : e.findFree bank = none := Option.eq_none_iff_forall_ne_some.mpr fun r hr =>
    hfree ⟨r, hr⟩
  replace hvictim : e.victim bank = none := Option.eq_none_iff_forall_ne_some.mpr fun v hv =>
    hvictim ⟨v, hv⟩
  have hev : ∀ r ∈ e.host.order bank e.policy.useStatics, e.isEvictable r = false := by
    intro r hr
    unfold Engine.victim at hvictim
    simp only at hvictim
    split at hvictim
    · exact nomatch hvictim
    · have heviction := List.findSome?_eq_none_iff.mp hvictim r hr
      unfold Engine.evictionOf at heviction
      by_contra htrue
      simp only [Bool.not_false, Bool.true_or, if_true] at heviction
      split at heviction
      · rename_i hfalse
        rw [Bool.not_eq_eq_eq_not, Bool.not_true] at hfalse
        exact htrue hfalse
      · split at heviction <;> exact nomatch heviction
  -- so every register of the order is reserved or the home of a locked slot
  have hsub : e.host.order bank e.policy.useStatics
      ⊆ regs ++ slots.filterMap fun s => (e.residence s).reg? := by
    intro r hr
    by_cases hres : (e.hostAt r).reserved = true
    · exact List.mem_append_left _ (hroom.reg r hres)
    · replace hres := Bool.eq_false_iff.mpr hres
      have hheld : (e.holding r).isSome = true := by
        by_contra hempty
        have hfound := List.find?_eq_none.mp hfree r hr
        rw [Bool.not_eq_true, Option.isSome_eq_false_iff] at hempty
        exact hfound (Bool.and_eq_true_iff.mpr ⟨hempty, by rw [hres]; rfl⟩)
      obtain ⟨s, hs, hlocked⟩ := ht.locked_of_not_evictable hr hheld hres (hev r hr)
      exact List.mem_append_right _ (List.mem_filterMap.mpr ⟨s, hroom.slot s hlocked, hs⟩)
  have hle := (List.subperm_of_subset hroom.nodup hsub).length_le
  have hmap := List.length_filterMap_le (fun s => (e.residence s).reg?) slots
  have hlt := hroom.room
  rw [List.length_append] at hle
  omega

/-! ## Actions that a host can spell -/

/-- The register exists and is of the class. -/
structure Host.Has (host : Host) (bank : Bank) (r : HostReg) : Prop where
  lt : r < host.count
  bank : host.bankOf r = bank

/-- The source of a lane exists. -/
def LaneSource.Fits (host : Host) : LaneSource → Prop
  | .keep | .value _ => True
  | .lane r k => host.Has .fpr r ∧ k < 4
  | .guest s => s < Slot.count

/-- The registers and slots of an action exist. -/
def Action.Fits (host : Host) : Action → Prop
  | .load r s _ | .store r s _ _ => r < host.count ∧ s < Slot.count
  | .setValue r _ => r < host.count
  | .storeValue s _ => s < Slot.count
  | .addBase r | .removeBase r => host.Has .gpr r
  | .move d s => d < host.count ∧ s < host.count
  | .extract d s _ => host.Has .fpr d ∧ host.Has .fpr s
  | .compose d sources => host.Has .fpr d ∧ ∀ source ∈ sources.toList, source.Fits host

/-- All that has been asked for fits. -/
def Engine.Asks (e : Engine) : Prop := ∀ a ∈ e.actions, a.Fits e.host

theorem Engine.Asks.asked {a : Action} (h : e.Asks) (ha : a.Fits e.host) : (e.asked a).Asks := by
  intro b hb
  rcases Array.mem_push.mp hb with hb | rfl
  · exact h b hb
  · exact ha

theorem Engine.Asks.of_silent (h : e.Asks) (hs : e.Silent e') : e'.Asks := by
  intro a ha
  rw [hs.actions] at ha
  rw [hs.host]
  exact h a ha

theorem Tables.has_of_reg (ht : Tables e) (hs : (e.residence s).reg? = some r) :
    e.host.Has (if Slot.isInteger s then .gpr else .fpr) r := by
  obtain ⟨h, hr, -⟩ := ht.placed s r hs
  refine ⟨ht.size ▸ e.lt_size_of_holding hr, ?_⟩
  cases hint : Slot.isInteger s with
  | true => exact (ht.bankOf_eq hs).mpr hint
  | false => exact ht.bankOf_float hs hint

/-! ## Emptying a register -/

theorem leads_asks_storeEach {lanes : List (Slot × Nat)} (ha : e.Asks) (hr : r < e.host.count)
    (hslots : ∀ p ∈ lanes, p.1 < Slot.count) :
    Leads (lanes.forM fun p => emit (.store r p.1 p.2 1)) e fun _ e' => e'.Asks := by
  induction lanes generalizing e with
  | nil => exact leads_pure ha
  | cons p lanes ih =>
    refine leads_bind (leads_emit ?_)
    exact ih (ha.asked ⟨hr, hslots p List.mem_cons_self⟩) hr
      fun q hq => hslots q (List.mem_cons_of_mem p hq)

theorem leads_asks_storeLanes {lanes : List (Slot × Nat)} (ha : e.Asks) (hr : r < e.host.count)
    (hslots : ∀ p ∈ lanes, p.1 < Slot.count) :
    Leads (storeLanes r lanes) e fun _ e' => e'.Asks := by
  unfold storeLanes
  refine leads_get ?_
  cases hbank : e.host.bankOf r with
  | gpr =>
    simp only
    split
    · have hbase := ha.asked (a := .removeBase r) ⟨hr, hbank⟩
      refine leads_bind (leads_emit ?_)
      split
      · exact leads_emit (hbase.asked ⟨hr, hslots _ List.mem_cons_self⟩)
      · exact leads_pure hbase
    · split
      · exact leads_emit (ha.asked ⟨hr, hslots _ List.mem_cons_self⟩)
      · exact leads_pure ha
  | fpr =>
    simp only
    split
    · exact leads_pure ha
    · split
      · exact leads_emit (ha.asked ⟨hr, hslots _ List.mem_cons_self⟩)
      · split
        · exact leads_emit (ha.asked ⟨hr, hslots _ List.mem_cons_self⟩)
        · exact leads_asks_storeEach ha hr hslots

theorem leads_asks_flushReg (ht : Tables e) (ha : e.Asks) :
    Leads (flushReg r) e fun _ e' => e'.Asks := by
  unfold flushReg
  refine leads_bind (leads_get ?_)
  split
  · rename_i hr
    refine leads_pure (leads_get ?_)
    cases hlist : e.residents r with
    | nil => exact leads_modify (ha.of_silent (e.silent_setHolding r none))
    | cons p rest =>
      have hslots : ∀ q ∈ p :: rest, q.1 < Slot.count := fun q hq =>
        Tables.lt_count ((ht.mem_residents q.2).mp (hlist ▸ hq)).1
      have hrelease : ∀ d : Engine, d.Asks → Leads (modify fun d : Engine =>
          (d.clearAll (p :: rest)).free r) d fun _ e' => e'.Asks := fun d hd =>
        leads_modify (hd.of_silent ((d.silent_clearAll _).trans (Engine.silent_setHolding _ r none)))
      simp only
      refine leads_require fun _ => ?_
      split
      · exact leads_bind ((leads_asks_storeLanes ha (ht.size ▸ hr) hslots).mono
          fun _ d hd => hrelease d hd)
      · exact hrelease e ha
  · exact fun _ _ h => nomatch h

/-! ## Handing out -/

theorem Engine.silent_discard (e : Engine) (r : HostReg) : e.Silent (e.discard r) := by
  unfold Engine.discard
  simp only
  split
  · exact e.silent_setHolding r _
  · exact (e.silent_clearAll _).trans (Engine.silent_setHolding _ r none)

/-- Register `r` exists and is of the class, and all that has been asked for fits. -/
structure Engine.Gives (e : Engine) (bank : Bank) (r : HostReg) : Prop where
  asks : e.Asks
  has : e.host.Has bank r

theorem Engine.Gives.of_silent (h : e.Gives bank r) (hs : e.Silent e') : e'.Gives bank r :=
  ⟨h.asks.of_silent hs, by rw [hs.host]; exact h.has⟩

theorem Engine.Gives.asked {a : Action} (h : e.Gives bank r) (ha : a.Fits e.host) :
    (e.asked a).Gives bank r :=
  ⟨h.asks.asked ha, h.has⟩

theorem leads_ask {β : Type} {a : Action} {f : Unit → EngineM β} {R : β → Engine → Prop}
    (hg : e.Gives bank r) (ha : a.Fits e.host)
    (h : (e.asked a).Gives bank r → Leads (f ()) (e.asked a) R) : Leads (emit a >>= f) e R :=
  leads_bind (leads_emit (h (hg.asked ha)))

/-- **A register can be handed out.** -/
theorem completes_alloc (ht : Tables e) (hroom : e.Roomy bank slots regs) :
    Completes (alloc bank) e := by
  unfold alloc
  refine completes_get ?_
  cases hfree : e.findFree bank with
  | some r => exact completes_pure r e
  | none =>
    obtain ⟨r, hr⟩ | ⟨⟨r, dead⟩, hvictim⟩ := ht.exists_available hroom
    · exact nomatch hfree.symm.trans hr
    · obtain ⟨hmem, hev⟩ := e.victim_spec hvictim
      have hres := (ht.of_isEvictable hev).2
      simp only [hvictim]
      -- the count of evictions is no part of what the tables say
      have ht' : Tables { e with spills := e.spills + 1 } :=
        ht.of_alike ⟨rfl, rfl, rfl, fun _ => rfl, fun _ => rfl, fun _ => rfl⟩
      refine completes_set ?_
      cases dead with
      | true => exact completes_modify_bind (completes_pure r _)
      | false =>
        have hlt : r < e.hosts.size := by
          rw [ht.size]
          exact (ht.sane.order bank _ r hmem).1
        exact completes_bind (completes_flushReg ht' hlt fun s hs => (hres s hs).2)
          fun _ d _ => completes_pure r d

theorem asks_alloc (ht : Tables e) (ha : e.Asks) :
    Leads (alloc bank) e fun r e' => e'.Gives bank r ∧ Tables e' := by
  have hlisted : ∀ r ∈ e.host.order bank e.policy.useStatics, e.host.Has bank r := fun r hr =>
    ⟨(ht.sane.order bank _ r hr).1, (ht.sane.order bank _ r hr).2⟩
  have hasks : Leads (alloc bank) e fun r e' => e'.Asks ∧ e.host.Has bank r := by
    unfold alloc
    refine leads_get ?_
    cases hfree : e.findFree bank with
    | some r => exact leads_pure ⟨ha, hlisted r (List.mem_of_find?_eq_some hfree)⟩
    | none =>
      cases hvictim : e.victim bank with
      | none => exact leads_violate
      | some v =>
        obtain ⟨r, dead⟩ := v
        obtain ⟨hmem, -⟩ := e.victim_spec hvictim
        have ht' : Tables { e with spills := e.spills + 1 } :=
          ht.of_alike ⟨rfl, rfl, rfl, fun _ => rfl, fun _ => rfl, fun _ => rfl⟩
        refine leads_set ?_
        cases dead with
        | true =>
          refine leads_bind (leads_modify (leads_pure ⟨?_, hlisted r hmem⟩))
          exact Engine.Asks.of_silent (e := { e with spills := e.spills + 1 }) ha
            (Engine.silent_discard _ r)
        | false =>
          exact leads_bind ((leads_asks_flushReg ht' ha).mono
            fun _ e' he' => leads_pure ⟨he', hlisted r hmem⟩)
  have hkin : Leads (alloc bank) e fun _ e' => e.Forfeits ∅ (e.givenUp bank) e' :=
    forfeits_alloc ∅ ht
  have htables : Leads (alloc bank) e fun _ e' => Tables e' :=
    (after_alloc bank (ht.coherent 0 .zeros)).leads fun _ _ _ h => h.1.toTables
  refine ((hasks.and hkin).and htables).mono fun r e' ⟨⟨⟨hasked, hr⟩, hk⟩, ht'⟩ => ?_
  exact ⟨⟨hasked, by rw [hk.host]; exact hr⟩, ht'⟩

/-! ## Integer slots -/

/-- A register that has been handed out takes up an integer slot. -/
theorem asks_takeUp {a : Action} {dirty : Bool} {v : Residence} (hg : e.Gives .gpr r)
    (ha : a.Fits e.host) :
    Leads (if mode.reads = true then
        emit a >>= fun _ => modify (·.bindInteger s r dirty v) >>= fun _ => pure r
      else modify (·.bindInteger s r false (.host r 0)) >>= fun _ => pure r) e
      fun r' e' => e'.Gives .gpr r' := by
  have hbind : ∀ (d : Engine) b v, d.Silent (d.bindInteger s r b v) :=
    fun d b v => (d.silent_setHolding r _).trans (Engine.silent_setResidence _ s v)
  split
  · exact leads_ask hg ha fun hg => leads_bind (leads_modify (leads_pure
      (hg.of_silent (hbind _ _ _))))
  · exact leads_bind (leads_modify (leads_pure (hg.of_silent (hbind _ _ _))))

theorem asks_bringIn (ht : Tables e) (ha : e.Asks) (hs : s < Slot.count)
    (hint : Slot.isInteger s = true) :
    Leads (bringIn s mode) e fun r e' => e'.Gives .gpr r := by
  have hthere : ∀ {q}, (e.residence s).reg? = some q → e.Gives .gpr q := by
    intro q hq
    have hhas := ht.has_of_reg hq
    rw [hint] at hhas
    exact ⟨ha, hhas⟩
  have hset : ∀ (d : Engine) q f v, d.Silent ((d.modifyHolding q f).setResidence s v) :=
    fun d q f v => (d.silent_setHolding q _).trans (Engine.silent_setResidence _ s v)
  unfold bringIn
  refine leads_get ?_
  cases hres : e.residence s with
  | host r k => exact leads_pure (hthere (by rw [hres]; rfl))
  | hostValue r w => exact leads_pure (hthere (by rw [hres]; rfl))
  | pointer r =>
    have hg : e.Gives .gpr r := hthere (by rw [hres]; rfl)
    simp only
    split
    · exact leads_ask hg hg.has fun hg => leads_bind (leads_modify (leads_pure
        (hg.of_silent (hset _ _ _ _))))
    · exact leads_bind (leads_modify (leads_pure (hg.of_silent (hset _ _ _ _))))
  | value w =>
    exact leads_bind ((asks_alloc ht ha).mono fun r e₁ h₁ =>
      asks_takeUp h₁.1 h₁.1.has.lt)
  | guest =>
    exact leads_bind ((asks_alloc ht ha).mono fun r e₁ h₁ =>
      asks_takeUp h₁.1 ⟨h₁.1.has.lt, hs⟩)

theorem completes_bringIn (ht : Tables e) (hroom : e.Roomy .gpr slots regs) :
    Completes (bringIn s mode) e := by
  -- whether the word is loaded or not, the register is given back
  have htake : ∀ {a : Action} {f g : Engine → Engine} {r : HostReg} (d : Engine),
      Completes (if mode.reads = true then emit a >>= fun _ => modify f >>= fun _ => pure r
        else modify g >>= fun _ => pure r) d := by
    intro a f g r d
    split
    · exact completes_emit_bind (completes_modify_bind (completes_pure r _))
    · exact completes_modify_bind (completes_pure r _)
  unfold bringIn
  refine completes_get ?_
  cases e.residence s with
  | host r k => exact completes_pure r e
  | hostValue r w => exact completes_pure r e
  | pointer r => exact htake e
  | value w => exact completes_bind (completes_alloc ht hroom) fun r d _ => htake d
  | guest => exact completes_bind (completes_alloc ht hroom) fun r d _ => htake d

/-- **An integer slot can be mapped.** -/
theorem completes_mapInteger (ht : Tables e) (hs : s < Slot.count)
    (hint : Slot.isInteger s = true) (hroom : (e.lock s).Roomy .gpr slots regs) :
    Completes (mapInteger s mode) e := by
  unfold mapInteger
  simp only
  refine completes_require (by rw [hint]; decide) (completes_lockSlot hs ?_)
  refine completes_bind (completes_bringIn (ht.of_alike (e.alike_lock s)) hroom) fun r d _ => ?_
  split
  · exact completes_modify_bind (completes_pure r _)
  · exact completes_pure r d

theorem completes_mapPointer (ht : Tables e) (hs : s < Slot.count)
    (hint : Slot.isInteger s = true) (hroom : (e.lock s).Roomy .gpr slots regs) :
    Completes (mapPointer s) e := by
  have hpoint : Completes (mapInteger s .read >>= fun r => emit (.addBase r) >>= fun _ =>
      modify (fun e => (e.modifyHolding r fun h =>
        { h with pointer := true, normalized := false }).setResidence s (.pointer r)) >>= fun _ =>
      pure r) e :=
    completes_bind (completes_mapInteger ht hs hint hroom) fun r _ _ =>
      completes_emit_bind (completes_modify_bind (completes_pure r _))
  unfold mapPointer
  refine completes_requireSlot hs (completes_get ?_)
  cases e.residence s with
  | pointer r => exact completes_modify_bind (completes_pure r _)
  | guest => exact hpoint
  | value w => exact hpoint
  | host r k => exact hpoint
  | hostValue r w => exact hpoint

theorem asks_mapInteger (ht : Tables e) (ha : e.Asks) (hs : s < Slot.count)
    (hint : Slot.isInteger s = true) :
    Leads (mapInteger s mode) e fun r e' => e'.Gives .gpr r := by
  unfold mapInteger
  simp only
  refine leads_require fun _ => leads_bind (leads_requireSlot (leads_modify ?_))
  refine leads_bind ((asks_bringIn (ht.of_alike (e.alike_lock s))
    (ha.of_silent (e.silent_lock s)) hs hint).mono fun r e₁ hg => ?_)
  split
  · exact leads_bind (leads_modify (leads_pure (hg.of_silent
      ((e₁.silent_setHolding r _).trans (Engine.silent_setResidence _ s _)))))
  · exact leads_pure hg

theorem asks_mapPointer (ht : Tables e) (ha : e.Asks) (hs : s < Slot.count)
    (hint : Slot.isInteger s = true) :
    Leads (mapPointer s) e fun r e' => e'.Gives .gpr r := by
  have hpoint : Leads (mapInteger s .read >>= fun r => emit (.addBase r) >>= fun _ =>
      modify (fun e => (e.modifyHolding r fun h =>
        { h with pointer := true, normalized := false }).setResidence s (.pointer r)) >>= fun _ =>
      pure r) e fun r e' => e'.Gives .gpr r :=
    leads_bind ((asks_mapInteger ht ha hs hint).mono fun r e₁ hg =>
      leads_ask hg hg.has fun hg => leads_bind (leads_modify (leads_pure (hg.of_silent
        ((Engine.silent_setHolding _ r _).trans (Engine.silent_setResidence _ s _))))))
  unfold mapPointer
  refine leads_requireSlot (leads_get ?_)
  cases hres : e.residence s with
  | pointer r =>
    have hhas := ht.has_of_reg (s := s) (r := r) (by rw [hres]; rfl)
    rw [hint] at hhas
    exact leads_bind (leads_modify (leads_pure ⟨ha.of_silent (e.silent_lock s), hhas⟩))
  | guest => exact hpoint
  | value w => exact hpoint
  | host r k => exact hpoint
  | hostValue r w => exact hpoint

/-! ## Float slots -/

theorem Engine.silent_reserve (e : Engine) (r : HostReg) (b : Bool) : e.Silent (e.reserve r b) :=
  e.silent_setHost r _

theorem asks_leaveGroup {group : HostReg} (ht : Tables e) (ha : e.Asks)
    (hgroup : e.host.Has .fpr group) :
    Leads (leaveGroup s group mode) e fun r e' => e'.Gives .fpr r := by
  have hbind : ∀ (d : Engine) r b, d.Silent ((d.clear s).bindScalar s r b) := fun d r b =>
    ((d.silent_setResidence s _).trans (Engine.silent_setHolding _ r _)).trans
      (Engine.silent_setResidence _ s _)
  have ht' := ht.of_alike (e.alike_reserve group true)
  unfold leaveGroup
  refine leads_get (leads_set ?_)
  refine leads_bind (((asks_alloc ht' (ha.of_silent (e.silent_reserve group true))).and
    (forfeits_alloc ∅ ht')).mono fun r e₁ ⟨h₁, hkin⟩ => ?_)
  have hg := h₁.1.of_silent (e₁.silent_reserve group (e.hostAt group).reserved)
  have hhost : (e₁.reserve group (e.hostAt group).reserved).host = e.host := hkin.host
  refine leads_bind (leads_modify ?_)
  split
  · exact leads_ask hg ⟨hg.has, by rw [hhost]; exact hgroup⟩ fun hg => leads_bind
      (leads_modify (leads_pure (hg.of_silent (hbind _ _ _))))
  · exact leads_bind (leads_modify (leads_pure (hg.of_silent (hbind _ _ _))))

/-- **A float slot can be mapped.** One more register is set aside if it leaves its group. -/
theorem completes_mapFloat (ht : Tables e) (hs : s < Slot.count)
    (hfloat : Slot.isInteger s = false)
    (hroom : ∀ group, ((e.lock s).reserve group true).Roomy .fpr slots (group :: regs))
    (halloc : (e.lock s).Roomy .fpr slots regs) : Completes (mapFloat s mode) e := by
  have ht₀ := ht.of_alike (e.alike_lock s)
  unfold mapFloat
  simp only
  refine completes_require (by rw [hfloat]; decide) (completes_lockSlot hs (completes_get ?_))
  cases ((e.lock s).residence s).reg? with
  | none =>
    refine completes_bind (completes_alloc ht₀ halloc) fun r d _ => ?_
    split
    · exact completes_emit_bind (completes_modify_bind (completes_pure r _))
    · exact completes_modify_bind (completes_pure r _)
  | some r =>
    simp only
    split
    · split
      · exact completes_modify_bind (completes_pure r _)
      · exact completes_pure r _
    · split
      · refine completes_bind ?_ fun _ d _ => completes_pure r d
        unfold shrinkGroup
        refine completes_get ?_
        simp only
        split
        · exact completes_emit_bind (completes_modify _ _)
        · exact completes_modify _ _
      · unfold leaveGroup
        refine completes_get (completes_set (completes_bind
          (completes_alloc (ht₀.of_alike (Engine.alike_reserve _ r true)) (hroom r)) fun q d _ => ?_))
        refine completes_modify_bind ?_
        split
        · exact completes_emit_bind (completes_modify_bind (completes_pure q _))
        · exact completes_modify_bind (completes_pure q _)

theorem asks_mapFloat (ht : Tables e) (ha : e.Asks) (hs : s < Slot.count)
    (hfloat : Slot.isInteger s = false) :
    Leads (mapFloat s mode) e fun r e' => e'.Gives .fpr r := by
  have halike := e.alike_lock s
  have ht₀ := ht.of_alike halike
  have ha₀ := ha.of_silent (e.silent_lock s)
  unfold mapFloat
  simp only
  refine leads_require fun _ => leads_bind (leads_requireSlot (leads_modify (leads_get ?_)))
  cases hres : ((e.lock s).residence s).reg? with
  | none =>
    refine leads_bind ((asks_alloc ht₀ ha₀).mono fun r e₁ h₁ => ?_)
    have hbind : ∀ (d : Engine) b, d.Silent (d.bindScalar s r b) := fun d b =>
      (d.silent_setHolding r _).trans (Engine.silent_setResidence _ s _)
    split
    · exact leads_ask h₁.1 ⟨h₁.1.has.lt, hs⟩ fun hg => leads_bind (leads_modify (leads_pure
        (hg.of_silent (hbind _ _))))
    · exact leads_bind (leads_modify (leads_pure (h₁.1.of_silent (hbind _ _))))
  | some r =>
    have hg : (e.lock s).Gives .fpr r := by
      have hhas := ht₀.has_of_reg hres
      rw [hfloat] at hhas
      exact ⟨ha₀, hhas⟩
    simp only
    split
    · split
      · exact leads_bind (leads_modify (leads_pure
          (hg.of_silent (Engine.silent_setHolding _ r _))))
      · exact leads_pure hg
    · -- the last slot of a group keeps the register; any other needs one of its own
      split
      · have hset : ∀ (d : Engine) f v, d.Silent ((d.modifyHolding r f).setResidence s v) :=
          fun d f v => (d.silent_setHolding r _).trans (Engine.silent_setResidence _ s v)
        refine leads_bind ?_
        unfold shrinkGroup
        refine leads_get ?_
        simp only
        split
        · exact leads_ask hg ⟨hg.has, hg.has⟩ fun hg => leads_modify (leads_pure
            (hg.of_silent (hset _ _ _)))
        · exact leads_modify (leads_pure (hg.of_silent (hset _ _ _)))
      · exact asks_leaveGroup ht₀ ha₀ hg.has

/-! ## Groups -/

theorem InFloatRange.lt_count {first : Slot} (hin : InFloatRange first) {k : Nat} (hk : k < 4) :
    first + k < Slot.count :=
  calc first + k < first + 4 := Nat.add_lt_add_left hk first
    _ ≤ Slot.floatEnd := hin.upper
    _ ≤ Slot.count := by decide

theorem Tables.laneSource_fits {first : Slot} (ht : Tables e) (hin : InFloatRange first)
    {k : Nat} (hk : k < 4) : (e.laneSource first r k).Fits e.host := by
  have hslot : first + k ∈ groupSlots first := mem_groupSlots.mpr ⟨k, hk, rfl⟩
  unfold Engine.laneSource
  cases hres : (e.residence (first + k)).reg? with
  | none => exact hin.lt_count hk
  | some old =>
    simp only
    split
    · trivial
    · have hhas := ht.has_of_reg hres
      rw [hin.isInteger hslot] at hhas
      refine ⟨hhas, ?_⟩
      split
      · obtain ⟨h, -, hp⟩ := ht.placed _ _ hres
        have hlane := hp.lane
        unfold Holding.width at hlane
        split at hlane <;> omega
      · decide

/-- A register takes up a group. -/
theorem asks_fill {first : Slot} {isBase : Bool} (ht : Tables e) (hg : e.Gives .fpr r)
    (hin : InFloatRange first) :
    Leads (if mode.reads = true then
        get >>= fun d => compose first r isBase >>= fun _ =>
          modify (fun e => (e.gather first r).bindGroup first r
            (d.groupDirty first || mode.writes)) >>= fun _ => pure r
      else modify (fun e => (e.gather first r).bindGroup first r true) >>= fun _ => pure r) e
      fun r' e' => e'.Gives .fpr r' := by
  have hbind : ∀ (d : Engine) b, d.Silent ((d.gather first r).bindGroup first r b) :=
    fun d b => (d.silent_gather first r).trans (Engine.silent_bindGroup _ first r b)
  have hload : (Action.load r first 4).Fits e.host := ⟨hg.has.lt, hin.lt_count (by decide : 0 < 4)⟩
  have hcompose : (Action.compose r (Vector.ofFn fun lane : Fin 4 =>
      e.laneSource first r lane)).Fits e.host := by
    refine ⟨hg.has, fun source hsource => ?_⟩
    rw [Vector.toList_ofFn, List.mem_ofFn] at hsource
    obtain ⟨k, rfl⟩ := hsource
    exact ht.laneSource_fits hin k.isLt
  split
  · refine leads_get (leads_bind ?_)
    unfold compose
    refine leads_get ?_
    simp only
    split
    · exact leads_emit (leads_bind (leads_modify (leads_pure ((hg.asked hload).of_silent
        (hbind _ _)))))
    · exact leads_emit (leads_bind (leads_modify (leads_pure ((hg.asked hcompose).of_silent
        (hbind _ _)))))
  · exact leads_bind (leads_modify (leads_pure (hg.of_silent (hbind _ _))))

/-- **A group can be mapped.** -/
theorem completes_mapGroup {first : Slot} (ht : Tables e) (hin : InFloatRange first)
    (hroom : (e.lockGroup first).Roomy .fpr slots regs) : Completes (mapGroup first mode) e := by
  have hstop : asDouble (first + 4) = .ok (first + 4) :=
    if_pos (Nat.lt_of_le_of_lt hin.upper (by decide))
  have ht₀ := ht.of_alike (e.alike_lockGroup first)
  have hfill : ∀ (r : HostReg) (isBase : Bool) (d : Engine), Completes (if mode.reads = true then
      get >>= fun c => compose first r isBase >>= fun _ =>
        modify (fun e => (e.gather first r).bindGroup first r
          (c.groupDirty first || mode.writes)) >>= fun _ => pure r
      else modify (fun e => (e.gather first r).bindGroup first r true) >>= fun _ => pure r) d := by
    intro r isBase d
    split
    · refine completes_get (completes_bind (completes_get ?_) fun _ c _ =>
        completes_modify_bind (completes_pure r _))
      simp only
      split
      · exact completes_emit _ d
      · exact completes_emit _ d
    · exact completes_modify_bind (completes_pure r _)
  unfold mapGroup
  simp only
  refine completes_require (Nat.not_lt.mpr hin.lower) (completes_lift hstop
    (completes_require (Nat.not_lt.mpr hin.upper) (completes_modify_bind (completes_get ?_))))
  rw [show (List.range 4).foldl (fun e k => e.lock (first + k)) e = e.lockGroup first from rfl]
  generalize e.lockGroup first = d at ht₀ hroom
  split
  · split
    · exact completes_modify_bind (completes_pure _ _)
    · exact completes_pure _ d
  · -- a register is filled up, or a new one filled
    split
    · exact hfill _ _ d
    · exact completes_bind (completes_alloc ht₀ hroom) fun r c _ => hfill r _ c

theorem asks_mapGroup {first : Slot} (ht : Tables e) (ha : e.Asks) (hin : InFloatRange first) :
    Leads (mapGroup first mode) e fun r e' => e'.Gives .fpr r := by
  have ht₀ := ht.of_alike (e.alike_lockGroup first)
  have ha₀ := ha.of_silent (e.silent_lockGroup first)
  unfold mapGroup
  simp only
  refine leads_require fun _ => leads_lift fun stop _ => leads_require fun _ =>
    leads_bind (leads_modify (leads_get ?_))
  rw [show (List.range 4).foldl (fun e k => e.lock (first + k)) e = e.lockGroup first from rfl]
  generalize e.lockGroup first = d at ht₀ ha₀
  have hthere : ∀ {r}, d.groupRegister first = some r → d.Gives .fpr r := fun hr =>
    have hf := ht₀.fillable_of_groupRegister hin hr
    ⟨ha₀, ht₀.size ▸ hf.size, hf.bank⟩
  split
  · -- all four lanes are in place
    rename_i r hgroup hfull
    split
    · exact leads_bind (leads_modify (leads_pure
        ((hthere hgroup).of_silent (d.silent_setHolding r _))))
    · exact leads_pure (hthere hgroup)
  · have hbase : (if 2 ≤ ((d.groupRegister first).map fun r => (d.residents r).length).getD 0 then
        d.groupRegister first else none) = d.groupBase first := rfl
    rw [hbase]
    -- a register is filled up, or a new one filled; either may take lanes from other registers
    cases hgroup : d.groupBase first with
    | some r =>
      have hr : d.groupRegister first = some r := by
        unfold Engine.groupBase at hgroup
        split at hgroup
        · exact hgroup
        · exact nomatch hgroup
      exact asks_fill ht₀ (hthere hr) hin
    | none =>
      exact leads_bind ((asks_alloc ht₀ ha₀).mono fun r e₁ h₁ =>
        asks_fill h₁.2 h₁.1 hin)

/-! ## Engines that can go on -/

/-- Nothing is locked or reserved when an instruction begins. -/
theorem Engine.pinned_beginInst (e : Engine) (k : Nat) : (e.beginInst k).Pinned [] [] := by
  refine ⟨fun s hs => ?_, fun r hr => ?_⟩
  · unfold beginInst releaseLocks slotAt at hs
    rw [Vector.getElem?_map] at hs
    cases hslot : e.slots[s]? with
    | none =>
      rw [hslot] at hs
      exact nomatch hs
    | some v =>
      rw [hslot] at hs
      exact nomatch hs
  · unfold beginInst releaseLocks hostAt at hr
    rw [Array.getElem?_map] at hr
    cases hhost : e.hosts[r]? with
    | none =>
      rw [hhost] at hr
      exact nomatch hr
    | some v =>
      rw [hhost] at hr
      exact nomatch hr

/-- The engine of a host works without bindings, no more than the given slots are locked, and all
that has been asked for fits. -/
structure Engine.Supplied (host : Host) (slots : List Slot) (e : Engine) : Prop where
  tables : Tables e
  asks : e.Asks
  host : e.host = host
  unbound : e.policy.useStatics = false
  pinned : e.Pinned slots []

variable {host : Host}

namespace Engine.Supplied

theorem of_spares (h : e.Supplied host slots) (more : List Slot)
    (hs : e.Spares {t | t ∈ more} e') (ht : Tables e') (ha : e'.Asks) :
    e'.Supplied host (more ++ slots) :=
  ⟨ht, ha, hs.host.trans h.host, by rw [hs.policy]; exact h.unbound, h.pinned.of_spares more hs⟩

theorem isStatic (h : e.Supplied host slots) (s : Slot) : (e.slotAt s).isStatic = false := by
  refine Bool.eq_false_iff.mpr fun hstatic => ?_
  have huse := (h.tables.bound s hstatic).1
  rw [h.unbound] at huse
  exact nomatch huse

/-- Locks are dropped. -/
theorem beginInst (h : e.Supplied host slots) (k : Nat) : (e.beginInst k).Supplied host [] :=
  ⟨h.tables.of_alike (e.alike_beginInst k), h.asks, h.host, h.unbound, e.pinned_beginInst k⟩

/-- What was asked for has been laid down. -/
theorem handOver (h : e.Supplied host slots) : { e with actions := #[] }.Supplied host slots :=
  ⟨h.tables.of_alike ⟨rfl, rfl, rfl, fun _ => rfl, fun _ => rfl, fun _ => rfl⟩,
    fun _ ha => absurd ha (Array.not_mem_empty _), h.host, h.unbound, h.pinned.slot, h.pinned.reg⟩

end Engine.Supplied

namespace Request

/-- The class of the register. -/
def bankOf : Request → Bank
  | integer _ _ | pointer _ => .gpr
  | float _ _ | group _ _ => .fpr

/-- The slots exist and are of the right kind. -/
def Fits : Request → Prop
  | integer s _ | pointer s => s < Slot.count ∧ Slot.isInteger s = true
  | float s _ => s < Slot.count ∧ Slot.isInteger s = false
  | group first _ => InFloatRange first

/-- The slots in their order. -/
def slotList (q : Request) : List Slot := (List.range q.width).map (q.first + ·)

theorem slots_eq (q : Request) : q.slots = {t | t ∈ q.slotList} := by
  ext t
  show q.first ≤ t ∧ t < q.first + q.width ↔ t ∈ (List.range q.width).map (q.first + ·)
  simp only [List.mem_map, List.mem_range]
  unfold Slot at *
  constructor
  · rintro ⟨hle, hlt⟩
    exact ⟨t - q.first, by omega, by omega⟩
  · rintro ⟨k, hk, rfl⟩
    omega

theorem length_slotList (q : Request) : q.slotList.length = q.width := by
  unfold slotList
  rw [List.length_map, List.length_range]

/-- Locking the slots of a request leaves registers of its class, and one more if it is set
aside. -/
theorem roomy_lock (q : Request) {d : Engine} (hp : e.Pinned slots [])
    (hnodup : (e.host.order q.bankOf e.policy.useStatics).Nodup)
    (hroom : slots.length + q.width + 1 < (e.host.order q.bankOf e.policy.useStatics).length)
    (hd : e.Spares {t | t ∈ q.slotList} d) :
    d.Roomy q.bankOf (q.slotList ++ slots) [] ∧
      ∀ group, (d.reserve group true).Roomy q.bankOf (q.slotList ++ slots) [group] := by
  have hp' := hp.of_spares _ hd
  have horder : d.host.order q.bankOf d.policy.useStatics
      = e.host.order q.bankOf e.policy.useStatics := by
    rw [hd.host, hd.policy]
  rw [← horder] at hnodup hroom
  have hlen : (q.slotList ++ slots).length = q.width + slots.length := by
    rw [List.length_append, length_slotList]
  refine ⟨⟨hp', hnodup, ?_⟩, fun group => ⟨hp'.reserve group true, hnodup, ?_⟩⟩
  · rw [hlen]
    exact Nat.lt_of_le_of_lt (by simp only [List.length_nil]; omega) hroom
  · rw [hlen]
    exact Nat.lt_of_le_of_lt (by simp only [List.length_singleton]; omega) hroom

/-- **Every mapping succeeds** as long as registers are left for its slots and one more. -/
theorem completes_run (q : Request) (hq : q.Fits) (ht : Tables e) (hp : e.Pinned slots [])
    (hnodup : (e.host.order q.bankOf e.policy.useStatics).Nodup)
    (hroom : slots.length + q.width + 1 < (e.host.order q.bankOf e.policy.useStatics).length) :
    Completes q.run e := by
  have hroomy := fun {d} => q.roomy_lock (d := d) hp hnodup hroom
  cases q with
  | integer s mode =>
    exact completes_mapInteger ht hq.1 hq.2
      (hroomy (Engine.spares_lock (List.mem_singleton_self s))).1
  | pointer s =>
    exact completes_mapPointer ht hq.1 hq.2
      (hroomy (Engine.spares_lock (List.mem_singleton_self s))).1
  | float s mode =>
    obtain ⟨hlock, hreserve⟩ := hroomy (Engine.spares_lock (List.mem_singleton_self s))
    exact completes_mapFloat ht hq.1 hq.2 hreserve hlock
  | group first mode =>
    have hsub : groupSlots first ⊆ {t | t ∈ slotList (group first mode)} :=
      fun t ht' => (slots_eq (group first mode) ▸ ht' : _)
    exact completes_mapGroup ht hq (hroomy (Engine.spares_lockGroup hsub)).1

theorem asks_run (q : Request) (hq : q.Fits) (ht : Tables e) (ha : e.Asks) :
    Leads q.run e fun r e' => e'.Gives q.bankOf r := by
  cases q with
  | integer s mode => exact asks_mapInteger ht ha hq.1 hq.2
  | pointer s => exact asks_mapPointer ht ha hq.1 hq.2
  | float s mode => exact asks_mapFloat ht ha hq.1 hq.2
  | group first mode => exact asks_mapGroup ht ha hq

theorem leads_tables_run (q : Request) (ht : Tables e) : Leads q.run e fun _ e' => Tables e' :=
  (q.after_run (ht.coherent 0 .zeros)).leads fun _ _ _ h => h.1.toTables

/-- A mapping locks its slots and no others. -/
theorem leads_pinned_run (q : Request) (ht : Tables e) (hp : e.Pinned slots []) :
    Leads q.run e fun _ e' => e'.Pinned (q.slotList ++ slots) [] := by
  have hforfeits := q.forfeits_run ht
  rw [slots_eq] at hforfeits
  exact hforfeits.mono fun _ _ hf => hp.of_spares _ hf.toSpares

/-- A mapping leaves the engine supplied. -/
theorem yields_run (q : Request) (hq : q.Fits) (h : e.Supplied host slots)
    (hnodup : (host.order q.bankOf false).Nodup)
    (hroom : slots.length + q.width + 1 < (host.order q.bankOf false).length) :
    Yields q.run e fun r e' => host.Has q.bankOf r ∧ e'.Supplied host (q.slotList ++ slots) := by
  have horder : e.host.order q.bankOf e.policy.useStatics = host.order q.bankOf false := by
    rw [h.host, h.unbound]
  rw [← horder] at hnodup hroom
  have hgives := (q.completes_run hq h.tables h.pinned hnodup hroom).yields
    (q.asks_run hq h.tables h.asks)
  -- the tables and the locks are known from what mappings do in general
  have hforfeits := q.forfeits_run h.tables
  rw [slots_eq] at hforfeits
  refine ((hgives.and_leads (q.leads_tables_run h.tables)).and_leads hforfeits).mono
    fun r e' ⟨⟨hg, ht'⟩, hf⟩ => ⟨?_, h.of_spares _ hf.toSpares ht' hg.asks⟩
  rw [← h.host, ← hf.host]
  exact hg.has

end Request

/-! ## Storing -/

theorem leads_asks_flushKnown (ha : e.Asks) (hs : s < Slot.count) :
    Leads (flushKnown s) e fun _ e' => e'.Asks := by
  unfold flushKnown
  refine leads_get ?_
  simp only
  split
  · rename_i w _
    have hfits : (Action.storeValue s w).Fits e.host := hs
    split
    · exact leads_bind (leads_emit (leads_modify ((ha.asked hfits).of_silent
        (Engine.silent_setResidence _ s _))))
    · exact leads_pure ha
  · exact leads_pure ha

theorem leads_asks_writeBack {h : Holding} (ht : Tables e) (ha : e.Asks)
    (hr : e.holding r = some h) : Leads (writeBack r) e fun _ e' => e'.Asks := by
  have hlt : r < e.host.count := ht.size ▸ e.lt_size_of_holding hr
  have hslots : ∀ q ∈ e.residents r, q.1 < Slot.count := fun q hq =>
    Tables.lt_count ((ht.mem_residents q.2).mp hq).1
  unfold writeBack
  refine leads_get ?_
  simp only
  split
  · refine leads_bind ?_
    intro u e₁ hrun
    have ha₁ := leads_asks_storeLanes ha hlt hslots u e₁ hrun
    have hhost := (spares_storeLanes (S := ∅) _ (Engine.Spares.refl _ e) u e₁ hrun).host
    split
    · rename_i hpointer
      rw [hr] at hpointer
      -- only integer registers hold pointers
      have hbank : e.host.bankOf r = .gpr := by
        cases hb : e.host.bankOf r with
        | gpr => rfl
        | fpr => exact nomatch (ht.pointer_fpr hr hb).symm.trans hpointer
      have hfits : (Action.addBase r).Fits e₁.host := by
        rw [hhost]
        exact ⟨hlt, hbank⟩
      exact leads_bind (leads_emit (leads_modify ((ha₁.asked hfits).of_silent
        (Engine.silent_setHolding _ r _))))
    · exact leads_modify (ha₁.of_silent (e₁.silent_setHolding r _))
  · exact leads_pure ha

namespace Engine.Supplied

/-- What succeeds, asks for what fits and keeps the tables leaves the engine supplied. -/
theorem yields_of_completes {α : Type} {op : EngineM α} (h : e.Supplied host slots)
    (more : List Slot) (hop : Completes op e) (ha : Leads op e fun _ e' => e'.Asks)
    (ht : Leads op e fun _ e' => Tables e')
    (hs : Leads op e fun _ e' => e.Spares {t | t ∈ more} e') :
    Yields op e fun _ e' => e'.Supplied host (more ++ slots) :=
  (((hop.yields ha).and_leads ht).and_leads hs).mono
    fun _ _ ⟨⟨ha, ht⟩, hs⟩ => h.of_spares more hs ht ha

theorem yields_flushKnown (h : e.Supplied host slots) (hs : s < Slot.count) :
    Yields (flushKnown s) e fun _ e' => e'.Supplied host slots :=
  h.yields_of_completes [] (completes_flushKnown s e) (leads_asks_flushKnown h.asks hs)
    h.tables.leads_flushKnown (spares_flushKnown (Spares.refl _ e))

theorem yields_flushReg (h : e.Supplied host slots) (hr : r < e.hosts.size) :
    Yields (flushReg r) e fun _ e' => e'.Supplied host slots := by
  have hafter := after_flushReg (r := r) (h.tables.coherent 0 .zeros)
  exact h.yields_of_completes [] (completes_flushReg h.tables hr fun s _ => h.isStatic s)
    (leads_asks_flushReg h.tables h.asks) (hafter.leads fun _ _ _ h => h.1.toTables)
    (spares_flushReg (Spares.refl _ e))

theorem yields_writeBack {g : Holding} (h : e.Supplied host slots) (hr : e.holding r = some g) :
    Yields (writeBack r) e fun _ e' => e'.Supplied host slots := by
  have hafter := after_writeBack (h.tables.coherent 0 .zeros) hr
  exact h.yields_of_completes [] (completes_writeBack r e)
    (leads_asks_writeBack h.tables h.asks hr) (hafter.leads fun _ _ _ h => h.1.toTables)
    (spares_writeBack (Spares.refl _ e))

/-- Without bindings every register that holds something is left to `other`. -/
theorem yields_forHoldings {other : HostReg → EngineM Unit} (h : e.Supplied host slots)
    (hother : ∀ r g d, d.Supplied host slots → d.holding r = some g →
      Yields (other r) d fun _ e' => e'.Supplied host slots) :
    Yields (forHoldings other) e fun _ e' => e'.Supplied host slots := by
  unfold forHoldings
  refine yields_get (yields_forM _ (fun r _ d hd => yields_get ?_) h)
  split
  · exact yields_pure hd
  · rename_i g hr
    rw [hd.isStatic, if_neg Bool.false_ne_true]
    exact hother r g d hd hr

/-- **Everything can be stored.** -/
theorem yields_flushAll (h : e.Supplied host slots) :
    Yields flushAll e fun _ e' => e'.Supplied host slots := by
  unfold flushAll
  refine yields_bind ((yields_forM _ (fun s hs d hd => hd.yields_flushKnown (List.mem_range.mp hs))
    h).mono fun _ e₁ h₁ => ?_)
  exact h₁.yields_forHoldings fun r g d hd hr => hd.yields_flushReg (d.lt_size_of_holding hr)

/-- **Getting ready for a call** leaves the engine supplied. -/
theorem yields_flushBeforeCall (h : e.Supplied host slots) (writes : List Slot) :
    Yields (flushBeforeCall writes) e fun _ e' => e'.Supplied host slots := by
  unfold flushBeforeCall
  refine yields_bind ((yields_forM _ (fun s hs d hd => hd.yields_flushKnown (List.mem_range.mp hs))
    h).mono fun _ e₁ h₁ => ?_)
  refine h₁.yields_forHoldings fun r g d hd hr => yields_get ?_
  split
  · exact hd.yields_flushReg (d.lt_size_of_holding hr)
  · exact hd.yields_writeBack hr

/-- There is nothing to load again after a call. -/
theorem yields_reloadAfterCall (h : e.Supplied host slots) (writes : List Slot) :
    Yields (reloadAfterCall writes) e fun _ e' => e'.Supplied host slots := by
  unfold reloadAfterCall
  refine yields_get ?_
  rw [h.unbound, if_neg Bool.false_ne_true]
  exact yields_pure h

theorem yields_knownValue (h : e.Supplied host slots) (hs : s < Slot.count) :
    Yields (knownValue s) e fun _ e' => e'.Supplied host slots := by
  unfold knownValue
  exact yields_requireSlot hs (yields_get (yields_pure h))

theorem yields_setKnown (h : e.Supplied host slots) (hs : s < Slot.count)
    (hint : Slot.isInteger s = true) (w : Word) :
    Yields (setKnown s w) e fun _ e' => e'.Supplied host (s :: slots) := by
  have htables : Leads (setKnown s w) e fun _ e' => Tables e' :=
    (after_setKnown (h.tables.coherent 0 .zeros) w).leads fun _ _ _ h => h.toTables
  have hplain : Yields (setKnown s w) e fun _ e' => e.Spares {t | t ∈ [s]} e' ∧ e'.Asks := by
    unfold setKnown
    simp only
    refine yields_require (by rw [hint]; decide) (yields_requireSlot hs (yields_get ?_))
    rw [h.isStatic]
    exact yields_modify ⟨(e.spares_detach s).trans
      (Engine.spares_setResidence _ (List.mem_singleton_self s)),
      h.asks.of_silent ((e.silent_detach s).trans (Engine.silent_setResidence _ s _))⟩
  exact (hplain.and_leads htables).mono fun _ _ ⟨⟨hs, ha⟩, ht⟩ => h.of_spares [s] hs ht ha

end Engine.Supplied

end Dynarec.Registers
