/-
What an operation of the register engine leaves alone.

Where the words are is one question and which table entries an operation touches is another, and the
second needs no host. `e.Spares S e'` says that the change from `e` to `e'` has kept the host, the
policy and the bindings, and that a slot outside `S` has been neither locked nor released nor taken
out of guest storage. Every operation spares all slots but those it is asked about; stores spare
every slot that they do not mention in this sense, since all they do is to let slots go.

A slot whose register is evicted as dead for a mapping is back in guest storage and stays there
while the mapping goes on (`Request.forfeits_run`): it has lost its word, but not its place. So the
engine never says of a slot that it is somewhere where it is not.
-/
import Dynarec.Proofs.Registers.Outcomes

set_option autoImplicit false

namespace Dynarec.Registers

/-! ## Entries that stay -/

namespace Engine

/-- The change from `e` to `e'` keeps what is fixed in a block and which registers are reserved, and
a slot outside `S` is neither locked nor released nor taken out of guest storage. -/
structure Spares (S : Set Slot) (e e' : Engine) : Prop extends e.Kin e' where
  guest : ∀ t, t ∉ S → e.residence t = .guest → e'.residence t = .guest
  locked : ∀ t, t ∉ S → (e'.slotAt t).locked = (e.slotAt t).locked
  reserved : ∀ r, (e'.hostAt r).reserved = (e.hostAt r).reserved

variable {S : Set Slot} {d e e' e'' : Engine} {s : Slot}

theorem Spares.refl (S : Set Slot) (e : Engine) : e.Spares S e :=
  ⟨Kin.refl e, fun _ _ h => h, fun _ _ => rfl, fun _ => rfl⟩

theorem Spares.trans (h : e.Spares S e') (h' : e'.Spares S e'') : e.Spares S e'' :=
  ⟨h.toKin.trans h'.toKin, fun t ht hguest => h'.guest t ht (h.guest t ht hguest),
    fun t ht => (h'.locked t ht).trans (h.locked t ht),
    fun r => (h'.reserved r).trans (h.reserved r)⟩

theorem Spares.foldl {γ : Type} {f : Engine → γ → Engine} (as : List γ)
    (hf : ∀ e : Engine, ∀ a ∈ as, e.Spares S (f e a)) (e : Engine) : e.Spares S (as.foldl f e) := by
  induction as generalizing e with
  | nil => exact Spares.refl S e
  | cons a as ih =>
    exact (hf e a List.mem_cons_self).trans
      (ih (fun e b hb => hf e b (List.mem_cons_of_mem a hb)) (f e a))

theorem spares_asked (e : Engine) (a : Action) : e.Spares S (e.asked a) :=
  ⟨⟨rfl, rfl, rfl, fun _ => rfl⟩, fun _ _ h => h, fun _ _ => rfl, fun _ => rfl⟩

/-- The entry of a slot changes that need not be spared, or that is put back into guest storage. -/
theorem spares_setSlot (v : SlotState) (hstatic : v.isStatic = (e.slotAt s).isStatic)
    (hv : s ∈ S ∨ v.residence = .guest ∧ v.locked = (e.slotAt s).locked) :
    e.Spares S (e.setSlot s v) := by
  refine ⟨(e.silent_setSlot s v hstatic).toKin, fun t ht hguest => ?_, fun t ht => ?_, fun _ => rfl⟩
  · unfold residence at hguest ⊢
    rw [slotAt_setSlot]
    split
    · rename_i hts
      exact (hv.resolve_left fun hin => ht (hts.1 ▸ hin)).1
    · exact hguest
  · rw [slotAt_setSlot]
    split
    · rename_i hts
      rw [(hv.resolve_left fun hin => ht (hts.1 ▸ hin)).2, hts.1]
    · rfl

theorem spares_setResidence (v : Residence) (hs : s ∈ S) : e.Spares S (e.setResidence s v) :=
  spares_setSlot _ rfl (Or.inl hs)

theorem spares_clear (e : Engine) (s : Slot) : e.Spares S (e.clear s) :=
  spares_setSlot _ rfl (Or.inr ⟨rfl, rfl⟩)

theorem spares_lock (hs : s ∈ S) : e.Spares S (e.lock s) := spares_setSlot _ rfl (Or.inl hs)

theorem spares_setHolding (e : Engine) (r : HostReg) (h : Option Holding) :
    e.Spares S (e.setHolding r h) := by
  refine ⟨(e.silent_setHolding r h).toKin, fun _ _ h => h, fun _ _ => rfl, fun q => ?_⟩
  unfold setHolding
  rw [hostAt_setHost]
  split
  · rename_i hq
    rw [hq.1]
  · rfl

theorem spares_clearAll (e : Engine) (slots : List (Slot × Nat)) : e.Spares S (e.clearAll slots) :=
  Spares.foldl (f := fun e (p : Slot × Nat) => e.clear p.1) slots (fun e p _ => e.spares_clear p.1) e

theorem spares_detach (e : Engine) (s : Slot) : e.Spares S (e.detach s) := by
  unfold detach
  split
  · exact Spares.refl S e
  · simp only
    split
    · exact (e.spares_clear s).trans (spares_setHolding _ _ none)
    · exact e.spares_clear s

theorem spares_discard (e : Engine) (r : HostReg) : e.Spares S (e.discard r) := by
  unfold discard
  simp only
  split
  · exact e.spares_setHolding r _
  · exact (e.spares_clearAll _).trans (spares_setHolding _ r none)

theorem spares_gather (e : Engine) (first : Slot) (r : HostReg) : e.Spares S (e.gather first r) := by
  unfold gather
  refine Spares.foldl _ (fun d k _ => ?_) e
  split
  · split
    · exact Spares.refl S d
    · exact d.spares_detach _
  · exact Spares.refl S d

theorem spares_bindGroup {first : Slot} (hS : groupSlots first ⊆ S) (r : HostReg) (dirty : Bool) :
    e.Spares S (e.bindGroup first r dirty) := by
  refine (e.spares_setHolding r _).trans (Spares.foldl _ (fun d k hk => ?_) _)
  exact spares_setResidence _ (hS (mem_groupSlots.mpr ⟨k, List.mem_range.mp hk, rfl⟩))

end Engine

/-! ## Stores

What a store does to the entries of the slots that it is about does not matter here, so that they
are all left out of what is spared. -/

variable {S G : Set Slot} {d e e' e'' : Engine} {s : Slot} {r : HostReg} {mode : Mode} {bank : Bank}

theorem spares_storeLanes (slots : List (Slot × Nat)) (hd : d.Spares S e) :
    Leads (storeLanes r slots) e fun _ e' => d.Spares S e' := by
  have hemit : ∀ a (e : Engine), d.Spares S e → Leads (emit a) e fun _ e' => d.Spares S e' :=
    fun a e hd => leads_emit (hd.trans (e.spares_asked a))
  unfold storeLanes
  refine leads_get ?_
  cases e.host.bankOf r with
  | gpr =>
    simp only
    split
    · refine leads_bind ((hemit _ e hd).mono fun _ e' h => ?_)
      split
      · exact hemit _ e' h
      · exact leads_pure h
    · split
      · exact hemit _ e hd
      · exact leads_pure hd
  | fpr =>
    simp only
    split
    · exact leads_pure hd
    · split
      · exact hemit _ e hd
      · split
        · exact hemit _ e hd
        · exact leads_forM (fun p e hd => hemit _ e hd) _ hd

theorem spares_flushReg (hd : d.Spares S e) :
    Leads (flushReg r) e fun _ e' => d.Spares S e' := by
  unfold flushReg
  refine leads_requireReg (leads_get ?_)
  split
  · exact leads_modify (hd.trans (e.spares_setHolding r none))
  · rename_i s lane rest _
    have hrelease : ∀ e : Engine, d.Spares S e → Leads (modify fun e : Engine =>
        (((s, lane) :: rest).foldl (fun e p => e.clear p.1) e).free r) e
          fun _ e' => d.Spares S e' :=
      fun e hd => leads_modify
        (hd.trans ((e.spares_clearAll ((s, lane) :: rest)).trans
          (Engine.spares_setHolding _ r none)))
    simp only
    refine leads_require fun _ => ?_
    split
    · exact leads_bind ((spares_storeLanes _ hd).mono fun _ e' h => hrelease e' h)
    · exact hrelease e hd

theorem spares_writeBack (hd : d.Spares S e) :
    Leads (writeBack r) e fun _ e' => d.Spares S e' := by
  unfold writeBack
  refine leads_get ?_
  simp only
  split
  · refine leads_bind ((spares_storeLanes _ hd).mono fun _ e₁ hd₁ => ?_)
    split
    · exact leads_bind (leads_emit (leads_modify ((hd₁.trans (e₁.spares_asked _)).trans
        (Engine.spares_setHolding _ r _))))
    · exact leads_modify (hd₁.trans (e₁.spares_setHolding r _))
  · exact leads_pure hd

theorem spares_pointAgain (hs : s ∈ S) (hd : d.Spares S e) :
    Leads (pointAgain s r) e fun _ e' => d.Spares S e' := by
  unfold pointAgain
  refine leads_get ?_
  split
  · exact leads_bind (leads_emit (leads_modify ((hd.trans (e.spares_asked _)).trans
      ((Engine.spares_setHolding _ r _).trans (Engine.spares_setResidence _ hs)))))
  · exact leads_pure hd

theorem spares_flushStatic (hs : s ∈ S) (hd : d.Spares S e) :
    Leads (flushStatic s r) e fun _ e' => d.Spares S e' := by
  have hsettle : ∀ e : Engine, d.Spares S e → Leads (get >>= fun d =>
      if (d.holding r).any (·.pointer) = true then modify (·.setResidence s (.pointer r))
      else modify (·.setResidence s (.host r 0)) >>= fun _ => pointAgain s r) e
        fun _ e' => d.Spares S e' := by
    intro e hd
    refine leads_get ?_
    split
    · exact leads_modify (hd.trans (Engine.spares_setResidence _ hs))
    · exact leads_bind (leads_modify
        (spares_pointAgain hs (hd.trans (Engine.spares_setResidence _ hs))))
  have hstore : ∀ e : Engine, d.Spares S e → Leads (emit (.store r s 0 1) >>= fun _ =>
      modify (·.modifyHolding r fun h => { h with dirty := false }) >>= fun _ => get >>= fun d =>
      if (d.holding r).any (·.pointer) = true then modify (·.setResidence s (.pointer r))
      else modify (·.setResidence s (.host r 0)) >>= fun _ => pointAgain s r) e
        fun _ e' => d.Spares S e' :=
    fun e hd => leads_bind (leads_emit (leads_bind (leads_modify (hsettle _
      ((hd.trans (e.spares_asked _)).trans (Engine.spares_setHolding _ r _))))))
  unfold flushStatic
  refine leads_get ?_
  simp only
  split
  · split
    · exact leads_bind (leads_emit (leads_bind (leads_modify (hstore _
        ((hd.trans (e.spares_asked _)).trans (Engine.spares_setHolding _ r _))))))
    · exact hstore e hd
  · exact hsettle e hd

theorem spares_flushKnown (hd : d.Spares S e) :
    Leads (flushKnown s) e fun _ e' => d.Spares S e' := by
  unfold flushKnown
  refine leads_get ?_
  simp only
  split
  · split
    · exact leads_bind (leads_emit (leads_modify ((hd.trans (e.spares_asked _)).trans
        (Engine.spares_clear _ s))))
    · exact leads_pure hd
  · exact leads_pure hd

/-- A walk over the registers, whatever it does with those that are not bound. -/
theorem spares_forHoldings {other : HostReg → EngineM Unit}
    (hother : ∀ r e, d.Spares Set.univ e → Leads (other r) e fun _ e' => d.Spares Set.univ e')
    (hd : d.Spares Set.univ e) :
    Leads (forHoldings other) e fun _ e' => d.Spares Set.univ e' := by
  unfold forHoldings
  refine leads_get (leads_forM (fun r e hd => leads_get ?_) _ hd)
  split
  · exact leads_pure hd
  · split
    · exact spares_flushStatic trivial hd
    · exact hother r e hd

theorem spares_flushAll (hd : d.Spares Set.univ e) :
    Leads flushAll e fun _ e' => d.Spares Set.univ e' := by
  unfold flushAll
  refine leads_bind ((leads_forM (fun s e hd => spares_flushKnown hd) _ hd).mono fun _ e₁ hd₁ => ?_)
  exact spares_forHoldings (fun r e hd => spares_flushReg hd) hd₁

theorem spares_flushBeforeCall {writes : List Slot} (hd : d.Spares Set.univ e) :
    Leads (flushBeforeCall writes) e fun _ e' => d.Spares Set.univ e' := by
  unfold flushBeforeCall
  refine leads_bind ((leads_forM (fun s e hd => spares_flushKnown hd) _ hd).mono fun _ e₁ hd₁ => ?_)
  refine spares_forHoldings (fun r e hd => leads_get ?_) hd₁
  split
  · exact spares_flushReg hd
  · exact spares_writeBack hd

theorem spares_reloadStatic {b : Binding} (hd : d.Spares Set.univ e) :
    Leads (reloadStatic b) e fun _ e' => d.Spares Set.univ e' := by
  unfold reloadStatic
  refine leads_bind (leads_emit (leads_bind (leads_modify (spares_pointAgain trivial ?_))))
  exact (hd.trans (e.spares_asked _)).trans
    ((Engine.spares_setHolding _ b.reg _).trans (Engine.spares_setResidence _ trivial))

theorem spares_reloadStatics (hd : d.Spares Set.univ e) :
    Leads reloadStatics e fun _ e' => d.Spares Set.univ e' := by
  unfold reloadStatics
  refine leads_get ?_
  split
  · exact leads_forM (fun b e hd => spares_reloadStatic hd) _ hd
  · exact leads_pure hd

theorem spares_reloadAfterCall {writes : List Slot} (hd : d.Spares Set.univ e) :
    Leads (reloadAfterCall writes) e fun _ e' => d.Spares Set.univ e' := by
  unfold reloadAfterCall
  refine leads_get ?_
  split
  · refine leads_forM (fun b e hd => ?_) _ hd
    split
    · exact spares_reloadStatic hd
    · exact leads_pure hd
  · exact leads_pure hd

theorem spares_flushSlot (hd : d.Spares Set.univ e) :
    Leads (flushSlot s) e fun _ e' => d.Spares Set.univ e' := by
  unfold flushSlot
  refine leads_requireSlot (leads_get ?_)
  simp only
  split
  · split
    · exact leads_bind (leads_emit (leads_modify ((hd.trans (e.spares_asked _)).trans
        (Engine.spares_clear _ s))))
    · exact leads_pure hd
    all_goals exact spares_flushReg hd
  · exact leads_pure hd

theorem spares_setKnown {w : Word} (hd : d.Spares Set.univ e) :
    Leads (setKnown s w) e fun _ e' => d.Spares Set.univ e' := by
  unfold setKnown
  simp only
  refine leads_require fun _ => leads_requireSlot (leads_get ?_)
  split
  · exact leads_bind (leads_emit (leads_modify ((hd.trans (e.spares_asked _)).trans
      ((Engine.spares_setHolding _ _ _).trans (Engine.spares_setResidence _ trivial)))))
  · exact leads_modify (hd.trans ((e.spares_detach s).trans
      (Engine.spares_setResidence _ trivial)))

/-! ## Mappings -/

/-- The change spares the slots outside `S`, and those of `G` among them are in guest storage now.
-/
structure Engine.Forfeits (S G : Set Slot) (e e' : Engine) : Prop extends e.Spares S e' where
  gone : ∀ t ∈ G, t ∉ S → e'.residence t = .guest

namespace Engine

theorem Forfeits.trans (h : e.Forfeits S G e') (h' : e'.Spares S e'') : e.Forfeits S G e'' :=
  ⟨h.toSpares.trans h', fun t ht hS => h'.guest t hS (h.gone t ht hS)⟩

/-- Nothing has been evicted. -/
theorem Spares.forfeits (h : e.Spares S e') (hG : ∀ t, t ∉ G) : e.Forfeits S G e' :=
  ⟨h, fun t ht => absurd ht (hG t)⟩

theorem Forfeits.of_spares (h : d.Spares S e) (h' : e.Forfeits S G e') : d.Forfeits S G e' :=
  ⟨h.trans h'.toSpares, h'.gone⟩

end Engine

/-- Storage without content, for what does not depend on it. -/
def Storage.zeros : Storage := ⟨fun _ => 0, fun _ _ => 0, fun _ => 0⟩

/-- The tables alone, with every slot lost. -/
theorem Tables.coherent (ht : Tables e) (base : UInt64) (x : Storage) :
    Coherent base (fun s => (e.residence s).known?.getD 0) Set.univ e x :=
  ⟨ht, fun _ _ _ _ _ h => absurd trivial h, fun _ _ _ _ _ _ h => absurd trivial h,
    fun _ _ h => absurd trivial h, fun s v hv => by rw [hv]; rfl⟩

/-- **A register is handed out.** If it is evicted as dead, its slots are in guest storage. -/
theorem forfeits_alloc (S : Set Slot) (ht : Tables e) :
    Leads (alloc bank) e fun _ e' => e.Forfeits S (e.givenUp bank) e' := by
  unfold alloc
  refine leads_get ?_
  cases hfree : e.findFree bank with
  | some r =>
    refine leads_pure ((Engine.Spares.refl S e).forfeits fun t hin => ?_)
    rw [hin.1] at hfree
    exact nomatch hfree
  | none =>
    cases hvictim : e.victim bank with
    | none => exact leads_violate
    | some v =>
      obtain ⟨r, dead⟩ := v
      have hcount : e.Spares S { e with spills := e.spills + 1 } :=
        ⟨⟨rfl, rfl, rfl, fun _ => rfl⟩, fun _ _ h => h, fun _ _ => rfl, fun _ => rfl⟩
      refine leads_set ?_
      cases dead with
      | false =>
        refine leads_bind ((spares_flushReg hcount).mono fun _ e' h => leads_pure ?_)
        refine h.forfeits fun t hin => ?_
        obtain ⟨-, q, hq, -⟩ := hin
        rw [hvictim] at hq
        exact nomatch hq
      | true =>
        have hres := (ht.of_isEvictable (e.victim_spec hvictim).2).2
        have halike : e.Alike { e with spills := e.spills + 1 } :=
          ⟨rfl, rfl, rfl, fun _ => rfl, fun _ => rfl, fun _ => rfl⟩
        have hempty := (after_discard (r := r) ((ht.coherent 0 .zeros).of_alike halike)
          (fun s hs => (hres s hs).2) (Set.subset_univ _) fun _ _ => trivial).leads
            (P := fun _ e' => ∀ t ∈ e.givenUp bank, e'.residence t = .guest)
            fun _ e' y h t hin => by
              obtain ⟨-, q, hq, hlives⟩ := hin
              rw [hvictim] at hq
              cases hq
              exact h.2.gone t hlives
        refine leads_bind (leads_modify (leads_pure ?_))
        exact ⟨hcount.trans (Engine.spares_discard _ r), fun t hin _ => hempty _ _ rfl t hin⟩

/-- A register that has been handed out takes up an integer slot. -/
theorem spares_takeUp {a : Action} {dirty : Bool} {v : Residence} (hs : s ∈ S) :
    Leads (if mode.reads = true then
        emit a >>= fun _ => modify (·.bindInteger s r dirty v) >>= fun _ => pure r
      else modify (·.bindInteger s r false (.host r 0)) >>= fun _ => pure r) e
      fun _ e' => e.Spares S e' := by
  have hbind : ∀ (e : Engine) b v, e.Spares S (e.bindInteger s r b v) :=
    fun e b v => (e.spares_setHolding r _).trans (Engine.spares_setResidence v hs)
  split
  · exact leads_bind (leads_emit (leads_bind (leads_modify (leads_pure
      ((e.spares_asked _).trans (hbind _ _ _))))))
  · exact leads_bind (leads_modify (leads_pure (hbind _ _ _)))

theorem forfeits_bringIn (hs : s ∈ S) (ht : Tables e) :
    Leads (bringIn s mode) e fun _ e' => e.Forfeits S (e.givenUpFor .gpr s) e' := by
  have hset : ∀ (e : Engine) r f v, e.Spares S ((e.modifyHolding r f).setResidence s v) :=
    fun e r f v => (e.spares_setHolding r _).trans (Engine.spares_setResidence v hs)
  -- a slot that lives in a register already takes nothing away
  have hstays : ∀ {q}, (e.residence s).reg? = some q → ∀ t, t ∉ e.givenUpFor .gpr s := by
    intro q hq t hin
    rw [hin.1] at hq
    exact nomatch hq
  have halloc : ∀ {f : HostReg → EngineM HostReg},
      (∀ r e, Leads (f r) e fun _ e' => e.Spares S e') →
      Leads (alloc .gpr >>= f) e fun _ e' => e.Forfeits S (e.givenUpFor .gpr s) e' := by
    intro f hf
    refine leads_bind ((forfeits_alloc S ht).mono fun r e₁ h₁ => (hf r e₁).mono fun _ e' h => ?_)
    exact ⟨(h₁.trans h).toSpares, fun t hin => (h₁.trans h).gone t hin.2⟩
  unfold bringIn
  refine leads_get ?_
  cases hres : e.residence s with
  | host r k => exact leads_pure ((Engine.Spares.refl S e).forfeits (hstays (by rw [hres]; rfl)))
  | hostValue r w =>
    exact leads_pure ((Engine.Spares.refl S e).forfeits (hstays (by rw [hres]; rfl)))
  | pointer r =>
    simp only
    split
    · exact leads_bind (leads_emit (leads_bind (leads_modify (leads_pure
        (((e.spares_asked _).trans (hset _ _ _ _)).forfeits (hstays (by rw [hres]; rfl)))))))
    · exact leads_bind (leads_modify (leads_pure
        ((hset _ _ _ _).forfeits (hstays (by rw [hres]; rfl)))))
  | value w => exact halloc fun r e₁ => spares_takeUp hs
  | guest => exact halloc fun r e₁ => spares_takeUp hs

theorem forfeits_mapInteger (hs : s ∈ S) (ht : Tables e) :
    Leads (mapInteger s mode) e fun _ e' => e.Forfeits S ((e.lock s).givenUpFor .gpr s) e' := by
  unfold mapInteger
  simp only
  refine leads_require fun _ => leads_bind (leads_requireSlot (leads_modify ?_))
  refine leads_bind ((forfeits_bringIn hs (ht.of_alike (e.alike_lock s))).mono fun r e₁ h => ?_)
  have h₁ := h.of_spares (Engine.spares_lock hs)
  split
  · exact leads_bind (leads_modify (leads_pure (h₁.trans
      ((e₁.spares_setHolding r _).trans (Engine.spares_setResidence _ hs)))))
  · exact leads_pure h₁

theorem forfeits_mapPointer (hs : s ∈ S) (ht : Tables e) :
    Leads (mapPointer s) e fun _ e' => e.Forfeits S ((e.lock s).givenUpFor .gpr s) e' := by
  have hpoint : Leads (mapInteger s .read >>= fun r => emit (.addBase r) >>= fun _ =>
      modify (fun e => (e.modifyHolding r fun h =>
        { h with pointer := true, normalized := false }).setResidence s (.pointer r)) >>= fun _ =>
      pure r) e fun _ e' => e.Forfeits S ((e.lock s).givenUpFor .gpr s) e' := by
    refine leads_bind ((forfeits_mapInteger hs ht).mono fun r e₁ h₁ => ?_)
    exact leads_bind (leads_emit (leads_bind (leads_modify (leads_pure (h₁.trans
      ((e₁.spares_asked _).trans
        ((Engine.spares_setHolding _ r _).trans (Engine.spares_setResidence _ hs))))))))
  unfold mapPointer
  refine leads_requireSlot (leads_get ?_)
  cases hres : e.residence s with
  | pointer r =>
    refine leads_bind (leads_modify (leads_pure ((Engine.spares_lock hs).forfeits fun t hin => ?_)))
    have hnone := hin.1
    rw [(e.alike_lock s).residence, hres] at hnone
    exact nomatch hnone
  | guest => exact hpoint
  | value w => exact hpoint
  | host r k => exact hpoint
  | hostValue r w => exact hpoint

/-- Reserving a register and taking that back later leaves the reservations as they were. -/
theorem Engine.Forfeits.unreserve {group : HostReg}
    (h : (e.reserve group true).Forfeits S G e') :
    e.Forfeits S G (e'.reserve group (e.hostAt group).reserved) := by
  have hout := e.alike_reserve group true
  have hback := e'.alike_reserve group (e.hostAt group).reserved
  refine ⟨⟨⟨?_, ?_, ?_, fun t => ?_⟩, fun t ht hguest => ?_, h.locked, fun r => ?_⟩, fun t hG hS => ?_⟩
  · rw [hback.host, h.host, hout.host]
  · rw [hback.policy, h.policy, hout.policy]
  · rw [hback.size, h.size, hout.size]
  · rw [hback.isStatic, h.isStatic, hout.isStatic]
  · rw [hback.residence]
    exact h.guest t ht (by rw [hout.residence]; exact hguest)
  · unfold Engine.reserve
    rw [hostAt_setHost]
    split
    · rename_i hr
      rw [hr.1]
    · rename_i hr
      rw [h.reserved r]
      unfold Engine.reserve
      rw [hostAt_setHost]
      split
      · rename_i hr'
        refine absurd ⟨hr'.1, ?_⟩ hr
        rw [h.size, hout.size]
        exact hr'.2
      · rfl
  · rw [hback.residence]
    exact h.gone t hG hS

theorem forfeits_leaveGroup {group : HostReg} (hs : s ∈ S) (ht : Tables e) :
    Leads (leaveGroup s group mode) e fun _ e' =>
      e.Forfeits S ((e.reserve group true).givenUp .fpr) e' := by
  have hbind : ∀ (e : Engine) r b, e.Spares S ((e.clear s).bindScalar s r b) :=
    fun e r b => ((e.spares_clear s).trans (Engine.spares_setHolding _ r _)).trans
      (Engine.spares_setResidence _ hs)
  unfold leaveGroup
  refine leads_get (leads_set ?_)
  refine leads_bind ((forfeits_alloc S (ht.of_alike (e.alike_reserve group true))).mono
    fun r e₁ h₁ => leads_bind (leads_modify ?_))
  replace h₁ := h₁.unreserve
  split
  · exact leads_bind (leads_emit (leads_bind (leads_modify (leads_pure
      (h₁.trans ((Engine.spares_asked _ _).trans (hbind _ _ _)))))))
  · exact leads_bind (leads_modify (leads_pure (h₁.trans (hbind _ _ _))))

theorem forfeits_mapFloat (hs : s ∈ S) (ht : Tables e) :
    Leads (mapFloat s mode) e fun _ e' => e.Forfeits S (e.givenUpForFloat s) e' := by
  have halike := e.alike_lock s
  have hlock : e.Spares S (e.lock s) := Engine.spares_lock hs
  unfold mapFloat
  simp only
  refine leads_require fun _ => leads_bind (leads_requireSlot (leads_modify (leads_get ?_)))
  rw [halike.residence]
  cases hres : (e.residence s).reg? with
  | none =>
    refine leads_bind ((forfeits_alloc S (ht.of_alike halike)).mono fun r e₁ h₁ => ?_)
    have hbind : ∀ (e : Engine) b, e.Spares S (e.bindScalar s r b) :=
      fun e b => (e.spares_setHolding r _).trans (Engine.spares_setResidence _ hs)
    have hgone : e.Forfeits S (e.givenUpForFloat s) e₁ := by
      refine ⟨hlock.trans h₁.toSpares, fun t hin => h₁.gone t ?_⟩
      obtain hin | ⟨q, hq, -⟩ := hin
      · exact hin.2
      · rw [hres] at hq
        exact nomatch hq
    split
    · exact leads_bind (leads_emit (leads_bind (leads_modify (leads_pure
        (hgone.trans ((e₁.spares_asked _).trans (hbind _ _)))))))
    · exact leads_bind (leads_modify (leads_pure (hgone.trans (hbind _ _))))
  | some r =>
    -- a slot in a register needs another one only to leave a group
    have hstays : (∀ t, t ∉ ((e.lock s).reserve r true).givenUp .fpr) ∨
        e.holdsGroup r = false ∨ (e.residents r).length = 1 → ∀ t, t ∉ e.givenUpForFloat s := by
      rintro hcase t (hin | ⟨q, hq, hgroup, hlen, hin⟩)
      · have hnone := hin.1
        rw [halike.residence, hres] at hnone
        exact nomatch hnone
      · rw [hres] at hq
        cases hq
        obtain hno | hno | hone := hcase
        · exact hno t hin
        · rw [hgroup] at hno
          exact nomatch hno
        · exact hlen hone
    have hset : ∀ (e : Engine) f v, e.Spares S ((e.modifyHolding r f).setResidence s v) :=
      fun e f v => (e.spares_setHolding r _).trans (Engine.spares_setResidence v hs)
    simp only
    split
    · rename_i hgroup
      have hscalar : (e.lock s).holdsGroup r = false := by simpa using hgroup
      have hG := hstays (Or.inr (Or.inl hscalar))
      split
      · exact leads_bind (leads_modify (leads_pure
          ((hlock.trans (Engine.spares_setHolding _ r _)).forfeits hG)))
      · exact leads_pure (hlock.forfeits hG)
    · rename_i hgroup
      rw [halike.residents]
      split
      · rename_i hlen
        have hG := hstays (Or.inr (Or.inr hlen))
        refine leads_bind ?_
        unfold shrinkGroup
        refine leads_get ?_
        simp only
        split
        · exact leads_bind (leads_emit (leads_modify (leads_pure
            ((hlock.trans ((Engine.spares_asked _ _).trans (hset _ _ _))).forfeits hG))))
        · exact leads_modify (leads_pure ((hlock.trans (hset _ _ _)).forfeits hG))
      · refine (forfeits_leaveGroup hs (ht.of_alike halike)).mono fun _ e' h => ?_
        refine ⟨hlock.trans h.toSpares, fun t hin => h.gone t ?_⟩
        obtain hin | ⟨q, hq, -, -, hin⟩ := hin
        · have hnone := hin.1
          rw [halike.residence, hres] at hnone
          exact nomatch hnone
        · rw [hres] at hq
          cases hq
          exact hin

/-- A register takes up a group. -/
theorem spares_fill {first : Slot} {isBase : Bool} (hS : groupSlots first ⊆ S) :
    Leads (if mode.reads = true then
        get >>= fun d => compose first r isBase >>= fun _ =>
          modify (fun e => (e.gather first r).bindGroup first r
            (d.groupDirty first || mode.writes)) >>= fun _ => pure r
      else modify (fun e => (e.gather first r).bindGroup first r true) >>= fun _ => pure r) e
      fun _ e' => e.Spares S e' := by
  have hbind : ∀ (e : Engine) b, e.Spares S ((e.gather first r).bindGroup first r b) :=
    fun e b => (e.spares_gather first r).trans (Engine.spares_bindGroup hS r b)
  split
  · refine leads_get (leads_bind ?_)
    unfold compose
    refine leads_get ?_
    simp only
    split
    · exact leads_emit (leads_bind (leads_modify (leads_pure
        ((e.spares_asked _).trans (hbind _ _)))))
    · exact leads_emit (leads_bind (leads_modify (leads_pure
        ((e.spares_asked _).trans (hbind _ _)))))
  · exact leads_bind (leads_modify (leads_pure (hbind _ _)))

theorem Engine.spares_lockGroup {first : Slot} (hS : groupSlots first ⊆ S) :
    e.Spares S (e.lockGroup first) :=
  Spares.foldl _
    (fun _ k hk => spares_lock (hS (mem_groupSlots.mpr ⟨k, List.mem_range.mp hk, rfl⟩))) e

theorem forfeits_mapGroup {first : Slot} (hS : groupSlots first ⊆ S) (ht : Tables e) :
    Leads (mapGroup first mode) e fun _ e' => e.Forfeits S (e.givenUpForGroup first) e' := by
  unfold mapGroup
  simp only
  refine leads_require fun _ => leads_lift fun _ _ => leads_require fun _ => ?_
  refine leads_bind (leads_modify (leads_get ?_))
  have hlock : e.Spares S (e.lockGroup first) := Engine.spares_lockGroup hS
  have ht₀ := ht.of_alike (e.alike_lockGroup first)
  unfold Engine.givenUpForGroup
  rw [show (List.range 4).foldl (fun e k => e.lock (first + k)) e = e.lockGroup first from rfl]
  generalize e.lockGroup first = d at hlock ht₀
  split
  · rename_i r hgroup hfull
    have hG : ∀ t, t ∉ {t | d.groupBase first = none ∧ t ∈ d.givenUp .fpr} := by
      intro t hin
      have hbase := hin.1
      unfold Engine.groupBase at hbase
      rw [hfull, if_pos (by decide), hgroup] at hbase
      exact nomatch hbase
    split
    · exact leads_bind (leads_modify (leads_pure
        ((hlock.trans (Engine.spares_setHolding _ r _)).forfeits hG)))
    · exact leads_pure (hlock.forfeits hG)
  · have hbase : (if 2 ≤ ((d.groupRegister first).map fun r => (d.residents r).length).getD 0 then
        d.groupRegister first else none) = d.groupBase first := rfl
    rw [hbase]
    cases hgroup : d.groupBase first with
    | some r =>
      refine (spares_fill hS).mono fun _ e' h => (hlock.trans h).forfeits fun t hin => ?_
      exact nomatch hin.1
    | none =>
      refine leads_bind ((forfeits_alloc S ht₀).mono fun r e₁ h₁ => (spares_fill hS).mono
        fun _ e' h => ?_)
      exact ⟨hlock.trans (h₁.trans h).toSpares, fun t hin => (h₁.trans h).gone t hin.2⟩

/-! ## What is given up is not what is mapped -/

theorem Tables.locked_of_givenUp (ht : Tables e) (hs : s ∈ e.givenUp bank) :
    (e.slotAt s).locked = false := by
  obtain ⟨-, r, hvictim, hlives⟩ := hs
  exact ((ht.of_isEvictable (e.victim_spec hvictim).2).2 s hlives).1

theorem lt_count_of_givenUp (hs : s ∈ e.givenUp bank) : s < Slot.count := by
  obtain ⟨-, r, -, hlives⟩ := hs
  exact Tables.lt_count hlives

theorem Engine.locked_lock_of_locked {t : Slot} (h : (e.slotAt t).locked = true) :
    ((e.lock s).slotAt t).locked = true := by
  unfold lock
  rw [slotAt_setSlot]
  split
  · rfl
  · exact h

/-- The slots of a group are locked, as far as they exist. -/
theorem Engine.locked_lockGroup {first t : Slot} (ht : t ∈ groupSlots first)
    (hcount : t < Slot.count) : ((e.lockGroup first).slotAt t).locked = true := by
  obtain ⟨k, hk, rfl⟩ := mem_groupSlots.mp ht
  have hkeeps : ∀ (lanes : List Nat) (d : Engine), (d.slotAt (first + k)).locked = true →
      ((lanes.foldl (fun e k => e.lock (first + k)) d).slotAt (first + k)).locked = true := by
    intro lanes
    induction lanes with
    | nil => exact fun d h => h
    | cons j lanes ih => exact fun d h => ih _ (locked_lock_of_locked h)
  have hlocks : ∀ (lanes : List Nat) (d : Engine), k ∈ lanes →
      ((lanes.foldl (fun e k => e.lock (first + k)) d).slotAt (first + k)).locked = true := by
    intro lanes
    induction lanes with
    | nil => exact fun d h => absurd h List.not_mem_nil
    | cons j lanes ih =>
      intro d h
      rcases List.mem_cons.mp h with rfl | h
      · exact hkeeps lanes _ (d.locked_lock hcount)
      · exact ih _ h
  exact hlocks _ e (List.mem_range.mpr hk)

namespace Request

/-- The slots of a mapping are locked before it asks for a register. -/
theorem not_mem_slots_of_givenUp (q : Request) (ht : Tables e) (hs : s ∈ q.givenUp e) :
    s ∉ q.slots := by
  -- a slot that is to be brought in lives in no register, so that it is not evicted from one
  have halone : ∀ {t bank}, s ∈ (e.lock t).givenUpFor bank t → s ≠ t := by
    rintro t bank ⟨hnone, -, r, -, hlives⟩ rfl
    rw [hnone] at hlives
    exact nomatch hlives
  cases q with
  | integer t mode =>
    rw [slots_of_width_one rfl]
    exact halone hs
  | pointer t =>
    rw [slots_of_width_one rfl]
    exact halone hs
  | float t mode =>
    rw [slots_of_width_one rfl]
    obtain hs | ⟨group, -, -, -, hs⟩ := hs
    · exact halone hs
    · rintro rfl
      have hreserved := (ht.of_alike (e.alike_lock s)).of_alike
        ((e.lock s).alike_reserve group true)
      have hfree : ((e.lock s).slotAt s).locked = false := hreserved.locked_of_givenUp hs
      rw [e.locked_lock (lt_count_of_givenUp hs)] at hfree
      exact nomatch hfree
  | group first mode =>
    intro hin
    replace hin : s ∈ groupSlots first := hin
    have hfree := (ht.of_alike (e.alike_lockGroup first)).locked_of_givenUp hs.2
    rw [Engine.locked_lockGroup hin (lt_count_of_givenUp hs.2)] at hfree
    exact nomatch hfree

/-- **A mapping spares every other slot, and what it gives up is in guest storage.** -/
theorem forfeits_run (q : Request) (ht : Tables e) :
    Leads q.run e fun _ e' => e.Forfeits q.slots (q.givenUp e) e' := by
  have hfirst : ∀ {q : Request}, q.width = 1 → q.first ∈ q.slots := by
    intro q hw
    rw [slots_of_width_one hw]
    rfl
  cases q with
  | integer s mode => exact forfeits_mapInteger (hfirst rfl) ht
  | pointer s => exact forfeits_mapPointer (hfirst rfl) ht
  | float s mode => exact forfeits_mapFloat (hfirst rfl) ht
  | group first mode => exact forfeits_mapGroup (fun _ h => h) ht

end Request

end Dynarec.Registers
