/-
Where mappings put slots, and what they leave in place.

A mapping is about some slots. `e.Framed S e'` says what it does to everything else: a slot outside
`S` stays where it is, lane included, or else it was not locked and is in guest storage now; no
lock is dropped and no reservation changes; a register that takes something up was not reserved; and
a register becomes a group only for slots of `S`. The three changes that mappings are
made of have such frames: slots leave their registers, a register is emptied and handed out, and a
register takes up slots.

The slots of the mapping itself are in the lanes of the register that is returned
(`Engine.Houses`), and they are locked. So a later mapping of other slots leaves them there.
-/
import Dynarec.Proofs.Registers.Supply

set_option autoImplicit false

namespace Dynarec.Registers

variable {S S' : Set Slot} {e e' e'' : Engine} {bank : Bank} {r : HostReg} {s : Slot}
  {h : Holding} {mode : Mode}

/-! ## Frames -/

namespace Engine

/-- The change from `e` to `e'` is about the slots of `S`: any other slot keeps its place, unless it
was not locked and has been put back into guest storage. Locks and reservations stay, what is taken
up goes to registers that are not reserved, and a new group is one of slots of `S`. -/
structure Framed (S : Set Slot) (e e' : Engine) : Prop extends e.Kin e' where
  kept : ∀ t, t ∉ S → e'.residence t = e.residence t ∨
    e'.residence t = .guest ∧ (e.slotAt t).locked = false
  unlocked : ∀ t, t ∉ S → (e'.slotAt t).locked = (e.slotAt t).locked
  locked : ∀ t, (e.slotAt t).locked = true → (e'.slotAt t).locked = true
  reserved : ∀ q, (e'.hostAt q).reserved = (e.hostAt q).reserved
  taken : ∀ q g, e'.holding q = some g → e.holding q = none → (e.hostAt q).reserved = false
  groups : ∀ q g, e'.holding q = some g → g.isGroup = true →
    (∀ t, g.Spans t → t ∈ S) ∨
      ∃ g', e.holding q = some g' ∧ g'.isGroup = true ∧ g'.first = g.first

/-- Neither a lock nor a reservation has changed. -/
structure SameLocks (e e' : Engine) : Prop where
  locked : ∀ t, (e'.slotAt t).locked = (e.slotAt t).locked
  reserved : ∀ q, (e'.hostAt q).reserved = (e.hostAt q).reserved

theorem SameLocks.trans (h : e.SameLocks e') (h' : e'.SameLocks e'') : e.SameLocks e'' :=
  ⟨fun t => (h'.locked t).trans (h.locked t), fun q => (h'.reserved q).trans (h.reserved q)⟩

/-- What spares every slot changes no lock. -/
theorem Spares.sameLocks (h : e.Spares ∅ e') : e.SameLocks e' :=
  ⟨fun t => h.locked t (Set.notMem_empty t), h.reserved⟩

theorem sameLocks_setResidence (e : Engine) (s : Slot) (v : Residence) :
    e.SameLocks (e.setResidence s v) := by
  refine ⟨fun t => ?_, fun _ => rfl⟩
  unfold setResidence
  rw [slotAt_setSlot]
  split
  · rename_i ht
    rw [ht.1]
  · rfl

theorem sameLocks_set (e : Engine) (r : HostReg) (g : Option Holding) (s : Slot) (v : Residence) :
    e.SameLocks ((e.setHolding r g).setResidence s v) :=
  (e.spares_setHolding r g).sameLocks.trans (sameLocks_setResidence _ s v)

theorem sameLocks_bindGroup (e : Engine) (first : Slot) (r : HostReg) (dirty : Bool) :
    e.SameLocks (e.bindGroup first r dirty) := by
  have hfold : ∀ (lanes : List Nat) (d : Engine), d.SameLocks
      (lanes.foldl (fun e k => e.setResidence (first + k) (.host r k)) d) := by
    intro lanes
    induction lanes with
    | nil => exact fun d => (Spares.refl ∅ d).sameLocks
    | cons k lanes ih => exact fun d => (d.sameLocks_setResidence _ _).trans (ih _)
  exact (e.spares_setHolding r _).sameLocks.trans (hfold _ _)

theorem Framed.trans (h : e.Framed S e') (h' : e'.Framed S e'') : e.Framed S e'' := by
  refine ⟨h.toKin.trans h'.toKin, ?kept, ?unlocked, ?locked, ?reserved, ?taken, ?groups⟩
  case kept =>
    intro t ht
    obtain hsame | ⟨hguest, hfree⟩ := h'.kept t ht
    · rw [hsame]
      exact h.kept t ht
    · exact Or.inr ⟨hguest, (h.unlocked t ht).symm.trans hfree⟩
  case unlocked =>
    exact fun t ht => (h'.unlocked t ht).trans (h.unlocked t ht)
  case locked =>
    exact fun t ht => h'.locked t (h.locked t ht)
  case reserved =>
    exact fun q => (h'.reserved q).trans (h.reserved q)
  case taken =>
    intro q g hg hnone
    cases hq : e'.holding q with
    | none => exact (h.reserved q).symm.trans (h'.taken q g hg hq)
    | some g' => exact h.taken q g' hq hnone
  case groups =>
    intro q g hg hgroup
    -- a group that the second step has not made was there after the first
    obtain hspan | ⟨g', hg', hgroup', hfirst⟩ := h'.groups q g hg hgroup
    · exact Or.inl hspan
    · obtain hspan | ⟨g'', hg'', hgroup'', hfirst'⟩ := h.groups q g' hg' hgroup'
      · refine Or.inl fun t ht => hspan t ?_
        unfold Holding.Spans Holding.width at ht ⊢
        rw [hgroup] at ht
        rwa [hfirst, hgroup']
      · exact Or.inr ⟨g'', hg'', hgroup'', hfirst'.trans hfirst⟩

theorem Framed.mono (h : e.Framed S e') (hS : S ⊆ S') : e.Framed S' e' :=
  ⟨h.toKin, fun t ht => h.kept t fun hin => ht (hS hin),
    fun t ht => h.unlocked t fun hin => ht (hS hin), h.locked, h.reserved, h.taken,
    fun q g hg hgroup => (h.groups q g hg hgroup).imp_left fun hspan t ht => hS (hspan t ht)⟩

/-- A slot outside the frame that lives in no register still does so. -/
theorem Framed.reg_none (h : e.Framed S e') (hs : s ∉ S) (hnone : (e.residence s).reg? = none) :
    (e'.residence s).reg? = none := by
  obtain hsame | ⟨hguest, -⟩ := h.kept s hs
  · rw [hsame, hnone]
  · rw [hguest]
    rfl

/-- The tables read the same. -/
theorem Alike.framed (halike : e.Alike e') (hs : e.Spares S e')
    (hlocked : ∀ t, (e.slotAt t).locked = true → (e'.slotAt t).locked = true) : e.Framed S e' := by
  refine ⟨hs.toKin, fun t _ => Or.inl (halike.residence t), hs.locked, hlocked, hs.reserved, ?_, ?_⟩
  · intro q g hg hnone
    rw [halike.holding, hnone] at hg
    exact nomatch hg
  · intro q g hg hgroup
    rw [halike.holding] at hg
    exact Or.inr ⟨g, hg, hgroup, rfl⟩

theorem Framed.refl (S : Set Slot) (e : Engine) : e.Framed S e :=
  (Alike.refl e).framed (Spares.refl S e) fun _ h => h

theorem framed_asked (e : Engine) (a : Action) : e.Framed S (e.asked a) :=
  (e.alike_asked a).framed (e.spares_asked a) fun _ h => h

theorem framed_lock (hs : s ∈ S) : e.Framed S (e.lock s) :=
  (e.alike_lock s).framed (spares_lock hs) fun _ => locked_lock_of_locked

theorem framed_lockGroup {first : Slot} (hS : groupSlots first ⊆ S) :
    e.Framed S (e.lockGroup first) := by
  refine (e.alike_lockGroup first).framed (spares_lockGroup hS) fun t ht => ?_
  unfold lockGroup
  generalize List.range 4 = lanes
  induction lanes generalizing e with
  | nil => exact ht
  | cons k lanes ih => exact ih (locked_lock_of_locked ht)

/-- A flag of a register changes. -/
theorem framed_flag (e : Engine) (r : HostReg) {f : Holding → Holding}
    (hfirst : ∀ g, (f g).first = g.first) (hgroup : ∀ g, (f g).isGroup = g.isGroup) :
    e.Framed S (e.modifyHolding r f) := by
  have hs : e.Spares ∅ (e.modifyHolding r f) := e.spares_setHolding r _
  refine ⟨hs.toKin, fun t _ => Or.inl rfl, fun t _ => rfl, fun t ht => ht, hs.reserved, ?_, ?_⟩
  · intro q g hg hnone
    obtain ⟨g', hg', -⟩ := of_modifyHolding hg
    rw [hnone] at hg'
    exact nomatch hg'
  · intro q g hg hisGroup
    obtain ⟨g', hg', ⟨-, rfl⟩ | ⟨-, rfl⟩⟩ := of_modifyHolding hg
    · exact Or.inr ⟨_, hg', hisGroup, rfl⟩
    · exact Or.inr ⟨g', hg', (hgroup g').symm.trans hisGroup, (hfirst g').symm⟩

end Engine

/-- Slots of the frame leave their registers. -/
theorem Vacated.framed {V : Set Slot} (hv : Vacated V e e') (hlocks : e.SameLocks e')
    (hS : V ⊆ S) : e.Framed S e' := by
  refine ⟨hv.toKin, fun t ht => Or.inl (hv.kept t fun hin => ht (hS hin)),
    fun t _ => hlocks.locked t, fun t ht => (hlocks.locked t).trans ht, hlocks.reserved, ?_, ?_⟩
  · intro q g hg hnone
    rw [hv.holding q g hg] at hnone
    exact nomatch hnone
  · exact fun q g hg hgroup => Or.inr ⟨g, hv.holding q g hg, hgroup, rfl⟩

/-- A register that is not reserved takes up slots of the frame. -/
theorem Bound.framed (hb : Bound r h e e') (hlocks : e.SameLocks e')
    (hS : ∀ t, h.Spans t → t ∈ S)
    (hspare : e.holding r = none → (e.hostAt r).reserved = false) : e.Framed S e' := by
  refine ⟨hb.toKin, fun t ht => Or.inl (hb.kept t fun hin => ht (hS t hin)),
    fun t _ => hlocks.locked t, fun t ht => (hlocks.locked t).trans ht, hlocks.reserved, ?_, ?_⟩
  · intro q g hg hnone
    by_cases hq : q = r
    · rw [hq] at hnone ⊢
      exact hspare hnone
    · rw [hb.other q hq, hnone] at hg
      exact nomatch hg
  · intro q g hg hgroup
    by_cases hq : q = r
    · rw [hq, hb.here] at hg
      cases hg
      exact Or.inl hS
    · exact Or.inr ⟨g, (hb.other q hq).symm.trans hg, hgroup, rfl⟩

/-! ## Homes -/

/-- The `n` slots from `first` on live in register `r`, which has no lane for another slot. -/
structure Engine.Houses (e : Engine) (first : Slot) (n : Nat) (r : HostReg) : Prop where
  home : ∀ k < n, (e.residence (first + k)).reg? = some r
  held : ∃ h, e.holding r = some h ∧ h.width = n

namespace Engine.Houses

variable {first : Slot} {n : Nat}

theorem of_alike (hh : e.Houses first n r) (halike : e.Alike e') : e'.Houses first n r := by
  refine ⟨fun k hk => ?_, ?_⟩
  · rw [halike.residence]
    exact hh.home k hk
  · rw [halike.holding]
    exact hh.held

/-- A flag changes that has nothing to do with lanes. -/
theorem flag (hh : e.Houses first n r) {f : Holding → Holding}
    (hgroup : ∀ g, (f g).isGroup = g.isGroup) : (e.modifyHolding r f).Houses first n r := by
  obtain ⟨g, hg, hwidth⟩ := hh.held
  refine ⟨hh.home, f g, ?_, ?_⟩
  · rw [e.holding_modifyHolding, if_pos rfl, hg]
    rfl
  · rw [← hwidth]
    unfold Holding.width
    rw [hgroup]

/-- The slots are in the lanes in their order. -/
theorem lane (hh : e.Houses first n r) (ht : Tables e) {k : Nat} (hk : k < n) :
    (e.residence (first + k)).lane = k := by
  obtain ⟨g, hg, hwidth⟩ := hh.held
  -- there are as many lanes as slots, so the first slot is in the first lane
  have hzero := (ht.placed_of (hh.home 0 (Nat.zero_lt_of_lt hk)) hg).spans
  have hlast := (ht.placed_of (hh.home (n - 1) (by omega)) hg).spans
  have hlane := (ht.placed_of (hh.home k hk) hg).lane_eq
  unfold Holding.Spans at hzero hlast
  rw [hwidth] at hzero hlast
  rw [hlane]
  unfold Slot at *
  omega

end Engine.Houses

theorem Bound.houses (hb : Bound r h e e') : e'.Houses h.first h.width r := by
  refine ⟨fun k hk => hb.reg _ ?_, h, hb.here, rfl⟩
  exact ⟨Nat.le_add_right _ _, Nat.add_lt_add_left hk _⟩

theorem Holding.width_eq_one (hg : h.isGroup = false) : h.width = 1 := by
  unfold width
  rw [hg]
  rfl

/-- A slot that is not in a group has its register to itself. -/
theorem Tables.houses_scalar (ht : Tables e) (hs : (e.residence s).reg? = some r)
    (hg : e.holdsGroup r = false) : e.Houses s 1 r := by
  obtain ⟨g, hr, -⟩ := ht.placed s r hs
  rw [Engine.holdsGroup_eq hr] at hg
  refine ⟨fun k hk => ?_, g, hr, Holding.width_eq_one hg⟩
  rw [Nat.lt_one_iff.mp hk]
  exact hs

theorem Tables.houses_integer (ht : Tables e) (hs : (e.residence s).reg? = some r)
    (hint : Slot.isInteger s = true) : e.Houses s 1 r := by
  obtain ⟨g, hr, -⟩ := ht.placed s r hs
  refine ht.houses_scalar hs ?_
  rw [Engine.holdsGroup_eq hr]
  exact ((ht.suits r g hr).gpr ((ht.bankOf_eq hs).mpr hint)).1

/-! ## Handing out -/

/-- The register is of the class, not reserved, and nothing lives in it. -/
structure Engine.Vacant (e : Engine) (bank : Bank) (r : HostReg) : Prop where
  lt : r < e.hosts.size
  bank : e.host.bankOf r = bank
  empty : ∀ s, (e.residence s).reg? ≠ some r
  spare : (e.hostAt r).reserved = false

theorem Engine.Vacant.asked (hv : e.Vacant bank r) (a : Action) : (e.asked a).Vacant bank r :=
  ⟨hv.lt, hv.bank, hv.empty, hv.spare⟩

/-- Handing out a register moves no slot that is locked. -/
theorem Handed.framed {x y : Storage} (hh : Handed bank e r e' x y) (hs : e.Spares ∅ e') :
    e.Framed S e' := by
  refine ⟨hs.toKin, ?_, fun t _ => hs.sameLocks.locked t,
    fun t ht => (hs.sameLocks.locked t).trans ht, hs.reserved, ?_, ?_⟩
  · intro t _
    by_cases ht : (e.residence t).reg? = some r
    · exact Or.inr ⟨hh.gone t ht, hh.unlocked t ht⟩
    · exact Or.inl (hh.kept t ht)
  · intro q g hg hnone
    by_cases hq : q = r
    · rw [hq, hh.free] at hg
      exact nomatch hg
    · rw [(hh.other q hq).1, hnone] at hg
      exact nomatch hg
  · intro q g hg hgroup
    by_cases hq : q = r
    · rw [hq, hh.free] at hg
      exact nomatch hg
    · exact Or.inr ⟨g, (hh.other q hq).1.symm.trans hg, hgroup, rfl⟩

/-- The register was handed out while another one was reserved. -/
theorem Handed.unreserve {x y : Storage} {group : HostReg} {b : Bool}
    (hh : Handed bank (e.reserve group true) r e' x y) :
    Handed bank e r (e'.reserve group b) x y := by
  -- setting a register aside, before and after, shows in neither table
  have hout := e.alike_reserve group true
  have hback := e'.alike_reserve group b
  have hspare : (e.hostAt r).reserved = false := by
    have hfree := hh.spare
    unfold Engine.reserve at hfree
    rw [Engine.hostAt_setHost] at hfree
    split at hfree
    · exact nomatch hfree
    · exact hfree
  refine ⟨⟨?_, ?_, ?_, ?_, ?_, ?_⟩, hh.listed, hspare, ?_⟩
  · exact hh.host
  · rw [hback.holding]
    exact hh.free
  · intro t ht
    rw [hback.residence]
    exact hh.gone t (by rw [hout.residence]; exact ht)
  · intro t ht
    rw [hback.residence, hh.kept t (by rw [hout.residence]; exact ht), hout.residence]
  · intro q hq
    rw [hback.holding, ← hout.holding]
    exact hh.other q hq
  · intro t ht
    exact hh.guest t (by rw [hout.residence]; exact ht)
  · exact fun t ht => hh.unlocked t (by rw [hout.residence]; exact ht)

/-- A register that has been handed out can be used. -/
theorem Handed.vacant {x y : Storage} (hh : Handed bank e r e' x y) (ht : Tables e')
    (hs : e.Spares ∅ e') : e'.Vacant bank r := by
  obtain ⟨hlt, hbank, hempty⟩ := hh.fresh (ht.coherent 0 y)
  exact ⟨hlt, hbank, hempty, (hs.reserved r).trans hh.spare⟩

theorem leads_handed (ht : Tables e) :
    Leads (alloc bank) e fun r e' => e.Forfeits ∅ (e.givenUp bank) e' ∧ Tables e' ∧
      ∃ x y, Handed bank e r e' x y :=
  (forfeits_alloc ∅ ht).and ((after_alloc bank (ht.coherent 0 .zeros)).leads
    fun _ _ y h => ⟨h.1.toTables, .zeros, y, h.2⟩)

/-- **A register is handed out**: it can be used, and no locked slot has moved. -/
theorem leads_alloc (ht : Tables e) :
    Leads (alloc bank) e fun r e' => e.Framed ∅ e' ∧ e'.Vacant bank r :=
  (leads_handed ht).mono fun _ _ ⟨hf, ht', _, _, hh⟩ =>
    ⟨hh.framed hf.toSpares, hh.vacant ht' hf.toSpares⟩

/-! ## Integer slots -/

/-- A register that has been handed out takes up an integer slot. -/
theorem framed_takeUp {a : Action} {dirty : Bool} {v : Residence} (hvac : e.Vacant .gpr r)
    (hs : s < Slot.count) (hint : Slot.isInteger s = true) (hnone : (e.residence s).reg? = none)
    (hv : v.reg? = some r) (hlane : v.lane = 0) (hne : v ≠ .pointer r) :
    Leads (if mode.reads = true then
        emit a >>= fun _ => modify (·.bindInteger s r dirty v) >>= fun _ => pure r
      else modify (·.bindInteger s r false (.host r 0)) >>= fun _ => pure r) e
      fun r' e' => e.Framed {s} e' ∧ e'.Houses s 1 r' := by
  have hbind : ∀ (d : Engine) b v, d.Vacant .gpr r → (d.residence s).reg? = none →
      v.reg? = some r → v.lane = 0 → v ≠ .pointer r →
      d.Framed {s} (d.bindInteger s r b v) ∧ (d.bindInteger s r b v).Houses s 1 r := by
    intro d b v hvac hnone hv hlane hne
    have hb := bound_bindInteger b hs hint hvac.lt hvac.bank hvac.empty hnone hv hlane hne
    refine ⟨hb.framed (d.sameLocks_set r _ s v) ?_ fun _ => hvac.spare, hb.houses⟩
    exact fun t ht => (Holding.spans_scalar rfl t).mp ht
  split
  · obtain ⟨hf, hh⟩ := hbind (e.asked a) dirty v (hvac.asked a) hnone hv hlane hne
    exact leads_bind (leads_emit (leads_bind (leads_modify (leads_pure
      ⟨(e.framed_asked a).trans hf, hh⟩))))
  · exact leads_bind (leads_modify (leads_pure
      (hbind e false _ hvac hnone rfl rfl fun h => nomatch h)))

/-- An integer slot that has a register is said to live there in another way. -/
theorem Tables.framed_restate {f : Holding → Holding} {v : Residence} (ht : Tables e)
    (hs : (e.residence s).reg? = some r) (hint : Slot.isInteger s = true)
    (hfirst : ∀ g, (f g).first = g.first) (hgroup : ∀ g, (f g).isGroup = g.isGroup)
    (hv : v.reg? = some r) (hlane : v.lane = 0)
    (hpointer : ∀ g, (f g).pointer = true ↔ v = .pointer r) :
    e.Framed {s} ((e.modifyHolding r f).setResidence s v) ∧
      ((e.modifyHolding r f).setResidence s v).Houses s 1 r := by
  obtain ⟨g, hr, -⟩ := ht.placed s r hs
  have hmodify := restated_modify (s := s) hr f
  have hrs := hmodify.trans (restated_setResidence hmodify.here (Tables.lt_count hs) v)
  have hb := ht.bound_restate hs hint hr hrs (hfirst g) (hgroup g) hv hlane (hpointer g)
  obtain ⟨hscalar, -⟩ := (ht.suits r g hr).gpr ((ht.bankOf_eq hs).mpr hint)
  have hslot : (f g).first = s := (hfirst g).trans (ht.eq_first hs hr hscalar).symm
  have hone : (f g).isGroup = false := (hgroup g).trans hscalar
  refine ⟨hb.framed (e.sameLocks_set r _ s v) ?_ ?_, ?_⟩
  · intro t ht'
    rw [Holding.spans_scalar hone, hslot] at ht'
    exact ht'
  · intro hnone
    rw [hr] at hnone
    exact nomatch hnone
  · have hhouses := hb.houses
    rw [hslot, Holding.width_eq_one hone] at hhouses
    exact hhouses

/-- The tables after an integer slot has been brought in, and where it is. -/
theorem framed_bringIn (ht : Tables e) (hs : s < Slot.count) (hint : Slot.isInteger s = true) :
    Leads (bringIn s mode) e fun r e' => e.Framed {s} e' ∧ e'.Houses s 1 r := by
  have hstays : ∀ {q}, (e.residence s).reg? = some q → e.Framed {s} e ∧ e.Houses s 1 q :=
    fun hq => ⟨Engine.Framed.refl _ e, ht.houses_integer hq hint⟩
  -- a slot that lives in no register still does so when one has been handed out
  have halloc : ∀ {f : HostReg → EngineM HostReg}, (e.residence s).reg? = none →
      (∀ r (d : Engine), d.Vacant .gpr r → (d.residence s).reg? = none →
        Leads (f r) d fun r' e' => d.Framed {s} e' ∧ e'.Houses s 1 r') →
      Leads (alloc .gpr >>= f) e fun r e' => e.Framed {s} e' ∧ e'.Houses s 1 r := by
    intro f hnone hf
    refine leads_bind ((leads_alloc ht).mono fun r d ⟨hframed, hvac⟩ => ?_)
    have hnone' := hframed.reg_none (Set.notMem_empty s) hnone
    refine (hf r d hvac hnone').mono fun r' e' h => ⟨?_, h.2⟩
    exact (hframed.mono (Set.empty_subset _)).trans h.1
  unfold bringIn
  refine leads_get ?_
  cases hres : e.residence s with
  | host r k => exact leads_pure (hstays (by rw [hres]; rfl))
  | hostValue r w => exact leads_pure (hstays (by rw [hres]; rfl))
  | pointer r =>
    have hreg : (e.residence s).reg? = some r := by rw [hres]; rfl
    have hset : ∀ d : Engine, Tables d → (d.residence s).reg? = some r →
        d.Framed {s} ((d.modifyHolding r fun h =>
            { h with pointer := false, normalized := true }).setResidence s (.host r 0)) ∧
          ((d.modifyHolding r fun h =>
            { h with pointer := false, normalized := true }).setResidence s
              (.host r 0)).Houses s 1 r :=
      fun d hd hr => hd.framed_restate hr hint (fun _ => rfl) (fun _ => rfl) rfl rfl
        fun _ => ⟨(fun h => nomatch h), fun h => nomatch h⟩
    simp only
    split
    · obtain ⟨hf, hh⟩ := hset _ (ht.of_alike (e.alike_asked (.removeBase r))) hreg
      exact leads_bind (leads_emit (leads_bind (leads_modify (leads_pure
        ⟨(e.framed_asked _).trans hf, hh⟩))))
    · exact leads_bind (leads_modify (leads_pure (hset e ht hreg)))
  | value w =>
    exact halloc (by rw [hres]; rfl) fun r d hvac hnone =>
      framed_takeUp hvac hs hint hnone rfl rfl fun h => nomatch h
  | guest =>
    exact halloc (by rw [hres]; rfl) fun r d hvac hnone =>
      framed_takeUp hvac hs hint hnone rfl rfl fun h => nomatch h

/-- The slots from `first` on have been mapped to `r`: the mapping is framed by them, they live
there, and they are locked. -/
structure Engine.Serves (e : Engine) (first : Slot) (n : Nat) (r : HostReg) (e' : Engine) :
    Prop where
  framed : e.Framed {t | first ≤ t ∧ t < first + n} e'
  houses : e'.Houses first n r
  locked : ∀ k < n, (e'.slotAt (first + k)).locked = true

theorem singleton_subset : ({s} : Set Slot) ⊆ {t | s ≤ t ∧ t < s + 1} := by
  intro t (ht : t = s)
  rw [ht]
  exact ⟨Nat.le_refl s, Nat.lt_succ_self s⟩

/-- A change of the mapped slots alone that leaves them in their register. -/
theorem Engine.Serves.again {n : Nat} {first : Slot} (hs : e.Serves first n r e')
    (hf : e'.Framed {t | first ≤ t ∧ t < first + n} e'') (hh : e''.Houses first n r) :
    e.Serves first n r e'' :=
  ⟨hs.framed.trans hf, hh, fun k hk => hf.locked _ (hs.locked k hk)⟩

/-- One slot has been locked and then brought in. -/
theorem Engine.Framed.serves (hs : s < Slot.count) (hf : (e.lock s).Framed {s} e')
    (hh : e'.Houses s 1 r) : e.Serves s 1 r e' := by
  have hlock : e.Framed {s} (e.lock s) := Engine.framed_lock rfl
  refine ⟨(hlock.trans hf).mono singleton_subset, hh, fun k hk => ?_⟩
  rw [Nat.lt_one_iff.mp hk]
  exact hf.locked s (e.locked_lock hs)

theorem leads_lockSlot {β : Type} {f : Unit → EngineM β} {R : β → Engine → Prop}
    (hf : s < Slot.count → Leads (f ()) (e.lock s) R) : Leads (lockSlot s >>= f) e R := by
  refine leads_bind ?_
  unfold lockSlot requireSlot
  split
  · rename_i hs
    exact leads_modify (hf hs)
  · exact fun _ _ h => nomatch h

/-- **An integer slot is mapped** to a register of its own. -/
theorem serves_mapInteger (ht : Tables e) :
    Leads (mapInteger s mode) e fun r e' => e.Serves s 1 r e' := by
  unfold mapInteger
  simp only
  refine leads_require fun hint => leads_lockSlot fun hs => ?_
  have hint : Slot.isInteger s = true := by simpa using hint
  have ht₀ := ht.of_alike (e.alike_lock s)
  have htables : Leads (bringIn s mode) (e.lock s) fun _ e' => Tables e' :=
    (after_bringIn (ht₀.coherent 0 .zeros) hs hint (e.locked_lock hs)).leads
      fun _ _ _ h => h.1.toTables
  refine leads_bind (((framed_bringIn ht₀ hs hint).and htables).mono
    fun r d ⟨⟨hf, hh⟩, htd⟩ => ?_)
  split
  · -- the register counts as dirty, and what was known of the slot is dropped
    have hreg : (d.residence s).reg? = some r := hh.home 0 Nat.zero_lt_one
    obtain ⟨hf', hh'⟩ := htd.framed_restate (v := .host r 0) hreg hint (f := fun h =>
      { h with dirty := true, pointer := false, normalized := true }) (fun _ => rfl)
      (fun _ => rfl) rfl rfl fun _ => ⟨(fun h => nomatch h), fun h => nomatch h⟩
    exact leads_bind (leads_modify (leads_pure ((hf.trans hf').serves hs hh')))
  · exact leads_pure (hf.serves hs hh)

/-- **An integer slot is mapped as a pointer** to a register of its own. -/
theorem serves_mapPointer (ht : Tables e) :
    Leads (mapPointer s) e fun r e' => e.Serves s 1 r e' := by
  have hpoint : Leads (mapInteger s .read >>= fun r => emit (.addBase r) >>= fun _ =>
      modify (fun e => (e.modifyHolding r fun h =>
        { h with pointer := true, normalized := false }).setResidence s (.pointer r)) >>= fun _ =>
      pure r) e fun r e' => e.Serves s 1 r e' := by
    have hafter : Leads (mapInteger s .read) e fun _ e' => Tables e' ∧ Slot.isInteger s = true :=
      (after_mapInteger (ht.coherent 0 .zeros)).leads fun _ _ _ h => ⟨h.1.toTables, h.2.1⟩
    refine leads_bind (((serves_mapInteger ht).and hafter).mono
      fun r d ⟨hserves, htd, hint⟩ => ?_)
    have hreg : (d.residence s).reg? = some r := hserves.houses.home 0 Nat.zero_lt_one
    obtain ⟨hf, hh⟩ := (htd.of_alike (d.alike_asked (.addBase r))).framed_restate
      (v := .pointer r) hreg hint (f := fun h => { h with pointer := true, normalized := false })
      (fun _ => rfl) (fun _ => rfl) rfl rfl fun _ => ⟨fun _ => rfl, fun _ => rfl⟩
    refine leads_bind (leads_emit (leads_bind (leads_modify (leads_pure ?_))))
    exact hserves.again (((d.framed_asked _).trans hf).mono singleton_subset) hh
  unfold mapPointer
  refine leads_requireSlot (leads_get ?_)
  cases hres : e.residence s with
  | pointer r =>
    have hreg : (e.residence s).reg? = some r := by rw [hres]; rfl
    -- a float slot is never a pointer
    have hint : Slot.isInteger s = true := by
      refine Bool.of_not_eq_false fun hfloat => ?_
      rw [ht.residence_float hreg hfloat] at hres
      exact nomatch hres
    refine leads_bind (leads_modify (leads_pure ?_))
    exact (Engine.Framed.refl _ _).serves (Tables.lt_count hreg)
      ((ht.houses_integer hreg hint).of_alike (e.alike_lock s))
  | guest => exact hpoint
  | value w => exact hpoint
  | host r k => exact hpoint
  | hostValue r w => exact hpoint

/-! ## Float slots -/

/-- A register that has been handed out takes up a float slot. -/
theorem Engine.Vacant.bindScalar (hvac : e.Vacant .fpr r) (hs : s < Slot.count)
    (hfloat : Slot.isInteger s = false) (hnone : (e.residence s).reg? = none) (dirty : Bool) :
    e.Framed {s} (e.bindScalar s r dirty) ∧ (e.bindScalar s r dirty).Houses s 1 r := by
  have hb := bound_bindFloat dirty hs hfloat hvac.lt hvac.bank hvac.empty hnone
  refine ⟨hb.framed (e.sameLocks_set r _ s _) ?_ fun _ => hvac.spare, hb.houses⟩
  exact fun t ht => (Holding.spans_scalar rfl t).mp ht

/-- A float slot leaves a group in which others stay. -/
theorem framed_leaveGroup {group : HostReg} {t : Slot} (ht : Tables e)
    (hfloat : Slot.isInteger s = false) (hs : (e.residence s).reg? = some group) (hne : t ≠ s)
    (hother : (e.residence t).reg? = some group) :
    Leads (leaveGroup s group mode) e fun r e' => e.Framed {s} e' ∧ e'.Houses s 1 r := by
  have hreserve := e.alike_reserve group true
  unfold leaveGroup
  refine leads_get (leads_set (leads_bind ((leads_handed (ht.of_alike hreserve)).mono ?_)))
  rintro r d ⟨hforfeits, htd, x, y, hh⟩
  -- the group is reserved, so that it is not handed out and its slots stay
  have hgroup : group ≠ r := by
    rintro rfl
    obtain ⟨g, hg, -⟩ := ht.placed s group hs
    have hspare := hh.spare
    unfold Engine.reserve at hspare
    rw [Engine.hostAt_setHost, if_pos ⟨rfl, e.lt_size_of_holding hg⟩] at hspare
    exact nomatch hspare
  have hkept : ∀ u, (e.residence u).reg? = some group → d.residence u = e.residence u := by
    intro u hu
    refine (hh.kept u ?_).trans (hreserve.residence u)
    rw [hreserve.residence, hu]
    exact fun h => hgroup (Option.some.inj h)
  -- the reservation is taken back once the register has been handed out
  have hspares := hforfeits.unreserve.toSpares
  replace htd := htd.of_alike (d.alike_reserve group (e.hostAt group).reserved)
  replace hh : Handed .fpr e r (d.reserve group (e.hostAt group).reserved) x y := hh.unreserve
  have hframed : e.Framed {s} (d.reserve group (e.hostAt group).reserved) := hh.framed hspares
  have hvac := hh.vacant htd hspares
  rw [← hkept s hs] at hs
  rw [← hkept t hother] at hother
  -- from any engine with these tables the slot leaves and is taken up
  have hmove : ∀ (c : Engine) b, Tables c → c.Vacant .fpr r → c.residence s = d.residence s →
      c.residence t = d.residence t →
      c.Framed {s} ((c.clear s).bindScalar s r b) ∧
        ((c.clear s).bindScalar s r b).Houses s 1 r := by
    intro c b htc hvac hsame hsame'
    have hv := vacated_clear htc (by rw [hsame]; exact hs) hne (by rw [hsame']; exact hother)
    have hclear : (c.clear s).Vacant .fpr r := by
      refine ⟨hvac.lt, hvac.bank, fun u hu => ?_, hvac.spare⟩
      rw [hv.kept u (hv.not_mem_of_reg hu)] at hu
      exact hvac.empty u hu
    obtain ⟨hf, hh⟩ := hclear.bindScalar (Tables.lt_count hs) hfloat
      (by rw [hv.gone s rfl]; rfl) b
    exact ⟨(hv.framed (c.spares_clear s).sameLocks fun _ h => h).trans hf, hh⟩
  refine leads_bind (leads_modify ?_)
  split
  · obtain ⟨hf, hh⟩ := hmove _ (mode.writes || (mode.reads && e.isDirty group))
      (htd.of_alike (Engine.alike_asked _ (.extract r group (e.residence s).lane)))
      (hvac.asked _) rfl rfl
    exact leads_bind (leads_emit (leads_bind (leads_modify (leads_pure
      ⟨hframed.trans ((Engine.framed_asked _ _).trans hf), hh⟩))))
  · obtain ⟨hf, hh⟩ := hmove _ (mode.writes || (mode.reads && e.isDirty group)) htd hvac rfl rfl
    exact leads_bind (leads_modify (leads_pure ⟨hframed.trans hf, hh⟩))

/-- The last slot of a group takes over the register. -/
theorem framed_shrinkGroup {group : HostReg} (ht : Tables e)
    (hfloat : Slot.isInteger s = false) (hs : (e.residence s).reg? = some group)
    (halone : ∀ t, (e.residence t).reg? = some group → t = s) :
    Leads (shrinkGroup s group mode) e fun _ e' => e.Framed {s} e' ∧ e'.Houses s 1 group := by
  obtain ⟨g, hg, -⟩ := ht.placed s group hs
  have hshrink : ∀ c : Engine, e.Alike c → c.Framed {s} ((c.modifyHolding group fun h =>
        { h with first := s, isGroup := false, dirty := h.dirty || mode.writes }).setResidence s
          (.host group 0)) ∧
      ((c.modifyHolding group fun h =>
        { h with first := s, isGroup := false, dirty := h.dirty || mode.writes }).setResidence s
          (.host group 0)).Houses s 1 group := by
    intro c halike
    have hgc : c.holding group = some g := (halike.holding group).trans hg
    have hb := (ht.of_alike halike).bound_shrink hfloat (by rw [halike.residence]; exact hs) hgc
      (by simpa only [halike.residence] using halone) mode.writes
    refine ⟨hb.framed (c.sameLocks_set group _ s _) ?_ ?_, hb.houses⟩
    · exact fun t ht' => (Holding.spans_scalar rfl t).mp ht'
    · intro hnone
      rw [hgc] at hnone
      exact nomatch hnone
  unfold shrinkGroup
  refine leads_get ?_
  simp only
  split
  · obtain ⟨hf, hh⟩ := hshrink _ (e.alike_asked (.extract group group (e.residence s).lane))
    exact leads_bind (leads_emit (leads_modify ⟨(e.framed_asked _).trans hf, hh⟩))
  · exact leads_modify (hshrink e (Engine.Alike.refl e))

/-- **A float slot is mapped** to a register of its own. -/
theorem serves_mapFloat (ht : Tables e) :
    Leads (mapFloat s mode) e fun r e' => e.Serves s 1 r e' := by
  unfold mapFloat
  simp only
  refine leads_require fun hfloat => leads_lockSlot fun hs => leads_get ?_
  rw [Bool.not_eq_true] at hfloat
  have ht₀ := ht.of_alike (e.alike_lock s)
  have hgive : ∀ {r e'}, (e.lock s).Framed {s} e' ∧ e'.Houses s 1 r → e.Serves s 1 r e' :=
    fun h => h.1.serves hs h.2
  cases hres : ((e.lock s).residence s).reg? with
  | none =>
    refine leads_bind ((leads_alloc ht₀).mono fun r d ⟨hframed, hvac⟩ => ?_)
    have hnone := hframed.reg_none (Set.notMem_empty s) hres
    replace hframed := hframed.mono (Set.empty_subset {s})
    split
    · obtain ⟨hf, hh⟩ := (hvac.asked (.load r s 1)).bindScalar hs hfloat hnone mode.writes
      exact leads_bind (leads_emit (leads_bind (leads_modify (leads_pure
        (hgive ⟨hframed.trans ((d.framed_asked _).trans hf), hh⟩)))))
    · obtain ⟨hf, hh⟩ := hvac.bindScalar hs hfloat hnone mode.writes
      exact leads_bind (leads_modify (leads_pure (hgive ⟨hframed.trans hf, hh⟩)))
  | some r =>
    simp only
    split
    · rename_i hgroup
      have hhouses := ht₀.houses_scalar hres (by simpa using hgroup)
      split
      · exact leads_bind (leads_modify (leads_pure (hgive
          ⟨Engine.framed_flag _ r (fun _ => rfl) fun _ => rfl, hhouses.flag fun _ => rfl⟩)))
      · exact leads_pure (hgive ⟨Engine.Framed.refl _ _, hhouses⟩)
    · split
      · -- no other slot is left in the group
        rename_i hlen
        refine leads_bind ((framed_shrinkGroup ht₀ hfloat hres (ht₀.alone_of_length hres hlen)).mono
          fun _ d h => leads_pure (hgive h))
      · rename_i hlen
        obtain ⟨t, hother, hne⟩ := ht₀.exists_other hres hlen
        exact (framed_leaveGroup ht₀ hfloat hres hne hother).mono fun r' d h => hgive h

/-! ## Groups -/

/-- A register that is not reserved is filled up with a group. -/
theorem Fillable.framed {first : Slot} (hf : Fillable e first r) (ht : Tables e)
    (hin : InFloatRange first) (hspare : e.holding r = none → (e.hostAt r).reserved = false)
    (dirty : Bool) :
    e.Framed (groupSlots first) ((e.gather first r).bindGroup first r dirty) ∧
      ((e.gather first r).bindGroup first r dirty).Houses first 4 r := by
  obtain ⟨hv, hb⟩ := hf.regroup ht hin dirty
  have hlocks : e.SameLocks (e.gather first r) := (e.spares_gather first r).sameLocks
  -- a register that is filled up keeps what it has of the group
  have hheld : (e.gather first r).holding r = none → e.holding r = none := by
    intro hnone
    refine Option.eq_none_iff_forall_ne_some.mpr fun g hg => ?_
    obtain ⟨t, ht'⟩ := ht.occupied r g hg
    obtain ⟨k, -, -, q, hne, hq⟩ := hv.emptied r hnone t ht'
    exact hne (Option.some.inj (hq.symm.trans ht'))
  refine ⟨(hv.framed hlocks elsewhere_subset).trans (hb.framed
    (Engine.sameLocks_bindGroup _ first r dirty) (fun t ht' => ht') fun hnone => ?_), hb.houses⟩
  rw [hlocks.reserved]
  exact hspare (hheld hnone)

/-- A register is filled, if the old words matter, and takes up the group. -/
theorem framed_fill {first : Slot} {isBase : Bool} (ht : Tables e) (hin : InFloatRange first)
    (hf : Fillable e first r) (hspare : e.holding r = none → (e.hostAt r).reserved = false) :
    Leads (if mode.reads = true then
        get >>= fun d => compose first r isBase >>= fun _ =>
          modify (fun e => (e.gather first r).bindGroup first r
            (d.groupDirty first || mode.writes)) >>= fun _ => pure r
      else modify (fun e => (e.gather first r).bindGroup first r true) >>= fun _ => pure r) e
      fun r' e' => e.Framed (groupSlots first) e' ∧ e'.Houses first 4 r' := by
  have hafter : ∀ a b, e.Framed (groupSlots first)
        (((e.asked a).gather first r).bindGroup first r b) ∧
      (((e.asked a).gather first r).bindGroup first r b).Houses first 4 r := by
    intro a b
    have halike := e.alike_asked a
    obtain ⟨hframed, hh⟩ := (hf.of_alike halike).framed (ht.of_alike halike) hin hspare b
    exact ⟨(e.framed_asked a).trans hframed, hh⟩
  split
  · refine leads_get (leads_bind ?_)
    unfold compose
    refine leads_get ?_
    simp only
    split
    · exact leads_emit (leads_bind (leads_modify (leads_pure (hafter _ _))))
    · exact leads_emit (leads_bind (leads_modify (leads_pure (hafter _ _))))
  · exact leads_bind (leads_modify (leads_pure (hf.framed ht hin hspare true)))

/-- A group that has all its slots. -/
theorem Tables.houses_group {first : Slot} (ht : Tables e) (hg : e.groupRegister first = some r)
    (hfull : (e.residents r).length = 4) : e.Houses first 4 r := by
  obtain ⟨g, hr, hgroup, hfirst, -⟩ := Engine.groupRegister_spec hg
  refine ⟨fun k hk => ?_, g, hr, ?_⟩
  · have hmem : (first + k, k) ∈ e.residents r := by
      rw [Engine.residents_full hr hgroup hfull, hfirst]
      exact List.mem_map.mpr ⟨k, List.mem_range.mpr hk, rfl⟩
    exact ((ht.mem_residents k).mp hmem).1
  · unfold Holding.width
    rw [hgroup]
    rfl

/-- **A group is mapped** to the lanes of one register. -/
theorem serves_mapGroup {first : Slot} (ht : Tables e) :
    Leads (mapGroup first mode) e fun r e' => e.Serves first 4 r e' := by
  unfold mapGroup
  simp only
  refine leads_require fun hlo => leads_lift fun stop hstop => leads_require fun hhi => ?_
  have hin : InFloatRange first := by
    unfold asDouble at hstop
    split at hstop
    · cases hstop
      exact ⟨Nat.le_of_not_lt hlo, Nat.le_of_not_lt hhi⟩
    · exact nomatch hstop
  refine leads_bind (leads_modify (leads_get ?_))
  have ht₀ := ht.of_alike (e.alike_lockGroup first)
  have hlock : e.Framed (groupSlots first) (e.lockGroup first) :=
    Engine.framed_lockGroup fun _ h => h
  have hlocked : ∀ k < 4, ((e.lockGroup first).slotAt (first + k)).locked = true := fun k hk =>
    Engine.locked_lockGroup (mem_groupSlots.mpr ⟨k, hk, rfl⟩) (hin.lt_count hk)
  rw [show (List.range 4).foldl (fun e k => e.lock (first + k)) e = e.lockGroup first from rfl]
  generalize e.lockGroup first = d at ht₀ hlock hlocked
  have hgive : ∀ {r e'}, d.Framed (groupSlots first) e' ∧ e'.Houses first 4 r →
      e.Serves first 4 r e' :=
    fun h => ⟨hlock.trans h.1, h.2, fun k hk => h.1.locked _ (hlocked k hk)⟩
  split
  · -- all four lanes are in place
    rename_i r hgroup hfull
    rw [hgroup] at hfull
    have hhouses := ht₀.houses_group hgroup hfull
    split
    · exact leads_bind (leads_modify (leads_pure (hgive
        ⟨d.framed_flag r (fun _ => rfl) fun _ => rfl, hhouses.flag fun _ => rfl⟩)))
    · exact leads_pure (hgive ⟨Engine.Framed.refl _ d, hhouses⟩)
  · have hbase : (if 2 ≤ ((d.groupRegister first).map fun r => (d.residents r).length).getD 0 then
        d.groupRegister first else none) = d.groupBase first := rfl
    rw [hbase]
    cases hgroup : d.groupBase first with
    | some r =>
      -- the register of the group is filled up, and it is held already
      have hreg : d.groupRegister first = some r := by
        unfold Engine.groupBase at hgroup
        split at hgroup
        · exact hgroup
        · exact nomatch hgroup
      refine (framed_fill ht₀ hin (ht₀.fillable_of_groupRegister hin hreg) fun hnone => ?_).mono
        fun r' e' h => hgive h
      obtain ⟨g, hg, -⟩ := Engine.groupRegister_spec hreg
      rw [hg] at hnone
      exact nomatch hnone
    | none =>
      refine leads_bind ((leads_handed ht₀).mono fun r c ⟨hforfeits, htc, x, y, hh⟩ => ?_)
      have hframed : d.Framed (groupSlots first) c := hh.framed hforfeits.toSpares
      have hvac := hh.vacant htc hforfeits.toSpares
      have hf : Fillable c first r := ⟨hvac.lt, hvac.bank, fun s hs => absurd hs (hvac.empty s)⟩
      exact (framed_fill htc hin hf fun _ => hvac.spare).mono fun r' e' h =>
        hgive ⟨hframed.trans h.1, h.2⟩

/-- **Every mapping puts its slots into the lanes of the register that it returns**, locks them, and
leaves every other slot that is locked where it is. -/
theorem Request.serves_run (q : Request) (ht : Tables e) :
    Leads q.run e fun r e' => e.Serves q.first q.width r e' := by
  cases q with
  | integer s mode => exact serves_mapInteger ht
  | pointer s => exact serves_mapPointer ht
  | float s mode => exact serves_mapFloat ht
  | group first mode => exact serves_mapGroup ht

end Dynarec.Registers
