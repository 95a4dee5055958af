/-
Mapping the operands of an instruction.

An instruction maps its operands one after the other. Each mapping locks its slots, so that a later
one leaves them where they are: either it is about other slots, and moves no slot that is locked, or
it is about the same slots, and finds them at home. So in the end every operand is in the register
that its mapping returned (`Request.secure_mapM`).

No mapping runs out of registers as long as the order of its class is longer than the number of
slots to be locked by more than one, and the orders of the two code generators are that long for
four integer slots or three groups (`Operation.accommodates`).
-/
import Mathlib.Algebra.Group.Action.Defs
import Mathlib.Algebra.GroupWithZero.Nat
import Mathlib.Algebra.Order.BigOperators.Group.List
import Mathlib.Algebra.Order.Group.Nat
import Mathlib.Data.List.Pairwise
import Mathlib.Data.Set.BooleanAlgebra
import Mathlib.Data.Set.Disjoint
import Mathlib.Order.CompletePartialOrder
import Dynarec.Proofs.Registers.Operations

set_option autoImplicit false

namespace Dynarec.Registers

variable {S : Set Slot} {e e' : Engine} {r : HostReg} {s first : Slot} {n : Nat} {mode : Mode}

/-! ## Homes that stay -/

theorem Holding.isGroup_of_width {h : Holding} (hw : h.width = 4) : h.isGroup = true := by
  unfold width at hw
  split at hw
  · assumption
  · exact nomatch hw

/-- A register that holds something has one lane or four. -/
theorem Holding.width_cases (h : Holding) :
    h.isGroup = false ∧ h.width = 1 ∨ h.isGroup = true ∧ h.width = 4 := by
  unfold width
  cases h.isGroup with
  | false => exact Or.inl ⟨rfl, rfl⟩
  | true => exact Or.inr ⟨rfl, rfl⟩

/-- **Slots that are locked stay in their home** while other slots are mapped. -/
theorem Engine.Houses.kept (hh : e.Houses first n r) (ht : Tables e) (ht' : Tables e')
    (hf : e.Framed S e') (hout : ∀ k < n, first + k ∉ S)
    (hlocked : ∀ k < n, (e.slotAt (first + k)).locked = true) : e'.Houses first n r := by
  have hsame : ∀ k < n, e'.residence (first + k) = e.residence (first + k) := by
    intro k hk
    obtain hsame | ⟨-, hfree⟩ := hf.kept _ (hout k hk)
    · exact hsame
    · -- only slots that are not locked go back to guest storage
      rw [hlocked k hk] at hfree
      exact nomatch hfree
  obtain ⟨g, hg, hwidth⟩ := hh.held
  have hpos : 0 < n := by
    obtain ⟨-, hw⟩ | ⟨-, hw⟩ := g.width_cases <;> omega
  refine ⟨fun k hk => by rw [hsame k hk]; exact hh.home k hk, ?_⟩
  obtain ⟨g', hg', hp⟩ := ht'.placed (first + 0) r (by rw [hsame 0 hpos]; exact hh.home 0 hpos)
  refine ⟨g', hg', ?_⟩
  obtain ⟨hscalar, hone⟩ | ⟨-, hfour⟩ := g.width_cases
  · -- a register that has become a group is one of slots of the frame
    obtain ⟨-, hone'⟩ | ⟨hgroup, -⟩ := g'.width_cases
    · omega
    · obtain hspan | ⟨g'', hg'', hgroup'', -⟩ := hf.groups r g' hg' hgroup
      · exact absurd (hspan _ hp.spans) (hout 0 hpos)
      · rw [hg] at hg''
        cases hg''
        exact nomatch hscalar.symm.trans hgroup''
  · -- the last slot is still in the last lane
    have hlast : (3 : Nat) < n := by omega
    have hlane := (ht'.placed_of (by rw [hsame 3 hlast]; exact hh.home 3 hlast) hg').lane
    rw [hsame 3 hlast, hh.lane ht hlast] at hlane
    obtain ⟨-, hone'⟩ | ⟨-, hfour'⟩ := g'.width_cases <;> omega

/-! ## Mapping again -/

theorem leads_bringIn_home (hs : (e.residence s).reg? = some r) :
    Leads (bringIn s mode) e fun r' _ => r' = r := by
  unfold bringIn
  refine leads_get ?_
  cases hres : e.residence s with
  | host q k =>
    rw [hres] at hs
    exact leads_pure (Option.some.inj hs)
  | hostValue q w =>
    rw [hres] at hs
    exact leads_pure (Option.some.inj hs)
  | pointer q =>
    rw [hres] at hs
    simp only
    split
    · exact leads_bind (leads_emit (leads_bind (leads_modify (leads_pure (Option.some.inj hs)))))
    · exact leads_bind (leads_modify (leads_pure (Option.some.inj hs)))
  | value w =>
    rw [hres] at hs
    exact nomatch hs
  | guest =>
    rw [hres] at hs
    exact nomatch hs

theorem leads_mapInteger_home (hs : (e.residence s).reg? = some r) :
    Leads (mapInteger s mode) e fun r' _ => r' = r := by
  unfold mapInteger
  simp only
  refine leads_require fun _ => leads_lockSlot fun _ => ?_
  have hs' : ((e.lock s).residence s).reg? = some r := by
    rw [(e.alike_lock s).residence]
    exact hs
  refine leads_bind ((leads_bringIn_home hs').mono fun r' d hr => ?_)
  split
  · exact leads_bind (leads_modify (leads_pure hr))
  · exact leads_pure hr

theorem leads_mapPointer_home (hs : (e.residence s).reg? = some r) :
    Leads (mapPointer s) e fun r' _ => r' = r := by
  have hpoint : Leads (mapInteger s .read >>= fun r => emit (.addBase r) >>= fun _ =>
      modify (fun e => (e.modifyHolding r fun h =>
        { h with pointer := true, normalized := false }).setResidence s (.pointer r)) >>= fun _ =>
      pure r) e fun r' _ => r' = r :=
    leads_bind ((leads_mapInteger_home hs).mono fun r' d hr =>
      leads_bind (leads_emit (leads_bind (leads_modify (leads_pure hr)))))
  unfold mapPointer
  refine leads_requireSlot (leads_get ?_)
  cases hres : e.residence s with
  | pointer q =>
    rw [hres] at hs
    exact leads_bind (leads_modify (leads_pure (Option.some.inj hs)))
  | guest => exact hpoint
  | value w => exact hpoint
  | host q k => exact hpoint
  | hostValue q w => exact hpoint

theorem leads_mapFloat_home (hh : e.Houses s 1 r) :
    Leads (mapFloat s mode) e fun r' _ => r' = r := by
  obtain ⟨g, hg, hwidth⟩ := hh.held
  have hscalar : g.isGroup = false := by
    obtain ⟨hscalar, -⟩ | ⟨-, hfour⟩ := g.width_cases
    · exact hscalar
    · exact nomatch hwidth.symm.trans hfour
  have halike := e.alike_lock s
  have hreg : ((e.lock s).residence s).reg? = some r := by
    rw [halike.residence]
    exact hh.home 0 Nat.zero_lt_one
  have hgroup : (e.lock s).holdsGroup r = false := by
    rw [Engine.holdsGroup_eq ((halike.holding r).trans hg)]
    exact hscalar
  unfold mapFloat
  simp only
  refine leads_require fun _ => leads_lockSlot fun _ => leads_get ?_
  rw [hreg]
  simp only [hgroup, Bool.not_false, if_true]
  split
  · exact leads_bind (leads_modify (leads_pure rfl))
  · exact leads_pure rfl

/-- A group that is at home is found there. -/
theorem Engine.Houses.groupRegister_eq (hh : e.Houses first 4 r) (ht : Tables e) :
    e.groupRegister first = some r ∧ (e.residents r).length = 4 := by
  obtain ⟨g, hg, hwidth⟩ := hh.held
  have hgroup := Holding.isGroup_of_width hwidth
  have hfirst : g.first = first := by
    have hp := (ht.placed_of (hh.home 0 (by decide)) hg).first
    rw [hh.lane ht (by decide)] at hp
    exact hp
  constructor
  · unfold Engine.groupRegister
    have hregs : ((List.range 4).filterMap fun lane => (e.residence (first + lane)).reg?)
        = [r, r, r, r] := by
      show [0, 1, 2, 3].filterMap _ = _
      simp only [List.filterMap_cons, List.filterMap_nil, hh.home 0 (by decide),
        hh.home 1 (by decide), hh.home 2 (by decide), hh.home 3 (by decide)]
    rw [hregs, List.find?_cons_of_pos]
    rw [hg]
    simp [hgroup, hfirst]
  · rw [Engine.residents_eq hg, hwidth, List.filter_eq_self.mpr]
    · rfl
    · intro p hp
      obtain ⟨k, hk, rfl⟩ := List.mem_map.mp hp
      rw [hfirst]
      exact decide_eq_true (hh.home k (List.mem_range.mp hk))

theorem leads_mapGroup_home (ht : Tables e) (hh : e.Houses first 4 r) :
    Leads (mapGroup first mode) e fun r' _ => r' = r := by
  have halike := e.alike_lockGroup first
  obtain ⟨hreg, hfull⟩ := (hh.of_alike halike).groupRegister_eq (ht.of_alike halike)
  unfold mapGroup
  simp only
  refine leads_require fun _ => leads_lift fun _ _ => leads_require fun _ =>
    leads_bind (leads_modify (leads_get ?_))
  rw [show (List.range 4).foldl (fun e k => e.lock (first + k)) e = e.lockGroup first from rfl]
  simp only [hreg, hfull, Option.map_some, Option.getD_some]
  split
  · exact leads_bind (leads_modify (leads_pure rfl))
  · exact leads_pure rfl

/-- **Slots that are at home are mapped to their home.** -/
theorem Request.leads_run_home (q : Request) (ht : Tables e)
    (hh : e.Houses q.first q.width r) : Leads q.run e fun r' _ => r' = r := by
  cases q with
  | integer s mode => exact leads_mapInteger_home (hh.home 0 Nat.zero_lt_one)
  | pointer s => exact leads_mapPointer_home (hh.home 0 Nat.zero_lt_one)
  | float s mode => exact leads_mapFloat_home hh
  | group first mode => exact leads_mapGroup_home ht hh

/-! ## Mappings that cannot be made -/

/-- A mapping of slots that do not exist or are of the wrong kind fails, but not for want of a
register. -/
theorem Request.error_of_not_fits (q : Request) (ht : Tables e) (hq : ¬ q.Fits) :
    ∃ g, q.run e = .error g ∧ Fault.isExhaustion g = false := by
  have hinteger : ∀ s mode, ¬ (s < Slot.count ∧ Slot.isInteger s = true) →
      ∃ g, mapInteger s mode e = .error g ∧ Fault.isExhaustion g = false := by
    intro s mode hs
    unfold mapInteger lockSlot requireSlot
    cases hint : Slot.isInteger s with
    | false => exact ⟨_, rfl, rfl⟩
    | true =>
      rw [if_neg fun hlt => hs ⟨hlt, hint⟩]
      exact ⟨_, rfl, rfl⟩
  cases q with
  | integer s mode => exact hinteger s mode hq
  | pointer s =>
    show ∃ g, mapPointer s e = .error g ∧ _
    unfold mapPointer requireSlot
    by_cases hs : s < Slot.count
    · rw [if_pos hs]
      obtain ⟨g, hg, hgood⟩ := hinteger s .read hq
      have hfloat : Slot.isInteger s = false := Bool.eq_false_iff.mpr fun hint => hq ⟨hs, hint⟩
      -- a float slot is no pointer
      have hbind : ∀ f : HostReg → EngineM HostReg, (mapInteger s .read >>= f) e = .error g := by
        intro f
        show (mapInteger s .read e >>= fun p => f p.1 p.2) = _
        rw [hg]
        rfl
      have hget : ∀ f : Engine → EngineM HostReg, (get >>= f) e = f e e := fun _ => rfl
      refine ⟨g, ?_, hgood⟩
      rw [pure_bind, hget]
      obtain hguest | ⟨r, k, hhost⟩ := ht.float s hfloat
      · rw [hguest]
        exact hbind _
      · rw [hhost]
        exact hbind _
    · rw [if_neg hs]
      exact ⟨_, rfl, rfl⟩
  | float s mode =>
    show ∃ g, mapFloat s mode e = .error g ∧ _
    unfold mapFloat lockSlot requireSlot
    cases hint : Slot.isInteger s with
    | true => exact ⟨_, rfl, rfl⟩
    | false =>
      rw [if_neg fun hlt => hq ⟨hlt, hint⟩]
      exact ⟨_, rfl, rfl⟩
  | group first mode =>
    show ∃ g, mapGroup first mode e = .error g ∧ _
    unfold mapGroup asDouble
    by_cases hlo : first < Slot.floatBase
    · rw [if_pos hlo]
      exact ⟨_, rfl, rfl⟩
    · rw [if_neg hlo]
      by_cases hdouble : first + 4 < doubleWords
      · have hhi : Slot.floatEnd < first + 4 :=
          Nat.lt_of_not_le fun hhi => hq ⟨Nat.le_of_not_lt hlo, hhi⟩
        rw [if_pos hdouble]
        show ∃ g, (if Slot.floatEnd < first + 4 then _ else _ : EngineM HostReg) e = _ ∧ _
        rw [if_pos hhi]
        exact ⟨_, rfl, rfl⟩
      · rw [if_neg hdouble]
        exact ⟨_, rfl, rfl⟩

/-! ## Engines that are ready -/

/-- An engine in order that has locked no other than the given slots and reserved nothing. -/
structure Engine.Ready (host : Host) (policy : Policy) (slots : List Slot) (e : Engine) : Prop
    extends e.Orderly host policy where
  pinned : e.Pinned slots []

variable {host : Host} {policy : Policy} {slots : List Slot} {bank : Bank} {q : Request}
  {qs : List Request}

theorem Engine.Orderly.ready_beginInst (h : e.Orderly host policy) (i : Nat) :
    (e.beginInst i).Ready host policy [] :=
  ⟨h.beginInst i, e.pinned_beginInst i⟩

/-- An engine is ready when a block starts. -/
theorem Engine.ready_start (insts : List Inst) (hsane : e.host.Sane) :
    (e.start insts).Ready e.host e.policy [] := by
  refine ⟨Engine.orderly_start insts hsane, fun t ht => ?_, fun r hr => ?_⟩
  · obtain ⟨b, hb, rfl⟩ | hnone := (fresh_start insts hsane).slot_cases t
    · rw [(fresh_start insts hsane).slot b hb] at ht
      exact nomatch ht
    · rw [hnone] at ht
      exact nomatch ht
  · rw [e.reserved_start] at hr
    exact nomatch hr

/-- **A store does not run out of registers**, and leaves the engine ready. -/
theorem Engine.Ready.store {op : Operation} (h : e.Ready host policy slots)
    (hop : op.SparesBindings host policy)
    (hlasting : ∀ {I : Engine → Prop}, Lasting I → I e → Secure op.run e fun _ e' => I e') :
    Secure op.run e fun _ e' => e'.Ready host policy slots :=
  ((hlasting (lasting_pinned slots []) h.pinned).and_leads
    (Operation.orderly_run hop h.toOrderly)).mono fun _ _ ⟨hp, ho⟩ => ⟨ho, hp⟩

namespace Request

/-- The requests are for registers of one class, whose order has no register twice and leaves one
when all slots are locked and one more register is set aside. -/
structure Affordable (host : Host) (policy : Policy) (slots : List Slot) (bank : Bank)
    (qs : List Request) : Prop where
  ofBank : ∀ q ∈ qs, q.bankOf = bank
  nodup : (host.order bank policy.useStatics).Nodup
  room : slots.length + (qs.map width).sum + 1 < (host.order bank policy.useStatics).length

theorem Affordable.tail (h : Affordable host policy slots bank (q :: qs)) :
    Affordable host policy (q.slotList ++ slots) bank qs := by
  refine ⟨fun q' hq' => h.ofBank q' (List.mem_cons_of_mem q hq'), h.nodup, ?_⟩
  have hroom := h.room
  rw [List.map_cons, List.sum_cons] at hroom
  rw [List.length_append, q.length_slotList]
  omega

theorem Affordable.completes (h : Affordable host policy slots bank (q :: qs))
    (hq : q.Fits) (he : e.Ready host policy slots) : Completes q.run e := by
  have hroom := h.room
  rw [List.map_cons, List.sum_cons] at hroom
  have horder : e.host.order q.bankOf e.policy.useStatics = host.order bank policy.useStatics := by
    rw [he.host, he.policy, h.ofBank q List.mem_cons_self]
  refine q.completes_run hq he.tables he.pinned ?_ ?_
  · rw [horder]
    exact h.nodup
  · rw [horder]
    omega

/-- **A mapping does not run out of registers.** -/
theorem Affordable.secure (h : Affordable host policy slots bank (q :: qs))
    (he : e.Ready host policy slots) : Secure q.run e fun _ _ => True := by
  by_cases hq : q.Fits
  · exact (h.completes hq he).secure fun _ _ _ => trivial
  · obtain ⟨g, hg, hgood⟩ := q.error_of_not_fits he.tables hq
    refine ⟨fun g' hg' => ?_, fun _ _ _ => trivial⟩
    rw [hg] at hg'
    cases hg'
    exact hgood

/-- A mapping leaves the engine ready for the next one. -/
theorem leads_ready_run (q : Request) (he : e.Ready host policy slots) :
    Leads q.run e fun _ e' => e'.Ready host policy (q.slotList ++ slots) :=
  (((q.serves_run he.tables).and (q.leads_tables_run he.tables)).and
    (q.leads_pinned_run he.tables he.pinned)).mono
      fun _ _ ⟨⟨hserves, ht⟩, hp⟩ => ⟨he.toOrderly.of_framed hserves.framed ht, hp⟩

/-! ## One operand after the other -/

/-- The requests are for the same slots, or have no slot in common. -/
def Apart (q q' : Request) : Prop := q.slots = q'.slots ∨ Disjoint q.slots q'.slots

theorem width_pos (q : Request) : 0 < q.width := by
  cases q <;> exact Nat.succ_pos _

theorem mem_slots {k : Nat} (hk : k < q.width) : q.first + k ∈ q.slots :=
  ⟨Nat.le_add_right _ _, Nat.add_lt_add_left hk _⟩

/-- The slots of a request say where it starts and how many slots it has. -/
theorem eq_of_slots_eq {q' : Request} (h : q.slots = q'.slots) :
    q.first = q'.first ∧ q.width = q'.width := by
  have hmem : ∀ t, (q.first ≤ t ∧ t < q.first + q.width) ↔
      (q'.first ≤ t ∧ t < q'.first + q'.width) := fun t => Set.ext_iff.mp h t
  have hpos := q.width_pos
  have hpos' := q'.width_pos
  have hfirst := hmem q.first
  have hfirst' := hmem q'.first
  have hlast := hmem (q.first + q.width)
  have hlast' := hmem (q'.first + q'.width)
  unfold Slot at *
  omega

/-- Each operand that has been mapped is in its register and locked there. -/
def InPlace (e : Engine) (p : Request × HostReg) : Prop :=
  e.Houses p.1.first p.1.width p.2 ∧
    ∀ k < p.1.width, (e.slotAt (p.1.first + k)).locked = true

/-- A mapping leaves in place what is the same or apart. -/
theorem InPlace.leads_run {p : Request × HostReg} (hp : InPlace e p) (ht : Tables e)
    (hapart : p.1.Apart q) : Leads q.run e fun _ e' => InPlace e' p := by
  intro r e' hrun
  have hserves := q.serves_run ht r e' hrun
  have ht' := q.leads_tables_run ht r e' hrun
  refine ⟨?_, fun k hk => hserves.framed.locked _ (hp.2 k hk)⟩
  obtain hsame | hdisjoint := hapart
  · obtain ⟨hfirst, hwidth⟩ := eq_of_slots_eq hsame
    have hhome := hp.1
    rw [hfirst, hwidth] at hhome ⊢
    rw [← q.leads_run_home ht hhome r e' hrun]
    exact hserves.houses
  · exact hp.1.kept ht ht' hserves.framed
      (fun k hk => Set.disjoint_left.mp hdisjoint (mem_slots hk)) hp.2

/-- **Operands that are mapped one after the other stay in place**, and no mapping runs out of
registers. -/
theorem secure_mapM (done : List (Request × HostReg)) (hqs : Affordable host policy slots bank qs)
    (he : e.Ready host policy slots) (hdone : ∀ p ∈ done, InPlace e p)
    (hapart : qs.Pairwise Apart) (hbefore : ∀ p ∈ done, ∀ q ∈ qs, p.1.Apart q) :
    Secure (qs.mapM run) e fun rs e' => e'.Orderly host policy ∧ rs.length = qs.length ∧
      ∀ p ∈ qs.zip rs ++ done, InPlace e' p := by
  induction qs generalizing slots done e with
  | nil => exact secure_pure ⟨he.toOrderly, rfl, hdone⟩
  | cons q qs ih =>
    rw [List.pairwise_cons] at hapart
    rw [List.mapM_cons]
    have hplaces : Leads q.run e fun r e' => ∀ p ∈ (q, r) :: done, InPlace e' p := by
      intro r e' hrun p hp
      obtain rfl | hp := List.mem_cons.mp hp
      · have hserves := q.serves_run he.tables r e' hrun
        exact ⟨hserves.houses, hserves.locked⟩
      · exact (hdone p hp).leads_run he.tables (hbefore p hp q List.mem_cons_self) r e' hrun
    refine secure_bind (((hqs.secure he).and_leads ((q.leads_ready_run he).and hplaces)).mono
      fun r d ⟨_, hready, hin⟩ => ?_)
    -- the new operand joins those that have been mapped
    refine secure_bind ((ih _ hqs.tail hready hin hapart.2 fun p hp q' hq' => ?_).mono
      fun rs e' ⟨ho, hlen, hall⟩ => secure_pure ⟨ho, congrArg (· + 1) hlen, fun p hp => hall p ?_⟩)
    · obtain rfl | hp := List.mem_cons.mp hp
      · exact hapart.1 q' hq'
      · exact hbefore p hp q' (List.mem_cons_of_mem q hq')
    · rw [List.zip_cons_cons, List.cons_append, List.mem_cons, List.mem_append] at hp
      rw [List.mem_append, List.mem_cons]
      tauto

/-- **Operands that exist can be mapped.** -/
theorem completes_mapM (hqs : Affordable host policy slots bank qs)
    (he : e.Ready host policy slots) (hfits : ∀ q ∈ qs, q.Fits) : Completes (qs.mapM run) e := by
  induction qs generalizing slots e with
  | nil => exact completes_pure _ e
  | cons q qs ih =>
    rw [List.mapM_cons]
    refine completes_bind (hqs.completes (hfits q List.mem_cons_self) he)
      ((q.leads_ready_run he).mono fun r d hready => ?_)
    exact completes_bind (ih hqs.tail hready fun q' hq' => hfits q' (List.mem_cons_of_mem q hq'))
      fun rs d' _ => completes_pure _ d'

/-- Operands without a common slot are in different registers. -/
theorem InPlace.ne {p p' : Request × HostReg} (hp : InPlace e p) (hp' : InPlace e p')
    (ht : Tables e) (hdisjoint : Disjoint p.1.slots p'.1.slots) : p.2 ≠ p'.2 := by
  intro heq
  obtain ⟨g, hg, -⟩ := hp.1.held
  -- there is only one slot in the first lane
  have hfirst := (ht.placed_of (hp.1.home 0 p.1.width_pos) hg).first
  have hfirst' := (ht.placed_of (heq ▸ hp'.1.home 0 p'.1.width_pos) hg).first
  rw [hp.1.lane ht p.1.width_pos] at hfirst
  rw [hp'.1.lane ht p'.1.width_pos] at hfirst'
  have hmem : p.1.first + 0 ∈ p'.1.slots := by
    rw [← hfirst, hfirst']
    exact mem_slots p'.1.width_pos
  exact Set.disjoint_left.mp hdisjoint (mem_slots p.1.width_pos) hmem

/-! ## As many operands as an instruction has -/

/-- Up to four integer slots, or up to three float slots and groups that are the same or have no
slot in common. -/
inductive Few : List Request → Prop
  | integers {qs : List Request} (hlen : qs.length ≤ 4) (hbank : ∀ q ∈ qs, q.bankOf = .gpr) : Few qs
  | floats {qs : List Request} (hlen : qs.length ≤ 3) (hbank : ∀ q ∈ qs, q.bankOf = .fpr)
    (hapart : qs.Pairwise Apart) : Few qs

theorem width_of_gpr (hq : q.bankOf = .gpr) : q.width = 1 := by
  cases q with
  | integer s mode => rfl
  | pointer s => rfl
  | float s mode => exact nomatch hq
  | group first mode => exact nomatch hq

theorem width_le (q : Request) : q.width ≤ 4 := by
  cases q with
  | group first mode => exact Nat.le_refl 4
  | _ => exact Nat.le_of_lt_succ (by decide : 1 < 5)

theorem sum_width_le (h : ∀ q ∈ qs, q.width ≤ n) : (qs.map width).sum ≤ qs.length * n := by
  have hsum := List.sum_le_card_nsmul (qs.map width) n fun w hw => by
    obtain ⟨q, hq, rfl⟩ := List.mem_map.mp hw
    exact h q hq
  rwa [List.length_map, smul_eq_mul] at hsum

/-- Integer slots are the same or different. -/
theorem apart_of_gpr {q' : Request} (hq : q.bankOf = .gpr) (hq' : q'.bankOf = .gpr) :
    q.Apart q' := by
  unfold Apart slots
  rw [width_of_gpr hq, width_of_gpr hq']
  by_cases heq : q.first = q'.first
  · exact Or.inl (by rw [heq])
  · refine Or.inr (Set.disjoint_left.mpr fun t ht ht' => heq ?_)
    obtain ⟨hlo, hhi⟩ := ht
    obtain ⟨hlo', hhi'⟩ := ht'
    unfold Slot at *
    omega

theorem Few.pairwise (h : Few qs) : qs.Pairwise Apart := by
  cases h with
  | integers hlen hbank =>
    exact List.pairwise_of_forall_mem_list fun q hq q' hq' =>
      apart_of_gpr (hbank q hq) (hbank q' hq')
  | floats hlen hbank hapart => exact hapart

end Request

/-- The orders of the host have no register twice, and leave a register when four integer slots or
three groups are locked and one more register is set aside. -/
def Host.Ample (host : Host) : Prop :=
  ∀ useStatics, ((host.order .gpr useStatics).Nodup ∧ 5 < (host.order .gpr useStatics).length) ∧
    (host.order .fpr useStatics).Nodup ∧ 13 < (host.order .fpr useStatics).length

theorem ample_of_host (hhost : host = Aarch64.host ∨ host = Amd64.host) : host.Ample := by
  unfold Host.Ample
  obtain rfl | rfl := hhost <;> decide

/-- The operands of an instruction can be afforded. -/
theorem Request.Few.affordable (policy : Policy) (h : Few qs) (hhost : host.Ample) :
    ∃ bank, Affordable host policy [] bank qs := by
  obtain ⟨⟨hgpr, hgprs⟩, hfpr, hfprs⟩ := hhost policy.useStatics
  cases h with
  | integers hlen hbank =>
    refine ⟨.gpr, hbank, hgpr, ?_⟩
    have hsum := sum_width_le fun q hq => Nat.le_of_eq (width_of_gpr (hbank q hq))
    rw [List.length_nil]
    omega
  | floats hlen hbank hapart =>
    refine ⟨.fpr, hbank, hfpr, ?_⟩
    have hsum := sum_width_le fun q (_ : q ∈ qs) => q.width_le
    rw [List.length_nil]
    omega

/-- The engine can map the operands one after the other. No mapping runs out of registers, and if
the slots exist every mapping succeeds. In the end each operand is in the register that its mapping
returned, lane by lane, and operands without a common slot are in different registers. -/
structure Engine.Accommodates (e : Engine) (qs : List Request) : Prop where
  supplied : ∀ bank k op, qs.mapM Request.run e ≠ .error (.violation (.exhausted bank k op))
  succeeds : (∀ q ∈ qs, q.Fits) → ∃ rs e', qs.mapM Request.run e = .ok (rs, e')
  length : ∀ {rs e'}, qs.mapM Request.run e = .ok (rs, e') → rs.length = qs.length
  lanes : ∀ {rs e'}, qs.mapM Request.run e = .ok (rs, e') → ∀ p ∈ qs.zip rs, ∀ k < p.1.width,
    (e'.residence (p.1.first + k)).reg? = some p.2 ∧ (e'.residence (p.1.first + k)).lane = k
  distinct : ∀ {rs e'}, qs.mapM Request.run e = .ok (rs, e') → ∀ p ∈ qs.zip rs, ∀ p' ∈ qs.zip rs,
    Disjoint p.1.slots p'.1.slots → p.2 ≠ p'.2

/-- An engine that is ready accommodates requests that can be afforded. -/
theorem Engine.Ready.accommodates (h : e.Ready host policy slots)
    (hqs : Request.Affordable host policy slots bank qs) (hapart : qs.Pairwise Request.Apart) :
    e.Accommodates qs := by
  have hsecure := Request.secure_mapM [] hqs h (fun _ hp => nomatch hp) hapart
    fun _ hp => nomatch hp
  have hplaces : ∀ {rs e'}, qs.mapM Request.run e = .ok (rs, e') →
      Tables e' ∧ ∀ p ∈ qs.zip rs, Request.InPlace e' p := by
    intro rs e' hmap
    obtain ⟨horderly, -, hall⟩ := hsecure.leads rs e' hmap
    rw [List.append_nil] at hall
    exact ⟨horderly.tables, hall⟩
  refine ⟨?supplied, Request.completes_mapM hqs h, ?length, ?lanes, ?distinct⟩
  case supplied => exact fun bank k op hfail => nomatch hsecure.supplied _ hfail
  case length => exact fun hmap => (hsecure.leads _ _ hmap).2.1
  case lanes =>
    intro rs e' hmap p hp k hk
    obtain ⟨ht, hall⟩ := hplaces hmap
    exact ⟨(hall p hp).1.home k hk, (hall p hp).1.lane ht hk⟩
  case distinct =>
    intro rs e' hmap p hp p' hp' hdisjoint
    obtain ⟨ht, hall⟩ := hplaces hmap
    exact (hall p hp).ne (hall p' hp') ht hdisjoint

/-- **The operands of an instruction can be mapped** on the hosts of the code generators, whatever
operations have gone before. -/
theorem Operation.accommodates (hhost : host = Aarch64.host ∨ host = Amd64.host)
    {ops : List Operation} (hops : ∀ op ∈ ops, op.SparesBindings host policy)
    (hrun : runAll ops (Engine.new host policy) = .ok ((), e)) (i : Nat) (hqs : Request.Few qs) :
    (e.beginInst i).Accommodates qs := by
  have hsane : host.Sane := by
    obtain rfl | rfl := hhost
    · exact aarch64_sane
    · exact amd64_sane
  obtain ⟨bank, hafford⟩ := hqs.affordable policy (ample_of_host hhost)
  have horderly := orderly_runAll hops (Engine.orderly_new policy hsane) () e hrun
  exact (horderly.ready_beginInst i).accommodates hafford hqs.pairwise

end Dynarec.Registers
