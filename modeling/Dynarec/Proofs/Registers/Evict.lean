/-
Emptying a register and handing one out, on a host that does as it is told.

A store puts the words of all slots of a register into guest storage and leaves every other slot
and every other register alone; so a register can be emptied without loss. A register is handed out
with nothing in it. Slots are lost on the way only if the register was evicted because its content
was taken for dead, and then exactly the slots that lived in it.
-/
import Dynarec.Proofs.Registers.Coherence

set_option autoImplicit false

namespace Dynarec.Registers

open Storage

variable {base : UInt64} {last : Slot → Word} {lost : Set Slot} {e : Engine} {x : Storage}
  {r : HostReg} {h : Holding}

/-! ## Storing -/

/-- A register that is not a group has its one slot listed. -/
theorem Tables.residents_scalar (ht : Tables e) (hr : e.holding r = some h)
    (hg : h.isGroup = false) : e.residents r = [(h.first, 0)] := by
  obtain ⟨s, hs⟩ := ht.occupied r h hr
  rw [ht.eq_first hs hr hg] at hs
  rw [Engine.residents_eq hr]
  unfold Holding.width
  rw [hg]
  show List.filter _ [(h.first, 0)] = _
  rw [List.filter_cons_of_pos (by simpa using hs), List.filter_nil]

/-- A group that has four slots listed has all its slots. -/
theorem Engine.residents_full (hr : e.holding r = some h)
    (hg : h.isGroup = true) (hlen : (e.residents r).length = 4) :
    e.residents r = (List.range 4).map fun k => (h.first + k, k) := by
  rw [Engine.residents_eq hr] at hlen ⊢
  unfold Holding.width at hlen ⊢
  rw [hg] at hlen ⊢
  simp only [if_true] at hlen ⊢
  rw [List.filter_eq_self]
  refine List.length_filter_eq_length_iff.mp (hlen.trans ?_)
  rfl

/-- The words of a register are in guest storage, where nothing else has changed; no other register
has changed, and the memory base has been taken off a pointer. -/
structure Stored (base : UInt64) (e : Engine) (r : HostReg) (h : Holding) (x y : Storage) :
    Prop where
  other : ∀ q, q ≠ r → SameReg x y q
  here : ∀ k, y.lane e.host r k = x.word e.host base r h.pointer k
  stored : ∀ s, (e.residence s).reg? = some r →
    y.guest s = x.word e.host base r h.pointer (e.residence s).lane
  kept : ∀ s, (e.residence s).reg? ≠ some r → y.guest s = x.guest s

/-- One slot is stored from a register whose memory base is off already. -/
theorem stored_scalar {z y : Storage} (ht : Tables e) (hr : e.holding r = some h)
    (hg : h.isGroup = false) (honly : OnlyReg r x z)
    (hlane : ∀ k, z.lane e.host r k = x.word e.host base r h.pointer k)
    (hp : Performs e.host base (.store r h.first 0 1) z y) : Stored base e r h x y := by
  obtain ⟨hgpr, hvec, hin, hout⟩ := hp
  have hsame : ∀ q, SameReg z y q := fun q => ⟨congrFun hgpr q, congrFun hvec q⟩
  refine ⟨fun q hq => (honly.other q hq).trans (hsame q), fun k => ?_, fun s hs => ?_,
    fun s hs => ?_⟩
  · rw [(hsame r).lane, hlane]
  · have hlane0 : (e.residence s).lane = 0 := by
      have hp := ht.placed_of hs hr
      have hs' := ht.eq_first hs hr hg
      rw [hp.lane_eq, hs', Nat.sub_self]
    rw [hlane0, ← hlane, ht.eq_first hs hr hg]
    exact hin 0 Nat.zero_lt_one
  · -- the one slot of the register lives there, so this is another one
    have hne : s ≠ h.first := by
      rintro rfl
      obtain ⟨t, ht'⟩ := ht.occupied r h hr
      rw [ht.eq_first ht' hr hg] at ht'
      exact hs ht'
    rw [hout s (by unfold Slot at *; omega), honly.guest]

/-- Lanes are stored one at a time. The rounds that are over have put the words of their slots into
guest storage, and the registers stay as they are. -/
theorem after_storeEach (ht : Tables e) (hp : h.pointer = false) :
    After base ((e.residents r).forM fun p => emit (.store r p.1 p.2 1)) e x fun _ e' y =>
      e.Alike e' ∧ Stored base e r h x y := by
  -- before each round `rest` is what is still to be stored
  let I (rest : List (Slot × Nat)) (e' : Engine) (y : Storage) : Prop :=
    e.Alike e' ∧ y.gpr = x.gpr ∧ y.vec = x.vec ∧ (∀ p ∈ rest, p ∈ e.residents r) ∧
      (∀ p ∈ e.residents r, p ∉ rest → y.guest p.1 = x.lane e.host r p.2) ∧
      ∀ s, (e.residence s).reg? ≠ some r → y.guest s = x.guest s
  have hstart : I (e.residents r) e x :=
    ⟨⟨rfl, rfl, rfl, fun _ => rfl, fun _ => rfl, fun _ => rfl⟩, rfl, rfl, fun _ hmem => hmem,
      fun _ hmem hnot => absurd hmem hnot, fun _ _ => rfl⟩
  refine (after_forM I ?_ (e.residents r) hstart).mono ?_
  · rintro ⟨s, k⟩ rest e' y ⟨halike, hgpr, hvec, hrest, hdone, hother⟩
    refine after_emit fun z hz => ?_
    obtain ⟨hgpr', hvec', hin, hout⟩ := hz
    obtain ⟨hs, hk⟩ := (ht.mem_residents k).mp (hrest (s, k) List.mem_cons_self)
    have hout' : ∀ t, t ≠ s → z.guest t = y.guest t := by
      intro t hts
      refine hout t ?_
      show t < s ∨ s + 1 ≤ t
      unfold Slot at *
      omega
    refine ⟨halike.trans (Engine.alike_asked _ _), hgpr'.trans hgpr, hvec'.trans hvec,
      fun p hmem => hrest p (List.mem_cons_of_mem _ hmem), ?_, ?_⟩
    · rintro ⟨t, j⟩ hmem hnot
      obtain ⟨-, hj⟩ := (ht.mem_residents j).mp hmem
      -- a slot is stored in this round, or was so in an earlier one
      by_cases hts : t = s
      · subst hts
        have hlane : z.guest (t + 0) = y.lane e'.host r (k + 0) := hin 0 Nat.zero_lt_one
        have hsame : SameReg x y r := ⟨congrFun hgpr r, congrFun hvec r⟩
        rw [halike.host, hsame.lane] at hlane
        rw [← hj, hk]
        exact hlane
      · rw [hout' t hts]
        refine hdone (t, j) hmem fun hin' => ?_
        obtain heq | hin' := List.mem_cons.mp hin'
        · exact hts (congrArg Prod.fst heq)
        · exact hnot hin'
    · intro t ht'
      have hts : t ≠ s := fun hts => ht' (hts ▸ hs)
      rw [hout' t hts, hother t ht']
  · rintro _ e' y ⟨halike, hgpr, hvec, -, hdone, hother⟩
    have hsame : ∀ q, SameReg x y q := fun q => ⟨congrFun hgpr q, congrFun hvec q⟩
    refine ⟨halike, fun q _ => hsame q, fun k => ?_, fun s hs => ?_, hother⟩
    · rw [(hsame r).lane, hp, word_false]
    · rw [hp, word_false]
      exact hdone (s, _) ((ht.mem_residents _).mpr ⟨hs, rfl⟩) List.not_mem_nil

/-- A group that has all its slots is stored in one piece. -/
theorem stored_full {y : Storage} (ht : Tables e) (hr : e.holding r = some h)
    (hg : h.isGroup = true) (hlen : (e.residents r).length = 4) (hpointer : h.pointer = false)
    (hp : Performs e.host base (.store r h.first 0 4) x y) : Stored base e r h x y := by
  obtain ⟨hgpr, hvec, hin, hout⟩ := hp
  have hsame : ∀ q, SameReg x y q := fun q => ⟨congrFun hgpr q, congrFun hvec q⟩
  refine ⟨fun q _ => hsame q, fun k => ?_, fun s hs => ?_, fun s hs => hout s ?_⟩
  · rw [(hsame r).lane, hpointer, word_false]
  · have hplaced := ht.placed_of hs hr
    have hlane : (e.residence s).lane < 4 := by
      have := hplaced.lane
      unfold Holding.width at this
      rwa [hg] at this
    have hguest := hin _ hlane
    rw [Nat.zero_add] at hguest
    rw [hpointer, word_false, ← hguest]
    exact congrArg y.guest hplaced.first.symm
  · -- a slot in the range of the group lives there, because no lane is vacant
    refine Classical.byContradiction fun hspan => hs ?_
    have hmem : (s, s - h.first) ∈ e.residents r := by
      rw [Engine.residents_full hr hg hlen, List.mem_map]
      refine ⟨s - h.first, List.mem_range.mpr ?_, Prod.ext ?_ rfl⟩
      · unfold Slot at *
        omega
      · show h.first + (s - h.first) = s
        unfold Slot at *
        omega
    exact ((ht.mem_residents _).mp hmem).1

/-- Storing what lives in a register. -/
theorem after_storeLanes (ht : Tables e) (hr : e.holding r = some h) :
    After base (storeLanes r (e.residents r)) e x fun _ e' y =>
      e.Alike e' ∧ Stored base e r h x y := by
  have hone : h.isGroup = false → h.pointer = false →
      After base (emit (.store r h.first 0 1)) e x fun _ e' y =>
        e.Alike e' ∧ Stored base e r h x y := by
    intro hg hp
    refine after_emit fun y hy => ⟨e.alike_asked _, ?_⟩
    refine stored_scalar ht hr hg (OnlyReg.refl x r) (fun k => ?_) hy
    rw [hp, word_false]
  unfold storeLanes
  refine after_get ?_
  cases hbank : e.host.bankOf r with
  | gpr =>
    obtain ⟨hg, -⟩ := (ht.suits r h hr).gpr hbank
    rw [ht.residents_scalar hr hg, hr]
    simp only [Option.any_some]
    -- a pointer loses the memory base first
    by_cases hp : h.pointer = true
    · rw [if_pos hp]
      refine after_bind (after_emit fun z hz => after_emit fun y hy => ?_)
      obtain ⟨honly, hbase⟩ := hz
      refine ⟨(e.alike_asked _).trans (Engine.alike_asked _ _),
        stored_scalar ht hr hg honly (fun k => ?_) hy⟩
      unfold Storage.word Storage.lane
      rw [hp, hbank, hbase]
      rfl
    · rw [if_neg hp]
      exact hone hg (Bool.eq_false_iff.mpr hp)
  | fpr =>
    have hp := ht.pointer_fpr hr hbank
    simp only [Engine.holdsGroup_eq hr]
    cases hg : h.isGroup with
    | false =>
      rw [ht.residents_scalar hr hg]
      exact hone hg hp
    | true =>
      by_cases hlen : (e.residents r).length = 4
      · rw [Engine.residents_full hr hg hlen]
        exact after_emit fun y hy => ⟨e.alike_asked _, stored_full ht hr hg hlen hp hy⟩
      · -- lanes are missing, so those that are left go one at a time
        cases hlist : e.residents r with
        | nil =>
          obtain ⟨s, hs⟩ := ht.occupied r h hr
          have hmem := (ht.mem_residents _).mpr ⟨hs, rfl⟩
          rw [hlist] at hmem
          exact nomatch hmem
        | cons p rest =>
          rw [hlist] at hlen
          simp only [Bool.not_true, Bool.false_eq_true, if_false, if_neg hlen]
          rw [← hlist]
          exact after_storeEach ht hp

/-! ## Emptying a register -/

/-- Register `r` is empty now. The slots that lived in it are in guest storage; no other slot and no
other register has changed. -/
structure Emptied (r : HostReg) (e e' : Engine) (x y : Storage) : Prop where
  host : e'.host = e.host
  free : e'.holding r = none
  gone : ∀ s, (e.residence s).reg? = some r → e'.residence s = .guest
  kept : ∀ s, (e.residence s).reg? ≠ some r → e'.residence s = e.residence s
  other : ∀ q, q ≠ r → e'.holding q = e.holding q ∧ SameReg x y q
  guest : ∀ s, (e.residence s).reg? ≠ some r → y.guest s = x.guest s

theorem Emptied.of_alike {e₁ e' : Engine} {y : Storage} (halike : e.Alike e₁)
    (h : Emptied r e₁ e' x y) : Emptied r e e' x y := by
  obtain ⟨hhost, hfree, hgone, hkept, hother, hguest⟩ := h
  simp only [halike.residence, halike.holding] at hgone hkept hother hguest
  exact ⟨hhost.trans halike.host, hfree, hgone, hkept, hother, hguest⟩

/-- All slots leave a register. Guest storage has the words of those that do not get lost. -/
theorem Coherent.release {lost' : Set Slot} {y : Storage} (hc : Coherent base last lost e x)
    (r : HostReg) (hstatic : ∀ s, (e.residence s).reg? = some r → (e.slotAt s).isStatic = false)
    (hother : ∀ q, q ≠ r → SameReg x y q)
    (hguest : ∀ s, (e.residence s).reg? ≠ some r → y.guest s = x.guest s)
    (hsaved : ∀ s, (e.residence s).reg? = some r → s ∉ lost' → y.guest s = last s)
    (hlost : ∀ s, (e.residence s).reg? ≠ some r → s ∉ lost' → s ∉ lost) :
    Coherent base last lost' ((e.clearAll (e.residents r)).free r) y
      ∧ Emptied r e ((e.clearAll (e.residents r)).free r) x y := by
  have hv := vacated_release r hc.toTables
  have hfree : ((e.clearAll (e.residents r)).free r).holding r = none := by
    rw [Engine.holding_free, if_pos rfl]
  refine ⟨hc.vacate hv hstatic ?_ hguest hsaved hlost, hv.host, hfree, hv.gone, hv.kept, ?_, hguest⟩
  · intro q h hq
    refine hother q ?_
    rintro rfl
    rw [hfree] at hq
    exact nomatch hq
  · intro q hq
    refine ⟨?_, hother q hq⟩
    rw [Engine.holding_free, if_neg hq, Engine.holding_clearAll]

/-- The slots of a register are let go on an engine with the same tables, once guest storage has
their words. -/
theorem after_release {e₁ : Engine} {y : Storage} (hc : Coherent base last lost e x)
    (halike : e.Alike e₁)
    (hstatic : ∀ s, (e.residence s).reg? = some r → (e.slotAt s).isStatic = false)
    (hother : ∀ q, q ≠ r → SameReg x y q)
    (hguest : ∀ s, (e.residence s).reg? ≠ some r → y.guest s = x.guest s)
    (hsaved : ∀ s, (e.residence s).reg? = some r → s ∉ lost → y.guest s = last s) :
    After base (modify fun e' => (e'.clearAll (e.residents r)).free r) e₁ y fun _ e' y =>
      Coherent base last lost e' y ∧ Emptied r e e' x y := by
  have hrelease : Coherent base last lost _ y ∧ _ := (hc.of_alike halike).release r
    (by simpa only [halike.residence, halike.isStatic] using hstatic) hother
    (by simpa only [halike.residence] using hguest)
    (by simpa only [halike.residence] using hsaved) fun _ _ h => h
  rw [halike.residents] at hrelease
  exact after_update ((e₁.silent_clearAll _).trans (Engine.silent_setHolding _ r none))
    ⟨hrelease.1, hrelease.2.of_alike halike⟩

/-- **A register is emptied without loss.** -/
theorem after_flushReg (hc : Coherent base last lost e x) :
    After base (flushReg r) e x fun _ e' y =>
      Coherent base last lost e' y ∧ Emptied r e e' x y := by
  unfold flushReg
  refine after_requireReg fun _ => after_get ?_
  cases hlist : e.residents r with
  | nil =>
    have hnone : ∀ s, (e.residence s).reg? ≠ some r := by
      intro s hs
      have hmem := (hc.toTables.mem_residents _).mpr ⟨hs, rfl⟩
      rw [hlist] at hmem
      exact nomatch hmem
    have hrelease := after_release (r := r) hc (Engine.Alike.refl e)
      (fun s hs => absurd hs (hnone s)) (fun q _ => SameReg.refl x q) (fun _ _ => rfl)
      fun s hs => absurd hs (hnone s)
    rw [hlist] at hrelease
    exact hrelease
  | cons p rest =>
    simp only
    by_cases hhead : (e.slotAt p.1).isStatic = true
    · rw [if_pos hhead]
      exact after_bind after_violate
    rw [if_neg hhead]
    obtain ⟨hp, -⟩ := (hc.toTables.mem_residents p.2).mp (hlist ▸ List.mem_cons_self)
    obtain ⟨h, hr, -⟩ := hc.placed p.1 r hp
    -- only the first slot is asked whether it is bound; a bound slot is alone in its register
    have hstatic : ∀ s, (e.residence s).reg? = some r → (e.slotAt s).isStatic = false := by
      intro s hs
      refine Bool.eq_false_iff.mpr fun hstatic => hhead ?_
      rw [hc.toTables.eq_of_isStatic hp hs hstatic]
      exact hstatic
    -- a clean register has its words in guest storage already
    by_cases hdirty : e.isDirty r = true
    · rw [if_pos hdirty]
      rw [← hlist]
      refine after_bind ((after_storeLanes hc.toTables hr).mono fun _ e₁ y ⟨halike, hstored⟩ => ?_)
      refine after_release hc halike hstatic hstored.other hstored.kept fun s hs hl => ?_
      rw [hstored.stored s hs]
      exact hc.value s r h hs hr hl
    · rw [if_neg hdirty]
      rw [← hlist]
      have hd : h.dirty = false := by
        rw [Engine.isDirty_eq hr] at hdirty
        exact Bool.eq_false_iff.mpr hdirty
      exact after_release hc (Engine.Alike.refl e) hstatic (fun q _ => SameReg.refl x q)
        (fun _ _ => rfl) fun s hs hl => hc.clean s r h hs hr hd hl

/-! ## Handing out a register -/

/-- The slots that are given up if a register of this class is asked for now: if no register is
free and the one to evict is taken for dead, those that live in it. -/
def Engine.givenUp (e : Engine) (bank : Bank) : Set Slot :=
  {s | e.findFree bank = none ∧ ∃ r, e.victim bank = some (r, true) ∧
    (e.residence s).reg? = some r}

/-- The register to evict is one of the order, and it may be evicted. -/
theorem Engine.victim_spec {bank : Bank} {dead : Bool} (hv : e.victim bank = some (r, dead)) :
    r ∈ e.host.order bank e.policy.useStatics ∧ e.isEvictable r = true := by
  have hone : ∀ unusedOnly, (e.host.order bank e.policy.useStatics).findSome?
      (e.evictionOf unusedOnly) = some (r, dead) →
      r ∈ e.host.order bank e.policy.useStatics ∧ e.isEvictable r = true := by
    intro unusedOnly hfind
    obtain ⟨q, hq, heq⟩ := List.exists_of_findSome?_eq_some hfind
    unfold evictionOf at heq
    by_cases hev : e.isEvictable q = true
    · rw [hev] at heq
      simp only [Bool.not_true, Bool.false_eq_true, if_false] at heq
      have hqr : q = r := by
        split at heq
        · exact congrArg Prod.fst (Option.some.inj heq)
        · split at heq
          · exact congrArg Prod.fst (Option.some.inj heq)
          · exact nomatch heq
      exact hqr ▸ ⟨hq, hev⟩
    · rw [Bool.not_eq_true] at hev
      rw [hev] at heq
      exact nomatch heq
  -- first the registers that are not used again, then all of them
  unfold victim at hv
  simp only at hv
  split at hv
  · rename_i v hfind
    exact hone true (hfind.trans hv)
  · exact hone false hv

/-- A register that may be evicted is not reserved, and no slot in it is locked or bound. -/
theorem Tables.of_isEvictable (ht : Tables e) (hev : e.isEvictable r = true) :
    (e.hostAt r).reserved = false ∧ ∀ s, (e.residence s).reg? = some r →
      (e.slotAt s).locked = false ∧ (e.slotAt s).isStatic = false := by
  unfold Engine.isEvictable at hev
  simp only [Bool.and_eq_true, Bool.not_eq_true', List.any_eq_false, Bool.or_eq_true, not_or,
    Bool.not_eq_true] at hev
  exact ⟨hev.1.2, fun s hs => hev.2 (s, _) ((ht.mem_residents _).mpr ⟨hs, rfl⟩)⟩

/-- Register `r` of a class has been handed out: it is empty now, and it was neither reserved nor
the home of a locked slot. -/
structure Handed (bank : Bank) (e : Engine) (r : HostReg) (e' : Engine) (x y : Storage) : Prop
    extends Emptied r e e' x y where
  listed : r ∈ e.host.order bank e.policy.useStatics
  spare : (e.hostAt r).reserved = false
  unlocked : ∀ s, (e.residence s).reg? = some r → (e.slotAt s).locked = false

/-- A register that is free can be handed out as it is. -/
theorem Tables.handed_of_findFree {bank : Bank} (ht : Tables e) (x : Storage)
    (hfree : e.findFree bank = some r) : Handed bank e r e x x := by
  have hmem := List.mem_of_find?_eq_some hfree
  have hsome := List.find?_some hfree
  simp only [Bool.and_eq_true, Bool.not_eq_true', Option.isNone_iff_eq_none] at hsome
  have hnone : ∀ s, (e.residence s).reg? ≠ some r := by
    intro s hs
    obtain ⟨h, hr, -⟩ := ht.placed s r hs
    rw [show e.holding r = none from hsome.1] at hr
    exact nomatch hr
  exact ⟨⟨rfl, hsome.1, fun s hs => absurd hs (hnone s), fun _ _ => rfl,
    fun q _ => ⟨rfl, SameReg.refl x q⟩, fun _ _ => rfl⟩, hmem, hsome.2,
    fun s hs => absurd hs (hnone s)⟩

/-- A register without bound slots is forgotten. The words that lived in it are lost. -/
theorem after_discard {lost' : Set Slot} (hc : Coherent base last lost e x)
    (hstatic : ∀ s, (e.residence s).reg? = some r → (e.slotAt s).isStatic = false)
    (hsub : lost ⊆ lost') (hlost : ∀ s, (e.residence s).reg? = some r → s ∈ lost') :
    After base (modify (·.discard r)) e x fun _ e' y =>
      Coherent base last lost' e' y ∧ Emptied r e e' x y := by
  -- the check for bound slots never stops it here
  have heq : e.discard r = (e.clearAll (e.residents r)).free r := by
    unfold Engine.discard
    refine if_neg ?_
    rw [Bool.not_eq_true, List.any_eq_false]
    intro p hp
    rw [Bool.not_eq_true]
    exact hstatic p.1 ((hc.toTables.mem_residents p.2).mp hp).1
  have hrelease : Coherent base last lost' _ x ∧ _ := hc.release r hstatic
    (fun q _ => SameReg.refl x q) (fun _ _ => rfl) (fun s hs hl => absurd (hlost s hs) hl)
    fun s _ hl hl' => hl (hsub hl')
  have hsilent := (e.silent_clearAll (e.residents r)).trans (Engine.silent_setHolding _ r none)
  refine after_update ?_ ?_
  · rw [heq]
    exact hsilent
  · rw [heq]
    exact hrelease

/-- **A register is handed out.** Only slots whose register is taken for dead are lost. -/
theorem after_alloc (bank : Bank) (hc : Coherent base last lost e x) :
    After base (alloc bank) e x fun r e' y =>
      Coherent base last (lost ∪ e.givenUp bank) e' y ∧ Handed bank e r e' x y := by
  unfold alloc
  refine after_get ?_
  cases hfree : e.findFree bank with
  | some r =>
    exact after_pure ⟨hc.lose Set.subset_union_left, hc.toTables.handed_of_findFree x hfree⟩
  | none =>
    cases hvictim : e.victim bank with
    | none => exact after_violate
    | some v =>
      obtain ⟨r, dead⟩ := v
      obtain ⟨hmem, hev⟩ := e.victim_spec hvictim
      obtain ⟨hspare, hres⟩ := hc.toTables.of_isEvictable hev
      simp only
      -- the count of evictions is no part of what the tables say
      have halike : e.Alike { e with spills := e.spills + 1 } :=
        ⟨rfl, rfl, rfl, fun _ => rfl, fun _ => rfl, fun _ => rfl⟩
      refine after_set rfl rfl ?_
      have hhanded : ∀ e' y, Emptied r { e with spills := e.spills + 1 } e' x y →
          Handed bank e r e' x y := fun e' y hemptied =>
        ⟨hemptied.of_alike halike, hmem, hspare, fun s hs => (hres s hs).1⟩
      cases dead with
      | true =>
        simp only [if_true]
        have hgiven : ∀ s, (e.residence s).reg? = some r → s ∈ lost ∪ e.givenUp bank :=
          fun s hs => Or.inr ⟨hfree, r, hvictim, hs⟩
        refine after_bind ((after_discard (hc.of_alike halike) (fun s hs => (hres s hs).2)
          Set.subset_union_left hgiven).mono fun _ e' y h => ?_)
        exact after_pure ⟨h.1, hhanded e' y h.2⟩
      | false =>
        simp only [Bool.false_eq_true, if_false]
        refine after_bind ((after_flushReg (hc.of_alike halike)).mono fun _ e' y h => ?_)
        exact after_pure ⟨h.1.lose Set.subset_union_left, hhanded e' y h.2⟩

end Dynarec.Registers
