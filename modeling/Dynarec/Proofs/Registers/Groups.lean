/-
Float slots and groups keep every word.

A float slot that is mapped alone is in lane 0 of a register of its own afterwards; it may have to
leave a group, and then the group keeps its other lanes. Four slots that are mapped as a group are
in the four lanes of one register. The words of all four are on the move at once: the register is
filled while the tables still say where the words were, then the old homes are left, then the
register takes up the slots. In between the four slots count as lost.
-/
import Dynarec.Proofs.Registers.Mapping

set_option autoImplicit false

namespace Dynarec.Registers

open Storage

variable {base : UInt64} {last : Slot → Word} {lost : Set Slot} {e : Engine} {x : Storage}
  {s : Slot} {r : HostReg} {h : Holding} {mode : Mode}

/-- A float slot has its word in its lane. -/
theorem Coherent.lane_eq (hc : Coherent base last lost e x) (hs : (e.residence s).reg? = some r)
    (hfloat : Slot.isInteger s = false) (hl : s ∉ lost) :
    x.lane e.host r (e.residence s).lane = last s := by
  obtain ⟨h, hr, -⟩ := hc.placed s r hs
  have hvalue := hc.value s r h hs hr hl
  rw [hc.pointer_fpr hr (hc.bankOf_float hs hfloat), word_false] at hvalue
  exact hvalue

theorem Coherent.clean_of_isDirty (hc : Coherent base last lost e x)
    (hs : (e.residence s).reg? = some r) (hd : e.isDirty r = false) (hl : s ∉ lost) :
    x.guest s = last s := by
  obtain ⟨h, hr, -⟩ := hc.placed s r hs
  rw [Engine.isDirty_eq hr] at hd
  exact hc.clean s r h hs hr hd hl

/-- A register that does not have exactly one slot listed has a slot besides the given one. -/
theorem Tables.exists_other (ht : Tables e) (hs : (e.residence s).reg? = some r)
    (hlen : (e.residents r).length ≠ 1) : ∃ t, (e.residence t).reg? = some r ∧ t ≠ s := by
  refine Classical.byContradiction fun hnone => hlen ?_
  obtain ⟨h, hr, -⟩ := ht.placed s r hs
  have hall : ∀ p ∈ e.residents r, p = (s, (e.residence s).lane) := by
    rintro ⟨t, k⟩ hp
    obtain ⟨ht', rfl⟩ := (ht.mem_residents k).mp hp
    have hts : t = s := Classical.byContradiction fun hne => hnone ⟨t, ht', hne⟩
    rw [hts]
  -- no lane is listed twice
  have hnodup : (e.residents r).Nodup := by
    rw [Engine.residents_eq hr]
    refine List.Pairwise.filter _ (List.Pairwise.map _ ?_ List.nodup_range)
    exact fun _ _ hne heq => hne (congrArg Prod.snd heq)
  have hmem := (ht.mem_residents _).mpr ⟨hs, rfl⟩
  have hrep := List.eq_replicate_of_mem hall
  rw [hrep] at hnodup
  have hle := List.nodup_replicate.mp hnodup
  have hpos := List.length_pos_of_mem hmem
  omega

/-- A register that has exactly one slot listed has no slot besides the given one. -/
theorem Tables.alone_of_length (ht : Tables e) (hs : (e.residence s).reg? = some r)
    (hlen : (e.residents r).length = 1) : ∀ t, (e.residence t).reg? = some r → t = s := by
  obtain ⟨p, hp⟩ := List.length_eq_one_iff.mp hlen
  have hone : ∀ t, (e.residence t).reg? = some r → t = p.1 := by
    intro t ht'
    have hmem := ht.mem_residents_fst.mpr ht'
    rw [hp] at hmem
    exact List.mem_singleton.mp hmem
  exact fun t ht' => (hone t ht').trans (hone s hs).symm

/-- An empty register can take up a float slot that lives in no other. -/
theorem bound_bindFloat (dirty : Bool) (hs : s < Slot.count) (hfloat : Slot.isInteger s = false)
    (hr : r < e.hosts.size) (hbank : e.host.bankOf r = .fpr)
    (hempty : ∀ t, (e.residence t).reg? ≠ some r) (hnone : (e.residence s).reg? = none) :
    Bound r { first := s, dirty := dirty } e (e.bindScalar s r dirty) := by
  obtain ⟨hlo, hhi⟩ := Slot.isInteger_eq_false.mp hfloat
  exact bound_fresh (restated_set _ _ hs hr) hempty hnone rfl rfl rfl rfl rfl (fun h => nomatch h)
    (fun _ => ⟨0, rfl⟩) (suits_float hbank hlo hhi)

/-- An empty register takes up a float slot. -/
theorem Coherent.bindFloat {lost' : Set Slot} {y : Storage} {dirty : Bool}
    (hc : Coherent base last lost e x) (hs : s < Slot.count) (hfloat : Slot.isInteger s = false)
    (hr : r < e.hosts.size) (hbank : e.host.bankOf r = .fpr)
    (hempty : ∀ t, (e.residence t).reg? ≠ some r) (hnone : (e.residence s).reg? = none)
    (honly : OnlyReg r x y) (hlost : ∀ t, t ≠ s → t ∉ lost' → t ∉ lost)
    (hvalue : s ∉ lost' → y.lane e.host r 0 = last s)
    (hclean : dirty = false → s ∉ lost' → x.guest s = last s) :
    Coherent base last lost' (e.bindScalar s r dirty) y := by
  have hb := bound_bindFloat dirty hs hfloat hr hbank hempty hnone
  refine hc.bindScalar hb rfl rfl honly.other (fun t _ => by rw [honly.guest]) (fun _ _ => rfl)
    hlost hvalue (fun hd hl => by rw [honly.guest]; exact hclean hd hl) fun w hw => ?_
  have hres : (e.bindScalar s r dirty).residence s = .host r 0 :=
    (Engine.residence_setResidence _ s hs _).trans (if_pos rfl)
  rw [hres] at hw
  exact nomatch hw

/-- A register with one float slot that counts as dirty can be written. -/
theorem writable_bindScalar (hs : s < Slot.count) (hr : r < e.hosts.size) :
    Writable (e.bindScalar s r true) r s 1 := by
  have hrs := restated_set { first := s, dirty := true } (.host r 0) hs hr
  exact writable_scalar hrs.here rfl rfl rfl rfl hrs.residence

/-! ## Leaving a group -/

/-- A float slot moves from a group in which others stay into an empty register, which has its word
already if the word matters. -/
theorem Coherent.moveOut {y : Storage} {group : HostReg} {t : Slot}
    (hc : Coherent base last lost e x) (hfloat : Slot.isInteger s = false)
    (hs : (e.residence s).reg? = some group) (hne : t ≠ s)
    (ht : (e.residence t).reg? = some group) (hr : r < e.hosts.size)
    (hbank : e.host.bankOf r = .fpr) (hempty : ∀ u, (e.residence u).reg? ≠ some r)
    (honly : OnlyReg r x y) (hlane : mode.reads = true →
      y.lane e.host r 0 = x.lane e.host group (e.residence s).lane) :
    Coherent base last (lost ∪ mode.unread {s})
      ((e.clear s).bindScalar s r (mode.writes || (mode.reads && e.isDirty group))) y := by
  have hreads : s ∉ lost ∪ mode.unread {s} → mode.reads = true ∧ s ∉ lost :=
    fun hl => ⟨Bool.of_not_eq_false fun h => hl (Or.inr ⟨h, rfl⟩), fun h => hl (Or.inl h)⟩
  have hstatic : ∀ u ∈ ({s} : Set Slot), (e.slotAt u).isStatic = false := by
    rintro _ rfl
    refine Bool.eq_false_iff.mpr fun h => ?_
    rw [hc.isInteger_of_isStatic h] at hfloat
    exact nomatch hfloat
  have hv := vacated_clear hc.toTables hs hne ht
  -- between the two homes the slot counts as lost
  have hleft : Coherent base last (lost ∪ {s}) (e.clear s) y :=
    (hc.scribble honly fun u hu => absurd hu (hempty u)).vacate hv hstatic
      (fun q _ _ => SameReg.refl y q) (fun _ _ => rfl) (fun u hu hl => absurd (Or.inr hu) hl)
      fun u _ hl hin => hl (Or.inl hin)
  have hempty' : ∀ u, ((e.clear s).residence u).reg? ≠ some r := by
    intro u hu
    rw [hv.kept u (hv.not_mem_of_reg hu)] at hu
    exact hempty u hu
  refine hleft.bindFloat (Tables.lt_count hs) hfloat hr hbank hempty' (by rw [hv.gone s rfl]; rfl)
    (OnlyReg.refl y r) (fun u hu hl hin => hl (Or.inl (hin.resolve_right hu))) (fun hl => ?_)
    fun hd hl => ?_
  · obtain ⟨hmode, hl⟩ := hreads hl
    exact (hlane hmode).trans (hc.lane_eq hs hfloat hl)
  · obtain ⟨hmode, hl⟩ := hreads hl
    rw [Bool.or_eq_false_iff, hmode, Bool.true_and] at hd
    rw [honly.guest]
    exact hc.clean_of_isDirty hs hd.2 hl

/-- A float slot leaves a group in which others stay. -/
theorem after_leaveGroup {group : HostReg} {t : Slot} (hc : Coherent base last lost e x)
    (hfloat : Slot.isInteger s = false) (hs : (e.residence s).reg? = some group) (hne : t ≠ s)
    (ht : (e.residence t).reg? = some group) :
    After base (leaveGroup s group mode) e x fun r e' y =>
      Coherent base last (lost ∪ (e.reserve group true).givenUp .fpr ∪ mode.unread {s}) e' y ∧
        (mode.writes = true → Writable e' r s 1) := by
  unfold leaveGroup
  refine after_get ?_
  simp only
  obtain ⟨g, hgroup, -⟩ := hc.placed s group hs
  have hreserve := e.alike_reserve group true
  refine after_set rfl rfl (after_bind ((after_alloc .fpr (hc.of_alike hreserve)).mono ?_))
  rintro r e₁ y₁ ⟨hc₁, hh⟩
  -- the group is reserved, so it is not the register handed out
  have hrg : group ≠ r := by
    rintro rfl
    have hspare := hh.spare
    unfold Engine.reserve at hspare
    rw [Engine.hostAt_setHost, if_pos ⟨rfl, e.lt_size_of_holding hgroup⟩] at hspare
    exact nomatch hspare
  have hkept : ∀ u, (e.residence u).reg? = some group → e₁.residence u = e.residence u := by
    intro u hu
    refine (hh.kept u ?_).trans (hreserve.residence u)
    rw [hreserve.residence, hu]
    exact fun h => hrg (Option.some.inj h)
  have hdirty : e₁.isDirty group = e.isDirty group := by
    unfold Engine.isDirty
    rw [(hh.other group hrg).1, hreserve.holding]
  obtain ⟨hr, hbank, hempty⟩ := hh.fresh hc₁
  rw [← hkept s hs, ← hdirty]
  rw [← hkept s hs] at hs
  rw [← hkept t ht] at ht
  -- the reservation is taken back once the register has been handed out
  have hback := e₁.alike_reserve group (e.hostAt group).reserved
  refine after_bind (after_modify rfl rfl ?_)
  -- from any engine with these tables, once the register has the word if it matters
  have hmove : ∀ e₂ y₂, e₁.Alike e₂ → OnlyReg r y₁ y₂ → (mode.reads = true →
      y₂.lane e₁.host r 0 = y₁.lane e₁.host group (e₁.residence s).lane) →
      After base (modify (fun e' => (e'.clear s).bindScalar s r
          (mode.writes || (mode.reads && e₁.isDirty group))) >>= fun _ => pure r) e₂ y₂
        fun r e' y => Coherent base last
          (lost ∪ (e.reserve group true).givenUp .fpr ∪ mode.unread {s}) e' y ∧
            (mode.writes = true → Writable e' r s 1) := by
    intro e₂ y₂ halike honly hlane
    have hsize : r < e₂.hosts.size := by rw [halike.size]; exact hr
    have hword : mode.reads = true →
        y₂.lane e₂.host r 0 = y₁.lane e₂.host group (e₂.residence s).lane := by
      rw [halike.host, halike.residence]
      exact hlane
    have hmoved := (hc₁.of_alike halike).moveOut hfloat (by rw [halike.residence]; exact hs) hne
      (by rw [halike.residence]; exact ht) hsize (by rw [halike.host]; exact hbank)
      (by simpa only [halike.residence] using hempty) honly hword
    have hdirty' : e₂.isDirty group = e₁.isDirty group := by
      unfold Engine.isDirty
      rw [halike.holding]
    rw [hdirty'] at hmoved
    refine after_bind (after_modify rfl rfl (after_pure ⟨hmoved, fun hw => ?_⟩))
    rw [hw, Bool.true_or]
    exact writable_bindScalar (Tables.lt_count hs) hsize
  by_cases hmode : mode.reads = true
  · rw [if_pos hmode]
    refine after_bind (after_emit fun y₂ ⟨honly, hlane⟩ => ?_)
    exact hmove _ y₂ (hback.trans (Engine.alike_asked _ _)) honly fun _ => hlane
  · rw [if_neg hmode]
    exact hmove _ y₁ hback (OnlyReg.refl y₁ r) fun h => absurd h hmode

/-- The register of a group can become the register of the one slot that is left. -/
theorem Tables.bound_shrink {group : HostReg} {g : Holding} (ht : Tables e)
    (hfloat : Slot.isInteger s = false) (hs : (e.residence s).reg? = some group)
    (hg : e.holding group = some g)
    (halone : ∀ t, (e.residence t).reg? = some group → t = s) (dirty : Bool) :
    Bound group { g with first := s, isGroup := false, dirty := g.dirty || dirty } e
      ((e.modifyHolding group fun h =>
        { h with first := s, isGroup := false, dirty := h.dirty || dirty }).setResidence s
          (.host group 0)) := by
  obtain ⟨hlo, hhi⟩ := Slot.isInteger_eq_false.mp hfloat
  have hbank := ht.bankOf_float hs hfloat
  have hmodify := restated_modify (s := s) hg fun h : Holding =>
    { h with first := s, isGroup := false, dirty := h.dirty || dirty }
  have hrs := hmodify.trans (restated_setResidence hmodify.here (Tables.lt_count hs) (.host group 0))
  -- a float register is no pointer, whatever it holds
  have hplain : g.pointer = true ↔ Residence.host group 0 = .pointer group := by
    rw [ht.pointer_fpr hg hbank]
    exact ⟨(fun h => nomatch h), fun h => nomatch h⟩
  have hbefore : ∀ q, (e.residence s).reg? = some q → q = group := by
    intro q hq
    rw [hs] at hq
    exact (Option.some.inj hq).symm
  exact bound_scalar hrs rfl rfl rfl rfl hplain (fun _ => ⟨0, rfl⟩) halone hbefore
    (suits_float hbank hlo hhi)

/-- The register of a group becomes the register of the one slot that is left. -/
theorem Coherent.shrink {lost' : Set Slot} {y : Storage} {group : HostReg} {g : Holding}
    (hc : Coherent base last lost e x) (hfloat : Slot.isInteger s = false)
    (hs : (e.residence s).reg? = some group) (hg : e.holding group = some g)
    (halone : ∀ t, (e.residence t).reg? = some group → t = s) (honly : OnlyReg group x y)
    (dirty : Bool) (hlost : lost ⊆ lost')
    (hvalue : s ∉ lost' → y.lane e.host group 0 = x.lane e.host group (e.residence s).lane) :
    Coherent base last lost' ((e.modifyHolding group fun h =>
        { h with first := s, isGroup := false, dirty := h.dirty || dirty }).setResidence s
          (.host group 0)) y ∧
      (dirty = true → Writable ((e.modifyHolding group fun h =>
        { h with first := s, isGroup := false, dirty := h.dirty || dirty }).setResidence s
          (.host group 0)) group s 1) := by
  have hpointer := hc.pointer_fpr hg (hc.bankOf_float hs hfloat)
  have hb := hc.toTables.bound_shrink hfloat hs hg halone dirty
  have hres : ((e.modifyHolding group fun h =>
      { h with first := s, isGroup := false, dirty := h.dirty || dirty }).setResidence s
        (.host group 0)).residence s = .host group 0 :=
    (Engine.residence_setResidence _ s (Tables.lt_count hs) _).trans (if_pos rfl)
  refine ⟨?_, fun hd => ?_⟩
  · refine hc.bindScalar hb rfl rfl honly.other (fun t _ => by rw [honly.guest]) (fun _ _ => rfl)
      (fun t _ hl hin => hl (hlost hin)) ?_ ?_ ?_
    · intro hl
      unfold Storage.word
      simp only [hpointer, Bool.false_eq_true, if_false]
      rw [hvalue hl]
      exact hc.lane_eq hs hfloat fun hin => hl (hlost hin)
    · intro hd hl
      rw [honly.guest]
      exact hc.clean s group g hs hg (Bool.or_eq_false_iff.mp hd).1 fun hin => hl (hlost hin)
    · intro w hw
      rw [hres] at hw
      exact nomatch hw
  · have hd' : (g.dirty || dirty) = true := by rw [hd, Bool.or_true]
    exact writable_scalar hb.here rfl rfl hd' hpointer hres

/-- The last slot of a group takes over the register. -/
theorem after_shrinkGroup {group : HostReg} (hc : Coherent base last lost e x)
    (hfloat : Slot.isInteger s = false) (hs : (e.residence s).reg? = some group)
    (halone : ∀ t, (e.residence t).reg? = some group → t = s) :
    After base (shrinkGroup s group mode) e x fun _ e' y =>
      Coherent base last (lost ∪ mode.unread {s}) e' y ∧
        (mode.writes = true → Writable e' group s 1) := by
  obtain ⟨g, hg, -⟩ := hc.placed s group hs
  unfold shrinkGroup
  refine after_get ?_
  simp only
  by_cases hmove : ((e.residence s).lane != 0 && mode.reads) = true
  · rw [if_pos hmove]
    refine after_bind (after_emit fun y ⟨honly, hlane⟩ => after_modify rfl rfl ?_)
    exact (hc.of_alike (e.alike_asked _)).shrink hfloat hs hg halone honly mode.writes
      Set.subset_union_left fun _ => hlane
  · rw [if_neg hmove]
    refine after_modify rfl rfl ?_
    refine hc.shrink hfloat hs hg halone (OnlyReg.refl x group) mode.writes
      Set.subset_union_left fun hl => ?_
    -- the word matters, so it is in lane 0 already
    have hmode : mode.reads = true := Bool.of_not_eq_false fun h => hl (Or.inr ⟨h, rfl⟩)
    have hlane : (e.residence s).lane = 0 := by simpa [hmode] using hmove
    rw [hlane]

/-! ## One float slot -/

/-- The slots given up if a float slot is mapped now: it may need a register because it lives in
none, or because it has to leave a group in which others stay. -/
def Engine.givenUpForFloat (e : Engine) (s : Slot) : Set Slot :=
  (e.lock s).givenUpFor .fpr s ∪
    {t | ∃ group, (e.residence s).reg? = some group ∧ e.holdsGroup group = true ∧
      (e.residents group).length ≠ 1 ∧ t ∈ ((e.lock s).reserve group true).givenUp .fpr}

/-- A register is handed out, gets the word of a float slot if that matters, and takes up the
slot. -/
theorem after_takeUpFloat (hc : Coherent base last lost e x) (hs : s < Slot.count)
    (hfloat : Slot.isInteger s = false) (hlocked : (e.slotAt s).locked = true)
    (hnone : (e.residence s).reg? = none) :
    After base
      (alloc .fpr >>= fun r =>
        if mode.reads = true then
          emit (.load r s 1) >>= fun _ => modify (·.bindScalar s r mode.writes) >>= fun _ => pure r
        else modify (·.bindScalar s r mode.writes) >>= fun _ => pure r) e x fun r e' y =>
      Coherent base last (lost ∪ e.givenUpFor .fpr s ∪ mode.unread {s}) e' y ∧
        (mode.writes = true → Writable e' r s 1) := by
  refine after_bind ((after_alloc .fpr hc).mono fun r e₁ y₁ ⟨hc₁, hh⟩ => ?_)
  obtain ⟨hr, hbank, hempty⟩ := hh.fresh hc₁
  obtain ⟨hkept, -⟩ := hh.kept_of_locked hlocked
  have hnone₁ : (e₁.residence s).reg? = none := by rw [hkept, hnone]
  -- a float slot outside the registers has its word in guest storage: it has no known value
  have hguest : e₁.residence s = .guest := by
    obtain hguest | ⟨q, k, hhost⟩ := hc₁.float s hfloat
    · exact hguest
    · rw [hhost] at hnone₁
      exact nomatch hnone₁
  have hlost : ∀ t, t ∉ lost ∪ e.givenUpFor .fpr s ∪ mode.unread {s} →
      t ∉ lost ∪ e.givenUp .fpr :=
    fun t hl hin => hl (Or.inl (hin.imp id fun hg => ⟨hnone, hg⟩))
  have hwritable : ∀ d : Engine, r < d.hosts.size → mode.writes = true →
      Writable (d.bindScalar s r mode.writes) r s 1 := by
    intro d hd hw
    rw [hw]
    exact writable_bindScalar hs hd
  by_cases hmode : mode.reads = true
  · rw [if_pos hmode]
    refine after_bind (after_emit fun y₂ ⟨honly, hlane, _⟩ => after_bind (after_modify rfl rfl
      (after_pure ⟨?_, hwritable _ hr⟩)))
    refine (hc₁.of_alike (e₁.alike_asked _)).bindFloat hs hfloat hr hbank hempty hnone₁ honly
      (fun t _ => hlost t) (fun hl => ?_) fun _ hl => ?_
    · exact hlane.trans (hc₁.stored s hguest (hlost s hl))
    · exact hc₁.stored s hguest (hlost s hl)
  · rw [if_neg hmode]
    have hunread : s ∈ lost ∪ e.givenUpFor .fpr s ∪ mode.unread {s} :=
      Or.inr ⟨Bool.eq_false_iff.mpr hmode, rfl⟩
    refine after_bind (after_modify rfl rfl (after_pure ⟨?_, hwritable _ hr⟩))
    exact hc₁.bindFloat hs hfloat hr hbank hempty hnone₁ (OnlyReg.refl y₁ r)
      (fun t _ => hlost t) (fun hl => absurd hunread hl) fun _ hl => absurd hunread hl

/-- **A float slot is mapped.** -/
theorem after_mapFloat (hc : Coherent base last lost e x) :
    After base (mapFloat s mode) e x fun r e' y =>
      Coherent base last (lost ∪ e.givenUpForFloat s ∪ mode.unread {s}) e' y ∧
        (mode.writes = true → Writable e' r s 1) := by
  unfold mapFloat
  simp only
  refine after_require fun hfloat => ?_
  rw [Bool.not_eq_true] at hfloat
  refine after_lockSlot fun hs => after_get ?_
  have halike := e.alike_lock s
  have hc₀ := hc.of_alike halike
  have hlist := halike.residents
  have hgroup : ∀ r, (e.lock s).holdsGroup r = e.holdsGroup r := fun _ => rfl
  rw [halike.residence]
  cases hres : (e.residence s).reg? with
  | none =>
    have hnone : ((e.lock s).residence s).reg? = none := by rw [halike.residence, hres]
    refine (after_takeUpFloat hc₀ hs hfloat (e.locked_lock hs) hnone).mono fun r e' y h =>
      ⟨h.1.lose ?_, h.2⟩
    exact Set.union_subset_union_left _ (Set.union_subset_union_right _ Set.subset_union_left)
  | some r =>
    have hs₀ : ((e.lock s).residence s).reg? = some r := by rw [halike.residence, hres]
    obtain ⟨g, hg, hp⟩ := hc₀.placed s r hs₀
    simp only
    by_cases hgroup' : e.holdsGroup r = true
    · rw [if_neg (by rw [hgroup, hgroup']; exact (fun h => nomatch h)), hlist]
      by_cases hlen : (e.residents r).length = 1
      · rw [if_pos hlen]
        have halone := hc₀.alone_of_length hs₀ (by rw [hlist]; exact hlen)
        refine after_bind ((after_shrinkGroup hc₀ hfloat hs₀ halone).mono fun _ e' y h => ?_)
        exact after_pure ⟨h.1.lose (Set.union_subset_union_left _ Set.subset_union_left), h.2⟩
      · rw [if_neg hlen]
        obtain ⟨t, ht, hne⟩ := hc₀.exists_other hs₀ (by rw [hlist]; exact hlen)
        refine (after_leaveGroup hc₀ hfloat hs₀ hne ht).mono fun r' e' y h => ⟨h.1.lose ?_, h.2⟩
        refine Set.union_subset_union_left _ (Set.union_subset_union_right _ fun t ht => Or.inr ?_)
        exact ⟨r, hres, hgroup', hlen, ht⟩
    · rw [Bool.not_eq_true] at hgroup'
      rw [if_pos (by rw [hgroup, hgroup']; rfl)]
      -- the slot has a register of its own, which need only be marked
      have hscalar : g.isGroup = false := by
        rw [← Engine.holdsGroup_eq hg]
        exact hgroup'
      have hfirst := hc₀.eq_first hs₀ hg hscalar
      have hwidth : g.width = 1 := by
        unfold Holding.width
        rw [hscalar]
        rfl
      have hlane : ((e.lock s).residence s).lane = 0 := by rw [hp.lane_eq, ← hfirst, Nat.sub_self]
      have hthere : ∀ k < g.width, (e.lock s).residence (g.first + k) = .host r k := by
        intro k hk
        rw [hwidth, Nat.lt_one_iff] at hk
        have hhost := hc₀.residence_float hs₀ hfloat
        rw [hlane] at hhost
        rw [hk, ← hfirst]
        exact hhost
      have hsub : lost ⊆ lost ∪ e.givenUpForFloat s ∪ mode.unread {s} :=
        fun _ h => Or.inl (Or.inl h)
      refine (after_markDirty (hc₀.lose hsub) hg
        (hc₀.pointer_fpr hg (hc₀.bankOf_float hs₀ hfloat)) hthere).mono fun r' e' y h => ?_
      rw [hwidth, ← hfirst] at h
      exact h

/-! ## Four float slots -/

/-- The four slots of a group. -/
def groupSlots (first : Slot) : Set Slot := {s | first ≤ s ∧ s < first + 4}

/-- The slots of a group that lies in the float range. -/
structure InFloatRange (first : Slot) : Prop where
  lower : Slot.floatBase ≤ first
  upper : first + 4 ≤ Slot.floatEnd

theorem mem_groupSlots {first s : Slot} : s ∈ groupSlots first ↔ ∃ k < 4, s = first + k := by
  unfold groupSlots Slot
  constructor
  · rintro ⟨hle, hlt⟩
    exact ⟨s - first, by omega, by omega⟩
  · rintro ⟨k, hk, rfl⟩
    exact ⟨by omega, by omega⟩

theorem InFloatRange.isInteger {first : Slot} (hin : InFloatRange first)
    (hs : s ∈ groupSlots first) : Slot.isInteger s = false := by
  obtain ⟨hlo, hhi⟩ := hin
  obtain ⟨hle, hlt⟩ := hs
  refine Slot.isInteger_eq_false.mpr ?_
  unfold Slot at *
  omega

theorem InFloatRange.isStatic {first : Slot} (hin : InFloatRange first) (ht : Tables e)
    (hs : s ∈ groupSlots first) : (e.slotAt s).isStatic = false := by
  refine Bool.eq_false_iff.mpr fun hstatic => ?_
  have hfloat := hin.isInteger hs
  rw [ht.isInteger_of_isStatic hstatic] at hfloat
  exact nomatch hfloat

/-- Register `r` can be filled with the group: it is a float register, and what lives in it are
slots of the group in their lanes. -/
structure Fillable (e : Engine) (first : Slot) (r : HostReg) : Prop where
  size : r < e.hosts.size
  bank : e.host.bankOf r = .fpr
  lanes : ∀ s, (e.residence s).reg? = some r →
    s ∈ groupSlots first ∧ first + (e.residence s).lane = s

theorem Fillable.of_alike {e' : Engine} {first : Slot} (hf : Fillable e first r)
    (halike : e.Alike e') : Fillable e' first r := by
  refine ⟨by rw [halike.size]; exact hf.size, by rw [halike.host]; exact hf.bank, fun s => ?_⟩
  rw [halike.residence]
  exact hf.lanes s

/-- The four slots can leave their old registers and be taken up by `r`. -/
theorem Fillable.regroup {first : Slot} (hf : Fillable e first r) (ht : Tables e)
    (hin : InFloatRange first) (dirty : Bool) :
    Vacated (e.elsewhere first r (List.range 4)) e (e.gather first r) ∧
      Bound r { first := first, isGroup := true, dirty := dirty } (e.gather first r)
        ((e.gather first r).bindGroup first r dirty) := by
  have hv := vacated_gather first r ht fun k hk =>
    hin.isStatic ht (mem_groupSlots.mpr ⟨k, hk, rfl⟩)
  have hroom : ∀ s, ((e.gather first r).residence s).reg? = some r →
      first ≤ s ∧ s < first + 4 := by
    intro s hs
    have hnot := hv.not_mem_of_reg hs
    rw [hv.kept s hnot] at hs
    exact (hf.lanes s hs).1
  -- what has not left already was in `r`
  have hbefore : ∀ k < 4, ∀ q, ((e.gather first r).residence (first + k)).reg? = some q →
      q = r := by
    intro k hk q hq
    have hnot := hv.not_mem_of_reg hq
    rw [hv.kept _ hnot] at hq
    refine Classical.byContradiction fun hne => hnot ?_
    exact ⟨k, List.mem_range.mpr hk, rfl, q, hne, hq⟩
  exact ⟨hv, bound_group dirty hin.lower hin.upper (by rw [hv.size]; exact hf.size)
    (by rw [hv.host]; exact hf.bank) hroom hbefore⟩

theorem elsewhere_subset {first : Slot} :
    e.elsewhere first r (List.range 4) ⊆ groupSlots first := by
  rintro s ⟨k, hk, rfl, -⟩
  exact mem_groupSlots.mpr ⟨k, List.mem_range.mp hk, rfl⟩

/-- The four slots leave their old registers and live in the lanes of `r`, which has their words
already. -/
theorem Coherent.regroup {lost' : Set Slot} {y : Storage} {first : Slot}
    (hc : Coherent base last lost e x) (dirty : Bool) (hin : InFloatRange first)
    (hf : Fillable e first r)
    (honly : OnlyReg r x y) (hlost : ∀ t, t ∉ groupSlots first → t ∉ lost' → t ∉ lost)
    (hvalue : ∀ k < 4, first + k ∉ lost' → y.vec r k = last (first + k))
    (hclean : dirty = false → ∀ k < 4, first + k ∉ lost' →
      x.guest (first + k) = last (first + k)) :
    Coherent base last lost' ((e.gather first r).bindGroup first r dirty) y ∧
      (dirty = true → Writable ((e.gather first r).bindGroup first r dirty) r first 4) := by
  -- while the words are on the move the four slots count as lost
  have hmoving := (hc.lose (Set.subset_union_left : lost ⊆ lost ∪ groupSlots first)).scribble
    honly fun s hs => Or.inr (hf.lanes s hs).1
  obtain ⟨hv, hb⟩ := hf.regroup hc.toTables hin dirty
  have hleft : Coherent base last (lost ∪ groupSlots first) (e.gather first r) y :=
    hmoving.vacate hv (fun s hs => hin.isStatic hc.toTables (elsewhere_subset hs))
      (fun q _ _ => SameReg.refl y q) (fun _ _ => rfl)
      (fun s hs hl => absurd (Or.inr (elsewhere_subset hs)) hl) fun _ _ hl => hl
  refine ⟨?_, fun hd => ?_⟩
  · have hspan : ∀ s, Holding.Spans { first := first, isGroup := true, dirty := dirty } s →
        ∃ k < 4, s = first + k := fun s hs => mem_groupSlots.mp hs
    refine hleft.bind hb (fun q _ => SameReg.refl y q) (fun _ _ => rfl) (fun _ _ => rfl) ?_ ?_ ?_ ?_
    · exact fun t ht hl hin' => hin'.elim (hlost t ht hl) ht
    · intro t ht hl
      obtain ⟨k, hk, rfl⟩ := hspan t ht
      unfold Storage.word Storage.lane
      simp only [Bool.false_eq_true, if_false, Nat.add_sub_cancel_left]
      rw [hv.host, hf.bank]
      exact hvalue k hk hl
    · intro hd t ht hl
      obtain ⟨k, hk, rfl⟩ := hspan t ht
      rw [honly.guest]
      exact hclean hd k hk hl
    · intro t v ht hv'
      obtain ⟨k, hres⟩ := hb.float t ht (hin.isInteger ht)
      rw [hres] at hv'
      exact nomatch hv'
  · refine ⟨⟨_, hb.here, rfl, rfl, hd, rfl⟩, fun k hk => ?_⟩
    have hspan : first + k ∈ groupSlots first := mem_groupSlots.mpr ⟨k, hk, rfl⟩
    obtain ⟨j, hres⟩ := hb.float _ hspan (hin.isInteger hspan)
    have hfirst := (hb.placed _ hspan).first
    rw [hres] at hfirst ⊢
    have hj : j = k := Nat.add_left_cancel hfirst
    rw [hj]

/-- What a lane is filled with is the word of its slot. -/
theorem Coherent.source_eq {first : Slot} {k : Nat} (hc : Coherent base last lost e x)
    (hin : InFloatRange first) (hf : Fillable e first r) (hk : k < 4) (hl : first + k ∉ lost) :
    x.source (x.vec r k) (e.laneSource first r k) = last (first + k) := by
  have hfloat := hin.isInteger (mem_groupSlots.mpr ⟨k, hk, rfl⟩)
  unfold Engine.laneSource
  cases hres : (e.residence (first + k)).reg? with
  | none =>
    obtain hguest | ⟨q, j, hhost⟩ := hc.float _ hfloat
    · exact hc.stored _ hguest hl
    · rw [hhost] at hres
      exact nomatch hres
  | some old =>
    have hlane := hc.lane_eq hres hfloat hl
    have hbank := hc.bankOf_float hres hfloat
    unfold Storage.lane at hlane
    rw [hbank] at hlane
    simp only at hlane ⊢
    by_cases hold : old = r
    · subst hold
      rw [if_pos rfl]
      have hk' : (e.residence (first + k)).lane = k :=
        Nat.add_left_cancel (hf.lanes _ hres).2
      rw [hk'] at hlane
      exact hlane
    · rw [if_neg hold]
      by_cases hgroup : e.holdsGroup old = true
      · rw [if_pos hgroup]
        exact hlane
      · rw [if_neg hgroup]
        -- outside a group a slot is in lane 0
        obtain ⟨g, hg, hp⟩ := hc.placed _ old hres
        have hzero : (e.residence (first + k)).lane = 0 := by
          have hlt := hp.lane
          rw [Engine.holdsGroup_eq hg] at hgroup
          unfold Holding.width at hlt
          rw [if_neg hgroup] at hlt
          exact Nat.lt_one_iff.mp hlt
        rw [hzero] at hlane
        exact hlane

/-- A register is filled with the words of a group. -/
theorem after_compose {first : Slot} {isBase : Bool} (hc : Coherent base last lost e x)
    (hin : InFloatRange first) (hf : Fillable e first r) :
    After base (compose first r isBase) e x fun _ e' y =>
      e.Alike e' ∧ OnlyReg r x y ∧
        ∀ k < 4, first + k ∉ lost → y.vec r k = last (first + k) := by
  unfold compose
  refine after_get ?_
  simp only
  split
  · rename_i hload
    refine after_emit fun y ⟨honly, _, hlanes⟩ => ⟨e.alike_asked _, honly, fun k hk hl => ?_⟩
    rw [hlanes hf.bank k hk, ← hc.source_eq hin hf hk hl]
    -- every lane comes from guest storage
    have hguest : e.laneSource first r k = .guest (first + k) := by
      simp only [Bool.and_eq_true, beq_iff_eq] at hload
      have hlist := congrArg (·[k]?) hload.2
      simpa [hk] using hlist
    rw [hguest]
    rfl
  · refine after_emit fun y hperforms => ?_
    obtain ⟨honly, hlanes⟩ := hperforms
    refine ⟨e.alike_asked _, honly, fun k hk hl => ?_⟩
    rw [← hc.source_eq hin hf hk hl]
    exact (hlanes ⟨k, hk⟩).trans (congrArg _ (Vector.getElem_ofFn hk))

/-- Guest storage has the words of a group that has no lane in a dirty register. -/
theorem Coherent.guest_of_groupDirty {first : Slot} {k : Nat} (hc : Coherent base last lost e x)
    (hin : InFloatRange first) (hd : e.groupDirty first = false) (hk : k < 4)
    (hl : first + k ∉ lost) : x.guest (first + k) = last (first + k) := by
  obtain hguest | ⟨q, j, hhost⟩ := hc.float _ (hin.isInteger (mem_groupSlots.mpr ⟨k, hk, rfl⟩))
  · exact hc.stored _ hguest hl
  · have hreg : (e.residence (first + k)).reg? = some q := by rw [hhost]; rfl
    refine hc.clean_of_isDirty hreg ?_ hl
    unfold Engine.groupDirty at hd
    rw [List.any_eq_false] at hd
    have hlane := hd k (List.mem_range.mpr hk)
    rw [hreg] at hlane
    exact Bool.eq_false_iff.mpr hlane

/-- The register is filled, if the old words matter, and takes up the group. -/
theorem after_fill {first : Slot} {isBase : Bool} (hc : Coherent base last lost e x)
    (hin : InFloatRange first) (hf : Fillable e first r) :
    After base
      (if mode.reads = true then
        get >>= fun d => compose first r isBase >>= fun _ =>
          modify (fun e => (e.gather first r).bindGroup first r
            (d.groupDirty first || mode.writes)) >>= fun _ => pure r
      else modify (fun e => (e.gather first r).bindGroup first r true) >>= fun _ => pure r) e x
      fun r' e' y => Coherent base last (lost ∪ mode.unread (groupSlots first)) e' y ∧
        (mode.writes = true → Writable e' r' first 4) := by
  have hsilent := fun (d : Engine) b =>
    (d.silent_gather first r).trans (Engine.silent_bindGroup _ first r b)
  have hlost : ∀ t, t ∉ groupSlots first → t ∉ lost ∪ mode.unread (groupSlots first) → t ∉ lost :=
    fun t _ hl hin => hl (Or.inl hin)
  by_cases hmode : mode.reads = true
  · rw [if_pos hmode]
    refine after_get (after_bind ((after_compose hc hin hf).mono ?_))
    rintro _ e₁ y ⟨halike, honly, hwords⟩
    refine after_bind (after_update (hsilent e₁ _) (after_pure ?_))
    -- the register is clean only if none of the four words was in a dirty one
    have hclean : (e.groupDirty first || mode.writes) = false → ∀ k < 4,
        first + k ∉ lost ∪ mode.unread (groupSlots first) →
        x.guest (first + k) = last (first + k) := by
      intro hd k hk hl
      exact hc.guest_of_groupDirty hin (Bool.or_eq_false_iff.mp hd).1 hk fun hin => hl (Or.inl hin)
    have hregroup := (hc.of_alike halike).regroup _ hin (hf.of_alike halike) honly hlost
      (fun k hk hl => hwords k hk fun hin => hl (Or.inl hin)) hclean
    exact ⟨hregroup.1, fun hw => hregroup.2 (by rw [hw, Bool.or_true])⟩
  · rw [if_neg hmode]
    have hunread : ∀ k < 4, first + k ∈ lost ∪ mode.unread (groupSlots first) :=
      fun k hk => Or.inr ⟨Bool.eq_false_iff.mpr hmode, mem_groupSlots.mpr ⟨k, hk, rfl⟩⟩
    refine after_bind (after_update (hsilent e true) (after_pure ?_))
    have hregroup := hc.regroup true hin hf (OnlyReg.refl x r) hlost
      (fun k hk hl => absurd (hunread k hk) hl) fun _ k hk hl => absurd (hunread k hk) hl
    exact ⟨hregroup.1, fun _ => hregroup.2 rfl⟩

/-- The engine with the four slots of a group locked. -/
def Engine.lockGroup (e : Engine) (first : Slot) : Engine :=
  (List.range 4).foldl (fun e k => e.lock (first + k)) e

/-- The register that holds two or more slots of the group and is filled up. -/
def Engine.groupBase (e : Engine) (first : Slot) : Option HostReg :=
  if 2 ≤ ((e.groupRegister first).map fun r => (e.residents r).length).getD 0 then
    e.groupRegister first
  else none

/-- The slots given up if a group is mapped now: none if a register is filled up. -/
def Engine.givenUpForGroup (e : Engine) (first : Slot) : Set Slot :=
  {t | (e.lockGroup first).groupBase first = none ∧ t ∈ (e.lockGroup first).givenUp .fpr}

/-- A register that holds the group holds it in lanes. -/
theorem Engine.groupRegister_spec {first : Slot} (hg : e.groupRegister first = some r) :
    ∃ h, e.holding r = some h ∧ h.isGroup = true ∧ h.first = first ∧
      ∃ k < 4, (e.residence (first + k)).reg? = some r := by
  unfold groupRegister at hg
  have hmem := List.mem_of_find?_eq_some hg
  have hsome := List.find?_some hg
  obtain ⟨k, hk, hreg⟩ := List.mem_filterMap.mp hmem
  cases hr : e.holding r with
  | none =>
    rw [hr] at hsome
    exact nomatch hsome
  | some h =>
    rw [hr] at hsome
    simp only [Option.any_some, Bool.and_eq_true, decide_eq_true_eq] at hsome
    exact ⟨h, rfl, hsome.1, hsome.2, k, List.mem_range.mp hk, hreg⟩

/-- A register that holds the group can be filled up. -/
theorem Tables.fillable_of_groupRegister {first : Slot} (ht : Tables e)
    (hin : InFloatRange first) (hg : e.groupRegister first = some r) : Fillable e first r := by
  obtain ⟨h, hr, hgroup, hfirst, k, hk, hreg⟩ := Engine.groupRegister_spec hg
  refine ⟨e.lt_size_of_holding hr, ?_, fun s hs => ?_⟩
  · exact ht.bankOf_float hreg (hin.isInteger (mem_groupSlots.mpr ⟨k, hk, rfl⟩))
  · have hp := ht.placed_of hs hr
    have hlane := hp.lane
    have heq := hp.first
    unfold Holding.width at hlane
    rw [hgroup] at hlane
    rw [hfirst] at heq
    exact ⟨mem_groupSlots.mpr ⟨_, hlane, heq.symm⟩, heq⟩

theorem Engine.alike_lockGroup (e : Engine) (first : Slot) : e.Alike (e.lockGroup first) := by
  unfold lockGroup
  generalize List.range 4 = lanes
  induction lanes generalizing e with
  | nil => exact Alike.refl e
  | cons k lanes ih => exact (e.alike_lock _).trans (ih _)

theorem Engine.silent_lockGroup (e : Engine) (first : Slot) : e.Silent (e.lockGroup first) :=
  Silent.foldl (f := fun e k => e.lock (first + k)) (fun e _ => e.silent_lock _) _ e

theorem after_lift {α β : Type} {m : Except Fault α} {f : α → EngineM β}
    {R : β → Engine → Storage → Prop} (hf : ∀ a, m = .ok a → After base (f a) e x R) :
    After base ((liftM m : EngineM α) >>= f) e x R := by
  cases hm : m with
  | error g => exact fun _ _ h => nomatch h
  | ok a => exact hf a hm

/-- **A group is mapped.** -/
theorem after_mapGroup {first : Slot} (hc : Coherent base last lost e x) :
    After base (mapGroup first mode) e x fun r e' y =>
      Coherent base last
          (lost ∪ e.givenUpForGroup first ∪ mode.unread (groupSlots first)) e' y ∧
        (mode.writes = true → Writable e' r first 4) := by
  unfold mapGroup
  simp only
  refine after_require fun hlo => after_lift fun stop hstop => after_require fun hhi => ?_
  have hin : InFloatRange first := by
    unfold asDouble at hstop
    split at hstop
    · cases hstop
      exact ⟨Nat.le_of_not_lt hlo, Nat.le_of_not_lt hhi⟩
    · exact nomatch hstop
  refine after_bind (after_update (e.silent_lockGroup first) (after_get ?_))
  have hc₀ := hc.of_alike (e.alike_lockGroup first)
  unfold Engine.givenUpForGroup
  rw [show (List.range 4).foldl (fun e k => e.lock (first + k)) e = e.lockGroup first from rfl]
  generalize e.lockGroup first = d at hc₀
  split
  · -- all four lanes are in place
    rename_i r hgroup hfull
    rw [hgroup] at hfull
    obtain ⟨g, hg, hisGroup, hfirst, -⟩ := Engine.groupRegister_spec hgroup
    have hlist := Engine.residents_full hg hisGroup hfull
    have hwidth : g.width = 4 := by
      unfold Holding.width
      rw [hisGroup]
      rfl
    have hthere : ∀ k < g.width, d.residence (g.first + k) = .host r k := by
      intro k hk
      rw [hwidth] at hk
      have hmem : (g.first + k, k) ∈ d.residents r := by
        rw [hlist]
        exact List.mem_map.mpr ⟨k, List.mem_range.mpr hk, rfl⟩
      obtain ⟨hreg, hlane⟩ := (hc₀.mem_residents k).mp hmem
      rw [hfirst] at hreg hlane ⊢
      have hhost := hc₀.residence_float hreg (hin.isInteger (mem_groupSlots.mpr ⟨k, hk, rfl⟩))
      rw [hlane] at hhost
      exact hhost
    have hbank := (hc₀.fillable_of_groupRegister hin hgroup).bank
    have hsub : lost ⊆ lost ∪ {t | d.groupBase first = none ∧ t ∈ d.givenUp .fpr} ∪
        mode.unread (groupSlots first) := fun _ h => Or.inl (Or.inl h)
    refine (after_markDirty (hc₀.lose hsub) hg (hc₀.pointer_fpr hg hbank) hthere).mono
      fun r' e' y h => ?_
    rw [hwidth, hfirst] at h
    exact h
  · have hbase : (if 2 ≤ ((d.groupRegister first).map fun r => (d.residents r).length).getD 0 then
        d.groupRegister first else none) = d.groupBase first := rfl
    rw [hbase]
    cases hgroup : d.groupBase first with
    | some r =>
      -- a register is filled up
      have hreg : d.groupRegister first = some r := by
        unfold Engine.groupBase at hgroup
        split at hgroup
        · exact hgroup
        · exact nomatch hgroup
      have hf := hc₀.fillable_of_groupRegister hin hreg
      refine (after_fill hc₀ hin hf).mono fun r' e' y h => ⟨h.1.lose ?_, h.2⟩
      exact Set.union_subset_union_left _ Set.subset_union_left
    | none =>
      refine after_bind ((after_alloc .fpr hc₀).mono fun r e₁ y₁ ⟨hc₁, hh⟩ => ?_)
      obtain ⟨hr, hbank, hempty⟩ := hh.fresh hc₁
      have hf : Fillable e₁ first r := ⟨hr, hbank, fun s hs => absurd hs (hempty s)⟩
      refine (after_fill hc₁ hin hf).mono fun r' e' y h => ⟨h.1.lose ?_, h.2⟩
      exact Set.union_subset_union_left _ (Set.union_subset_union_right _ fun t ht => ⟨rfl, ht⟩)

end Dynarec.Registers
