/-
Bringing slots into registers keeps every word.

For each mapping: the words of all slots stay what they were, except for slots given up on the way
and, where the old value does not matter, the slots that are mapped. The slots that are mapped are
in the lanes of the register that is returned. If they are to be written, the register counts as
dirty, so that a caller may put new words into it.

A register that is asked for is asked for after the slots of the mapping have been locked, so none
of them is evicted for it. A lane that leaves its group keeps the group from being evicted by
reserving it.
-/
import Dynarec.Proofs.Registers.Evict

set_option autoImplicit false

namespace Dynarec.Registers

open Storage

variable {base : UInt64} {last : Slot → Word} {lost : Set Slot} {e : Engine} {x : Storage}
  {s : Slot} {r : HostReg} {h : Holding} {mode : Mode}

/-- The mapped slots, if their old value does not matter. -/
def Mode.unread (mode : Mode) (slots : Set Slot) : Set Slot :=
  {s | mode.reads = false ∧ s ∈ slots}

/-- The register holds `n` slots from `first` on in its lanes, and counts as dirty: a caller may put
new words into it. -/
structure Writable (e : Engine) (r : HostReg) (first : Slot) (n : Nat) : Prop where
  holding : ∃ h, e.holding r = some h ∧ h.first = first ∧ h.width = n ∧ h.dirty = true ∧
    h.pointer = false
  residence : ∀ k < n, e.residence (first + k) = .host r k

/-- A register that counts as dirty and holds one slot as it is can be written. -/
theorem writable_scalar (hr : e.holding r = some h) (hfirst : h.first = s)
    (hg : h.isGroup = false) (hd : h.dirty = true) (hp : h.pointer = false)
    (hres : e.residence s = .host r 0) : Writable e r s 1 := by
  refine ⟨⟨h, hr, hfirst, ?_, hd, hp⟩, fun k hk => ?_⟩
  · unfold Holding.width
    rw [hg]
    rfl
  · rw [Nat.lt_one_iff.mp hk]
    exact hres

/-- A register that holds what is asked for already only becomes dirty, if it is to be written. -/
theorem after_markDirty (hc : Coherent base last lost e x) (hr : e.holding r = some h)
    (hp : h.pointer = false) (hres : ∀ k < h.width, e.residence (h.first + k) = .host r k) :
    After base
      (if mode.writes = true then
        modify (·.modifyHolding r fun h => { h with dirty := true }) >>= fun _ => pure r
      else pure r) e x fun r' e' y =>
      Coherent base last lost e' y ∧ (mode.writes = true → Writable e' r' h.first h.width) := by
  by_cases hmode : mode.writes = true
  · rw [if_pos hmode]
    refine after_bind (after_modify rfl rfl (after_pure ⟨?_, fun _ => ?_⟩))
    · exact hc.flag (fun _ => rfl) (fun _ => rfl) (fun _ => rfl) fun _ _ _ _ h => nomatch h
    · refine ⟨⟨{ h with dirty := true }, ?_, rfl, rfl, rfl, hp⟩, hres⟩
      rw [e.holding_modifyHolding, if_pos rfl, hr]
      rfl
  · rw [if_neg hmode]
    exact after_pure ⟨hc, fun h => absurd h hmode⟩

/-! ## One slot in a register -/

/-- A register handed out is of the class asked for, and nothing lives in it. -/
theorem Handed.fresh {bank : Bank} {e' : Engine} {y : Storage} {lost' : Set Slot}
    (hh : Handed bank e r e' x y) (hc : Coherent base last lost' e' y) :
    r < e'.hosts.size ∧ e'.host.bankOf r = bank ∧ ∀ s, (e'.residence s).reg? ≠ some r := by
  have hsane := hc.sane
  rw [hh.host] at hsane
  obtain ⟨hlt, hbank⟩ := hsane.order bank _ r hh.listed
  refine ⟨by rw [hc.size, hh.host]; exact hlt, by rw [hh.host]; exact hbank, fun s hs => ?_⟩
  obtain ⟨h, hr, -⟩ := hc.placed s r hs
  rw [hh.free] at hr
  exact nomatch hr

/-- A slot that was locked stays where it is when a register is handed out. -/
theorem Handed.kept_of_locked {bank : Bank} {e' : Engine} {y : Storage}
    (hh : Handed bank e r e' x y) (hlocked : (e.slotAt s).locked = true) :
    e'.residence s = e.residence s ∧ y.guest s = x.guest s := by
  have hne : (e.residence s).reg? ≠ some r := by
    intro hs
    rw [hh.unlocked s hs] at hlocked
    exact nomatch hlocked
  exact ⟨hh.kept s hne, hh.guest s hne⟩

/-- A slot that lives in no register is taken up by an empty one. -/
theorem bound_fresh {e' : Engine} {v : Residence} (hrs : Restated r h s v e e')
    (hempty : ∀ t, (e.residence t).reg? ≠ some r) (hnone : (e.residence s).reg? = none)
    (hfirst : h.first = s) (hg : h.isGroup = false) (hpointer : h.pointer = false)
    (hv : v.reg? = some r) (hlane : v.lane = 0) (hv' : v ≠ .pointer r)
    (hfloat : Slot.isInteger s = false → ∃ k, v = .host r k) (hsuits : Suits e.host r h) :
    Bound r h e e' := by
  refine bound_scalar hrs hfirst hg hv hlane ?_ hfloat (fun t ht => absurd ht (hempty t)) ?_ hsuits
  · rw [hpointer]
    exact ⟨(fun h => nomatch h), fun h => absurd h hv'⟩
  · intro q hq
    rw [hnone] at hq
    exact nomatch hq

/-- The new word of the one slot of a register that is not a group. -/
theorem Coherent.bindScalar {lost' : Set Slot} {e' : Engine} {y : Storage}
    {last' : Slot → Word} (hc : Coherent base last lost e x) (hb : Bound r h e e')
    (hfirst : h.first = s) (hg : h.isGroup = false)
    (hregs : ∀ q, q ≠ r → SameReg x y q) (hguest : ∀ t, t ≠ s → y.guest t = x.guest t)
    (hlast : ∀ t, t ≠ s → last' t = last t) (hlost : ∀ t, t ≠ s → t ∉ lost' → t ∉ lost)
    (hvalue : s ∉ lost' → y.word e.host base r h.pointer 0 = last' s)
    (hclean : h.dirty = false → s ∉ lost' → y.guest s = last' s)
    (hknown : ∀ v, (e'.residence s).known? = some v → last' s = v) :
    Coherent base last' lost' e' y := by
  have hspan : ∀ t, h.Spans t ↔ t = s := fun t => hfirst ▸ Holding.spans_scalar hg t
  refine hc.bind hb hregs ?_ ?_ ?_ ?_ ?_ ?_
  · exact fun t ht => hguest t ((hspan t).not.mp ht)
  · exact fun t ht => hlast t ((hspan t).not.mp ht)
  · exact fun t ht => hlost t ((hspan t).not.mp ht)
  · intro t ht hl
    rw [hspan] at ht
    subst ht
    rw [hfirst, Nat.sub_self]
    exact hvalue hl
  · intro hd t ht hl
    rw [hspan] at ht
    subst ht
    exact hclean hd hl
  · intro t v ht hv
    rw [hspan] at ht
    subst ht
    exact hknown v hv

/-- An integer slot is alone in its register, so that what is said about the two may be said anew.
-/
theorem Tables.bound_restate {g : Holding} {v : Residence} {e' : Engine} (ht : Tables e)
    (hs : (e.residence s).reg? = some r) (hint : Slot.isInteger s = true)
    (hr : e.holding r = some g) (hrs : Restated r h s v e e') (hfirst : h.first = g.first)
    (hg : h.isGroup = g.isGroup) (hv : v.reg? = some r) (hlane : v.lane = 0)
    (hpointer : h.pointer = true ↔ v = .pointer r) : Bound r h e e' := by
  have hbank := (ht.bankOf_eq hs).mpr hint
  obtain ⟨hscalar, -⟩ := (ht.suits r g hr).gpr hbank
  have heq := ht.eq_first hs hr hscalar
  refine bound_scalar hrs (hfirst.trans heq.symm) (hg.trans hscalar) hv hlane hpointer ?_ ?_ ?_ ?_
  · intro hfloat
    rw [hint] at hfloat
    exact nomatch hfloat
  · intro t ht'
    rw [ht.eq_first ht' hr hscalar, heq]
  · intro q hq
    rw [hs] at hq
    exact (Option.some.inj hq).symm
  · refine suits_integer hbank (hg.trans hscalar) ?_
    rw [hfirst, ← heq]
    exact hint

/-- **What is said about an integer slot and its register changes**, and with it what the register
and guest storage hold of the slot. -/
theorem Coherent.restate {g : Holding} {v : Residence} {lost' : Set Slot} {e' : Engine}
    {y : Storage} {last' : Slot → Word} (hc : Coherent base last lost e x)
    (hs : (e.residence s).reg? = some r) (hint : Slot.isInteger s = true)
    (hr : e.holding r = some g) (hrs : Restated r h s v e e') (hfirst : h.first = g.first)
    (hg : h.isGroup = g.isGroup) (hv : v.reg? = some r) (hlane : v.lane = 0)
    (hpointer : h.pointer = true ↔ v = .pointer r)
    (hregs : ∀ q, q ≠ r → SameReg x y q) (hguest : ∀ t, t ≠ s → y.guest t = x.guest t)
    (hlast : ∀ t, t ≠ s → last' t = last t) (hlost : ∀ t, t ≠ s → t ∉ lost' → t ∉ lost)
    (hvalue : s ∉ lost' → y.word e.host base r h.pointer 0 = last' s)
    (hclean : h.dirty = false → s ∉ lost' → y.guest s = last' s)
    (hknown : ∀ w, v.known? = some w → last' s = w) : Coherent base last' lost' e' y := by
  have hbank := (hc.bankOf_eq hs).mpr hint
  obtain ⟨hscalar, -⟩ := (hc.suits r g hr).gpr hbank
  have heq := hc.eq_first hs hr hscalar
  have hb := hc.toTables.bound_restate hs hint hr hrs hfirst hg hv hlane hpointer
  refine hc.bindScalar hb (hfirst.trans heq.symm) (hg.trans hscalar) hregs hguest hlast hlost hvalue
    hclean fun w hw => hknown w ?_
  rw [← hw, hrs.residence]

/-- The word of an integer slot is in lane 0 of its register. -/
theorem Coherent.word_integer {g : Holding} (hc : Coherent base last lost e x)
    (hs : (e.residence s).reg? = some r) (hint : Slot.isInteger s = true)
    (hr : e.holding r = some g) (hl : s ∉ lost) : x.word e.host base r g.pointer 0 = last s := by
  have hbank := (hc.bankOf_eq hs).mpr hint
  obtain ⟨hscalar, -⟩ := (hc.suits r g hr).gpr hbank
  have hlane : (e.residence s).lane = 0 := by
    rw [(hc.placed_of hs hr).lane_eq, hc.eq_first hs hr hscalar, Nat.sub_self]
  have hvalue := hc.value s r g hs hr hl
  rw [hlane] at hvalue
  exact hvalue

/-- In an integer register the word is the lower half, less the memory base of a pointer. -/
theorem Storage.word_gpr {host : Host} (hbank : host.bankOf r = .gpr) (pointer : Bool) (k : Nat) :
    x.word host base r pointer k
      = if pointer then (x.gpr r - base).toUInt32 else (x.gpr r).toUInt32 := by
  unfold Storage.word Storage.lane
  rw [hbank]

/-! ## Integer slots -/

/-- The slots given up if a slot is brought into a register of a class now: none if it is in a
register already. -/
def Engine.givenUpFor (e : Engine) (bank : Bank) (s : Slot) : Set Slot :=
  {t | (e.residence s).reg? = none ∧ t ∈ e.givenUp bank}

/-- An empty register can take up an integer slot that lives in no other. -/
theorem bound_bindInteger {v : Residence} (dirty : Bool) (hs : s < Slot.count)
    (hint : Slot.isInteger s = true) (hr : r < e.hosts.size) (hbank : e.host.bankOf r = .gpr)
    (hempty : ∀ t, (e.residence t).reg? ≠ some r) (hnone : (e.residence s).reg? = none)
    (hv : v.reg? = some r) (hlane : v.lane = 0) (hne : v ≠ .pointer r) :
    Bound r { first := s, dirty := dirty, normalized := true } e (e.bindInteger s r dirty v) := by
  refine bound_fresh (restated_set _ _ hs hr) hempty hnone rfl rfl rfl hv hlane hne ?_
    (suits_integer hbank rfl hint)
  intro hfloat
  rw [hint] at hfloat
  exact nomatch hfloat

/-- An empty register takes up an integer slot. -/
theorem Coherent.bindInteger {lost' : Set Slot} {y : Storage} {dirty : Bool} {v : Residence}
    (hc : Coherent base last lost e x) (hs : s < Slot.count) (hint : Slot.isInteger s = true)
    (hr : r < e.hosts.size) (hbank : e.host.bankOf r = .gpr)
    (hempty : ∀ t, (e.residence t).reg? ≠ some r) (hnone : (e.residence s).reg? = none)
    (hv : v = .host r 0 ∨ v = .hostValue r (last s)) (honly : OnlyReg r x y)
    (hlost : ∀ t, t ≠ s → t ∉ lost' → t ∉ lost)
    (hvalue : s ∉ lost' → y.lane e.host r 0 = last s)
    (hclean : dirty = false → s ∉ lost' → x.guest s = last s) :
    Coherent base last lost' (e.bindInteger s r dirty v) y := by
  have hb : Bound r { first := s, dirty := dirty, normalized := true } e
      (e.bindInteger s r dirty v) := by
    obtain rfl | rfl := hv
    · exact bound_bindInteger dirty hs hint hr hbank hempty hnone rfl rfl fun h => nomatch h
    · exact bound_bindInteger dirty hs hint hr hbank hempty hnone rfl rfl fun h => nomatch h
  refine hc.bindScalar hb rfl rfl honly.other (fun t _ => by rw [honly.guest]) (fun _ _ => rfl)
    hlost hvalue (fun hd hl => by rw [honly.guest]; exact hclean hd hl) fun w hw => ?_
  have hres : (e.bindInteger s r dirty v).residence s = v :=
    (Engine.residence_setResidence _ s hs v).trans (if_pos rfl)
  rw [hres] at hw
  obtain rfl | rfl := hv
  · exact nomatch hw
  · exact Option.some.inj hw

/-- A register is handed out, gets the word of an integer slot if that matters, and takes up the
slot. -/
theorem after_takeUp {a : HostReg → Action} {dirty : Bool} {v : HostReg → Residence}
    (hc : Coherent base last lost e x) (hs : s < Slot.count) (hint : Slot.isInteger s = true)
    (hlocked : (e.slotAt s).locked = true) (hnone : (e.residence s).reg? = none)
    (hv : ∀ r, v r = .host r 0 ∨ v r = .hostValue r (last s))
    (ha : ∀ r lost' e₁ y₁ y₂, Coherent base last lost' e₁ y₁ → e₁.residence s = e.residence s →
      Performs e₁.host base (a r) y₁ y₂ → OnlyReg r y₁ y₂ ∧
        (s ∉ lost' → y₂.lane e₁.host r 0 = last s ∧ (dirty = false → y₁.guest s = last s))) :
    After base
      (alloc .gpr >>= fun r =>
        if mode.reads = true then
          emit (a r) >>= fun _ => modify (·.bindInteger s r dirty (v r)) >>= fun _ => pure r
        else modify (·.bindInteger s r false (.host r 0)) >>= fun _ => pure r) e x fun r e' y =>
      Coherent base last (lost ∪ e.givenUpFor .gpr s ∪ mode.unread {s}) e' y ∧
        (e'.residence s).reg? = some r ∧ e'.residence s ≠ .pointer r := by
  refine after_bind ((after_alloc .gpr hc).mono fun r e₁ y₁ ⟨hc₁, hh⟩ => ?_)
  obtain ⟨hr, hbank, hempty⟩ := hh.fresh hc₁
  -- the slot is locked, so handing out a register leaves it alone
  obtain ⟨hkept, -⟩ := hh.kept_of_locked hlocked
  have hnone₁ : (e₁.residence s).reg? = none := by rw [hkept, hnone]
  have hlost : ∀ t, t ∉ lost ∪ e.givenUpFor .gpr s ∪ mode.unread {s} →
      t ∉ lost ∪ e.givenUp .gpr :=
    fun t hl hin => hl (Or.inl (hin.imp id fun hg => ⟨hnone, hg⟩))
  have hthere : ∀ (d : Engine) (b : Bool) (u : Residence),
      u = .host r 0 ∨ u = .hostValue r (last s) →
      ((d.bindInteger s r b u).residence s).reg? = some r ∧
        (d.bindInteger s r b u).residence s ≠ .pointer r := by
    intro d b u hu
    have hres : (d.bindInteger s r b u).residence s = u :=
      (Engine.residence_setResidence _ s hs u).trans (if_pos rfl)
    rw [hres]
    obtain rfl | rfl := hu
    · exact ⟨rfl, fun h => nomatch h⟩
    · exact ⟨rfl, fun h => nomatch h⟩
  by_cases hmode : mode.reads = true
  · rw [if_pos hmode]
    refine after_bind (after_emit fun y₂ hy₂ => after_bind (after_modify rfl rfl (after_pure ?_)))
    obtain ⟨honly, hword⟩ := ha r _ e₁ y₁ y₂ hc₁ hkept hy₂
    refine ⟨?_, hthere _ dirty (v r) (hv r)⟩
    exact (hc₁.of_alike (e₁.alike_asked (a r))).bindInteger hs hint hr hbank hempty hnone₁ (hv r)
      honly (fun t _ => hlost t) (fun hl => (hword (hlost s hl)).1)
      fun hd hl => (hword (hlost s hl)).2 hd
  · rw [if_neg hmode]
    -- the old word is not wanted: the slot counts as lost until it is written
    have hunread : s ∈ lost ∪ e.givenUpFor .gpr s ∪ mode.unread {s} :=
      Or.inr ⟨Bool.eq_false_iff.mpr hmode, rfl⟩
    refine after_bind (after_modify rfl rfl (after_pure ⟨?_, hthere _ false _ (Or.inl rfl)⟩))
    exact hc₁.bindInteger hs hint hr hbank hempty hnone₁ (Or.inl rfl) (OnlyReg.refl y₁ r)
      (fun t _ => hlost t) (fun hl => absurd hunread hl) fun _ hl => absurd hunread hl

/-- A pointer loses the memory base, if its value matters. -/
theorem Coherent.unpoint {lost' : Set Slot} {y : Storage} {g : Holding}
    (hc : Coherent base last lost e x) (hint : Slot.isInteger s = true)
    (hres : e.residence s = .pointer r) (hr : e.holding r = some g) (honly : OnlyReg r x y)
    (hlost : lost ⊆ lost') (hbase : s ∉ lost' → y.gpr r = x.gpr r - base) :
    Coherent base last lost' ((e.modifyHolding r fun h =>
      { h with pointer := false, normalized := true }).setResidence s (.host r 0)) y := by
  have hs : (e.residence s).reg? = some r := by rw [hres]; rfl
  have hbank := (hc.bankOf_eq hs).mpr hint
  have hcount : s < Slot.count := Tables.lt_count hs
  have hmodify := restated_modify (s := s) hr fun h : Holding =>
    { h with pointer := false, normalized := true }
  have hrs := hmodify.trans (restated_setResidence hmodify.here hcount (.host r 0))
  refine hc.restate hs hint hr hrs rfl rfl rfl rfl ⟨(fun h => nomatch h), fun h => nomatch h⟩
    honly.other (fun t _ => by rw [honly.guest]) (fun _ _ => rfl)
    (fun t _ hl hin => hl (hlost hin)) ?_ ?_ (fun _ h => nomatch h)
  · intro hl
    -- what the register held above the memory base was the word
    have hvalue := hc.word_integer hs hint hr fun hin => hl (hlost hin)
    rw [(hc.toTables.placed_of hs hr).pointer.mpr hres, Storage.word_gpr hbank] at hvalue
    rw [← hvalue, Storage.word_gpr hbank, hbase hl]
    rfl
  · intro hd hl
    rw [honly.guest]
    exact hc.clean s r g hs hr hd fun hin => hl (hlost hin)

/-- An integer register gets the memory base. -/
theorem Coherent.point {y : Storage} (hc : Coherent base last lost e x)
    (hint : Slot.isInteger s = true) (hs : (e.residence s).reg? = some r)
    (hne : e.residence s ≠ .pointer r) (honly : OnlyReg r x y) (hbase : y.gpr r = x.gpr r + base) :
    Coherent base last lost ((e.modifyHolding r fun h =>
      { h with pointer := true, normalized := false }).setResidence s (.pointer r)) y := by
  obtain ⟨g, hr, hp⟩ := hc.placed s r hs
  have hbank := (hc.bankOf_eq hs).mpr hint
  have hpointer : g.pointer = false := Bool.eq_false_iff.mpr fun h => hne (hp.pointer.mp h)
  have hmodify := restated_modify (s := s) hr fun h : Holding =>
    { h with pointer := true, normalized := false }
  have hrs := hmodify.trans
    (restated_setResidence hmodify.here (Tables.lt_count hs) (.pointer r))
  refine hc.restate hs hint hr hrs rfl rfl rfl rfl ⟨fun _ => rfl, fun _ => rfl⟩ honly.other
    (fun t _ => by rw [honly.guest]) (fun _ _ => rfl) (fun _ _ hl => hl) ?_ ?_
    (fun _ h => nomatch h)
  · intro hl
    have hvalue := hc.word_integer hs hint hr hl
    rw [hpointer, Storage.word_gpr hbank] at hvalue
    rw [← hvalue, Storage.word_gpr hbank, hbase]
    simp only [if_true, Bool.false_eq_true, if_false]
    rw [UInt64.add_sub_cancel]
  · intro hd hl
    rw [honly.guest]
    exact hc.clean s r g hs hr hd hl

/-- An integer slot is brought into a register. -/
theorem after_bringIn (hc : Coherent base last lost e x) (hs : s < Slot.count)
    (hint : Slot.isInteger s = true) (hlocked : (e.slotAt s).locked = true) :
    After base (bringIn s mode) e x fun r e' y =>
      Coherent base last (lost ∪ e.givenUpFor .gpr s ∪ mode.unread {s}) e' y ∧
        (e'.residence s).reg? = some r ∧ e'.residence s ≠ .pointer r := by
  have hsub : lost ⊆ lost ∪ e.givenUpFor .gpr s ∪ mode.unread {s} := fun _ h => Or.inl (Or.inl h)
  unfold bringIn
  refine after_get ?_
  cases hres : e.residence s with
  | host r k =>
    refine after_pure ⟨hc.lose hsub, ?_⟩
    rw [hres]
    exact ⟨rfl, fun h => nomatch h⟩
  | hostValue r w =>
    refine after_pure ⟨hc.lose hsub, ?_⟩
    rw [hres]
    exact ⟨rfl, fun h => nomatch h⟩
  | pointer r =>
    obtain ⟨g, hr, -⟩ := hc.placed s r (by rw [hres]; rfl)
    have hthere : ∀ d : Engine, ((d.setResidence s (.host r 0)).residence s).reg? = some r ∧
        (d.setResidence s (.host r 0)).residence s ≠ .pointer r := by
      intro d
      rw [Engine.residence_setResidence _ s hs, if_pos rfl]
      exact ⟨rfl, fun h => nomatch h⟩
    simp only
    by_cases hmode : mode.reads = true
    · rw [if_pos hmode]
      refine after_bind (after_emit fun y ⟨honly, hbase⟩ =>
        after_bind (after_modify rfl rfl (after_pure ⟨?_, hthere _⟩)))
      exact (hc.of_alike (e.alike_asked _)).unpoint hint hres hr honly hsub fun _ => hbase
    · rw [if_neg hmode]
      refine after_bind (after_modify rfl rfl (after_pure ⟨?_, hthere _⟩))
      refine hc.unpoint hint hres hr (OnlyReg.refl x r) hsub fun hl => ?_
      exact absurd (Or.inr ⟨Bool.eq_false_iff.mpr hmode, rfl⟩) hl
  | value w =>
    -- a known value is the word of the slot
    have hw : last s = w := hc.known s w (by rw [hres]; rfl)
    refine after_takeUp (a := fun r => .setValue r w) (v := fun r => .hostValue r w) hc hs hint
      hlocked (by rw [hres]; rfl) (fun r => Or.inr (by rw [hw])) ?_
    intro r lost' e₁ y₁ y₂ _ _ ⟨honly, hlane⟩
    exact ⟨honly, fun _ => ⟨hlane.trans hw.symm, fun h => nomatch h⟩⟩
  | guest =>
    refine after_takeUp (a := fun r => .load r s 1) (v := fun r => .host r 0) hc hs hint hlocked
      (by rw [hres]; rfl) (fun r => Or.inl rfl) ?_
    intro r lost' e₁ y₁ y₂ hc₁ hkept ⟨honly, hlane, _⟩
    refine ⟨honly, fun hl => ?_⟩
    have hguest := hc₁.stored s (hkept.trans hres) hl
    exact ⟨hlane.trans hguest, fun _ => hguest⟩

theorem Engine.locked_lock (e : Engine) (hs : s < Slot.count) :
    ((e.lock s).slotAt s).locked = true := by
  unfold lock
  rw [slotAt_setSlot, if_pos ⟨rfl, hs⟩]

theorem after_lockSlot {β : Type} {f : Unit → EngineM β} {R : β → Engine → Storage → Prop}
    (hf : s < Slot.count → After base (f ()) (e.lock s) x R) :
    After base (lockSlot s >>= f) e x R := by
  refine after_bind ?_
  unfold lockSlot
  exact after_requireSlot fun hs => after_modify rfl rfl (hf hs)

/-- **An integer slot is mapped.** -/
theorem after_mapInteger (hc : Coherent base last lost e x) :
    After base (mapInteger s mode) e x fun r e' y =>
      Coherent base last (lost ∪ (e.lock s).givenUpFor .gpr s ∪ mode.unread {s}) e' y ∧
        Slot.isInteger s = true ∧ (e'.residence s).reg? = some r ∧ e'.residence s ≠ .pointer r ∧
        (mode.writes = true → Writable e' r s 1) := by
  unfold mapInteger
  simp only
  refine after_require fun hint => ?_
  have hint : Slot.isInteger s = true := by simpa using hint
  refine after_lockSlot fun hs => ?_
  have hc₀ := hc.of_alike (e.alike_lock s)
  refine after_bind ((after_bringIn hc₀ hs hint (e.locked_lock hs)).mono
    fun r e₁ y ⟨hc₁, hreg, hne⟩ => ?_)
  by_cases hmode : mode.writes = true
  · simp only [if_pos hmode]
    refine after_bind (after_modify rfl rfl (after_pure ?_))
    obtain ⟨g, hr, hp⟩ := hc₁.placed s r hreg
    have hbank := (hc₁.bankOf_eq hreg).mpr hint
    obtain ⟨hg, -⟩ := (hc₁.suits r g hr).gpr hbank
    have hpointer : g.pointer = false := Bool.eq_false_iff.mpr fun h => hne (hp.pointer.mp h)
    -- the register becomes dirty, and what was known of the slot is dropped
    have hmodify := restated_modify (s := s) hr fun h : Holding =>
      { h with dirty := true, pointer := false, normalized := true }
    have hrs := hmodify.trans (restated_setResidence hmodify.here hs (.host r 0))
    have hres := hrs.residence
    refine ⟨?_, hint, by rw [hres]; rfl, by rw [hres]; exact (fun h => nomatch h), fun _ => ?_⟩
    · refine hc₁.restate hreg hint hr hrs rfl rfl rfl rfl
        ⟨(fun h => nomatch h), fun h => nomatch h⟩ (fun q _ => SameReg.refl y q) (fun _ _ => rfl)
        (fun _ _ => rfl) (fun _ _ hl => hl) (fun hl => ?_) (fun h => nomatch h)
        (fun _ h => nomatch h)
      have hvalue := hc₁.word_integer hreg hint hr hl
      rw [hpointer] at hvalue
      exact hvalue
    · exact writable_scalar hrs.here (hc₁.eq_first hreg hr hg).symm hg rfl rfl hres
  · simp only [if_neg hmode]
    exact after_pure ⟨hc₁, hint, hreg, hne, fun h => absurd h hmode⟩

/-- **An integer slot is mapped as a pointer.** -/
theorem after_mapPointer (hc : Coherent base last lost e x) :
    After base (mapPointer s) e x fun _ e' y =>
      Coherent base last (lost ∪ (e.lock s).givenUpFor .gpr s) e' y := by
  unfold mapPointer
  refine after_requireSlot fun hs => after_get ?_
  -- a slot that is not a pointer yet is mapped and then gets the memory base
  have hpoint : After base (do
      let r ← mapInteger s .read
      emit (.addBase r)
      modify fun e => (e.modifyHolding r fun h =>
        { h with pointer := true, normalized := false }).setResidence s (.pointer r)
      return r) e x fun _ e' y =>
        Coherent base last (lost ∪ (e.lock s).givenUpFor .gpr s) e' y := by
    refine after_bind ((after_mapInteger hc).mono fun r e₁ y ⟨hc₁, hint, hreg, hne, _⟩ => ?_)
    refine after_bind (after_emit fun z ⟨honly, hbase⟩ =>
      after_bind (after_modify rfl rfl (after_pure ?_)))
    have hunread : Mode.unread .read {s} = ∅ := by
      rw [Set.eq_empty_iff_forall_notMem]
      exact fun t ht => nomatch ht.1
    rw [hunread, Set.union_empty] at hc₁
    exact (hc₁.of_alike (e₁.alike_asked _)).point hint hreg hne honly hbase
  cases hres : e.residence s with
  | pointer r =>
    refine after_bind (after_modify rfl rfl (after_pure ?_))
    exact (hc.of_alike (e.alike_lock s)).lose Set.subset_union_left
  | guest => exact hpoint
  | value w => exact hpoint
  | host r k => exact hpoint
  | hostValue r w => exact hpoint

end Dynarec.Registers
