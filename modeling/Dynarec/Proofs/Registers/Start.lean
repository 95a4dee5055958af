/-
The start of a block.

The tables are reset and the bindings are put into force one after the other, so that exactly the
bound slots live outside guest storage (`Fresh`). The tables agree then, but the bound registers
hold anything: their slots are lost until they have been loaded. From then on every slot has the
word that guest storage had when the block started.
-/
import Dynarec.Proofs.Registers.Flush

set_option autoImplicit false

namespace Dynarec.Registers

variable {base : UInt64} {last : Slot → Word} {lost : Set Slot} {e : Engine} {x : Storage}

/-! ## The bindings are put into force -/

/-- The tables in which exactly the given bindings are in force and nothing else has happened. -/
structure Fresh (bs : List Binding) (e : Engine) : Prop where
  slot : ∀ b ∈ bs, e.slotAt b.slot = { residence := .host b.reg 0, isStatic := true }
  reg : ∀ b ∈ bs, e.holding b.reg = some { first := b.slot, normalized := true }
  noSlot : ∀ s, s ∉ bs.map (·.slot) → e.slotAt s = {}
  noReg : ∀ r, r ∉ bs.map (·.reg) → e.holding r = none

theorem Fresh.bindStatic {bs : List Binding} {b : Binding} (hf : Fresh bs e)
    (hslot : b.slot ∉ bs.map (·.slot)) (hreg : b.reg ∉ bs.map (·.reg))
    (hcount : b.slot < Slot.count) (hsize : b.reg < e.hosts.size) :
    Fresh (b :: bs) (e.bindStatic b) := by
  have hslotAt : ∀ s, (e.bindStatic b).slotAt s
      = if s = b.slot then { residence := .host b.reg 0, isStatic := true } else e.slotAt s := by
    intro s
    refine (e.slotAt_setSlot b.slot s _).trans ?_
    by_cases hs : s = b.slot
    · rw [if_pos ⟨hs, hcount⟩, if_pos hs]
    · rw [if_neg fun h => hs h.1, if_neg hs]
  have hholding : ∀ r, (e.bindStatic b).holding r
      = if r = b.reg then some { first := b.slot, normalized := true } else e.holding r := by
    intro r
    unfold Engine.holding
    refine (congrArg HostState.holding (Engine.hostAt_setHost _ b.reg r _)).trans ?_
    by_cases hr : r = b.reg
    · rw [if_pos ⟨hr, hsize⟩, if_pos hr]
    · rw [if_neg fun h => hr h.1, if_neg hr]
      rfl
  refine ⟨?slot, ?reg, ?noSlot, ?noReg⟩
  case slot =>
    intro a ha
    rw [hslotAt]
    obtain rfl | ha := List.mem_cons.mp ha
    · rw [if_pos rfl]
    · have hne : a.slot ≠ b.slot := fun h => hslot (h ▸ List.mem_map_of_mem ha)
      rw [if_neg hne, hf.slot a ha]
  case reg =>
    intro a ha
    rw [hholding]
    obtain rfl | ha := List.mem_cons.mp ha
    · rw [if_pos rfl]
    · have hne : a.reg ≠ b.reg := fun h => hreg (h ▸ List.mem_map_of_mem ha)
      rw [if_neg hne, hf.reg a ha]
  case noSlot =>
    intro s hs
    rw [List.map_cons, List.mem_cons, not_or] at hs
    rw [hslotAt, if_neg hs.1, hf.noSlot s hs.2]
  case noReg =>
    intro r hr
    rw [List.map_cons, List.mem_cons, not_or] at hr
    rw [hholding, if_neg hr.1, hf.noReg r hr.2]

theorem Fresh.congr {bs cs : List Binding} (hf : Fresh bs e) (h : bs.Perm cs) : Fresh cs e :=
  ⟨fun b hb => hf.slot b (h.mem_iff.mpr hb), fun b hb => hf.reg b (h.mem_iff.mpr hb),
    fun s hs => hf.noSlot s fun hin => hs ((h.map _).mem_iff.mp hin),
    fun r hr => hf.noReg r fun hin => hr ((h.map _).mem_iff.mp hin)⟩

/-- The bindings are put into force one after the other. -/
theorem Fresh.foldl {bs : List Binding} (as : List Binding) (hf : Fresh bs e)
    (hslots : ((as ++ bs).map (·.slot)).Nodup) (hregs : ((as ++ bs).map (·.reg)).Nodup)
    (hbounds : ∀ b ∈ as, b.slot < Slot.count ∧ b.reg < e.hosts.size) :
    Fresh (as ++ bs) (as.foldl Engine.bindStatic e) := by
  induction as generalizing bs e with
  | nil => exact hf
  | cons a as ih =>
    rw [List.cons_append, List.map_cons, List.nodup_cons] at hslots hregs
    have hmem : ∀ {γ : Type} {g : Binding → γ}, g a ∉ (as ++ bs).map g → g a ∉ bs.map g := by
      intro γ g hg hin
      rw [List.map_append] at hg
      exact hg (List.mem_append_right _ hin)
    obtain ⟨hslot, hreg⟩ := hbounds a List.mem_cons_self
    have hone := hf.bindStatic (hmem hslots.1) (hmem hregs.1) hslot hreg
    -- the binding has gone to the front of those in force
    have hperm : (as ++ a :: bs).Perm (a :: (as ++ bs)) := List.perm_middle
    refine (ih hone ((hperm.map _).nodup_iff.mpr (List.nodup_cons.mpr hslots))
      ((hperm.map _).nodup_iff.mpr (List.nodup_cons.mpr hregs)) fun b hb => ?_).congr hperm
    rw [show (e.bindStatic a).hosts.size = e.hosts.size from Array.size_setIfInBounds]
    exact hbounds b (List.mem_cons_of_mem a hb)

namespace Engine

/-- The bindings that are in force. -/
def bindings (e : Engine) : List Binding :=
  if e.policy.useStatics then e.host.statics else []

/-- The engine at the start of a block, before any binding. -/
def blank (e : Engine) (insts : List Inst) : Engine :=
  { e with
    insts := insts, index := 0, spills := 0
    slots := Vector.replicate 256 {}
    hosts := Array.replicate e.host.count {} }

theorem mem_bindings {b : Binding} :
    b ∈ e.bindings ↔ e.policy.useStatics = true ∧ b ∈ e.host.statics := by
  unfold bindings
  split <;> simp_all

theorem bindings_sublist (e : Engine) : e.bindings.Sublist e.host.statics := by
  unfold bindings
  split
  · exact List.Sublist.refl _
  · exact List.nil_sublist _

theorem start_eq (e : Engine) (insts : List Inst) :
    e.start insts = e.bindings.foldl bindStatic (e.blank insts) := by
  have hstart : e.start insts
      = if e.policy.useStatics then e.host.statics.foldl bindStatic (e.blank insts)
        else e.blank insts := rfl
  rw [hstart]
  unfold bindings
  cases e.policy.useStatics <;> rfl

/-- Bindings change neither the host nor the policy nor the number of registers. -/
theorem foldl_bindStatic (bs : List Binding) (e : Engine) :
    (bs.foldl bindStatic e).host = e.host ∧ (bs.foldl bindStatic e).policy = e.policy ∧
      (bs.foldl bindStatic e).hosts.size = e.hosts.size := by
  induction bs generalizing e with
  | nil => exact ⟨rfl, rfl, rfl⟩
  | cons b bs ih =>
    obtain ⟨hhost, hpolicy, hsize⟩ := ih (e.bindStatic b)
    exact ⟨hhost, hpolicy, hsize.trans Array.size_setIfInBounds⟩

theorem start_fixed (e : Engine) (insts : List Inst) :
    (e.start insts).host = e.host ∧ (e.start insts).policy = e.policy ∧
      (e.start insts).hosts.size = e.host.count := by
  rw [start_eq]
  obtain ⟨hhost, hpolicy, hsize⟩ := foldl_bindStatic e.bindings (e.blank insts)
  exact ⟨hhost, hpolicy, hsize.trans Array.size_replicate⟩

/-- A new engine is one that has been started without instructions. -/
theorem exists_new (host : Host) (policy : Policy) :
    ∃ e : Engine, e.host = host ∧ e.policy = policy ∧ Engine.new host policy = e.start [] :=
  ⟨⟨host, policy, Vector.replicate 256 {}, Array.replicate host.count {}, [], 0, 0, #[]⟩, rfl, rfl,
    rfl⟩

theorem host_new (host : Host) (policy : Policy) : (Engine.new host policy).host = host := by
  obtain ⟨e, hhost, -, hnew⟩ := exists_new host policy
  rw [hnew, (e.start_fixed []).1, hhost]

/-- No register is reserved when a block starts. -/
theorem reserved_start (e : Engine) (insts : List Inst) (r : HostReg) :
    ((e.start insts).hostAt r).reserved = false := by
  have hbind : ∀ (bs : List Binding) (d : Engine), (d.hostAt r).reserved = false →
      ((bs.foldl bindStatic d).hostAt r).reserved = false := by
    intro bs
    induction bs with
    | nil => exact fun d hd => hd
    | cons b bs ih =>
      intro d hd
      refine ih _ ?_
      unfold bindStatic
      rw [hostAt_setHost]
      split
      · rfl
      · exact hd
  rw [start_eq]
  refine hbind _ _ ?_
  show (((Array.replicate e.host.count ({} : HostState))[r]?).getD {}).reserved = false
  rw [Array.getElem?_replicate]
  split <;> rfl

end Engine

theorem fresh_blank (e : Engine) (insts : List Inst) : Fresh [] (e.blank insts) := by
  refine ⟨(fun _ h => nomatch h), (fun _ h => nomatch h), fun s _ => ?_, fun r _ => ?_⟩
  · show ((Vector.replicate 256 ({} : SlotState))[s]?).getD {} = {}
    rw [Vector.getElem?_replicate]
    split <;> rfl
  · show (((Array.replicate e.host.count ({} : HostState))[r]?).getD {}).holding = none
    rw [Array.getElem?_replicate]
    split <;> rfl

/-- A block starts with the bindings in force and with nothing else. -/
theorem fresh_start (insts : List Inst) (hsane : e.host.Sane) :
    Fresh e.bindings (e.start insts) := by
  have hsub := e.bindings_sublist
  have hfold := (fresh_blank e insts).foldl e.bindings
    (by rw [List.append_nil]; exact hsane.slots.sublist (hsub.map _))
    (by rw [List.append_nil]; exact hsane.regs.sublist (hsub.map _)) fun b hb => by
      refine ⟨(hsane.integer b (hsub.mem hb)).2, ?_⟩
      show b.reg < (Array.replicate e.host.count ({} : HostState)).size
      rw [Array.size_replicate]
      exact Nat.lt_of_lt_of_le (hsane.gpr b (hsub.mem hb)) (Nat.le_add_right _ _)
  rw [List.append_nil] at hfold
  rw [e.start_eq]
  exact hfold

theorem Fresh.residence {bs : List Binding} (hf : Fresh bs e) {b : Binding} (hb : b ∈ bs) :
    e.residence b.slot = .host b.reg 0 := by
  unfold Engine.residence
  rw [hf.slot b hb]

/-- A slot is bound, or nothing is known about it. -/
theorem Fresh.slot_cases {bs : List Binding} (hf : Fresh bs e) (s : Slot) :
    (∃ b ∈ bs, b.slot = s) ∨ e.slotAt s = {} := by
  by_cases hs : s ∈ bs.map (·.slot)
  · exact Or.inl (List.mem_map.mp hs)
  · exact Or.inr (hf.noSlot s hs)

/-- With nothing but bindings in force the tables agree. -/
theorem Fresh.tables {bs : List Binding} (hf : Fresh bs e) (hsane : e.host.Sane)
    (hsize : e.hosts.size = e.host.count) (hbs : ∀ b ∈ bs, b ∈ e.bindings) : Tables e := by
  refine ⟨hsane, hsize, ?placed, ?float, ?suits, ?occupied, ?bound⟩
  case placed =>
    intro s r hs
    obtain ⟨b, hb, rfl⟩ | hnone := hf.slot_cases s
    · rw [hf.residence hb] at hs
      cases hs
      refine ⟨_, hf.reg b hb, ?_, ?_, ?_⟩ <;> rw [hf.residence hb]
      · rfl
      · exact Nat.zero_lt_one
      · exact ⟨(fun h => nomatch h), fun h => nomatch h⟩
    · unfold Engine.residence at hs
      rw [hnone] at hs
      exact nomatch hs
  case float =>
    intro s hs
    obtain ⟨b, hb, rfl⟩ | hnone := hf.slot_cases s
    · exact Or.inr ⟨b.reg, 0, hf.residence hb⟩
    · left
      unfold Engine.residence
      rw [hnone]
  case suits =>
    intro r h hr
    by_cases hmem : r ∈ bs.map (·.reg)
    · obtain ⟨b, hb, rfl⟩ := List.mem_map.mp hmem
      rw [hf.reg b hb] at hr
      cases hr
      obtain ⟨-, hstatic⟩ := Engine.mem_bindings.mp (hbs b hb)
      exact suits_integer (if_pos (hsane.gpr b hstatic)) rfl (hsane.integer b hstatic).1
    · rw [hf.noReg r hmem] at hr
      exact nomatch hr
  case occupied =>
    intro r h hr
    by_cases hmem : r ∈ bs.map (·.reg)
    · obtain ⟨b, hb, rfl⟩ := List.mem_map.mp hmem
      exact ⟨b.slot, by rw [hf.residence hb]; rfl⟩
    · rw [hf.noReg r hmem] at hr
      exact nomatch hr
  case bound =>
    intro s hs
    obtain ⟨b, hb, rfl⟩ | hnone := hf.slot_cases s
    · obtain ⟨huse, hstatic⟩ := Engine.mem_bindings.mp (hbs b hb)
      exact ⟨huse, b, hstatic, rfl, by rw [hf.residence hb]; rfl⟩
    · rw [hnone] at hs
      exact nomatch hs

/-! ## Loading the bound registers -/

/-- A bound register is loaded: its slot gets the word in guest storage. -/
theorem after_reloadStatic {b : Binding} {last' : Slot → Word}
    (hc : Coherent base last lost e x) (hint : Slot.isInteger b.slot = true)
    (hs : (e.residence b.slot).reg? = some b.reg) (hlast : ∀ t, t ≠ b.slot → last' t = last t)
    (hguest : last' b.slot = x.guest b.slot) :
    After base (reloadStatic b) e x fun _ e' y =>
      Coherent base last' (lost \ {b.slot}) e' y ∧ y.guest = x.guest ∧
        ∀ t, (e'.residence t).reg? = (e.residence t).reg? := by
  obtain ⟨g, hr, -⟩ := hc.placed _ _ hs
  have hcount := Tables.lt_count hs
  unfold reloadStatic
  refine after_bind (after_emit fun y ⟨honly, hlane, _⟩ => after_bind (after_modify rfl rfl ?_))
  have hmodify := restated_modify (s := b.slot) (e := e.asked (.load b.reg b.slot 1)) hr
    fun h : Holding => { h with dirty := false, pointer := false, normalized := true }
  have hrs := hmodify.trans (restated_setResidence hmodify.here hcount (.host b.reg 0))
  have hc' : Coherent base last' (lost \ {b.slot}) _ y :=
    (hc.of_alike (e.alike_asked (.load b.reg b.slot 1))).restate hs hint hr hrs rfl rfl rfl rfl
      ⟨(fun h => nomatch h), fun h => nomatch h⟩ honly.other (fun t _ => by rw [honly.guest]) hlast
      (fun t ht hl => not_mem_of_diff ht hl) (fun _ => hlane.trans hguest.symm)
      (fun _ _ => by rw [honly.guest, hguest]) fun _ h => nomatch h
  refine (after_pointAgain hc' hint hrs.residence).mono fun _ e' z ⟨hc'', hz, hregs⟩ => ?_
  refine ⟨hc'', hz.trans honly.guest, fun t => (hregs t).trans ?_⟩
  rw [hrs.lives]
  split
  · rename_i ht
    rw [ht, hs]
    rfl
  · rfl

/-- Before the bound registers have been loaded every slot has its word in guest storage, except
that the bound slots live in registers whose content is open. -/
theorem coherent_start (base : UInt64) (insts : List Inst) (x : Storage) (hsane : e.host.Sane) :
    Coherent base x.guest {s | ∃ b ∈ e.bindings, b.slot = s} (e.start insts) x := by
  obtain ⟨hhost, hpolicy, hsize⟩ := e.start_fixed insts
  have hfresh := fresh_start insts hsane
  have hbindings : (e.start insts).bindings = e.bindings := by
    unfold Engine.bindings
    rw [hhost, hpolicy]
  have htables : Tables (e.start insts) := by
    refine hfresh.tables (by rw [hhost]; exact hsane) (by rw [hsize, hhost]) fun b hb => ?_
    rw [hbindings]
    exact hb
  -- what lives in a register is bound, and a bound slot is lost for now
  have hopen : ∀ s r, ((e.start insts).residence s).reg? = some r →
      ∃ b ∈ e.bindings, b.slot = s := by
    intro s r hs
    obtain hbound | hnone := hfresh.slot_cases s
    · exact hbound
    · unfold Engine.residence at hs
      rw [hnone] at hs
      exact nomatch hs
  refine ⟨htables, fun s r h hs _ hl => absurd (hopen s r hs) hl,
    fun s r h hs _ _ hl => absurd (hopen s r hs) hl, fun _ _ _ => rfl, fun s v hv => ?_⟩
  obtain ⟨b, hb, rfl⟩ | hnone := hfresh.slot_cases s
  · rw [hfresh.residence hb] at hv
    exact nomatch hv
  · unfold Engine.residence at hv
    rw [hnone] at hv
    exact nomatch hv

/-- **A block starts with the words in guest storage.** -/
theorem after_reloadStatics (insts : List Inst) (x : Storage) (hsane : e.host.Sane) :
    After base reloadStatics (e.start insts) x fun _ e' y => Coherent base x.guest ∅ e' y := by
  obtain ⟨hhost, hpolicy, -⟩ := e.start_fixed insts
  have hfresh := fresh_start insts hsane
  have hstart := coherent_start base insts x hsane
  unfold reloadStatics
  refine after_get ?_
  rw [hpolicy, hhost]
  by_cases huse : e.policy.useStatics = true
  · rw [if_pos huse]
    have hlist : e.bindings = e.host.statics := if_pos huse
    rw [hlist] at hstart hfresh
    -- what is lost are the slots of the bindings that are still to be loaded
    let I (rest : List Binding) (d : Engine) (y : Storage) : Prop :=
      Coherent base x.guest {s | ∃ b ∈ rest, b.slot = s} d y ∧ y.guest = x.guest ∧
        ∀ b ∈ rest, b ∈ e.host.statics ∧ (d.residence b.slot).reg? = some b.reg
    have hinit : I e.host.statics (e.start insts) x :=
      ⟨hstart, rfl, fun b hb => ⟨hb, by rw [hfresh.residence hb]; rfl⟩⟩
    refine (after_forM I ?_ _ hinit).mono fun _ e' y h => h.1.lose fun s ⟨b, hb, _⟩ => nomatch hb
    rintro b rest d y ⟨hc, hguest, hrest⟩
    obtain ⟨hmem, hreg⟩ := hrest b List.mem_cons_self
    refine (after_reloadStatic hc (hsane.integer b hmem).1 hreg (fun _ _ => rfl)
      (by rw [hguest])).mono fun _ e' z ⟨hc', hz, hregs⟩ => ?_
    refine ⟨hc'.lose ?_, hz.trans hguest, fun c hc => ?_⟩
    · rintro s ⟨⟨c, hc, rfl⟩, hne⟩
      obtain rfl | hc := List.mem_cons.mp hc
      · exact absurd rfl hne
      · exact ⟨c, hc, rfl⟩
    · obtain ⟨hmem', hreg'⟩ := hrest c (List.mem_cons_of_mem b hc)
      exact ⟨hmem', by rw [hregs, hreg']⟩
  · rw [if_neg huse]
    refine after_pure (hstart.lose ?_)
    rintro s ⟨b, hb, -⟩
    exact absurd (Engine.mem_bindings.mp hb).1 huse

end Dynarec.Registers
