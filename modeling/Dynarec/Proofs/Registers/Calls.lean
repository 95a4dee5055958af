/-
Calls of helpers.

A helper works on guest storage. So before a call every word goes there, and afterwards the words
that the helper may have changed are read from there. In between, registers that a call preserves
and whose slots the helper does not write keep a clean copy; the bound registers stay bound.

`Called` says what a call may do to a host: change the guest storage of the slots that it is said to
write, the registers that the caller has to save and, where only the lower half of a float register
is preserved, the two upper lanes of the others. `Ready` is what the tables say before the call:
every register is clean, no value is known that is not in a register, and whatever is in a register
survives the call or is bound. From the two it follows that the words outlive the call
(`Coherent.call`).
-/
import Dynarec.Proofs.Registers.Frames
import Mathlib.Data.List.Nodup

set_option autoImplicit false

namespace Dynarec.Registers

open Storage

variable {base : UInt64} {last : Slot → Word} {lost : Set Slot} {e e' : Engine} {x y : Storage}
  {s : Slot} {r : HostReg} {h : Holding} {writes : List Slot}

theorem After.and_leads {α : Type} {op : EngineM α} {Q : α → Engine → Storage → Prop}
    {P : α → Engine → Prop} (h : After base op e x Q) (hP : Leads op e P) :
    After base op e x fun a e' y => Q a e' y ∧ P a e' := by
  intro a e' ha
  obtain ⟨hhost, as, has, hy⟩ := h a e' ha
  exact ⟨hhost, as, has, fun y hp => ⟨hy y hp, hP a e' ha⟩⟩

/-! ## Cleaning one register -/

/-- Register `q` is clean or empty now. Its slots are still in it or in guest storage, and nothing
else has changed. -/
structure Cleaned (q : HostReg) (e e' : Engine) : Prop where
  other : ∀ r, r ≠ q → e'.holding r = e.holding r
  kept : ∀ s, (e.residence s).reg? ≠ some q → e'.residence s = e.residence s
  here : ∀ s, (e.residence s).reg? = some q →
    e'.residence s = .guest ∨ (e'.residence s).reg? = some q
  clean : ∀ h, e'.holding q = some h → h.dirty = false ∧
    ∃ g, e.holding q = some g ∧ h.isGroup = g.isGroup

theorem Cleaned.reg_of_reg {q : HostReg} (hclean : Cleaned q e e')
    (hs : (e'.residence s).reg? = some r) : (e.residence s).reg? = some r := by
  by_cases hq : (e.residence s).reg? = some q
  · obtain hguest | hreg := hclean.here s hq
    · rw [hguest] at hs
      exact nomatch hs
    · rw [hreg] at hs
      rw [hq, hs]
  · rw [hclean.kept s hq] at hs
    exact hs

theorem Cleaned.not_value {q : HostReg} (hclean : Cleaned q e e')
    (hvalues : ∀ s w, e.residence s ≠ .value w) (s : Slot) (w : Word) :
    e'.residence s ≠ .value w := by
  intro hs
  by_cases hq : (e.residence s).reg? = some q
  · obtain hguest | hreg := hclean.here s hq
    · rw [hguest] at hs
      exact nomatch hs
    · rw [hs] at hreg
      exact nomatch hreg
  · rw [hclean.kept s hq] at hs
    exact hvalues s w hs

/-- The words of a register are stored and the register keeps them: it is clean. -/
theorem Coherent.saved (hc : Coherent base last lost e x) (hr : e.holding r = some h)
    (hother : ∀ q, q ≠ r → SameReg x y q)
    (hword : ∀ k, y.word e.host base r h.pointer k = x.word e.host base r h.pointer k)
    (hstored : ∀ s, (e.residence s).reg? = some r →
      y.guest s = x.word e.host base r h.pointer (e.residence s).lane)
    (hkept : ∀ s, (e.residence s).reg? ≠ some r → y.guest s = x.guest s) :
    Coherent base last lost (e.modifyHolding r fun h => { h with dirty := false }) y := by
  -- what lives in the register has its word there and in guest storage
  have hguest : ∀ s, (e.residence s).reg? = some r → s ∉ lost → y.guest s = last s := by
    intro s hs hl
    rw [hstored s hs]
    exact hc.value s r h hs hr hl
  have hy : Coherent base last lost e y := by
    refine ⟨hc.toTables, ?_, ?_, ?_, hc.known⟩
    · intro s q g hs hg hl
      by_cases hq : q = r
      · subst hq
        rw [hr] at hg
        cases hg
        rw [hword]
        exact hc.value s q h hs hr hl
      · rw [(hother q hq).word]
        exact hc.value s q g hs hg hl
    · intro s q g hs hg hd hl
      by_cases hq : q = r
      · exact hguest s (hq ▸ hs) hl
      · rw [hkept s fun h' => hq (Option.some.inj (hs.symm.trans h'))]
        exact hc.clean s q g hs hg hd hl
    · intro s hs hl
      rw [hkept s (by rw [hs]; exact fun h' => nomatch h')]
      exact hc.stored s hs hl
  exact hy.flag (fun _ => rfl) (fun _ => rfl) (fun _ => rfl) fun s _ hs _ _ hl => hguest s hs hl

theorem cleaned_modifyHolding (hr : e.holding r = some h) :
    Cleaned r e (e.modifyHolding r fun h => { h with dirty := false }) := by
  refine ⟨fun q hq => ?_, fun _ _ => rfl, fun s hs => Or.inr hs, fun g hg => ?_⟩
  · rw [e.holding_modifyHolding, if_neg hq]
  · rw [e.holding_modifyHolding, if_pos rfl, hr] at hg
    cases hg
    exact ⟨rfl, h, hr, rfl⟩

/-- A register is stored and kept as a clean copy. -/
theorem after_writeBack (hc : Coherent base last lost e x) (hr : e.holding r = some h) :
    After base (writeBack r) e x fun _ e' y =>
      Coherent base last lost e' y ∧ Cleaned r e e' ∧ ∀ s, e'.residence s = e.residence s := by
  have hcleanup : ∀ e₁, e.Alike e₁ → Cleaned r e (e₁.modifyHolding r fun h =>
      { h with dirty := false }) ∧ ∀ s, (e₁.modifyHolding r fun h =>
        { h with dirty := false }).residence s = e.residence s := by
    intro e₁ halike
    have hclean := cleaned_modifyHolding (e := e₁) (r := r) (h := h) (by rw [halike.holding, hr])
    refine ⟨⟨fun q hq => ?_, fun s _ => halike.residence s, fun s hs => Or.inr ?_, fun g hg => ?_⟩,
      halike.residence⟩
    · rw [hclean.other q hq, halike.holding]
    · exact (congrArg Residence.reg? (halike.residence s)).trans hs
    · rw [← halike.holding]
      exact hclean.clean g hg
  unfold writeBack
  refine after_get ?_
  simp only
  split
  · refine after_bind ((after_storeLanes hc.toTables hr).mono fun _ e₁ y ⟨halike, hstored⟩ => ?_)
    have hr₁ : e₁.holding r = some h := by rw [halike.holding, hr]
    have hc₁ : Coherent base last lost e₁ x := hc.of_alike halike
    obtain ⟨hother, hhere, hguest, hkept⟩ := hstored
    rw [← halike.host] at hhere
    by_cases hp : h.pointer = true
    · -- the memory base has been taken off for the store and comes back
      rw [if_pos (by rw [hr]; exact hp)]
      refine after_bind (after_emit fun z ⟨honly, hbase⟩ => after_modify rfl rfl ⟨?_, ?_⟩)
      · refine (hc₁.of_alike (e₁.alike_asked _)).saved hr₁
          (fun q hq => (hother q hq).trans (honly.other q hq)) (fun k => ?_) (fun s hs => ?_)
          fun s hs => ?_
        · have hbank : e₁.host.bankOf r = .gpr := by
            cases hbank : e₁.host.bankOf r with
            | gpr => rfl
            | fpr =>
              rw [hc₁.pointer_fpr hr₁ hbank] at hp
              exact nomatch hp
          have hlane := hhere 0
          rw [hp] at hlane ⊢
          rw [Storage.word_gpr hbank] at hlane
          show z.word e₁.host base r true k = x.word e₁.host base r true k
          rw [Storage.word_gpr hbank, Storage.word_gpr hbank, hbase, if_pos rfl, if_pos rfl,
            UInt64.add_sub_cancel]
          rw [if_pos rfl] at hlane
          rw [← hlane]
          unfold Storage.lane
          rw [hbank]
        · rw [honly.guest]
          show y.guest s = x.word e₁.host base r h.pointer (e₁.residence s).lane
          rw [halike.host, halike.residence]
          exact hguest s (by rw [← halike.residence]; exact hs)
        · rw [honly.guest]
          exact hkept s (by rw [← halike.residence]; exact hs)
      · exact hcleanup _ (halike.trans (e₁.alike_asked _))
    · rw [if_neg (by rw [hr]; exact hp)]
      refine after_modify rfl rfl ⟨?_, hcleanup _ halike⟩
      rw [Bool.not_eq_true] at hp
      rw [hp] at hhere
      refine hc₁.saved hr₁ hother (fun k => ?_) (fun s hs => ?_) fun s hs => ?_
      · rw [hp, word_false]
        exact hhere k
      · rw [halike.host, halike.residence]
        exact hguest s (by rw [← halike.residence]; exact hs)
      · exact hkept s (by rw [← halike.residence]; exact hs)
  · rename_i hno
    refine after_pure ⟨hc, ⟨fun _ _ => rfl, fun _ _ => rfl, fun s hs => Or.inr hs, fun g hg => ?_⟩,
      fun _ => rfl⟩
    rw [hr] at hg
    cases hg
    refine ⟨Bool.eq_false_iff.mpr fun hd => hno ?_, h, hr, rfl⟩
    -- a register that holds something has a slot living in it
    obtain ⟨t, ht⟩ := hc.occupied r h hr
    have hmem := (hc.toTables.mem_residents _).mpr ⟨ht, rfl⟩
    rw [Engine.isDirty_eq hr, hd, Bool.true_and, Bool.not_eq_true', List.isEmpty_eq_false_iff]
    exact List.ne_nil_of_mem hmem

/-- What the tables say of a bound register that has been stored. -/
theorem leads_flushStatic (hr : e.holding r = some h) (hs : (e.residence s).reg? = some r) :
    Leads (flushStatic s r) e fun _ e' => ∃ g v, Restated r g s v e e' ∧ g.dirty = false ∧
      g.isGroup = h.isGroup ∧ v.reg? = some r ∧ v.known? = none := by
  have hcount : s < Slot.count := Tables.lt_count hs
  -- the end of the operation, from any engine in which the register is clean
  have hsettle : ∀ e₁ g v, Restated r g s v e e₁ → g.dirty = false → g.isGroup = h.isGroup →
      Leads (get >>= fun d => if (d.holding r).any (·.pointer) = true then
          modify (·.setResidence s (.pointer r))
        else modify (·.setResidence s (.host r 0)) >>= fun _ => pointAgain s r) e₁
        fun _ e' => ∃ g v, Restated r g s v e e' ∧ g.dirty = false ∧ g.isGroup = h.isGroup ∧
          v.reg? = some r ∧ v.known? = none := by
    intro e₁ g v hrs hd hg
    refine leads_get ?_
    split
    · exact leads_modify ⟨g, .pointer r, hrs.trans (restated_setResidence hrs.here hcount _), hd, hg,
        rfl, rfl⟩
    · have hrs' := hrs.trans (restated_setResidence hrs.here hcount (.host r 0))
      refine leads_bind (leads_modify ?_)
      unfold pointAgain
      refine leads_get ?_
      split
      · refine leads_bind (leads_emit (leads_modify ?_))
        have hrs₂ := hrs'.alike (Engine.alike_asked _ (.addBase r))
        have hflag := hrs₂.trans (restated_modify hrs₂.here fun h =>
          { h with pointer := true, normalized := false })
        exact ⟨_, .pointer r, hflag.trans (restated_setResidence hflag.here hcount _), hd, hg, rfl,
          rfl⟩
      · exact leads_pure ⟨g, _, hrs', hd, hg, rfl, rfl⟩
  have hstart : Restated r h s (e.residence s) e e :=
    ⟨Engine.Kin.refl e, fun q => by split <;> simp_all, fun t => by split <;> simp_all⟩
  unfold flushStatic
  refine leads_get ?_
  simp only
  split
  · split
    · have hoff := (hstart.alike (e.alike_asked (.removeBase r))).trans
        (restated_modify (hstart.alike (e.alike_asked (.removeBase r))).here fun h =>
          { h with pointer := false })
      have hout := hoff.alike (Engine.alike_asked _ (.store r s 0 1))
      exact leads_bind (leads_emit (leads_bind (leads_modify (leads_bind (leads_emit (leads_bind
        (leads_modify (hsettle _ _ _ (hout.trans (restated_modify hout.here fun h =>
          { h with dirty := false })) rfl rfl))))))))
    · have hout := hstart.alike (e.alike_asked (.store r s 0 1))
      exact leads_bind (leads_emit (leads_bind (leads_modify (hsettle _ _ _
        (hout.trans (restated_modify hout.here fun h => { h with dirty := false })) rfl rfl))))
  · rename_i hclean
    refine hsettle e h _ hstart ?_ rfl
    rw [Engine.isDirty_eq hr] at hclean
    exact Bool.eq_false_iff.mpr hclean

theorem Restated.cleaned {g : Holding} {v : Residence} (hrs : Restated r g s v e e')
    (hr : e.holding r = some h) (hs : (e.residence s).reg? = some r) (hd : g.dirty = false)
    (hg : g.isGroup = h.isGroup) (hv : v.reg? = some r) : Cleaned r e e' := by
  refine ⟨fun q hq => ?_, fun t ht => ?_, fun t ht => ?_, fun g' hg' => ?_⟩
  · rw [hrs.held, if_neg hq]
  · rw [hrs.lives, if_neg]
    rintro rfl
    exact ht hs
  · rw [hrs.lives]
    split
    · exact Or.inr hv
    · exact Or.inr ht
  · rw [hrs.here] at hg'
    cases hg'
    exact ⟨hd, h, hr, hg⟩

theorem Emptied.cleaned (hempty : Emptied r e e' x y) : Cleaned r e e' := by
  refine ⟨fun q hq => (hempty.other q hq).1, hempty.kept, fun s hs => Or.inl (hempty.gone s hs), ?_⟩
  intro g hg
  rw [hempty.free] at hg
  exact nomatch hg

/-! ## Before a call -/

/-- A slot in a register survives a call, or is bound and not known. -/
def Engine.Survives (e : Engine) (writes : List Slot) (s : Slot) (r : HostReg) : Prop :=
  (e.slotAt s).isStatic = true ∧ (e.residence s).known? = none ∨
    e.host.callerSaved r = false ∧ (e.holdsGroup r = true → e.host.preservesVector r = true) ∧
      s ∉ writes

/-- Everything is in guest storage, and what is in registers as well survives a call that writes the
given slots. -/
structure Ready (writes : List Slot) (e : Engine) : Prop where
  clean : ∀ r h, e.holding r = some h → h.dirty = false
  unknown : ∀ s w, e.residence s ≠ .value w
  kept : ∀ s r, (e.residence s).reg? = some r → e.Survives writes s r

theorem Tables.survives_of_isLostInCall (ht : Tables e) (hr : e.isLostInCall writes r = false)
    (hs : (e.residence s).reg? = some r) : e.Survives writes s r := by
  simp only [Engine.isLostInCall, Bool.or_eq_false_iff, Bool.and_eq_false_imp,
    List.any_eq_false, List.contains_iff_mem, Bool.not_eq_false'] at hr
  refine Or.inr ⟨hr.1.1, hr.1.2, ?_⟩
  exact hr.2 (s, _) ((ht.mem_residents _).mpr ⟨hs, rfl⟩)

/-- What happens to one register before a call. -/
def readyReg (writes : List Slot) (r : HostReg) : EngineM Unit := do
  let e ← get
  match e.holding r with
  | none => pure ()
  | some h =>
    if (e.slotAt h.first).isStatic then flushStatic h.first r
    else if (← get).isLostInCall writes r then flushReg r else writeBack r

theorem flushBeforeCall_eq (writes : List Slot) :
    flushBeforeCall writes = (List.range Slot.count).forM flushKnown >>= fun _ =>
      get >>= fun e => (List.range e.hosts.size).forM (readyReg writes) := rfl

theorem spares_readyReg {d : Engine} (hd : d.Spares Set.univ e) :
    Leads (readyReg writes r) e fun _ e' => d.Spares Set.univ e' := by
  unfold readyReg
  refine leads_get ?_
  split
  · exact leads_pure hd
  · split
    · exact spares_flushStatic trivial hd
    · refine leads_get ?_
      split
      · exact spares_flushReg hd
      · exact spares_writeBack hd

/-- Where a slot survives does not change when other registers are made ready. -/
theorem Engine.Survives.congr (hkin : e.Kin e') (hres : e'.residence s = e.residence s)
    (hgroup : e'.holdsGroup r = e.holdsGroup r) (hsurvives : e.Survives writes s r) :
    e'.Survives writes s r := by
  unfold Survives
  rw [hkin.isStatic, hkin.host, hres, hgroup]
  exact hsurvives

/-- **One register is made ready.** -/
theorem after_readyReg (hc : Coherent base last lost e x) :
    After base (readyReg writes r) e x fun _ e' y =>
      (Coherent base last lost e' y ∧ Cleaned r e e' ∧
        (e.Kin e' → ∀ s, (e'.residence s).reg? = some r → e'.Survives writes s r)) ∧
      e.Spares Set.univ e' := by
  refine After.and_leads ?_ (spares_readyReg (Engine.Spares.refl _ e))
  unfold readyReg
  refine after_get ?_
  cases hr : e.holding r with
  | none =>
    have hnone : ∀ s, (e.residence s).reg? ≠ some r := by
      intro s hs
      obtain ⟨h, hh, -⟩ := hc.placed s r hs
      rw [hr] at hh
      exact nomatch hh
    refine after_pure ⟨hc, ⟨fun _ _ => rfl, fun _ _ => rfl, fun s hs => absurd hs (hnone s), ?_⟩,
      fun _ s hs => absurd hs (hnone s)⟩
    intro h hh
    rw [hr] at hh
    exact nomatch hh
  | some h =>
    simp only
    by_cases hstatic : (e.slotAt h.first).isStatic = true
    · rw [if_pos hstatic]
      have hint := hc.isInteger_of_isStatic hstatic
      have hs := hc.reg_first hr hint
      refine ((after_flushStatic hc hint hs).and_leads (leads_flushStatic hr hs)).mono
        fun _ e' y ⟨hc', g, v, hrs, hd, hg, hv, hknown⟩ => ?_
      have hclean := hrs.cleaned hr hs hd hg hv
      refine ⟨hc', hclean, fun hkin s' hs' => Or.inl ?_⟩
      -- a bound slot is alone in its register
      obtain rfl : s' = h.first := hc.eq_of_isStatic (hclean.reg_of_reg hs') hs hstatic
      exact ⟨by rw [hkin.isStatic]; exact hstatic, by rw [hrs.residence]; exact hknown⟩
    · rw [if_neg hstatic]
      refine after_get ?_
      by_cases hlost : e.isLostInCall writes r = true
      · rw [if_pos hlost]
        refine (after_flushReg hc).mono fun _ e' y ⟨hc', hempty⟩ => ⟨hc', hempty.cleaned, ?_⟩
        intro _ s hs
        obtain ⟨g, hg, -⟩ := hc'.placed s r hs
        rw [hempty.free] at hg
        exact nomatch hg
      · rw [if_neg hlost]
        refine (after_writeBack hc hr).mono fun _ e' y ⟨hc', hclean, hres⟩ => ⟨hc', hclean, ?_⟩
        intro hkin s hs
        have hsurvives := hc.survives_of_isLostInCall (Bool.eq_false_iff.mpr hlost)
          (by rw [← hres]; exact hs)
        refine hsurvives.congr hkin (hres s) ?_
        obtain ⟨g', hg', -⟩ := hc'.placed s r hs
        obtain ⟨-, g, hg, hgroup⟩ := hclean.clean g' hg'
        rw [Engine.holdsGroup_eq hg', Engine.holdsGroup_eq hg, hgroup]

/-- A known value that is in no register is stored. -/
theorem leads_flushKnown (ht : Tables e) :
    Leads (flushKnown s) e fun _ e' =>
      (∀ t, t ≠ s → e'.residence t = e.residence t) ∧ ∀ w, e'.residence s ≠ .value w := by
  unfold flushKnown
  refine leads_get ?_
  simp only
  split
  · rename_i w hres
    split
    · refine leads_bind (leads_emit (leads_modify ⟨fun t ht => ?_, fun w' => ?_⟩))
      · exact Engine.residence_clear_of_ne _ ht
      · rw [Engine.residence_clear_self]
        exact fun h => nomatch h
    · -- a bound slot is in its register
      rename_i hstatic
      obtain ⟨-, b, -, -, hreg⟩ := ht.bound s (by simpa using hstatic)
      rw [show e.residence s = .value w from hres] at hreg
      exact nomatch hreg
  · rename_i hres
    exact leads_pure ⟨fun _ _ => rfl, fun w hw => hres w hw⟩

/-- **Before a call everything is stored.** -/
theorem after_flushBeforeCall (hc : Coherent base last lost e x) :
    After base (flushBeforeCall writes) e x fun _ e' y =>
      Coherent base last lost e' y ∧ Ready writes e' := by
  rw [flushBeforeCall_eq]
  -- the slots that remain in the list may still have a known value
  let I (rest : List Slot) (e : Engine) (y : Storage) : Prop :=
    Coherent base last lost e y ∧ ∀ s, s ∉ rest → ∀ w, e.residence s ≠ .value w
  have hI : I (List.range Slot.count) e x := by
    refine ⟨hc, fun s hs w hw => hs (List.mem_range.mpr (e.lt_count_of_residence ?_))⟩
    rw [hw]
    exact fun h => nomatch h
  refine after_bind ((after_forM I ?_ _ hI).mono fun _ e₁ x₁ ⟨hc₁, hunknown⟩ => after_get ?_)
  · rintro s rest d y ⟨hd, hrest⟩
    refine ((after_flushKnown hd).and_leads (leads_flushKnown hd.toTables)).mono
      fun _ d' y' ⟨hd', hsame, hself⟩ => ⟨hd', fun t ht w => ?_⟩
    by_cases hts : t = s
    · rw [hts]
      exact hself w
    · rw [hsame t hts]
      exact hrest t (fun h => (List.mem_cons.mp h).elim hts ht) w
  -- the registers that remain in the list may still be dirty
  let J (rest : List HostReg) (e : Engine) (y : Storage) : Prop :=
    Coherent base last lost e y ∧ (∀ s w, e.residence s ≠ .value w) ∧ ∀ r, r ∉ rest →
      (∀ h, e.holding r = some h → h.dirty = false) ∧
      ∀ s, (e.residence s).reg? = some r → e.Survives writes s r
  have hJ : J (List.range e₁.hosts.size) e₁ x₁ := by
    refine ⟨hc₁, fun s => hunknown s List.not_mem_nil, fun r hr => ?_⟩
    have hnone : ∀ h, e₁.holding r ≠ some h :=
      fun h hh => hr (List.mem_range.mpr (e₁.lt_size_of_holding hh))
    refine ⟨fun h hh => absurd hh (hnone h), fun s hs => ?_⟩
    obtain ⟨h, hh, -⟩ := hc₁.placed s r hs
    exact absurd hh (hnone h)
  refine (after_forM J ?_ _ hJ).mono fun _ e₂ y₂ ⟨hc₂, hunknown₂, hdone⟩ =>
    ⟨hc₂, fun r h => (hdone r List.not_mem_nil).1 h, hunknown₂,
      fun s r => (hdone r List.not_mem_nil).2 s⟩
  rintro q rest d y ⟨hd, hvalues, hrest⟩
  refine (after_readyReg hd).mono fun _ d' y' ⟨⟨hd', hclean, hhere⟩, hspares⟩ =>
    ⟨hd', hclean.not_value hvalues, fun r hr => ?_⟩
  by_cases hrq : r = q
  · subst hrq
    exact ⟨fun h hh => (hclean.clean h hh).1, hhere hspares.toKin⟩
  · obtain ⟨hdirty, hsurvive⟩ := hrest r fun h => (List.mem_cons.mp h).elim hrq hr
    refine ⟨fun h hh => hdirty h (by rw [← hclean.other r hrq]; exact hh), fun s hs => ?_⟩
    have hs' := hclean.reg_of_reg hs
    refine (hsurvive s hs').congr hspares.toKin (hclean.kept s ?_) ?_
    · rw [hs']
      exact fun h => hrq (Option.some.inj h)
    · unfold Engine.holdsGroup
      rw [hclean.other r hrq]

/-- Guest storage has every word that is not lost. -/
theorem Coherent.guest_of_ready (hc : Coherent base last lost e x) (hready : Ready writes e)
    (hs : s ∉ lost) : x.guest s = last s := by
  cases hres : (e.residence s).reg? with
  | some r =>
    obtain ⟨h, hh, -⟩ := hc.placed s r hres
    exact hc.clean s r h hres hh (hready.clean r h hh) hs
  | none =>
    refine hc.stored s ?_ hs
    cases hguest : e.residence s with
    | guest => rfl
    | value w => exact absurd hguest (hready.unknown s w)
    | host r k | hostValue r w | pointer r =>
      rw [hguest] at hres
      exact nomatch hres

/-! ## The call -/

/-- What a call that writes the given slots may do to a host. -/
structure Called (host : Host) (writes : List Slot) (x y : Storage) : Prop where
  guest : ∀ s, s ∉ writes → y.guest s = x.guest s
  gpr : ∀ r, host.bankOf r = .gpr → host.callerSaved r = false → y.gpr r = x.gpr r
  vec : ∀ r k, host.bankOf r = .fpr → host.callerSaved r = false →
    k < 2 ∨ host.preservesVector r = true → y.vec r k = x.vec r k

/-- The words after a call: those it wrote are in guest storage. -/
def afterCall (last : Slot → Word) (writes : List Slot) (y : Storage) : Slot → Word :=
  fun s => if s ∈ writes then y.guest s else last s

theorem afterCall_of_mem (hs : s ∈ writes) : afterCall last writes y s = y.guest s := if_pos hs

theorem afterCall_of_not_mem (hs : s ∉ writes) : afterCall last writes y s = last s := if_neg hs

/-- A register that is not for the caller to save keeps its word, if it is not in an upper lane of
a register of which a call preserves the lower half. -/
theorem Called.word (hcall : Called e.host writes x y) (ht : Tables e) (hr : e.holding r = some h)
    (hs : (e.residence s).reg? = some r) (hcallee : e.host.callerSaved r = false)
    (hlanes : e.holdsGroup r = true → e.host.preservesVector r = true) :
    y.word e.host base r h.pointer (e.residence s).lane
      = x.word e.host base r h.pointer (e.residence s).lane := by
  cases hbank : e.host.bankOf r with
  | gpr => rw [Storage.word_gpr hbank, Storage.word_gpr hbank, hcall.gpr r hbank hcallee]
  | fpr =>
    rw [ht.pointer_fpr hr hbank, word_false, word_false]
    unfold Storage.lane
    rw [hbank]
    refine hcall.vec r _ hbank hcallee ?_
    cases hgroup : e.holdsGroup r with
    | true => exact Or.inr (hlanes hgroup)
    | false =>
      -- outside a group a slot is in lane 0
      have hlane := (ht.placed_of hs hr).lane
      rw [Engine.holdsGroup_eq hr] at hgroup
      unfold Holding.width at hlane
      rw [hgroup] at hlane
      exact Or.inl (Nat.lt_trans hlane (by decide))

/-- The bindings that are in force are those that the tables say. -/
def Engine.InForce (e : Engine) : Prop := ∀ b ∈ e.bindings, (e.slotAt b.slot).isStatic = true

/-- A call leaves the bound registers alone. -/
def Host.KeepsStatics (host : Host) : Prop := ∀ b ∈ host.statics, host.callerSaved b.reg = false

instance (host : Host) : Decidable host.KeepsStatics :=
  inferInstanceAs (Decidable (∀ b ∈ host.statics, host.callerSaved b.reg = false))

/-- **The words after a call.** Those of bound slots that the call wrote are not in their registers
yet. -/
theorem Coherent.called (hc : Coherent base last lost e x) (hready : Ready writes e)
    (hkeeps : e.host.KeepsStatics) (hcall : Called e.host writes x y) :
    Coherent base (afterCall last writes y)
      ({s | s ∈ lost ∧ s ∉ writes} ∪ {s | s ∈ writes ∧ (e.slotAt s).isStatic = true}) e y := by
  -- what is in a register and not lost was not written, and the register has survived
  have hin : ∀ s r h, (e.residence s).reg? = some r → e.holding r = some h →
      s ∉ {s | s ∈ lost ∧ s ∉ writes} ∪ {s | s ∈ writes ∧ (e.slotAt s).isStatic = true} →
      s ∉ writes ∧ s ∉ lost ∧ e.host.callerSaved r = false ∧
        (e.holdsGroup r = true → e.host.preservesVector r = true) := by
    intro s r h hs hh hl
    rw [Set.mem_union, not_or] at hl
    obtain ⟨hstatic, -⟩ | ⟨hcallee, hlanes, hw⟩ := hready.kept s r hs
    · have hw : s ∉ writes := fun hw => hl.2 ⟨hw, hstatic⟩
      refine ⟨hw, fun h' => hl.1 ⟨h', hw⟩, ?_, fun hgroup => ?_⟩
      · obtain ⟨-, b, hb, -, hreg⟩ := hc.bound s hstatic
        rw [hs] at hreg
        cases hreg
        exact hkeeps b hb
      · have hbank := (hc.bankOf_eq hs).mpr (hc.isInteger_of_isStatic hstatic)
        rw [Engine.holdsGroup_eq hh, ((hc.suits r h hh).gpr hbank).1] at hgroup
        exact nomatch hgroup
    · exact ⟨hw, fun h' => hl.1 ⟨h', hw⟩, hcallee, hlanes⟩
  refine ⟨hc.toTables, ?value, ?clean, ?stored, ?known⟩
  case value =>
    intro s r h hs hh hl
    obtain ⟨hw, hl, hcallee, hlanes⟩ := hin s r h hs hh hl
    rw [afterCall_of_not_mem hw, hcall.word hc.toTables hh hs hcallee hlanes]
    exact hc.value s r h hs hh hl
  case clean =>
    intro s r h hs hh hd hl
    obtain ⟨hw, hl, -⟩ := hin s r h hs hh hl
    rw [afterCall_of_not_mem hw, hcall.guest s hw]
    exact hc.clean s r h hs hh hd hl
  case stored =>
    intro s hs hl
    by_cases hw : s ∈ writes
    · rw [afterCall_of_mem hw]
    · rw [afterCall_of_not_mem hw, hcall.guest s hw]
      exact hc.stored s hs fun h' => hl (Or.inl ⟨h', hw⟩)
  case known =>
    intro s v hv
    have hw : s ∉ writes := by
      cases hres : (e.residence s).reg? with
      | none =>
        cases hval : e.residence s with
        | value w => exact absurd hval (hready.unknown s w)
        | guest =>
          rw [hval] at hv
          exact nomatch hv
        | host r k | hostValue r w | pointer r =>
          rw [hval] at hres
          exact nomatch hres
      | some r =>
        obtain ⟨-, hknown⟩ | ⟨-, -, hw⟩ := hready.kept s r hres
        · rw [hknown] at hv
          exact nomatch hv
        · exact hw
    rw [afterCall_of_not_mem hw]
    exact hc.known s v hv

/-! ## Getting ready never fails -/

theorem completes_storeLanes (slots : List (Slot × Nat)) (e : Engine) :
    Completes (storeLanes r slots) e := by
  unfold storeLanes
  refine completes_get ?_
  cases e.host.bankOf r with
  | gpr =>
    simp only
    split
    · refine completes_emit_bind ?_
      split
      · exact completes_emit _ _
      · exact completes_pure _ _
    · split
      · exact completes_emit _ e
      · exact completes_pure _ e
  | fpr =>
    simp only
    split
    · exact completes_pure _ e
    · split
      · exact completes_emit _ e
      · split
        · exact completes_emit _ e
        · exact completes_forM (I := fun _ => True) _ (fun p _ e _ => completes_emit _ e)
            (fun _ _ _ _ _ _ => trivial) trivial

/-- A register without bound slots can be emptied. -/
theorem completes_flushReg (ht : Tables e) (hr : r < e.hosts.size)
    (hstatic : ∀ s, (e.residence s).reg? = some r → (e.slotAt s).isStatic = false) :
    Completes (flushReg r) e := by
  unfold flushReg
  refine completes_requireReg hr (completes_get ?_)
  cases hlist : e.residents r with
  | nil => exact completes_modify _ e
  | cons p rest =>
    obtain ⟨hp, -⟩ := (ht.mem_residents p.2).mp (hlist ▸ List.mem_cons_self)
    simp only
    rw [if_neg (by rw [hstatic p.1 hp]; exact Bool.false_ne_true)]
    split
    · exact completes_bind (completes_storeLanes _ e) fun _ _ _ => completes_modify _ _
    · exact completes_modify _ e

theorem completes_writeBack (r : HostReg) (e : Engine) : Completes (writeBack r) e := by
  unfold writeBack
  refine completes_get ?_
  simp only
  split
  · refine completes_bind (completes_storeLanes _ e) fun _ e' _ => ?_
    split
    · exact completes_emit_bind (completes_modify _ _)
    · exact completes_modify _ _
  · exact completes_pure _ e

theorem completes_pointAgain (s : Slot) (r : HostReg) (e : Engine) :
    Completes (pointAgain s r) e := by
  unfold pointAgain
  refine completes_get ?_
  split
  · exact completes_emit_bind (completes_modify _ _)
  · exact completes_pure _ e

theorem completes_flushStatic (s : Slot) (r : HostReg) (e : Engine) :
    Completes (flushStatic s r) e := by
  have hsettle : ∀ e : Engine, Completes (get >>= fun d =>
      if (d.holding r).any (·.pointer) = true then modify (·.setResidence s (.pointer r))
      else modify (·.setResidence s (.host r 0)) >>= fun _ => pointAgain s r) e := by
    intro e
    refine completes_get ?_
    split
    · exact completes_modify _ _
    · exact completes_modify_bind (completes_pointAgain _ _ _)
  unfold flushStatic
  refine completes_get ?_
  simp only
  split
  · split
    · exact completes_emit_bind (completes_modify_bind (completes_emit_bind
        (completes_modify_bind (hsettle _))))
    · exact completes_emit_bind (completes_modify_bind (hsettle _))
  · exact hsettle e

theorem completes_flushKnown (s : Slot) (e : Engine) : Completes (flushKnown s) e := by
  unfold flushKnown
  refine completes_get ?_
  simp only
  split
  · split
    · exact completes_emit_bind (completes_modify _ _)
    · exact completes_pure _ e
  · exact completes_pure _ e

theorem Tables.leads_flushKnown (ht : Tables e) :
    Leads (flushKnown s) e fun _ e' => Tables e' :=
  (after_flushKnown (ht.coherent 0 .zeros)).leads
    fun _ _ _ h => h.toTables

/-- The first slot of a register is bound if any of its slots is. -/
theorem Tables.isStatic_first (ht : Tables e) (hr : e.holding r = some h)
    (hs : (e.residence s).reg? = some r) (hstatic : (e.slotAt s).isStatic = true) :
    (e.slotAt h.first).isStatic = true := by
  have hbank := (ht.bankOf_eq hs).mpr (ht.isInteger_of_isStatic hstatic)
  rw [← ht.eq_first hs hr ((ht.suits r h hr).gpr hbank).1]
  exact hstatic

theorem completes_readyReg (ht : Tables e) : Completes (readyReg writes r) e := by
  unfold readyReg
  refine completes_get ?_
  split
  · exact completes_pure _ e
  · rename_i h hr
    split
    · exact completes_flushStatic _ _ e
    · rename_i hfirst
      refine completes_get ?_
      split
      · refine completes_flushReg ht (e.lt_size_of_holding hr) fun s hs => ?_
        exact Bool.eq_false_iff.mpr fun hstatic => hfirst (ht.isStatic_first hr hs hstatic)
      · exact completes_writeBack r e

theorem Tables.leads_readyReg (ht : Tables e) :
    Leads (readyReg writes r) e fun _ e' => Tables e' :=
  (after_readyReg (ht.coherent 0 .zeros)).leads
    fun _ _ _ h => h.1.1.toTables

/-- **Getting ready for a call succeeds.** -/
theorem completes_flushBeforeCall (writes : List Slot) (ht : Tables e) :
    Completes (flushBeforeCall writes) e := by
  rw [flushBeforeCall_eq]
  refine completes_bind (completes_forM _ (fun s _ e _ => completes_flushKnown s e)
    (fun s e ht => ht.leads_flushKnown) ht) ?_
  refine (leads_forM (fun s e ht => ht.leads_flushKnown) _ ht).mono fun _ e₁ ht₁ => ?_
  exact completes_get (completes_forM _ (fun r _ e ht => completes_readyReg ht)
    (fun r e ht => ht.leads_readyReg) ht₁)

/-! ## After a call -/

theorem completes_reloadStatic (b : Binding) (e : Engine) : Completes (reloadStatic b) e := by
  unfold reloadStatic
  exact completes_emit_bind (completes_modify_bind (completes_pointAgain _ _ _))

theorem completes_reloadAfterCall (writes : List Slot) (e : Engine) :
    Completes (reloadAfterCall writes) e := by
  unfold reloadAfterCall
  refine completes_get ?_
  split
  · refine completes_forM (I := fun _ => True) _ (fun b _ e _ => ?_) (fun _ _ _ _ _ _ => trivial)
      trivial
    split
    · exact completes_reloadStatic b e
    · exact completes_pure _ e
  · exact completes_pure _ e

theorem Engine.InForce.reg (hforce : e.InForce) (ht : Tables e) {b : Binding}
    (hb : b ∈ e.bindings) : (e.residence b.slot).reg? = some b.reg := by
  obtain ⟨-, c, hc, hslot, hreg⟩ := ht.bound b.slot (hforce b hb)
  have heq : c = b :=
    List.inj_on_of_nodup_map ht.sane.slots hc (e.bindings_sublist.mem hb) hslot
  rw [← heq, hslot] at hreg ⊢
  exact hreg

/-- **After a call the bound registers are loaded again.** -/
theorem after_reloadAfterCall (hc : Coherent base (afterCall last writes x)
      ({s | s ∈ lost ∧ s ∉ writes} ∪ {s | s ∈ writes ∧ (e.slotAt s).isStatic = true}) e x)
    (hforce : e.InForce) :
    After base (reloadAfterCall writes) e x fun _ e' y =>
      Coherent base (afterCall last writes x) {s | s ∈ lost ∧ s ∉ writes} e' y := by
  unfold reloadAfterCall
  refine after_get ?_
  -- the bound slots are those of the bindings in force
  have hbound : ∀ s, (e.slotAt s).isStatic = true → ∃ b ∈ e.bindings, b.slot = s := by
    intro s hstatic
    obtain ⟨huse, b, hb, hslot, -⟩ := hc.bound s hstatic
    exact ⟨b, Engine.mem_bindings.mpr ⟨huse, hb⟩, hslot⟩
  by_cases huse : e.policy.useStatics = true
  · rw [if_pos huse]
    have hlist : e.bindings = e.host.statics := if_pos huse
    rw [← hlist]
    -- lost are the slots of the bindings that are still to be loaded
    let I (rest : List Binding) (d : Engine) (y : Storage) : Prop :=
      Coherent base (afterCall last writes x)
          ({s | s ∈ lost ∧ s ∉ writes} ∪ {s | s ∈ writes ∧ ∃ b ∈ rest, b.slot = s}) d y ∧
        y.guest = x.guest ∧
        ∀ b ∈ rest, b ∈ e.host.statics ∧ (d.residence b.slot).reg? = some b.reg
    have hI : I e.bindings e x := by
      refine ⟨hc.lose (Set.union_subset_union_right _ fun s hs => ⟨hs.1, hbound s hs.2⟩), rfl,
        fun b hb => ⟨e.bindings_sublist.mem hb, hforce.reg hc.toTables hb⟩⟩
    refine (after_forM I ?_ _ hI).mono fun _ e' y h => h.1.lose ?_
    · rintro b rest d y ⟨hd, hguest, hrest⟩
      obtain ⟨hmem, hreg⟩ := hrest b List.mem_cons_self
      have hothers := fun c hc => hrest c (List.mem_cons_of_mem b hc)
      by_cases hw : b.slot ∈ writes
      · rw [if_pos (List.contains_iff_mem.mpr hw)]
        refine (after_reloadStatic hd (hc.sane.integer b hmem).1 hreg (fun _ _ => rfl)
          (by rw [afterCall_of_mem hw, hguest])).mono fun _ e' z ⟨hc', hz, hregs⟩ => ?_
        refine ⟨hc'.lose ?_, hz.trans hguest, fun c hc => ?_⟩
        · rintro s ⟨hs | ⟨hs, c, hc, rfl⟩, hne⟩
          · exact Or.inl hs
          · obtain rfl | hc := List.mem_cons.mp hc
            · exact absurd rfl hne
            · exact Or.inr ⟨hs, c, hc, rfl⟩
        · exact ⟨(hothers c hc).1, by rw [hregs, (hothers c hc).2]⟩
      · rw [if_neg fun h => hw (List.contains_iff_mem.mp h)]
        refine after_pure ⟨hd.lose ?_, hguest, hothers⟩
        rintro s (hs | ⟨hs, c, hc, rfl⟩)
        · exact Or.inl hs
        · obtain rfl | hc := List.mem_cons.mp hc
          · exact absurd hs hw
          · exact Or.inr ⟨hs, c, hc, rfl⟩
    · rintro s (hs | ⟨-, b, hb, -⟩)
      · exact hs
      · exact absurd hb List.not_mem_nil
  · rw [if_neg huse]
    refine after_pure (hc.lose ?_)
    rintro s (hs | ⟨-, hstatic⟩)
    · exact hs
    · obtain ⟨b, hb, -⟩ := hbound s hstatic
      exact absurd (Engine.mem_bindings.mp hb).1 huse

/-! ## The call as a whole -/

theorem Engine.InForce.of_kin (hforce : e.InForce) (hkin : e.Kin e') : e'.InForce := by
  intro b hb
  have hb' : b ∈ e.bindings := by
    unfold bindings at hb ⊢
    rw [← hkin.policy, ← hkin.host]
    exact hb
  rw [hkin.isStatic]
  exact hforce b hb'

/-- **Words outlive a call.** Those of the slots that the call writes are what it has put into guest
storage; all others are what they were. In between, the list of actions may have been emptied. -/
theorem Coherent.after_call {e₁ : Engine} {x₁ x₂ : Storage} (as : Array Action)
    (hc : Coherent base last lost e x) (hforce : e.InForce) (hkeeps : e.host.KeepsStatics)
    (hflush : Ran base (flushBeforeCall writes) e x () e₁ x₁)
    (hcall : Called e.host writes x₁ x₂) :
    After base (reloadAfterCall writes) { e₁ with actions := as } x₂ fun _ e₂ x₃ =>
      Coherent base (afterCall last writes x₂) {s | s ∈ lost ∧ s ∉ writes} e₂ x₃ := by
  obtain ⟨hc₁, hready⟩ := (after_flushBeforeCall hc).of_ran hflush
  have hkin := (spares_flushBeforeCall (Engine.Spares.refl Set.univ e) () e₁ hflush.1).toKin
  have hcalled := hc₁.called hready (by rw [hkin.host]; exact hkeeps)
    (by rw [hkin.host]; exact hcall)
  have halike : e₁.Alike { e₁ with actions := as } :=
    ⟨rfl, rfl, rfl, fun _ => rfl, fun _ => rfl, fun _ => rfl⟩
  have hforce' : ({ e₁ with actions := as } : Engine).InForce :=
    hforce.of_kin ⟨hkin.host, hkin.policy, hkin.size, hkin.isStatic⟩
  exact after_reloadAfterCall (e := { e₁ with actions := as }) (hcalled.of_alike halike) hforce'

end Dynarec.Registers
