/-
Known values and stores keep every word.

A known value is the new word of its slot, and the only one that an operation of the engine gives a
slot by itself. A store moves words to guest storage and loses none. A bound register is stored
without its memory base and gets the base back; its slot stays in it throughout.
-/
import Dynarec.Proofs.Registers.Groups

set_option autoImplicit false

namespace Dynarec.Registers

open Storage

variable {base : UInt64} {last : Slot → Word} {lost : Set Slot} {e : Engine} {x : Storage}
  {s : Slot} {r : HostReg} {h : Holding}

/-! ## Known values -/

/-- The words with a new one for a slot. -/
def assign (last : Slot → Word) (s : Slot) (w : Word) : Slot → Word :=
  fun t => if t = s then w else last t

theorem assign_self (last : Slot → Word) (s : Slot) (w : Word) : assign last s w s = w := if_pos rfl

theorem assign_of_ne {last : Slot → Word} {s t : Slot} {w : Word} (h : t ≠ s) :
    assign last s w t = last t :=
  if_neg h

theorem not_mem_of_diff {t : Slot} (hne : t ≠ s) (hl : t ∉ lost \ {s}) : t ∉ lost :=
  fun hin => hl ⟨hin, hne⟩

theorem Engine.of_setValue {t : Slot} {w : Word} (hs : s < Slot.count)
    (ht : ((e.setResidence s (.value w)).residence t).reg? = some r) :
    t ≠ s ∧ (e.residence t).reg? = some r := by
  rw [e.residence_setResidence t hs] at ht
  by_cases hts : t = s
  · rw [if_pos hts] at ht
    exact nomatch ht
  · rw [if_neg hts] at ht
    exact ⟨hts, ht⟩

/-- The tables still agree when an integer slot outside the registers gets a known value. -/
theorem Tables.setValue (ht : Tables e) (hs : s < Slot.count) (hint : Slot.isInteger s = true)
    (hnone : (e.residence s).reg? = none) (w : Word) : Tables (e.setResidence s (.value w)) := by
  have hkin := (e.silent_setResidence s (.value w)).toKin
  have hsame : ∀ t, t ≠ s → (e.setResidence s (.value w)).residence t = e.residence t :=
    fun t hts => (e.residence_setResidence t hs _).trans (if_neg hts)
  -- the slot lives in no register, so all others keep theirs
  have hlives : ∀ t q, (e.residence t).reg? = some q →
      ((e.setResidence s (.value w)).residence t).reg? = some q := by
    intro t q ht
    rw [hsame t fun hts => ?_, ht]
    rw [hts, hnone] at ht
    exact nomatch ht
  refine ⟨ht.sane, ht.size, ?_, ?_, ht.suits, ?_, ?_⟩
  · intro t q ht'
    obtain ⟨hts, ht'⟩ := Engine.of_setValue hs ht'
    obtain ⟨g, hg, hp⟩ := ht.placed t q ht'
    refine ⟨g, hg, ?_, ?_, ?_⟩ <;> rw [hsame t hts]
    · exact hp.first
    · exact hp.lane
    · exact hp.pointer
  · intro t hfloat
    rw [hsame t fun hts => by rw [hts, hint] at hfloat; exact nomatch hfloat]
    exact ht.float t hfloat
  · intro q g hg
    obtain ⟨t, ht'⟩ := ht.occupied q g hg
    exact ⟨t, hlives t q ht'⟩
  · intro t hstatic
    rw [hkin.isStatic] at hstatic
    obtain ⟨huse, b, hb, hslot, hreg⟩ := ht.bound t hstatic
    exact ⟨huse, b, hb, hslot, hlives t _ hreg⟩

/-- A slot that lives in no register gets a known value. -/
theorem Coherent.setValue (hc : Coherent base last lost e x) (hs : s < Slot.count)
    (hint : Slot.isInteger s = true) (hnone : (e.residence s).reg? = none) (w : Word) :
    Coherent base (assign last s w) (lost \ {s}) (e.setResidence s (.value w)) x := by
  have hres := fun t => e.residence_setResidence t hs (.value w)
  refine ⟨hc.toTables.setValue hs hint hnone w, ?value, ?clean, ?stored, ?known⟩
  case value =>
    intro t q g ht hg hl
    obtain ⟨hts, ht⟩ := Engine.of_setValue hs ht
    rw [hres, if_neg hts, assign_of_ne hts]
    exact hc.value t q g ht hg (not_mem_of_diff hts hl)
  case clean =>
    intro t q g ht hg hd hl
    obtain ⟨hts, ht⟩ := Engine.of_setValue hs ht
    rw [assign_of_ne hts]
    exact hc.clean t q g ht hg hd (not_mem_of_diff hts hl)
  case stored =>
    intro t ht hl
    rw [hres] at ht
    by_cases hts : t = s
    · rw [if_pos hts] at ht
      exact nomatch ht
    · rw [if_neg hts] at ht
      rw [assign_of_ne hts]
      exact hc.stored t ht (not_mem_of_diff hts hl)
  case known =>
    intro t v hv
    rw [hres] at hv
    by_cases hts : t = s
    · rw [if_pos hts] at hv
      rw [hts, assign_self]
      exact Option.some.inj hv
    · rw [if_neg hts] at hv
      rw [assign_of_ne hts]
      exact hc.known t v hv

/-- An integer slot that is not bound gets a known value. If it lives in a register it leaves it
first, and its old word with it. -/
theorem after_setLoose (hc : Coherent base last lost e x) (hs : s < Slot.count)
    (hint : Slot.isInteger s = true) (hstatic : (e.slotAt s).isStatic = false) (w : Word) :
    After base (modify fun e => (e.detach s).setResidence s (.value w)) e x fun _ e' y =>
      Coherent base (assign last s w) (lost \ {s}) e' y := by
  refine after_update
    ((e.silent_detach s).trans (Engine.silent_setResidence _ s (.value w))) ?_
  cases hres : (e.residence s).reg? with
  | none =>
    have hsame : e.detach s = e := by
      unfold Engine.detach
      rw [hres]
    rw [hsame]
    exact hc.setValue hs hint hres w
  | some r =>
    have hv := vacated_detach hc.toTables hres
    -- on its way the slot counts as lost; the value then makes up for it
    have hleft : Coherent base last (lost ∪ {s}) (e.detach s) x :=
      hc.vacate hv (by rintro _ rfl; exact hstatic) (fun q _ _ => SameReg.refl x q)
        (fun _ _ => rfl) (fun t ht hl => absurd (Or.inr ht) hl) fun t _ hl hin => hl (Or.inl hin)
    have hnone : ((e.detach s).residence s).reg? = none := by
      rw [hv.gone s rfl]
      rfl
    exact (hleft.setValue hs hint hnone w).lose fun t ht => ⟨ht.1.resolve_right ht.2, ht.2⟩

/-- **A slot gets a known value.** -/
theorem after_setKnown (hc : Coherent base last lost e x) (w : Word) :
    After base (setKnown s w) e x fun _ e' y =>
      Coherent base (assign last s w) (lost \ {s}) e' y := by
  unfold setKnown
  simp only
  refine after_require fun hint => ?_
  have hint : Slot.isInteger s = true := by simpa using hint
  refine after_requireSlot fun hs => after_get ?_
  have hreg : (e.slotAt s).residence.reg? = (e.residence s).reg? := rfl
  rw [hreg]
  cases hstatic : (e.slotAt s).isStatic with
  | false => exact after_setLoose hc hs hint hstatic w
  | true =>
    -- a bound slot keeps its register, which gets the value too
    obtain ⟨-, b, -, rfl, hreg⟩ := hc.bound s hstatic
    obtain ⟨g, hg, -⟩ := hc.placed _ _ hreg
    rw [hreg]
    refine after_bind (after_emit fun y ⟨honly, hlane⟩ => after_modify rfl rfl ?_)
    have hc' := hc.of_alike (e.alike_asked (.setValue b.reg w))
    have hmodify := restated_modify (s := b.slot) (e := e.asked (.setValue b.reg w)) hg
      fun h : Holding => { h with dirty := true, pointer := false, normalized := true }
    have hrs := hmodify.trans (restated_setResidence hmodify.here hs (.hostValue b.reg w))
    refine hc'.restate hreg hint hg hrs rfl rfl rfl rfl ⟨(fun h => nomatch h), fun h => nomatch h⟩
      honly.other (fun t _ => by rw [honly.guest]) (fun t ht => assign_of_ne ht)
      (fun t ht hl => not_mem_of_diff ht hl) (fun _ => ?_) (fun h => nomatch h) fun v hv => ?_
    · rw [assign_self]
      exact hlane
    · rw [assign_self]
      exact Option.some.inj hv

/-! ## Bound registers -/

/-- Saying once more where a slot lives changes nothing. -/
theorem Engine.alike_setResidence (e : Engine) {v : Residence} (hv : e.residence s = v) :
    e.Alike (e.setResidence s v) := by
  have hkin := (e.silent_setResidence s v).toKin
  refine ⟨hkin.host, hkin.policy, hkin.size, hkin.isStatic, fun t => ?_, fun _ => rfl⟩
  unfold residence setResidence
  rw [slotAt_setSlot]
  split
  · rename_i ht
    rw [ht.1, ← hv]
    rfl
  · rfl

/-- A bound register gets the memory base back, if it is to be kept as a pointer. -/
theorem after_pointAgain (hc : Coherent base last lost e x) (hint : Slot.isInteger s = true)
    (hres : e.residence s = .host r 0) :
    After base (pointAgain s r) e x fun _ e' y =>
      Coherent base last lost e' y ∧ y.guest = x.guest ∧
        ∀ t, (e'.residence t).reg? = (e.residence t).reg? := by
  unfold pointAgain
  refine after_get ?_
  split
  · refine after_bind (after_emit fun y ⟨honly, hbase⟩ => after_modify rfl rfl ?_)
    have hs : (e.residence s).reg? = some r := by rw [hres]; rfl
    have hne : e.residence s ≠ .pointer r := by rw [hres]; exact fun h => nomatch h
    refine ⟨(hc.of_alike (e.alike_asked _)).point hint hs hne honly hbase, honly.guest, fun t => ?_⟩
    rw [Engine.residence_setResidence _ t (Tables.lt_count hs)]
    split
    · rename_i hts
      rw [hts, hres]
      rfl
    · rfl
  · exact after_pure ⟨hc, rfl, fun _ => rfl⟩

/-- The word of a bound slot is in its register without the memory base, and in guest storage. -/
theorem Coherent.store_static {g : Holding} {z y : Storage} {e' : Engine}
    (hc : Coherent base last lost e x) (hint : Slot.isInteger s = true)
    (hs : (e.residence s).reg? = some r) (hr : e.holding r = some g) (honly : OnlyReg r x z)
    (hword : z.lane e.host r 0 = x.word e.host base r g.pointer 0)
    (hp : Performs e.host base (.store r s 0 1) z y)
    (hrs : Restated r { g with dirty := false, pointer := false } s (.host r 0) e e') :
    Coherent base last lost e' y := by
  obtain ⟨hgpr, hvec, hin, hout⟩ := hp
  have hsame : ∀ q, SameReg z y q := fun q => ⟨congrFun hgpr q, congrFun hvec q⟩
  refine hc.restate hs hint hr hrs rfl rfl rfl rfl ⟨(fun h => nomatch h), fun h => nomatch h⟩
    (fun q hq => (honly.other q hq).trans (hsame q)) (fun t ht => ?_) (fun _ _ => rfl)
    (fun _ _ hl => hl) (fun hl => ?_) (fun _ hl => ?_) (fun _ h => nomatch h)
  · rw [hout t (by unfold Slot at *; omega), honly.guest]
  · show y.lane e.host r 0 = last s
    rw [(hsame r).lane, hword, hc.word_integer hs hint hr hl]
  · rw [← hc.word_integer hs hint hr hl, ← hword]
    exact hin 0 Nat.zero_lt_one

/-- A bound register that is no pointer is said to hold its slot, and may become a pointer again. -/
theorem after_settleStatic {g : Holding} (hcount : s < Slot.count) (hint : Slot.isInteger s = true)
    (hr : e.holding r = some g) (hp : g.pointer = false)
    (hc : Coherent base last lost (e.setResidence s (.host r 0)) x) :
    After base (get >>= fun d => if (d.holding r).any (·.pointer) = true then
        modify (·.setResidence s (.pointer r))
      else modify (·.setResidence s (.host r 0)) >>= fun _ => pointAgain s r) e x
      fun _ e' y => Coherent base last lost e' y := by
  refine after_get ?_
  have hplain : ¬ (e.holding r).any (·.pointer) = true := by
    rw [hr, Option.any_some, hp]
    exact fun h => nomatch h
  rw [if_neg hplain]
  refine after_bind (after_modify rfl rfl ?_)
  have hres : (e.setResidence s (.host r 0)).residence s = .host r 0 :=
    (e.residence_setResidence s hcount _).trans (if_pos rfl)
  exact (after_pointAgain hc hint hres).mono fun _ e' y h => h.1

/-- **A bound register is stored and stays bound.** -/
theorem after_flushStatic (hc : Coherent base last lost e x) (hint : Slot.isInteger s = true)
    (hs : (e.residence s).reg? = some r) :
    After base (flushStatic s r) e x fun _ e' y => Coherent base last lost e' y := by
  obtain ⟨g, hr, hplaced⟩ := hc.placed s r hs
  have hcount : s < Slot.count := Tables.lt_count hs
  have hbank := (hc.bankOf_eq hs).mpr hint
  unfold flushStatic
  refine after_get ?_
  simp only
  by_cases hdirty : e.isDirty r = true
  · rw [if_pos hdirty]
    by_cases hp : (e.holding r).any (·.pointer) = true
    · rw [if_pos hp]
      rw [hr, Option.any_some] at hp
      refine after_bind (after_emit fun z ⟨honly, hbase⟩ => after_bind (after_modify rfl rfl
        (after_bind (after_emit fun y hy => after_bind (after_modify rfl rfl ?_)))))
      -- the memory base goes, the word is stored and the register is clean
      have hoff := (restated_modify (s := s) (e := e.asked (.removeBase r)) hr
        fun h : Holding => { h with pointer := false }).alike
          (Engine.alike_asked _ (.store r s 0 1))
      have hclean := hoff.trans (restated_modify hoff.here fun h => { h with dirty := false })
      have hrs := hclean.trans (restated_setResidence hclean.here hcount (.host r 0))
      refine after_settleStatic hcount hint hclean.here rfl
        (hc.store_static hint hs hr honly ?_ hy (hrs.alike_left (e.alike_asked _)))
      rw [hp, Storage.word_gpr hbank]
      unfold Storage.lane
      rw [hbank, hbase]
      rfl
    · rw [if_neg hp]
      rw [hr, Option.any_some, Bool.not_eq_true] at hp
      refine after_bind (after_emit fun y hy => after_bind (after_modify rfl rfl ?_))
      have hclean := restated_modify (s := s) (e := e.asked (.store r s 0 1)) hr
        fun h : Holding => { h with dirty := false }
      have hrs := hclean.trans (restated_setResidence hclean.here hcount (.host r 0))
      -- it was no pointer, so clearing that flag changes nothing
      have hflags : ({ g with dirty := false } : Holding)
          = { g with dirty := false, pointer := false } := by
        rw [← hp]
      rw [hflags] at hrs
      refine after_settleStatic hcount hint hclean.here hp
        (hc.store_static hint hs hr (OnlyReg.refl x r) ?_ hy (hrs.alike_left (e.alike_asked _)))
      rw [hp, word_false]
  · rw [if_neg hdirty]
    by_cases hp : g.pointer = true
    · refine after_get ?_
      rw [if_pos (by rw [hr]; exact hp)]
      exact after_modify rfl rfl (hc.of_alike (e.alike_setResidence (hplaced.pointer.mp hp)))
    · rw [Bool.not_eq_true] at hp
      refine after_settleStatic hcount hint hr hp ?_
      refine hc.restate hs hint hr (restated_setResidence hr hcount (.host r 0)) rfl rfl rfl rfl
        (by rw [hp]; exact ⟨(fun h => nomatch h), fun h => nomatch h⟩) (fun q _ => SameReg.refl x q)
        (fun _ _ => rfl) (fun _ _ => rfl) (fun _ _ hl => hl)
        (fun hl => hc.word_integer hs hint hr hl)
        (fun hd hl => hc.clean s r g hs hr hd hl) fun _ h => nomatch h

/-! ## Stores -/

/-- A known value goes to guest storage. -/
theorem after_storeValue {w : Word} (hc : Coherent base last lost e x)
    (hres : e.residence s = .value w) :
    After base (emit (.storeValue s w) >>= fun _ => modify (·.clear s)) e x fun _ e' y =>
      Coherent base last lost e' y := by
  refine after_bind (after_emit fun y ⟨hgpr, hvec, hin, hout⟩ => after_modify rfl rfl ?_)
  have hc' := hc.of_alike (e.alike_asked (.storeValue s w))
  have hnone : ((e.asked (.storeValue s w)).residence s).reg? = none := by
    show (e.residence s).reg? = none
    rw [hres]
    rfl
  -- a bound slot always lives in its register
  have hstatic : ∀ t ∈ ({s} : Set Slot),
      ((e.asked (.storeValue s w)).slotAt t).isStatic = false := by
    rintro _ rfl
    refine Bool.eq_false_iff.mpr fun hstatic => ?_
    obtain ⟨-, b, -, -, hreg⟩ := hc'.bound _ hstatic
    rw [hnone] at hreg
    exact nomatch hreg
  refine hc'.vacate (vacated_clear_of_none hc'.toTables hnone) hstatic
    (fun q _ _ => ⟨congrFun hgpr q, congrFun hvec q⟩) (fun t ht => hout t ht) ?_ fun _ _ hl => hl
  rintro _ rfl _
  rw [hin]
  exact (hc.known _ w (by rw [hres]; rfl)).symm

/-- **A slot is stored.** -/
theorem after_flushSlot (hc : Coherent base last lost e x) :
    After base (flushSlot s) e x fun _ e' y => Coherent base last lost e' y := by
  unfold flushSlot
  refine after_requireSlot fun hs => after_get ?_
  simp only
  split
  · have hflush : ∀ r, After base (flushReg r) e x fun _ e' y => Coherent base last lost e' y :=
      fun r => (after_flushReg hc).mono fun _ e' y h => h.1
    cases hres : (e.slotAt s).residence with
    | value w => exact after_storeValue hc hres
    | guest => exact after_pure hc
    | host r k => exact hflush r
    | hostValue r w => exact hflush r
    | pointer r => exact hflush r
  · exact after_pure hc

theorem after_flushKnown (hc : Coherent base last lost e x) :
    After base (flushKnown s) e x fun _ e' y => Coherent base last lost e' y := by
  unfold flushKnown
  refine after_get ?_
  simp only
  split
  · rename_i w hres
    split
    · exact after_storeValue hc hres
    · exact after_pure hc
  · exact after_pure hc

/-- **Everything is stored.** -/
theorem after_flushAll (hc : Coherent base last lost e x) :
    After base flushAll e x fun _ e' y => Coherent base last lost e' y := by
  unfold flushAll
  refine after_bind ((after_forM (fun _ e x => Coherent base last lost e x) ?_ _ hc).mono ?_)
  · exact fun s _ e x hc => after_flushKnown hc
  -- after the known values the registers, in their order
  intro _ e₁ y₁ hc₁
  unfold forHoldings
  refine after_get (after_forM (fun _ e x => Coherent base last lost e x) ?_ _ hc₁)
  intro r _ e x hc
  refine after_get ?_
  cases hr : e.holding r with
  | none => exact after_pure hc
  | some h =>
    simp only
    by_cases hstatic : (e.slotAt h.first).isStatic = true
    · rw [if_pos hstatic]
      have hint := hc.isInteger_of_isStatic hstatic
      exact after_flushStatic hc hint (hc.reg_first hr hint)
    · rw [if_neg hstatic]
      exact (after_flushReg hc).mono fun _ e' y h => h.1

end Dynarec.Registers
