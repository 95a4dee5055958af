/-
What is always true of the tables of the register engine.

`Tables` is the invariant. A slot that lives in a register lives in the lane that its distance from
the first slot of the register says; a register says that it holds a pointer if and only if its slot
says so; integer slots are in integer registers and float slots in float registers; a register that
holds something has a slot living in it; and a bound slot is in its register.

Whatever the engine does to its tables is one of three changes: slots leave their registers
(`Vacated`), a register takes up all the slots of a new holding (`Bound`), or a flag of a holding is
set or taken back. Each change keeps the invariant.
-/
import Dynarec.Proofs.Registers.Readings
import Dynarec.Registers.Consistency
import Mathlib.Data.Set.Basic

set_option autoImplicit false

namespace Dynarec.Registers

/-! ## The invariant -/

/-- A host that the engine can work with: the registers of an order are of the class of the order,
and the bound slots are integer slots, each in an integer register of its own that is not handed
out while the bindings are in force. -/
structure Host.Sane (host : Host) : Prop where
  order : ∀ bank useStatics, ∀ r ∈ host.order bank useStatics,
    r < host.count ∧ host.bankOf r = bank
  slots : (host.statics.map (·.slot)).Nodup
  regs : (host.statics.map (·.reg)).Nodup
  integer : ∀ b ∈ host.statics, Slot.isInteger b.slot = true ∧ b.slot < Slot.count
  gpr : ∀ b ∈ host.statics, b.reg < host.gprs
  apart : ∀ b ∈ host.statics, ∀ bank, b.reg ∉ host.order bank true

theorem Bank.mem_all (bank : Bank) : bank ∈ [Bank.gpr, .fpr] := by
  cases bank <;> decide

instance Host.decidableSane (host : Host) : Decidable host.Sane :=
  decidable_of_iff
    ((∀ bank ∈ [Bank.gpr, .fpr], ∀ useStatics, ∀ r ∈ host.order bank useStatics,
        r < host.count ∧ host.bankOf r = bank)
      ∧ (host.statics.map (·.slot)).Nodup ∧ (host.statics.map (·.reg)).Nodup
      ∧ (∀ b ∈ host.statics, Slot.isInteger b.slot = true ∧ b.slot < Slot.count)
      ∧ (∀ b ∈ host.statics, b.reg < host.gprs)
      ∧ ∀ b ∈ host.statics, ∀ bank ∈ [Bank.gpr, .fpr], b.reg ∉ host.order bank true)
    ⟨fun ⟨horder, hslots, hregs, hinteger, hgpr, hapart⟩ =>
        ⟨fun bank => horder bank bank.mem_all, hslots, hregs, hinteger, hgpr,
          fun b hb bank => hapart b hb bank bank.mem_all⟩,
      fun h => ⟨fun bank _ => h.order bank, h.slots, h.regs, h.integer, h.gpr,
        fun b hb bank _ => h.apart b hb bank⟩⟩

/-- The slots that a holding has lanes for. -/
def Holding.Spans (h : Holding) (s : Slot) : Prop := h.first ≤ s ∧ s < h.first + h.width

theorem Holding.spans_scalar {h : Holding} (hg : h.isGroup = false) (s : Slot) :
    h.Spans s ↔ s = h.first := by
  unfold Spans width
  rw [hg]
  unfold Slot
  simp only [Bool.false_eq_true, if_false]
  omega

/-- A slot lives in a register where the holding says, and as a pointer if the holding says so. -/
structure Placed (e : Engine) (s : Slot) (r : HostReg) (h : Holding) : Prop where
  first : h.first + (e.residence s).lane = s
  lane : (e.residence s).lane < h.width
  pointer : h.pointer = true ↔ e.residence s = .pointer r

/-- A holding is of a kind that a register of this class can have. -/
structure Suits (host : Host) (r : HostReg) (h : Holding) : Prop where
  gpr : host.bankOf r = .gpr → h.isGroup = false ∧ Slot.isInteger h.first = true
  fpr : host.bankOf r = .fpr → Slot.floatBase ≤ h.first ∧ h.first + h.width ≤ Slot.floatEnd

/-- The two tables of the engine agree. -/
structure Tables (e : Engine) : Prop where
  sane : e.host.Sane
  size : e.hosts.size = e.host.count
  placed : ∀ s r, (e.residence s).reg? = some r → ∃ h, e.holding r = some h ∧ Placed e s r h
  float : ∀ s, Slot.isInteger s = false →
    e.residence s = .guest ∨ ∃ r k, e.residence s = .host r k
  suits : ∀ r h, e.holding r = some h → Suits e.host r h
  occupied : ∀ r h, e.holding r = some h → ∃ s, (e.residence s).reg? = some r
  bound : ∀ s, (e.slotAt s).isStatic = true →
    e.policy.useStatics = true ∧ ∃ b ∈ e.host.statics, b.slot = s ∧
      (e.residence s).reg? = some b.reg

theorem Slot.isInteger_eq_false {s : Slot} :
    Slot.isInteger s = false ↔ Slot.floatBase ≤ s ∧ s < Slot.floatEnd := by
  unfold Slot.isInteger
  simp only [Bool.or_eq_false_iff, decide_eq_false_iff_not]
  unfold Slot at *
  omega

theorem Placed.spans {e : Engine} {s : Slot} {r : HostReg} {h : Holding} (hp : Placed e s r h) :
    h.Spans s := by
  have hfirst := hp.first
  have hlane := hp.lane
  unfold Holding.Spans
  unfold Slot at *
  omega

/-- The distance of a slot from the first slot is its lane. -/
theorem Placed.lane_eq {e : Engine} {s : Slot} {r : HostReg} {h : Holding} (hp : Placed e s r h) :
    (e.residence s).lane = s - h.first := by
  have hfirst := hp.first
  unfold Slot at *
  omega

namespace Tables

variable {e : Engine} {s t : Slot} {r : HostReg} {h : Holding}

/-- The holding of the register that a slot lives in. -/
theorem placed_of (ht : Tables e) (hs : (e.residence s).reg? = some r)
    (hr : e.holding r = some h) : Placed e s r h := by
  obtain ⟨h', hr', hp⟩ := ht.placed s r hs
  rw [hr] at hr'
  cases hr'
  exact hp

theorem lt_count (hs : (e.residence s).reg? = some r) : s < Slot.count := by
  refine e.lt_count_of_residence fun hguest => ?_
  rw [hguest] at hs
  exact nomatch hs

/-- A register that is not a group holds one slot only. -/
theorem eq_first (ht : Tables e) (hs : (e.residence s).reg? = some r)
    (hr : e.holding r = some h) (hg : h.isGroup = false) : s = h.first :=
  (Holding.spans_scalar hg s).mp (ht.placed_of hs hr).spans

/-- A slot and the register it lives in are of the same class. -/
theorem bankOf_eq (ht : Tables e) (hs : (e.residence s).reg? = some r) :
    e.host.bankOf r = .gpr ↔ Slot.isInteger s = true := by
  obtain ⟨h, hr, hp⟩ := ht.placed s r hs
  obtain ⟨hgpr, hfpr⟩ := ht.suits r h hr
  have hspan := hp.spans
  cases hbank : e.host.bankOf r with
  | gpr =>
    obtain ⟨hg, hint⟩ := hgpr hbank
    rw [(Holding.spans_scalar hg s).mp hspan]
    exact ⟨fun _ => hint, fun _ => rfl⟩
  | fpr =>
    obtain ⟨hlo, hhi⟩ := hfpr hbank
    have hs : Slot.isInteger s = false := by
      refine Slot.isInteger_eq_false.mpr ?_
      unfold Holding.Spans at hspan
      unfold Slot at *
      omega
    rw [hs]
    exact ⟨(fun h => nomatch h), fun h => nomatch h⟩

/-- A float slot that lives in a register lives in a lane of it. -/
theorem residence_float (ht : Tables e) (hs : (e.residence s).reg? = some r)
    (hfloat : Slot.isInteger s = false) : e.residence s = .host r (e.residence s).lane := by
  obtain hguest | ⟨r', k, hhost⟩ := ht.float s hfloat
  · rw [hguest] at hs
    exact nomatch hs
  · rw [hhost] at hs ⊢
    cases hs
    rfl

theorem bankOf_float (ht : Tables e) (hs : (e.residence s).reg? = some r)
    (hfloat : Slot.isInteger s = false) : e.host.bankOf r = .fpr := by
  cases hbank : e.host.bankOf r with
  | fpr => rfl
  | gpr =>
    rw [(ht.bankOf_eq hs).mp hbank] at hfloat
    exact nomatch hfloat

/-- A float register is no pointer. -/
theorem pointer_fpr (ht : Tables e) (hr : e.holding r = some h) (hbank : e.host.bankOf r = .fpr) :
    h.pointer = false := by
  obtain ⟨s, hs⟩ := ht.occupied r h hr
  have hfloat : Slot.isInteger s = false := by
    refine Bool.eq_false_iff.mpr fun hint => ?_
    rw [(ht.bankOf_eq hs).mpr hint] at hbank
    exact nomatch hbank
  refine Bool.eq_false_iff.mpr fun hp => ?_
  rw [(ht.placed_of hs hr).pointer, ht.residence_float hs hfloat] at hp
  exact nomatch hp

/-- A register whose first slot is an integer slot is that slot's own. -/
theorem reg_first (ht : Tables e) (hr : e.holding r = some h)
    (hint : Slot.isInteger h.first = true) : (e.residence h.first).reg? = some r := by
  -- a float register has only float slots in it
  have hscalar : h.isGroup = false := by
    cases hbank : e.host.bankOf r with
    | gpr => exact ((ht.suits r h hr).gpr hbank).1
    | fpr =>
      obtain ⟨hlo, hhi⟩ := (ht.suits r h hr).fpr hbank
      have hpos : 1 ≤ h.width := by
        unfold Holding.width
        split <;> decide
      have hfloat : Slot.isInteger h.first = false := by
        refine Slot.isInteger_eq_false.mpr ?_
        unfold Slot at *
        omega
      rw [hint] at hfloat
      exact nomatch hfloat
  obtain ⟨s, hs⟩ := ht.occupied r h hr
  rw [← ht.eq_first hs hr hscalar]
  exact hs

/-- A bound slot is an integer slot. -/
theorem isInteger_of_isStatic (ht : Tables e) (hs : (e.slotAt s).isStatic = true) :
    Slot.isInteger s = true := by
  obtain ⟨-, b, hb, rfl, -⟩ := ht.bound s hs
  exact (ht.sane.integer b hb).1

/-- A bound slot is alone in its register. -/
theorem eq_of_isStatic (ht : Tables e) (hs : (e.residence s).reg? = some r)
    (hr : (e.residence t).reg? = some r) (hstatic : (e.slotAt t).isStatic = true) : s = t := by
  obtain ⟨h, hh, -⟩ := ht.placed t r hr
  have hbank := (ht.bankOf_eq hr).mpr (ht.isInteger_of_isStatic hstatic)
  obtain ⟨hg, -⟩ := (ht.suits r h hh).gpr hbank
  rw [ht.eq_first hs hh hg, ht.eq_first hr hh hg]

/-- The slots listed for a register are those that live in it. -/
theorem mem_residents (ht : Tables e) (k : Nat) :
    (s, k) ∈ e.residents r ↔ (e.residence s).reg? = some r ∧ (e.residence s).lane = k := by
  cases hr : e.holding r with
  | none =>
    unfold Engine.residents
    rw [hr]
    refine ⟨(fun h => nomatch h), fun ⟨hs, _⟩ => ?_⟩
    obtain ⟨h, hr', -⟩ := ht.placed s r hs
    rw [hr] at hr'
    exact nomatch hr'
  | some h =>
    rw [Engine.residents_eq hr]
    simp only [List.mem_filter, List.mem_map, List.mem_range, decide_eq_true_eq]
    constructor
    · rintro ⟨⟨lane, -, heq⟩, hs⟩
      cases heq
      refine ⟨hs, ?_⟩
      have hfirst := (ht.placed_of hs hr).first
      unfold Slot at *
      omega
    · rintro ⟨hs, rfl⟩
      have hp := ht.placed_of hs hr
      exact ⟨⟨_, hp.lane, Prod.ext hp.first rfl⟩, hs⟩

theorem mem_residents_fst (ht : Tables e) :
    s ∈ (e.residents r).map (·.1) ↔ (e.residence s).reg? = some r := by
  constructor
  · intro hs
    obtain ⟨⟨_, k⟩, hmem, rfl⟩ := List.mem_map.mp hs
    exact ((ht.mem_residents k).mp hmem).1
  · intro hs
    exact List.mem_map.mpr ⟨(s, _), (ht.mem_residents _).mpr ⟨hs, rfl⟩, rfl⟩

end Tables

/-- A slot that lives in a host register is not said to be elsewhere. -/
theorem isElsewhere_of_reg? {x : Residence} {r : HostReg} (h : x.reg? = some r) :
    Engine.isElsewhere x = false := by
  cases x with
  | guest => cases h
  | value w => cases h
  | host r lane => rfl
  | hostValue r w => rfl
  | pointer r => rfl

/-- The check of the tables finds nothing wrong. -/
theorem Tables.check_eq {e : Engine} (ht : Tables e) : e.check = .ok () := by
  have hslots : (List.range Slot.count).findSome? e.slotFault = none := by
    rw [List.findSome?_eq_none_iff]
    intro s _
    unfold Engine.slotFault
    split
    · rfl
    · rename_i r hr
      obtain ⟨h, hh, hp⟩ := ht.placed s r hr
      simp only [hh, hp.first, isElsewhere_of_reg? hr, ne_eq, not_true_eq_false, ite_false,
        Bool.false_eq_true]
  have hregs : (List.range e.hosts.size).findSome? e.regFault = none := by
    rw [List.findSome?_eq_none_iff]
    intro r _
    unfold Engine.regFault
    split
    · rfl
    · rename_i h hh
      obtain ⟨s, hs⟩ := ht.occupied r h hh
      refine if_neg fun hempty => ?_
      have hmem := (ht.mem_residents (e.residence s).lane).mpr ⟨hs, rfl⟩
      rw [List.isEmpty_iff.mp hempty] at hmem
      exact nomatch hmem
  unfold Engine.check
  rw [hslots, hregs]

theorem Tables.of_alike {e e' : Engine} (ht : Tables e) (h : e.Alike e') : Tables e' := by
  refine ⟨?sane, ?size, ?placed, ?float, ?suits, ?occupied, ?bound⟩
  case sane =>
    rw [h.host]
    exact ht.sane
  case size =>
    rw [h.size, h.host]
    exact ht.size
  case placed =>
    intro s r hs
    rw [h.residence] at hs
    obtain ⟨h', hr, hp⟩ := ht.placed s r hs
    refine ⟨h', (h.holding r).trans hr, ?_, ?_, ?_⟩ <;> rw [h.residence]
    · exact hp.first
    · exact hp.lane
    · exact hp.pointer
  case float =>
    intro s hs
    rw [h.residence]
    exact ht.float s hs
  case suits =>
    intro r h' hr
    rw [h.holding] at hr
    rw [h.host]
    exact ht.suits r h' hr
  case occupied =>
    intro r h' hr
    rw [h.holding] at hr
    obtain ⟨s, hs⟩ := ht.occupied r h' hr
    exact ⟨s, by rw [h.residence, hs]⟩
  case bound =>
    intro s hs
    rw [h.isStatic] at hs
    rw [h.policy, h.host, h.residence]
    exact ht.bound s hs

/-! ## Slots leave their registers -/

/-- The slots of a set have left their registers, and exactly the registers left without slots have
become free. -/
structure Vacated (S : Set Slot) (e e' : Engine) : Prop extends e.Kin e' where
  gone : ∀ s ∈ S, e'.residence s = .guest
  kept : ∀ s, s ∉ S → e'.residence s = e.residence s
  holding : ∀ r h, e'.holding r = some h → e.holding r = some h
  emptied : ∀ r, e'.holding r = none → ∀ s, (e.residence s).reg? = some r → s ∈ S
  occupied : ∀ r h, e'.holding r = some h → ∃ s, s ∉ S ∧ (e.residence s).reg? = some r

namespace Vacated

variable {S S' : Set Slot} {e e' e'' : Engine}

theorem refl (ht : Tables e) : Vacated ∅ e e := by
  refine ⟨Engine.Kin.refl e, (fun _ h => nomatch h), fun _ _ => rfl, fun _ _ h => h, ?_, ?_⟩
  · intro r hr s hs
    obtain ⟨h, hr', -⟩ := ht.placed s r hs
    rw [hr] at hr'
    exact nomatch hr'
  · intro r h hr
    obtain ⟨s, hs⟩ := ht.occupied r h hr
    exact ⟨s, (fun h => nomatch h), hs⟩

theorem trans (h : Vacated S e e') (h' : Vacated S' e' e'') : Vacated (S ∪ S') e e'' := by
  refine ⟨h.toKin.trans h'.toKin, ?gone, ?kept, ?holding, ?emptied, ?occupied⟩
  case gone =>
    intro s hs
    by_cases hs' : s ∈ S'
    · exact h'.gone s hs'
    · rw [h'.kept s hs']
      exact h.gone s (hs.resolve_right hs')
  case kept =>
    intro s hs
    rw [h'.kept s fun hs' => hs (Or.inr hs'), h.kept s fun hs' => hs (Or.inl hs')]
  case holding =>
    exact fun r g hr => h.holding r g (h'.holding r g hr)
  case emptied =>
    intro r hr s hs
    by_cases hS : s ∈ S
    · exact Or.inl hS
    · exact Or.inr (h'.emptied r hr s (by rw [h.kept s hS, hs]))
  case occupied =>
    intro r g hr
    obtain ⟨s, hs', hs⟩ := h'.occupied r g hr
    by_cases hS : s ∈ S
    · rw [h.gone s hS] at hs
      exact nomatch hs
    · rw [h.kept s hS] at hs
      exact ⟨s, fun hu => hu.elim hS hs', hs⟩

theorem not_mem_of_reg (h : Vacated S e e') {s : Slot} {r : HostReg}
    (hs : (e'.residence s).reg? = some r) : s ∉ S := by
  intro hS
  rw [h.gone s hS] at hs
  exact nomatch hs

end Vacated

/-- Slots that are not bound may leave their registers. -/
theorem Tables.vacate {S : Set Slot} {e e' : Engine} (ht : Tables e) (hv : Vacated S e e')
    (hstatic : ∀ s ∈ S, (e.slotAt s).isStatic = false) : Tables e' := by
  refine ⟨?sane, ?size, ?placed, ?float, ?suits, ?occupied, ?bound⟩
  case sane =>
    rw [hv.host]
    exact ht.sane
  case size =>
    rw [hv.size, hv.host]
    exact ht.size
  case placed =>
    intro s r hs
    have hS := hv.not_mem_of_reg hs
    have hkept := hv.kept s hS
    rw [hkept] at hs
    obtain ⟨h, hr, hp⟩ := ht.placed s r hs
    refine ⟨h, ?_, ?_, ?_, ?_⟩
    · -- the slot still lives there, so its register has not become free
      cases hr' : e'.holding r with
      | none => exact absurd (hv.emptied r hr' s hs) hS
      | some h' => rw [← hr, hv.holding r h' hr']
    · rw [hkept]
      exact hp.first
    · rw [hkept]
      exact hp.lane
    · rw [hkept]
      exact hp.pointer
  case float =>
    intro s hs
    by_cases hS : s ∈ S
    · exact Or.inl (hv.gone s hS)
    · rw [hv.kept s hS]
      exact ht.float s hs
  case suits =>
    intro r h hr
    rw [hv.host]
    exact ht.suits r h (hv.holding r h hr)
  case occupied =>
    intro r h hr
    obtain ⟨s, hS, hs⟩ := hv.occupied r h hr
    exact ⟨s, by rw [hv.kept s hS, hs]⟩
  case bound =>
    intro s hs
    rw [hv.isStatic] at hs
    have hS : s ∉ S := fun hS => by rw [hstatic s hS] at hs; exact nomatch hs
    rw [hv.policy, hv.host, hv.kept s hS]
    exact ht.bound s hs

/-- The list of a register is empty when nothing lives there. -/
theorem Engine.residents_isEmpty {e : Engine} {r : HostReg} {h : Holding}
    (hr : e.holding r = some h) (hspan : ∀ s, (e.residence s).reg? = some r → h.Spans s) :
    (e.residents r).isEmpty = true ↔ ∀ s, (e.residence s).reg? ≠ some r := by
  rw [residents_eq hr]
  simp only [List.isEmpty_iff, List.filter_eq_nil_iff, List.mem_map, List.mem_range,
    decide_eq_true_eq]
  constructor
  · intro hnone s hs
    -- a slot that lives there is in a lane, and the list goes over all lanes
    obtain ⟨hlo, hhi⟩ := hspan s hs
    have heq : h.first + (s - h.first) = s := by
      unfold Slot at *
      omega
    refine hnone (h.first + (s - h.first), s - h.first) ⟨s - h.first, ?_, rfl⟩ ?_
    · unfold Slot at *
      omega
    · rw [heq, hs]
  · rintro hnone _ ⟨lane, -, rfl⟩
    exact hnone (h.first + lane)

/-- Slots of one register leave it: it becomes free, or some other slot still lives there. -/
theorem vacated_of_register {S : Set Slot} {e e' : Engine} (r : HostReg) (ht : Tables e)
    (hkin : e.Kin e') (hgone : ∀ s ∈ S, e'.residence s = .guest)
    (hkept : ∀ s, s ∉ S → e'.residence s = e.residence s)
    (hS : ∀ s ∈ S, ∀ q, (e.residence s).reg? = some q → q = r)
    (hother : ∀ q, q ≠ r → e'.holding q = e.holding q)
    (hr : (e'.holding r = none ∧ ∀ s, (e.residence s).reg? = some r → s ∈ S)
      ∨ (e'.holding r = e.holding r
        ∧ ∀ h, e.holding r = some h → ∃ s, s ∉ S ∧ (e.residence s).reg? = some r)) :
    Vacated S e e' := by
  refine ⟨hkin, hgone, hkept, ?holding, ?emptied, ?occupied⟩
  case holding =>
    intro q h hq
    by_cases hqr : q = r
    · subst hqr
      obtain ⟨hnone, -⟩ | ⟨hsame, -⟩ := hr
      · rw [hnone] at hq
        exact nomatch hq
      · rw [← hsame, hq]
    · rw [← hother q hqr, hq]
  case emptied =>
    intro q hq s hs
    obtain ⟨h, hh, -⟩ := ht.placed s q hs
    by_cases hqr : q = r
    · subst hqr
      obtain ⟨-, hall⟩ | ⟨hsame, -⟩ := hr
      · exact hall s hs
      · rw [← hsame, hq] at hh
        exact nomatch hh
    · rw [← hother q hqr, hq] at hh
      exact nomatch hh
  case occupied =>
    intro q h hq
    by_cases hqr : q = r
    · subst hqr
      obtain ⟨hnone, -⟩ | ⟨hsame, hex⟩ := hr
      · rw [hnone] at hq
        exact nomatch hq
      · exact hex h (by rw [← hsame, hq])
    · obtain ⟨s, hs⟩ := ht.occupied q h (by rw [← hother q hqr, hq])
      exact ⟨s, fun hmem => hqr (hS s hmem q hs), hs⟩

theorem Engine.residence_clear_self (e : Engine) (s : Slot) : (e.clear s).residence s = .guest := by
  rw [residence_clear, if_pos rfl]

theorem Engine.residence_clear_of_ne (e : Engine) {s t : Slot} (h : t ≠ s) :
    (e.clear s).residence t = e.residence t := by
  rw [residence_clear, if_neg h]

/-- A slot leaves its register, which others still live in. -/
theorem vacated_clear {e : Engine} {s t : Slot} {r : HostReg} (ht : Tables e)
    (hs : (e.residence s).reg? = some r) (hne : t ≠ s) (hother : (e.residence t).reg? = some r) :
    Vacated {s} e (e.clear s) := by
  refine vacated_of_register r ht (e.silent_setResidence s _).toKin ?_ ?_ ?_ (fun _ _ => rfl)
    (Or.inr ⟨rfl, fun _ _ => ⟨t, hne, hother⟩⟩)
  · rintro _ rfl
    exact e.residence_clear_self _
  · exact fun u hu => e.residence_clear_of_ne hu
  · rintro _ rfl q hq
    rw [hs] at hq
    exact (Option.some.inj hq).symm

/-- A slot that lives in no register goes to guest storage. -/
theorem vacated_clear_of_none {e : Engine} {s : Slot} (ht : Tables e)
    (hs : (e.residence s).reg? = none) : Vacated {s} e (e.clear s) := by
  refine vacated_of_register 0 ht (e.silent_setResidence s _).toKin ?_ ?_ ?_ (fun _ _ => rfl)
    (Or.inr ⟨rfl, fun h hh => ?_⟩)
  · rintro _ rfl
    exact e.residence_clear_self _
  · exact fun u hu => e.residence_clear_of_ne hu
  · rintro _ rfl q hq
    rw [hs] at hq
    exact nomatch hq
  · obtain ⟨t, ht'⟩ := ht.occupied 0 h hh
    refine ⟨t, ?_, ht'⟩
    rintro rfl
    rw [hs] at ht'
    exact nomatch ht'

/-- A slot leaves its register, which becomes free if the slot was the last one. -/
theorem vacated_detach {e : Engine} {s : Slot} {r : HostReg} (ht : Tables e)
    (hs : (e.residence s).reg? = some r) : Vacated {s} e (e.detach s) := by
  obtain ⟨h, hr, -⟩ := ht.placed s r hs
  have hkin := (e.silent_detach s).toKin
  have hS : ∀ t ∈ ({s} : Set Slot), ∀ q, (e.residence t).reg? = some q → q = r := by
    rintro _ rfl q hq
    rw [hs] at hq
    exact (Option.some.inj hq).symm
  have hreg : ∀ t, ((e.clear s).residence t).reg? = some r →
      t ≠ s ∧ (e.residence t).reg? = some r := by
    intro t ht'
    by_cases hts : t = s
    · rw [hts, e.residence_clear_self] at ht'
      exact nomatch ht'
    · rw [e.residence_clear_of_ne hts] at ht'
      exact ⟨hts, ht'⟩
  -- the list is looked at after the slot has been cleared
  have hempty := Engine.residents_isEmpty (e := e.clear s) hr
    fun t ht' => (ht.placed_of (hreg t ht').2 hr).spans
  unfold Engine.detach at hkin ⊢
  rw [hs] at hkin ⊢
  simp only at hkin ⊢
  by_cases hlist : ((e.clear s).residents r).isEmpty = true
  · rw [if_pos hlist] at hkin ⊢
    rw [hempty] at hlist
    refine vacated_of_register r ht hkin ?_ ?_ hS ?_ (Or.inl ⟨?_, fun t ht' => ?_⟩)
    · rintro _ rfl
      exact e.residence_clear_self _
    · exact fun u hu => e.residence_clear_of_ne hu
    · intro q hq
      rw [Engine.holding_free, if_neg hq]
      rfl
    · rw [Engine.holding_free, if_pos rfl]
    · refine Classical.byContradiction fun hts => hlist t ?_
      rw [e.residence_clear_of_ne hts, ht']
  · rw [if_neg hlist]
    rw [hempty] at hlist
    obtain ⟨t, ht'⟩ := Classical.not_forall.mp hlist
    obtain ⟨hts, ht'⟩ := hreg t (Classical.not_not.mp ht')
    exact vacated_clear ht hs hts ht'

/-- All slots leave a register. -/
theorem vacated_release {e : Engine} (r : HostReg) (ht : Tables e) :
    Vacated {s | (e.residence s).reg? = some r} e ((e.clearAll (e.residents r)).free r) := by
  refine vacated_of_register r ht
    ((e.silent_clearAll _).trans (Engine.silent_setHolding _ r none)).toKin ?_ ?_ ?_ ?_
    (Or.inl ⟨?_, fun _ hs => hs⟩)
  · intro s hs
    have hs : s ∈ (e.residents r).map (·.1) := ht.mem_residents_fst.mpr hs
    exact (e.residence_clearAll s _).trans (if_pos hs)
  · intro s hs
    have hs : s ∉ (e.residents r).map (·.1) := fun h => hs (ht.mem_residents_fst.mp h)
    exact (e.residence_clearAll s _).trans (if_neg hs)
  · intro s hs q hq
    rw [show (e.residence s).reg? = some r from hs] at hq
    exact (Option.some.inj hq).symm
  · intro q hq
    rw [Engine.holding_free, if_neg hq, Engine.holding_clearAll]
  · rw [Engine.holding_free, if_pos rfl]

/-- The slots of a list of lanes that live in another register than `r`. -/
def Engine.elsewhere (e : Engine) (first : Slot) (r : HostReg) (lanes : List Nat) : Set Slot :=
  {s | ∃ k ∈ lanes, s = first + k ∧ ∃ q, q ≠ r ∧ (e.residence s).reg? = some q}

/-- The slot of one lane of a group leaves its register, unless that is `r`. -/
def Engine.gatherLane (e : Engine) (first : Slot) (r : HostReg) (k : Nat) : Engine :=
  match (e.residence (first + k)).reg? with
  | some old => if old = r then e else e.detach (first + k)
  | none => e

theorem Engine.gather_eq (e : Engine) (first : Slot) (r : HostReg) :
    e.gather first r = (List.range 4).foldl (fun e k => e.gatherLane first r k) e :=
  rfl

theorem vacated_gatherLane {e : Engine} (first : Slot) (r : HostReg) (k : Nat) (ht : Tables e) :
    Vacated (e.elsewhere first r [k]) e (e.gatherLane first r k) := by
  unfold Engine.gatherLane
  have hmem : ∀ s, s ∈ e.elsewhere first r [k]
      ↔ s = first + k ∧ ∃ q, q ≠ r ∧ (e.residence s).reg? = some q := by
    intro s
    unfold Engine.elsewhere
    simp only [List.mem_singleton, exists_eq_left, Set.mem_ofPred_eq]
  cases hk : (e.residence (first + k)).reg? with
  | none =>
    have hnone : e.elsewhere first r [k] = ∅ := by
      rw [Set.eq_empty_iff_forall_notMem]
      intro s hs
      obtain ⟨rfl, q, -, hq⟩ := (hmem s).mp hs
      rw [hk] at hq
      exact nomatch hq
    rw [hnone]
    exact Vacated.refl ht
  | some old =>
    by_cases hold : old = r
    · have hnone : e.elsewhere first r [k] = ∅ := by
        rw [Set.eq_empty_iff_forall_notMem]
        intro s hs
        obtain ⟨rfl, q, hne, hq⟩ := (hmem s).mp hs
        rw [hk] at hq
        exact hne ((Option.some.inj hq).symm.trans hold)
      simp only [if_pos hold, hnone]
      exact Vacated.refl ht
    · have hone : e.elsewhere first r [k] = {first + k} := by
        ext s
        rw [hmem]
        exact ⟨fun h => h.1, fun (h : s = first + k) => ⟨h, old, hold, by rw [h, hk]⟩⟩
      simp only [if_neg hold, hone]
      exact vacated_detach ht hk

/-- The slots of a group leave the registers other than `r`. -/
theorem vacated_gather {e : Engine} (first : Slot) (r : HostReg) (ht : Tables e)
    (hfree : ∀ k < 4, (e.slotAt (first + k)).isStatic = false) :
    Vacated (e.elsewhere first r (List.range 4)) e (e.gather first r) := by
  rw [Engine.gather_eq]
  have hlanes : ∀ k ∈ List.range 4, (e.slotAt (first + k)).isStatic = false :=
    fun k hk => hfree k (List.mem_range.mp hk)
  generalize List.range 4 = lanes at hlanes
  clear hfree
  induction lanes generalizing e with
  | nil =>
    have hnone : e.elsewhere first r [] = ∅ := by
      rw [Set.eq_empty_iff_forall_notMem]
      exact fun s ⟨_, hk, _⟩ => nomatch hk
    rw [hnone]
    exact Vacated.refl ht
  | cons k lanes ih =>
    have hv := vacated_gatherLane first r k ht
    have hstatic : ∀ s ∈ e.elsewhere first r [k], (e.slotAt s).isStatic = false := by
      rintro _ ⟨j, hj, rfl, -⟩
      rw [List.mem_singleton.mp hj]
      exact hlanes k List.mem_cons_self
    have hrest := ih (ht.vacate hv hstatic) fun j hj => by
      rw [hv.isStatic]
      exact hlanes j (List.mem_cons_of_mem k hj)
    -- what the rest of the walk finds elsewhere was there before
    have hunion : e.elsewhere first r [k] ∪ (e.gatherLane first r k).elsewhere first r lanes
        = e.elsewhere first r (k :: lanes) := by
      ext s
      constructor
      · rintro (⟨j, hj, hs⟩ | ⟨j, hj, rfl, q, hne, hq⟩)
        · exact ⟨j, List.mem_singleton.mp hj ▸ List.mem_cons_self, hs⟩
        · rw [hv.kept _ (hv.not_mem_of_reg hq)] at hq
          exact ⟨j, List.mem_cons_of_mem k hj, rfl, q, hne, hq⟩
      · rintro ⟨j, hj, rfl, q, hne, hq⟩
        by_cases hS : first + j ∈ e.elsewhere first r [k]
        · exact Or.inl hS
        · obtain rfl | hj := List.mem_cons.mp hj
          · exact absurd ⟨j, List.mem_singleton_self j, rfl, q, hne, hq⟩ hS
          · exact Or.inr ⟨j, hj, rfl, q, hne, by rw [hv.kept _ hS, hq]⟩
    rw [← hunion]
    exact hv.trans hrest

/-! ## A register takes up slots -/

/-- Register `r` holds `h` now and all slots of `h` live there; before, they lived there or in no
register, and nothing else lived there. -/
structure Bound (r : HostReg) (h : Holding) (e e' : Engine) : Prop extends e.Kin e' where
  here : e'.holding r = some h
  other : ∀ q, q ≠ r → e'.holding q = e.holding q
  kept : ∀ s, ¬ h.Spans s → e'.residence s = e.residence s
  reg : ∀ s, h.Spans s → (e'.residence s).reg? = some r
  placed : ∀ s, h.Spans s → Placed e' s r h
  float : ∀ s, h.Spans s → Slot.isInteger s = false → ∃ k, e'.residence s = .host r k
  room : ∀ s, (e.residence s).reg? = some r → h.Spans s
  before : ∀ s, h.Spans s → ∀ q, (e.residence s).reg? = some q → q = r
  suits : Suits e.host r h

/-- A register may take up slots. -/
theorem Tables.bind {r : HostReg} {h : Holding} {e e' : Engine} (ht : Tables e)
    (hb : Bound r h e e') : Tables e' := by
  have hfirst : h.Spans h.first := by
    unfold Holding.Spans Holding.width
    unfold Slot
    split <;> omega
  refine ⟨?sane, ?size, ?placed, ?float, ?suits, ?occupied, ?bound⟩
  case sane =>
    rw [hb.host]
    exact ht.sane
  case size =>
    rw [hb.size, hb.host]
    exact ht.size
  case placed =>
    intro s q hs
    by_cases hspan : h.Spans s
    · have hq : q = r := Option.some.inj (hs.symm.trans (hb.reg s hspan))
      subst hq
      exact ⟨h, hb.here, hb.placed s hspan⟩
    · have hkept := hb.kept s hspan
      rw [hkept] at hs
      obtain ⟨g, hq, hp⟩ := ht.placed s q hs
      -- what lived in `r` before belongs to the holding
      have hne : q ≠ r := fun hqr => hspan (hb.room s (hqr ▸ hs))
      refine ⟨g, (hb.other q hne).trans hq, ?_, ?_, ?_⟩ <;> rw [hkept]
      · exact hp.first
      · exact hp.lane
      · exact hp.pointer
  case float =>
    intro s hs
    by_cases hspan : h.Spans s
    · obtain ⟨k, hk⟩ := hb.float s hspan hs
      exact Or.inr ⟨r, k, hk⟩
    · rw [hb.kept s hspan]
      exact ht.float s hs
  case suits =>
    intro q g hq
    rw [hb.host]
    by_cases hqr : q = r
    · rw [hqr, hb.here] at hq
      cases hq
      rw [hqr]
      exact hb.suits
    · exact ht.suits q g ((hb.other q hqr).symm.trans hq)
  case occupied =>
    intro q g hq
    by_cases hqr : q = r
    · exact ⟨h.first, hqr ▸ hb.reg h.first hfirst⟩
    · obtain ⟨s, hs⟩ := ht.occupied q g ((hb.other q hqr).symm.trans hq)
      -- a slot of the holding lived in no other register
      have hspan : ¬ h.Spans s := fun hspan => hqr (hb.before s hspan q hs)
      exact ⟨s, by rw [hb.kept s hspan, hs]⟩
  case bound =>
    intro s hs
    rw [hb.isStatic] at hs
    obtain ⟨huse, b, hmem, hslot, hreg⟩ := ht.bound s hs
    refine ⟨by rw [hb.policy, huse], b, by rw [hb.host]; exact hmem, hslot, ?_⟩
    by_cases hspan : h.Spans s
    · rw [hb.reg s hspan, hb.before s hspan b.reg hreg]
    · rw [hb.kept s hspan, hreg]

theorem suits_integer {host : Host} {r : HostReg} {h : Holding} (hbank : host.bankOf r = .gpr)
    (hg : h.isGroup = false) (hint : Slot.isInteger h.first = true) : Suits host r h := by
  refine ⟨fun _ => ⟨hg, hint⟩, fun hfpr => ?_⟩
  rw [hbank] at hfpr
  exact nomatch hfpr

theorem suits_float {host : Host} {r : HostReg} {h : Holding} (hbank : host.bankOf r = .fpr)
    (hlo : Slot.floatBase ≤ h.first) (hhi : h.first + h.width ≤ Slot.floatEnd) :
    Suits host r h := by
  refine ⟨fun hgpr => ?_, fun _ => ⟨hlo, hhi⟩⟩
  rw [hbank] at hgpr
  exact nomatch hgpr

/-- Register `r` holds `h` now and slot `s` lives as `v` says; nothing else in the tables has
changed. -/
structure Restated (r : HostReg) (h : Holding) (s : Slot) (v : Residence) (e e' : Engine) : Prop
    extends e.Kin e' where
  held : ∀ q, e'.holding q = if q = r then some h else e.holding q
  lives : ∀ t, e'.residence t = if t = s then v else e.residence t

theorem restated_set {e : Engine} {s : Slot} {r : HostReg} (h : Holding) (v : Residence)
    (hs : s < Slot.count) (hr : r < e.hosts.size) :
    Restated r h s v e ((e.setHolding r (some h)).setResidence s v) :=
  ⟨((e.silent_setHolding r _).trans (Engine.silent_setResidence _ s v)).toKin,
    fun q => e.holding_setHolding q hr _, fun t => Engine.residence_setResidence _ t hs v⟩

theorem restated_modify {e : Engine} {s : Slot} {r : HostReg} {g : Holding}
    (hr : e.holding r = some g) (f : Holding → Holding) :
    Restated r (f g) s (e.residence s) e (e.modifyHolding r f) := by
  rw [e.modifyHolding_eq hr]
  refine ⟨(e.silent_setHolding r _).toKin,
    fun q => e.holding_setHolding q (e.lt_size_of_holding hr) _, fun t => ?_⟩
  by_cases ht : t = s
  · rw [if_pos ht, ht]
    rfl
  · rw [if_neg ht]
    rfl

theorem restated_setResidence {e : Engine} {s : Slot} {r : HostReg} {h : Holding}
    (hr : e.holding r = some h) (hs : s < Slot.count) (v : Residence) :
    Restated r h s v e (e.setResidence s v) := by
  refine ⟨(e.silent_setResidence s v).toKin, fun q => ?_, fun t => e.residence_setResidence t hs v⟩
  by_cases hq : q = r
  · rw [if_pos hq, hq]
    exact hr
  · rw [if_neg hq]
    rfl

namespace Restated

variable {r : HostReg} {h h' : Holding} {s : Slot} {v v' : Residence} {e e' e'' : Engine}

theorem here (hrs : Restated r h s v e e') : e'.holding r = some h := by
  rw [hrs.held, if_pos rfl]

theorem residence (hrs : Restated r h s v e e') : e'.residence s = v := by
  rw [hrs.lives, if_pos rfl]

theorem trans (hrs : Restated r h s v e e') (hrs' : Restated r h' s v' e' e'') :
    Restated r h' s v' e e'' := by
  refine ⟨hrs.toKin.trans hrs'.toKin, fun q => ?_, fun t => ?_⟩
  · rw [hrs'.held, hrs.held]
    split <;> rfl
  · rw [hrs'.lives, hrs.lives]
    split <;> rfl

theorem alike (hrs : Restated r h s v e e') (halike : e'.Alike e'') : Restated r h s v e e'' := by
  refine ⟨hrs.toKin.trans ⟨halike.host, halike.policy, halike.size, halike.isStatic⟩,
    fun q => ?_, fun t => ?_⟩
  · rw [halike.holding, hrs.held]
  · rw [halike.residence, hrs.lives]

theorem alike_left (halike : e.Alike e') (hrs : Restated r h s v e' e'') :
    Restated r h s v e e'' := by
  refine ⟨Engine.Kin.trans ⟨halike.host, halike.policy, halike.size, halike.isStatic⟩ hrs.toKin,
    fun q => ?_, fun t => ?_⟩
  · rw [hrs.held, halike.holding]
  · rw [hrs.lives, halike.residence]

end Restated

/-- A register takes up one slot. -/
theorem bound_scalar {e e' : Engine} {s : Slot} {r : HostReg} {h : Holding} {v : Residence}
    (hrs : Restated r h s v e e') (hfirst : h.first = s)
    (hg : h.isGroup = false) (hv : v.reg? = some r) (hlane : v.lane = 0)
    (hpointer : h.pointer = true ↔ v = .pointer r)
    (hfloat : Slot.isInteger s = false → ∃ k, v = .host r k)
    (hroom : ∀ t, (e.residence t).reg? = some r → t = s)
    (hbefore : ∀ q, (e.residence s).reg? = some q → q = r) (hsuits : Suits e.host r h) :
    Bound r h e e' := by
  have hspan : ∀ t, h.Spans t ↔ t = s := fun t => hfirst ▸ Holding.spans_scalar hg t
  have hres := hrs.residence
  refine ⟨hrs.toKin, hrs.here, ?other, ?kept, ?reg, ?placed, ?float, ?room, ?before, hsuits⟩
  case other =>
    intro q hq
    rw [hrs.held, if_neg hq]
  case kept =>
    intro t ht
    rw [hrs.lives, if_neg ((hspan t).not.mp ht)]
  case reg =>
    intro t ht
    rw [(hspan t).mp ht, hres, hv]
  case placed =>
    intro t ht
    rw [(hspan t).mp ht]
    refine ⟨?_, ?_, ?_⟩ <;> rw [hres]
    · rw [hlane, hfirst]
      rfl
    · rw [hlane]
      unfold Holding.width
      split <;> decide
    · exact hpointer
  case float =>
    intro t ht hint
    rw [(hspan t).mp ht] at hint ⊢
    rw [hres]
    exact hfloat hint
  case room =>
    exact fun t ht => (hspan t).mpr (hroom t ht)
  case before =>
    intro t ht
    rw [(hspan t).mp ht]
    exact hbefore

/-- A group that fits takes up its four slots. -/
theorem bound_group {e : Engine} {first : Slot} {r : HostReg} (dirty : Bool)
    (hlo : Slot.floatBase ≤ first) (hhi : first + 4 ≤ Slot.floatEnd) (hr : r < e.hosts.size)
    (hbank : e.host.bankOf r = .fpr)
    (hroom : ∀ s, (e.residence s).reg? = some r → first ≤ s ∧ s < first + 4)
    (hbefore : ∀ k < 4, ∀ q, (e.residence (first + k)).reg? = some q → q = r) :
    Bound r { first := first, isGroup := true, dirty := dirty } e (e.bindGroup first r dirty) := by
  have hcount : first + 4 ≤ Slot.count := by
    unfold Slot.floatEnd Slot.floatBase Slot.floatCount at hhi
    unfold Slot.count
    unfold Slot at *
    omega
  have hres := fun s => e.residence_bindGroup s r hcount dirty
  have hheld := fun q => e.holding_bindGroup q hr first dirty
  have hspan : ∀ s, Holding.Spans { first := first, isGroup := true, dirty := dirty } s
      ↔ first ≤ s ∧ s < first + 4 := fun s => Iff.rfl
  refine ⟨(e.silent_bindGroup first r dirty).toKin, ?here, ?other, ?kept, ?reg, ?placed, ?float,
    ?room, ?before,
    suits_float hbank hlo hhi⟩
  case here =>
    rw [hheld, if_pos rfl]
  case other =>
    intro q hq
    rw [hheld, if_neg hq]
  case kept =>
    intro s hs
    rw [hres, if_neg ((hspan s).not.mp hs)]
  case reg =>
    intro s hs
    rw [hres, if_pos ((hspan s).mp hs)]
    rfl
  case placed =>
    intro s hs
    obtain ⟨hle, hlt⟩ := (hspan s).mp hs
    refine ⟨?_, ?_, ?_⟩ <;> rw [hres, if_pos ⟨hle, hlt⟩]
    · show first + (s - first) = s
      unfold Slot at *
      omega
    · show s - first < 4
      unfold Slot at *
      omega
    · exact ⟨(fun h => nomatch h), fun h => nomatch h⟩
  case float =>
    intro s hs _
    exact ⟨s - first, by rw [hres, if_pos ((hspan s).mp hs)]⟩
  case room =>
    exact fun s hs => (hspan s).mpr (hroom s hs)
  case before =>
    intro s hs q hq
    obtain ⟨hle, hlt⟩ := (hspan s).mp hs
    have heq : first + (s - first) = s := by
      unfold Slot at *
      omega
    refine hbefore (s - first) ?_ q (by rw [heq, hq])
    unfold Slot at *
    omega

/-! ## A flag changes -/

/-- A change of what a register holds that leaves its slots and the memory base alone. -/
theorem Tables.flag {e : Engine} (r : HostReg) {f : Holding → Holding} (ht : Tables e)
    (hfirst : ∀ h, (f h).first = h.first) (hgroup : ∀ h, (f h).isGroup = h.isGroup)
    (hpointer : ∀ h, (f h).pointer = h.pointer) : Tables (e.modifyHolding r f) := by
  have hwidth : ∀ h, (f h).width = h.width := by
    intro h
    unfold Holding.width
    rw [hgroup]
  have hkin := e.silent_setHolding r ((e.holding r).map f)
  refine ⟨ht.sane, hkin.size.trans ht.size, ?placed, ht.float, ?suits, ?occupied, ht.bound⟩
  case placed =>
    intro s q hs
    obtain ⟨g, hg, hp⟩ := ht.placed s q hs
    rw [e.holding_modifyHolding]
    by_cases hq : q = r
    · subst hq
      refine ⟨f g, by rw [if_pos rfl, hg]; rfl, ?_, ?_, ?_⟩
      · rw [hfirst]
        exact hp.first
      · rw [hwidth]
        exact hp.lane
      · rw [hpointer]
        exact hp.pointer
    · exact ⟨g, by rw [if_neg hq, hg], hp.first, hp.lane, hp.pointer⟩
  case suits =>
    intro q g hg
    obtain ⟨h, hh, ⟨-, rfl⟩ | ⟨-, rfl⟩⟩ := Engine.of_modifyHolding hg
    · exact ht.suits q _ hh
    · have hsuits := ht.suits q h hh
      refine ⟨?_, ?_⟩
      · rw [hgroup, hfirst]
        exact hsuits.gpr
      · rw [hfirst, hwidth]
        exact hsuits.fpr
  case occupied =>
    intro q g hg
    obtain ⟨h, hh, -⟩ := Engine.of_modifyHolding hg
    exact ht.occupied q h hh

end Dynarec.Registers
