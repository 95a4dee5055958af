/-
The tables of the register engine as functions.

A proof about the engine looks at the tables through four readings: where a slot lives, what a
register holds, which slots are bound, and how many registers there are. This file says what each
update does to the readings, and no proof outside it opens an update again. Most updates leave most
of the engine alone, and that is said by three relations: `Kin` for the host, the policy and the
bindings, `Silent` if nothing has been asked for as well, and `Alike` if all readings are the same.
-/
import Dynarec.Registers.Flush
import Dynarec.Proofs.Registers.Storage

set_option autoImplicit false

namespace Dynarec.Registers

/-! ## Readings -/

namespace Engine

section Readings

variable (e : Engine) (s t : Slot) (r q : HostReg)

theorem slotAt_setSlot (v : SlotState) :
    (e.setSlot s v).slotAt t = if t = s ∧ s < Slot.count then v else e.slotAt t := by
  unfold slotAt setSlot Slot.count
  rw [Vector.getElem?_setIfInBounds]
  by_cases hs : s < 256
  · by_cases h : s = t
    · rw [if_pos h, if_pos hs, if_pos ⟨h.symm, hs⟩]
      rfl
    · rw [if_neg h, if_neg fun h' => h h'.1.symm]
  · by_cases h : s = t
    · subst h
      rw [if_pos rfl, if_neg hs, if_neg fun h' => hs h'.2,
        Vector.getElem?_eq_none (Nat.le_of_not_lt hs)]
    · rw [if_neg h, if_neg fun h' => h h'.1.symm]

theorem hostAt_setHost (v : HostState) :
    (e.setHost r v).hostAt q = if q = r ∧ r < e.hosts.size then v else e.hostAt q := by
  unfold hostAt setHost
  rw [Array.getElem?_setIfInBounds]
  by_cases hr : r < e.hosts.size
  · by_cases h : r = q
    · rw [if_pos h, if_pos hr, if_pos ⟨h.symm, hr⟩]
      rfl
    · rw [if_neg h, if_neg fun h' => h h'.1.symm]
  · by_cases h : r = q
    · subst h
      rw [if_pos rfl, if_neg hr, if_neg fun h' => hr h'.2,
        Array.getElem?_eq_none (Nat.le_of_not_lt hr)]
    · rw [if_neg h, if_neg fun h' => h h'.1.symm]

/-- Only the 256 slots can live outside guest storage. -/
theorem lt_count_of_residence {s : Slot} (h : e.residence s ≠ .guest) : s < Slot.count := by
  refine Decidable.byContradiction fun hs => h ?_
  unfold residence slotAt
  have hle : 256 ≤ s := Nat.le_of_not_lt hs
  rw [Vector.getElem?_eq_none hle]
  rfl

/-- Only the registers of the host can hold something. -/
theorem lt_size_of_holding {r : HostReg} {h : Holding} (hr : e.holding r = some h) :
    r < e.hosts.size := by
  refine Decidable.byContradiction fun hlt => ?_
  unfold holding hostAt at hr
  rw [Array.getElem?_eq_none (Nat.le_of_not_lt hlt)] at hr
  exact nomatch hr

theorem residence_setResidence {s : Slot} (hs : s < Slot.count) (v : Residence) :
    (e.setResidence s v).residence t = if t = s then v else e.residence t := by
  unfold residence setResidence
  rw [slotAt_setSlot]
  by_cases h : t = s
  · rw [if_pos ⟨h, hs⟩, if_pos h]
  · rw [if_neg fun h' => h h'.1, if_neg h]

theorem residence_clear : (e.clear s).residence t = if t = s then .guest else e.residence t := by
  unfold clear
  by_cases hs : s < Slot.count
  · exact e.residence_setResidence t hs .guest
  · have hguest : e.residence s = .guest :=
      Decidable.byContradiction fun h => hs (e.lt_count_of_residence h)
    unfold residence setResidence
    rw [slotAt_setSlot, if_neg fun h => hs h.2]
    by_cases h : t = s
    · rw [if_pos h, h]
      exact hguest
    · rw [if_neg h]

theorem holding_setHolding {r : HostReg} (hr : r < e.hosts.size) (h : Option Holding) :
    (e.setHolding r h).holding q = if q = r then h else e.holding q := by
  unfold holding setHolding
  rw [hostAt_setHost]
  by_cases hq : q = r
  · rw [if_pos ⟨hq, hr⟩, if_pos hq]
  · rw [if_neg fun h' => hq h'.1, if_neg hq]

theorem holding_free : (e.free r).holding q = if q = r then none else e.holding q := by
  unfold free
  by_cases hr : r < e.hosts.size
  · exact e.holding_setHolding q hr none
  · have hnone : e.holding r = none := by
      cases hh : e.holding r with
      | none => rfl
      | some h => exact absurd (e.lt_size_of_holding hh) hr
    unfold holding setHolding
    rw [hostAt_setHost, if_neg fun h => hr h.2]
    by_cases hq : q = r
    · rw [if_pos hq, hq]
      exact hnone
    · rw [if_neg hq]

theorem modifyHolding_eq {r : HostReg} {h : Holding} (hr : e.holding r = some h)
    (f : Holding → Holding) : e.modifyHolding r f = e.setHolding r (some (f h)) := by
  unfold modifyHolding
  rw [hr]
  rfl

/-- A register that holds nothing goes on holding nothing. -/
theorem holding_modifyHolding (f : Holding → Holding) :
    (e.modifyHolding r f).holding q = if q = r then (e.holding r).map f else e.holding q := by
  unfold modifyHolding
  cases hr : e.holding r with
  | none => exact e.holding_free r q
  | some h => exact e.holding_setHolding q (e.lt_size_of_holding hr) _

theorem holding_foldl {γ : Type} (f : Engine → γ → Engine)
    (hf : ∀ e a, (f e a).holding q = e.holding q) (as : List γ) :
    (as.foldl f e).holding q = e.holding q := by
  induction as generalizing e with
  | nil => rfl
  | cons a as ih => rw [List.foldl_cons, ih, hf]

/-- The engine with a list of slots in guest storage. -/
def clearAll (slots : List (Slot × Nat)) : Engine := slots.foldl (fun e p => e.clear p.1) e

theorem residence_clearAll (slots : List (Slot × Nat)) :
    (e.clearAll slots).residence t
      = if t ∈ slots.map (·.1) then .guest else e.residence t := by
  unfold clearAll
  induction slots generalizing e with
  | nil => rfl
  | cons p slots ih =>
    rw [List.foldl_cons, ih, residence_clear]
    simp only [List.map_cons, List.mem_cons]
    by_cases ht : t ∈ slots.map (·.1)
    · rw [if_pos ht, if_pos (Or.inr ht)]
    · rw [if_neg ht]
      by_cases hp : t = p.1
      · rw [if_pos hp, if_pos (Or.inl hp)]
      · rw [if_neg hp, if_neg fun h => h.elim hp ht]

theorem holding_clearAll (slots : List (Slot × Nat)) :
    (e.clearAll slots).holding q = e.holding q :=
  e.holding_foldl q (fun e (p : Slot × Nat) => e.clear p.1) (fun _ _ => rfl) slots

/-- All four slots of a group are recorded in their lanes. -/
theorem residence_bindGroup {first : Slot} (hcount : first + 4 ≤ Slot.count) (dirty : Bool) :
    (e.bindGroup first r dirty).residence t
      = if first ≤ t ∧ t < first + 4 then .host r (t - first) else e.residence t := by
  unfold bindGroup Slot.count at *
  have hrange : List.range 4 = [0, 1, 2, 3] := rfl
  rw [hrange]
  simp only [List.foldl_cons, List.foldl_nil]
  unfold Slot at *
  rw [residence_setResidence _ t (show first + 3 < 256 by omega),
    residence_setResidence _ t (show first + 2 < 256 by omega),
    residence_setResidence _ t (show first + 1 < 256 by omega),
    residence_setResidence _ t (show first + 0 < 256 by omega)]
  by_cases h3 : t = first + 3
  · rw [if_pos h3, if_pos (by omega), h3, Nat.add_sub_cancel_left]
  by_cases h2 : t = first + 2
  · rw [if_neg h3, if_pos h2, if_pos (by omega), h2, Nat.add_sub_cancel_left]
  by_cases h1 : t = first + 1
  · rw [if_neg h3, if_neg h2, if_pos h1, if_pos (by omega), h1, Nat.add_sub_cancel_left]
  by_cases h0 : t = first + 0
  · rw [if_neg h3, if_neg h2, if_neg h1, if_pos h0, if_pos (by omega), h0,
      Nat.add_sub_cancel_left]
  rw [if_neg h3, if_neg h2, if_neg h1, if_neg h0, if_neg (by omega)]
  rfl

theorem holding_bindGroup {r : HostReg} (hr : r < e.hosts.size) (first : Slot) (dirty : Bool) :
    (e.bindGroup first r dirty).holding q
      = if q = r then some { first := first, isGroup := true, dirty := dirty }
        else e.holding q := by
  unfold bindGroup
  rw [holding_foldl _ q (fun e k => e.setResidence (first + k) (.host r k)) (fun _ _ => rfl),
    e.holding_setHolding q hr]

end Readings

/-- What a register holds after a change, seen from before it. -/
theorem of_modifyHolding {e : Engine} {r q : HostReg} {f : Holding → Holding} {g : Holding}
    (hg : (e.modifyHolding r f).holding q = some g) :
    ∃ h, e.holding q = some h ∧ (q ≠ r ∧ g = h ∨ q = r ∧ g = f h) := by
  rw [holding_modifyHolding] at hg
  by_cases hq : q = r
  · rw [if_pos hq] at hg
    obtain ⟨h, hh, rfl⟩ := Option.map_eq_some_iff.mp hg
    exact ⟨h, hq ▸ hh, Or.inr ⟨hq, rfl⟩⟩
  · rw [if_neg hq] at hg
    exact ⟨g, hg, Or.inl ⟨hq, rfl⟩⟩

theorem holdsGroup_eq {e : Engine} {r : HostReg} {h : Holding} (hr : e.holding r = some h) :
    e.holdsGroup r = h.isGroup := by
  unfold holdsGroup
  rw [hr]
  rfl

theorem isDirty_eq {e : Engine} {r : HostReg} {h : Holding} (hr : e.holding r = some h) :
    e.isDirty r = h.dirty := by
  unfold isDirty
  rw [hr]
  rfl

/-- The list of a register that holds something. -/
theorem residents_eq {e : Engine} {r : HostReg} {h : Holding} (hr : e.holding r = some h) :
    e.residents r = ((List.range h.width).map fun k => (h.first + k, k)).filter fun p =>
      (e.residence p.1).reg? = some r := by
  unfold residents
  rw [hr]

/-! ## What an update of the tables leaves alone -/

/-- Neither the host nor the policy has changed, nor the number of registers, nor which slots are
bound. -/
structure Kin (e e' : Engine) : Prop where
  host : e'.host = e.host
  policy : e'.policy = e.policy
  size : e'.hosts.size = e.hosts.size
  isStatic : ∀ s, (e'.slotAt s).isStatic = (e.slotAt s).isStatic

theorem Kin.refl (e : Engine) : Kin e e := ⟨rfl, rfl, rfl, fun _ => rfl⟩

theorem Kin.trans {e e' e'' : Engine} (h : Kin e e') (h' : Kin e' e'') : Kin e e'' :=
  ⟨h'.host.trans h.host, h'.policy.trans h.policy, h'.size.trans h.size,
    fun s => (h'.isStatic s).trans (h.isStatic s)⟩

/-- The same, and nothing has been asked for. -/
structure Silent (e e' : Engine) : Prop extends Kin e e' where
  actions : e'.actions = e.actions

theorem Silent.refl (e : Engine) : Silent e e := ⟨Kin.refl e, rfl⟩

theorem Silent.trans {e e' e'' : Engine} (h : Silent e e') (h' : Silent e' e'') : Silent e e'' :=
  ⟨h.toKin.trans h'.toKin, h'.actions.trans h.actions⟩

theorem Silent.foldl {γ : Type} {f : Engine → γ → Engine} (hf : ∀ e a, Silent e (f e a))
    (as : List γ) (e : Engine) : Silent e (as.foldl f e) := by
  induction as generalizing e with
  | nil => exact Silent.refl e
  | cons a as ih => exact (hf e a).trans (ih (f e a))

theorem silent_setSlot (e : Engine) (s : Slot) (v : SlotState)
    (hv : v.isStatic = (e.slotAt s).isStatic) : Silent e (e.setSlot s v) := by
  refine ⟨⟨rfl, rfl, rfl, fun t => ?_⟩, rfl⟩
  rw [slotAt_setSlot]
  by_cases h : t = s ∧ s < Slot.count
  · rw [if_pos h, hv, h.1]
  · rw [if_neg h]

theorem silent_setResidence (e : Engine) (s : Slot) (v : Residence) :
    Silent e (e.setResidence s v) :=
  e.silent_setSlot s _ rfl

theorem silent_clearAll (e : Engine) (slots : List (Slot × Nat)) : Silent e (e.clearAll slots) :=
  Silent.foldl (f := fun e (p : Slot × Nat) => e.clear p.1) (fun e p => e.silent_setResidence p.1 _)
    slots e

theorem silent_lock (e : Engine) (s : Slot) : Silent e (e.lock s) := e.silent_setSlot s _ rfl

theorem silent_setHost (e : Engine) (r : HostReg) (v : HostState) : Silent e (e.setHost r v) :=
  ⟨⟨rfl, rfl, Array.size_setIfInBounds, fun _ => rfl⟩, rfl⟩

theorem silent_setHolding (e : Engine) (r : HostReg) (h : Option Holding) :
    Silent e (e.setHolding r h) :=
  e.silent_setHost r _

theorem silent_detach (e : Engine) (s : Slot) : Silent e (e.detach s) := by
  unfold detach
  split
  · exact Silent.refl e
  · have hclear := e.silent_setResidence s .guest
    simp only
    split
    · exact hclear.trans (silent_setHolding _ _ none)
    · exact hclear

theorem silent_gather (e : Engine) (first : Slot) (r : HostReg) : Silent e (e.gather first r) := by
  unfold gather
  refine Silent.foldl (fun d k => ?_) _ e
  split
  · split
    · exact Silent.refl d
    · exact d.silent_detach _
  · exact Silent.refl d

theorem silent_bindGroup (e : Engine) (first : Slot) (r : HostReg) (dirty : Bool) :
    Silent e (e.bindGroup first r dirty) := by
  have hfold := Silent.foldl (f := fun d k => d.setResidence (first + k) (.host r k))
    (fun d k => d.silent_setResidence _ _) (List.range 4)
  exact (e.silent_setHolding r _).trans (hfold _)

end Engine

/-- An operation that changes the tables and asks for nothing. -/
theorem after_update {base : UInt64} {e : Engine} {x : Storage} {f : Engine → Engine}
    {Q : Unit → Engine → Storage → Prop} (hsilent : e.Silent (f e)) (h : Q () (f e) x) :
    After base (modify f) e x Q :=
  after_modify hsilent.host hsilent.actions h

/-! ## Same readings -/

/-- The tables of two engines read the same. -/
structure Engine.Alike (e e' : Engine) : Prop where
  host : e'.host = e.host
  policy : e'.policy = e.policy
  size : e'.hosts.size = e.hosts.size
  isStatic : ∀ s, (e'.slotAt s).isStatic = (e.slotAt s).isStatic
  residence : ∀ s, e'.residence s = e.residence s
  holding : ∀ r, e'.holding r = e.holding r

theorem Engine.alike_asked (e : Engine) (a : Action) : e.Alike (e.asked a) :=
  ⟨rfl, rfl, rfl, fun _ => rfl, fun _ => rfl, fun _ => rfl⟩

theorem Engine.alike_lock (e : Engine) (s : Slot) : e.Alike (e.lock s) := by
  refine ⟨rfl, rfl, rfl, (e.silent_lock s).isStatic, fun t => ?_, fun _ => rfl⟩
  unfold residence lock
  rw [slotAt_setSlot]
  by_cases h : t = s ∧ s < Slot.count
  · rw [if_pos h, h.1]
  · rw [if_neg h]

theorem Engine.alike_reserve (e : Engine) (r : HostReg) (b : Bool) : e.Alike (e.reserve r b) := by
  refine ⟨rfl, rfl, (e.silent_setHost r _).size, fun _ => rfl, fun _ => rfl, fun q => ?_⟩
  unfold holding reserve
  rw [hostAt_setHost]
  by_cases h : q = r ∧ r < e.hosts.size
  · rw [if_pos h, h.1]
  · rw [if_neg h]

theorem Engine.alike_beginInst (e : Engine) (i : Nat) : e.Alike (e.beginInst i) := by
  have hslot : ∀ s, ((e.beginInst i).slotAt s) = { e.slotAt s with locked := false } := by
    intro s
    unfold beginInst releaseLocks slotAt
    rw [Vector.getElem?_map]
    cases (e.slots[s]?) <;> rfl
  refine ⟨rfl, rfl, Array.size_map, fun s => ?_, fun s => ?_, fun r => ?_⟩
  · rw [hslot]
  · unfold residence
    rw [hslot]
  · unfold holding beginInst releaseLocks hostAt
    rw [Array.getElem?_map]
    cases (e.hosts[r]?) <;> rfl

/-- Moving on twice is moving on once. -/
theorem Engine.beginInst_beginInst (e : Engine) (i k : Nat) :
    (e.beginInst i).beginInst k = e.beginInst k := by
  unfold beginInst releaseLocks
  congr 1
  · exact Vector.map_map
  · exact Array.map_map

/-- Moving on to an instruction, written so that it evaluates well. -/
def movedOn (e : Engine) (k : Nat) : Engine :=
  { e with
    index := k
    slots := ⟨(e.slots.toList.map fun v => { v with locked := false }).toArray, by simp⟩
    hosts := (e.hosts.toList.map fun v => { v with reserved := false }).toArray }

theorem movedOn_eq (e : Engine) (k : Nat) : movedOn e k = e.beginInst k := by
  unfold movedOn Engine.beginInst Engine.releaseLocks
  congr 1
  · rw [← Vector.toList_inj]
    simp only [Vector.toList_mk, Vector.toList_map]
  · rw [← Array.toList_inj]
    simp

/-- A known value is stored only where there is one. -/
theorem flushKnown_of_unknown {e : Engine} {s : Slot} (h : ∀ w, e.residence s ≠ .value w) :
    flushKnown s e = .ok ((), e) := by
  simp only [flushKnown, bind, StateT.bind, get, getThe, MonadStateOf.get, StateT.get, pure,
    Except.bind, Except.pure]
  cases hr : (e.slotAt s).residence with
  | value w => exact absurd hr (h w)
  | _ => rfl

/-- The engine knows the value of a slot that lives in no register. -/
def knowsValue (e : Engine) : Bool :=
  e.slots.toList.any fun v => v.residence.reg?.isNone && v.residence.known?.isSome

/-- Storing the known values, written so that it evaluates well where there are none. -/
def storeKnown : EngineM Unit := fun e =>
  if knowsValue e then (List.range Slot.count).forM flushKnown e else .ok ((), e)

theorem storeKnown_eq : storeKnown = (List.range Slot.count).forM flushKnown := by
  funext e
  unfold storeKnown
  split
  · rfl
  · rename_i hknows
    have hnone : ∀ s w, e.residence s ≠ .value w := by
      intro s w hw
      refine hknows (List.any_eq_true.mpr ⟨e.slotAt s, ?_, ?_⟩)
      · unfold Engine.residence Engine.slotAt at hw
        unfold Engine.slotAt
        cases hs : e.slots[s]? with
        | none =>
          rw [hs] at hw
          cases hw
        | some v => exact Vector.mem_toList_iff.mpr (Vector.mem_of_getElem? hs)
      · rw [show (e.slotAt s).residence = .value w from hw]
        rfl
    symm
    generalize List.range Slot.count = slots
    induction slots with
    | nil => rfl
    | cons s rest ih =>
      show (flushKnown s >>= fun _ => rest.forM flushKnown) e = _
      show (flushKnown s e >>= fun p => rest.forM flushKnown p.2) = _
      rw [flushKnown_of_unknown (hnone s)]
      exact ih

theorem Engine.Alike.trans {e e' e'' : Engine} (h : e.Alike e') (h' : e'.Alike e'') :
    e.Alike e'' :=
  ⟨h'.host.trans h.host, h'.policy.trans h.policy, h'.size.trans h.size,
    fun s => (h'.isStatic s).trans (h.isStatic s),
    fun s => (h'.residence s).trans (h.residence s),
    fun r => (h'.holding r).trans (h.holding r)⟩

theorem Engine.Alike.refl (e : Engine) : e.Alike e :=
  ⟨rfl, rfl, rfl, fun _ => rfl, fun _ => rfl, fun _ => rfl⟩

theorem Engine.Alike.residents {e e' : Engine} (h : e.Alike e') (r : HostReg) :
    e'.residents r = e.residents r := by
  unfold Engine.residents
  rw [h.holding]
  simp only [h.residence]

end Dynarec.Registers
