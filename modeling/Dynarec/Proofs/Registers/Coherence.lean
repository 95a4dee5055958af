/-
The words that the slots have on a host that carries out what the engine asks for.

The engine stands for a map from slots to words that no table of it holds: the current value of a
slot is the value that is known, the content of its lane with the memory base taken off a pointer,
or the word in guest storage. `Coherent base last lost e x` says that on host `x` this is the word
`last s` for every slot `s` that is not lost. Three more facts make it an invariant: guest storage
has the word of a slot too if the slot's register is clean, the word of a slot that lives in guest
storage is there, and a value that is known is the right one even for a slot that is lost.

Slots are lost when a register is dropped without a store. A proof also declares slots lost while
an operation is under way and their words are on the move, and takes that back at its end.
-/
import Dynarec.Proofs.Registers.Tables

set_option autoImplicit false

namespace Dynarec.Registers

/-- The word in a lane of a register, with the memory base taken off a pointer. -/
def Storage.word (x : Storage) (host : Host) (base : UInt64) (r : HostReg) (pointer : Bool)
    (k : Nat) : Word :=
  if pointer then (x.gpr r - base).toUInt32 else x.lane host r k

/-- The current value of a slot: what is known, else what its register holds less the memory base
of a pointer, else what is in guest storage. -/
def Engine.current (e : Engine) (base : UInt64) (x : Storage) (s : Slot) : Word :=
  match e.residence s with
  | .guest => x.guest s
  | .value w => w
  | .host r k => x.lane e.host r k
  | .hostValue r _ => x.lane e.host r 0
  | .pointer r => (x.gpr r - base).toUInt32

/-- The tables agree, and every slot that is not lost has the word that `last` says. -/
structure Coherent (base : UInt64) (last : Slot → Word) (lost : Set Slot) (e : Engine)
    (x : Storage) : Prop extends Tables e where
  value : ∀ s r h, (e.residence s).reg? = some r → e.holding r = some h → s ∉ lost →
    x.word e.host base r h.pointer (e.residence s).lane = last s
  clean : ∀ s r h, (e.residence s).reg? = some r → e.holding r = some h → h.dirty = false →
    s ∉ lost → x.guest s = last s
  stored : ∀ s, e.residence s = .guest → s ∉ lost → x.guest s = last s
  known : ∀ s v, (e.residence s).known? = some v → last s = v

namespace Storage

variable {x y : Storage} {r : HostReg}

theorem SameReg.word (h : SameReg x y r) (host : Host) (base : UInt64) (pointer : Bool) (k : Nat) :
    y.word host base r pointer k = x.word host base r pointer k := by
  unfold Storage.word
  rw [h.1, h.lane]

@[simp] theorem word_false (x : Storage) (host : Host) (base : UInt64) (r : HostReg) (k : Nat) :
    x.word host base r false k = x.lane host r k := rfl

end Storage

namespace Coherent

open Storage

variable {base : UInt64} {last last' : Slot → Word} {lost lost' : Set Slot} {e e' : Engine}
  {x y : Storage} {r : HostReg}

/-- A slot that is not lost has its word. -/
theorem current_eq (hc : Coherent base last lost e x) {s : Slot} (hs : s ∉ lost) :
    e.current base x s = last s := by
  have hlives : ∀ r, (e.residence s).reg? = some r → ∃ h, Placed e s r h ∧
      x.word e.host base r h.pointer (e.residence s).lane = last s := by
    intro r hr
    obtain ⟨h, hh, hp⟩ := hc.placed s r hr
    exact ⟨h, hp, hc.value s r h hr hh hs⟩
  -- a slot that does not say that it is a pointer is in its lane as it is
  have hplain : ∀ r, (e.residence s).reg? = some r → e.residence s ≠ .pointer r →
      x.lane e.host r (e.residence s).lane = last s := by
    intro r hr hne
    obtain ⟨h, hp, hvalue⟩ := hlives r hr
    have hpointer : h.pointer = false := Bool.eq_false_iff.mpr fun h => hne (hp.pointer.mp h)
    rw [hpointer, word_false] at hvalue
    exact hvalue
  unfold Engine.current
  cases hres : e.residence s with
  | guest => exact hc.stored s hres hs
  | value w => exact (hc.known s w (by rw [hres]; rfl)).symm
  | host r k =>
    rw [hres] at hplain
    exact hplain r rfl fun h => nomatch h
  | hostValue r w =>
    rw [hres] at hplain
    exact hplain r rfl fun h => nomatch h
  | pointer r =>
    rw [hres] at hlives
    obtain ⟨h, hp, hvalue⟩ := hlives r rfl
    rw [hp.pointer.mpr hres] at hvalue
    exact hvalue

/-! ## Changes -/

/-- An engine whose tables read the same. -/
theorem of_alike (hc : Coherent base last lost e x) (h : e.Alike e') :
    Coherent base last lost e' x := by
  refine ⟨hc.toTables.of_alike h, ?value, ?clean, ?stored, ?known⟩
  case value =>
    intro s r g
    rw [h.residence, h.holding, h.host]
    exact hc.value s r g
  case clean =>
    intro s r g
    rw [h.residence, h.holding]
    exact hc.clean s r g
  case stored =>
    intro s
    rw [h.residence]
    exact hc.stored s
  case known =>
    intro s v
    rw [h.residence]
    exact hc.known s v

/-- More slots may be declared lost. -/
theorem lose (hc : Coherent base last lost e x) (h : lost ⊆ lost') :
    Coherent base last lost' e x :=
  ⟨hc.toTables, fun s r g hs hr hl => hc.value s r g hs hr fun hl' => hl (h hl'),
    fun s r g hs hr hd hl => hc.clean s r g hs hr hd fun hl' => hl (h hl'),
    fun s hs hl => hc.stored s hs fun hl' => hl (h hl'), hc.known⟩

/-- Slots leave their registers. Guest storage has the words of those that do not get lost. -/
theorem vacate {S : Set Slot} (hc : Coherent base last lost e x) (hv : Vacated S e e')
    (hstatic : ∀ s ∈ S, (e.slotAt s).isStatic = false)
    (hregs : ∀ r h, e'.holding r = some h → SameReg x y r)
    (hguest : ∀ s, s ∉ S → y.guest s = x.guest s)
    (hgone : ∀ s ∈ S, s ∉ lost' → y.guest s = last s)
    (hlost : ∀ s, s ∉ S → s ∉ lost' → s ∉ lost) : Coherent base last lost' e' y := by
  refine ⟨hc.toTables.vacate hv hstatic, ?value, ?clean, ?stored, ?known⟩
  case value =>
    intro s r h hs hr hl
    have hS := hv.not_mem_of_reg hs
    rw [hv.kept s hS] at hs ⊢
    rw [hv.host, (hregs r h hr).word]
    exact hc.value s r h hs (hv.holding r h hr) (hlost s hS hl)
  case clean =>
    intro s r h hs hr hd hl
    have hS := hv.not_mem_of_reg hs
    rw [hv.kept s hS] at hs
    rw [hguest s hS]
    exact hc.clean s r h hs (hv.holding r h hr) hd (hlost s hS hl)
  case stored =>
    intro s hs hl
    by_cases hS : s ∈ S
    · exact hgone s hS hl
    · rw [hv.kept s hS] at hs
      rw [hguest s hS]
      exact hc.stored s hs (hlost s hS hl)
  case known =>
    intro s v hv'
    by_cases hS : s ∈ S
    · rw [hv.gone s hS] at hv'
      exact nomatch hv'
    · rw [hv.kept s hS] at hv'
      exact hc.known s v hv'

/-- A register takes up slots. Their words may be new. -/
theorem bind {h : Holding} (hc : Coherent base last lost e x) (hb : Bound r h e e')
    (hregs : ∀ q, q ≠ r → SameReg x y q) (hguest : ∀ s, ¬ h.Spans s → y.guest s = x.guest s)
    (hlast : ∀ s, ¬ h.Spans s → last' s = last s)
    (hlost : ∀ s, ¬ h.Spans s → s ∉ lost' → s ∉ lost)
    (hvalue : ∀ s, h.Spans s → s ∉ lost' →
      y.word e.host base r h.pointer (s - h.first) = last' s)
    (hclean : h.dirty = false → ∀ s, h.Spans s → s ∉ lost' → y.guest s = last' s)
    (hknown : ∀ s v, h.Spans s → (e'.residence s).known? = some v → last' s = v) :
    Coherent base last' lost' e' y := by
  -- a slot outside the holding lives in another register
  have hout : ∀ s q, ¬ h.Spans s → (e'.residence s).reg? = some q →
      q ≠ r ∧ (e.residence s).reg? = some q := by
    intro s q hspan hs
    rw [hb.kept s hspan] at hs
    exact ⟨fun hq => hspan (hb.room s (hq ▸ hs)), hs⟩
  have hin : ∀ s q g, h.Spans s → (e'.residence s).reg? = some q → e'.holding q = some g →
      q = r ∧ g = h := by
    intro s q g hspan hs hg
    have hq : q = r := Option.some.inj (hs.symm.trans (hb.reg s hspan))
    rw [hq, hb.here] at hg
    exact ⟨hq, (Option.some.inj hg).symm⟩
  refine ⟨hc.toTables.bind hb, ?value, ?clean, ?stored, ?known⟩
  case value =>
    intro s q g hs hg hl
    rw [hb.host]
    by_cases hspan : h.Spans s
    · obtain ⟨rfl, rfl⟩ := hin s q g hspan hs hg
      rw [(hb.placed s hspan).lane_eq]
      exact hvalue s hspan hl
    · obtain ⟨hq, hs'⟩ := hout s q hspan hs
      rw [hb.kept s hspan, (hregs q hq).word, hlast s hspan]
      exact hc.value s q g hs' ((hb.other q hq).symm.trans hg) (hlost s hspan hl)
  case clean =>
    intro s q g hs hg hd hl
    by_cases hspan : h.Spans s
    · obtain ⟨rfl, rfl⟩ := hin s q g hspan hs hg
      exact hclean hd s hspan hl
    · obtain ⟨hq, hs'⟩ := hout s q hspan hs
      rw [hguest s hspan, hlast s hspan]
      exact hc.clean s q g hs' ((hb.other q hq).symm.trans hg) hd (hlost s hspan hl)
  case stored =>
    intro s hs hl
    have hspan : ¬ h.Spans s := fun hspan => by
      have hreg := hb.reg s hspan
      rw [hs] at hreg
      exact nomatch hreg
    rw [hguest s hspan, hlast s hspan]
    exact hc.stored s ((hb.kept s hspan).symm.trans hs) (hlost s hspan hl)
  case known =>
    intro s v hv
    by_cases hspan : h.Spans s
    · exact hknown s v hspan hv
    · rw [hb.kept s hspan] at hv
      rw [hlast s hspan]
      exact hc.known s v hv

/-- A register gets a new content. The words of its slots may be new. -/
theorem refill (hc : Coherent base last lost e x) (honly : OnlyReg r x y)
    (hlast : ∀ s, (e.residence s).reg? ≠ some r → last' s = last s)
    (hlost : ∀ s, (e.residence s).reg? ≠ some r → s ∉ lost' → s ∉ lost)
    (hvalue : ∀ s h, (e.residence s).reg? = some r → e.holding r = some h → s ∉ lost' →
      y.word e.host base r h.pointer (e.residence s).lane = last' s)
    (hclean : ∀ s h, (e.residence s).reg? = some r → e.holding r = some h → h.dirty = false →
      s ∉ lost' → x.guest s = last' s)
    (hknown : ∀ s v, (e.residence s).reg? = some r → (e.residence s).known? = some v →
      last' s = v) : Coherent base last' lost' e y := by
  refine ⟨hc.toTables, ?value, ?clean, ?stored, ?known⟩
  case value =>
    intro s q h hs hh hl
    by_cases hq : q = r
    · subst hq
      exact hvalue s h hs hh hl
    · have hne : (e.residence s).reg? ≠ some r := fun h' => hq (Option.some.inj (hs.symm.trans h'))
      rw [(honly.other q hq).word, hlast s hne]
      exact hc.value s q h hs hh (hlost s hne hl)
  case clean =>
    intro s q h hs hh hd hl
    rw [honly.guest]
    by_cases hq : q = r
    · subst hq
      exact hclean s h hs hh hd hl
    · have hne : (e.residence s).reg? ≠ some r := fun h' => hq (Option.some.inj (hs.symm.trans h'))
      rw [hlast s hne]
      exact hc.clean s q h hs hh hd (hlost s hne hl)
  case stored =>
    intro s hs hl
    have hne : (e.residence s).reg? ≠ some r := by
      rw [hs]
      exact fun h => nomatch h
    rw [honly.guest, hlast s hne]
    exact hc.stored s hs (hlost s hne hl)
  case known =>
    intro s v hv
    by_cases hs : (e.residence s).reg? = some r
    · exact hknown s v hs hv
    · rw [hlast s hs]
      exact hc.known s v hv

/-- A register all of whose slots are lost may get any content. -/
theorem scribble (hc : Coherent base last lost e x) (honly : OnlyReg r x y)
    (hres : ∀ s, (e.residence s).reg? = some r → s ∈ lost) : Coherent base last lost e y :=
  hc.refill honly (fun _ _ => rfl) (fun _ _ h => h) (fun s _ hs _ hl => absurd (hres s hs) hl)
    (fun s _ hs _ _ hl => absurd (hres s hs) hl) fun s v _ hv => hc.known s v hv

/-- A flag of a register changes. A register that becomes clean has its words in guest storage. -/
theorem flag {f : Holding → Holding} (hc : Coherent base last lost e x)
    (hfirst : ∀ h, (f h).first = h.first) (hgroup : ∀ h, (f h).isGroup = h.isGroup)
    (hpointer : ∀ h, (f h).pointer = h.pointer)
    (hclean : ∀ s h, (e.residence s).reg? = some r → e.holding r = some h → (f h).dirty = false →
      s ∉ lost → x.guest s = last s) :
    Coherent base last lost (e.modifyHolding r f) x := by
  refine ⟨hc.toTables.flag r hfirst hgroup hpointer, ?_, ?_, hc.stored, hc.known⟩
  · intro s q g hs hg hl
    obtain ⟨h, hh, ⟨-, rfl⟩ | ⟨-, rfl⟩⟩ := Engine.of_modifyHolding hg
    · exact hc.value s q _ hs hh hl
    · rw [hpointer]
      exact hc.value s q h hs hh hl
  · intro s q g hs hg hd hl
    obtain ⟨h, hh, ⟨-, rfl⟩ | ⟨rfl, rfl⟩⟩ := Engine.of_modifyHolding hg
    · exact hc.clean s q _ hs hh hd hl
    · exact hclean s h hs hh hd hl

end Coherent

end Dynarec.Registers
