/-
The host that the register engine has in mind.

The engine asks for actions and never sees them carried out. Here they get their meaning: an
integer register holds a double word, a float register four lanes, guest storage a word for each
slot, and there is a memory base. An action says what it does and leaves open what its wording
leaves open: the lanes of a register that a load does not name, the upper half of an integer
register that gets a word. So `Performs` is a relation, and what is proved holds for every host
whose primitives do as they are told.

`After base op e x Q` says what an operation of the engine means for such a host: if the operation
succeeds, then carrying out the actions that it has asked for, from host `x` on, leads to a host and
an engine with property `Q`. It has a rule for each way an operation is built.
-/
import Dynarec.Registers.Engine

set_option autoImplicit false

namespace Dynarec.Registers

/-! ## Registers and guest storage -/

/-- What the registers of a host and guest storage hold. -/
structure Storage where
  /-- The integer registers. -/
  gpr : HostReg → UInt64
  /-- The lanes of the float registers. -/
  vec : HostReg → Nat → Word
  guest : Slot → Word

namespace Storage

/-- The word in a lane of a register; an integer register has one lane, its lower half. -/
def lane (x : Storage) (host : Host) (r : HostReg) (k : Nat) : Word :=
  match host.bankOf r with
  | .gpr => (x.gpr r).toUInt32
  | .fpr => x.vec r k

/-- The word that a lane of a vector is filled with; `here` is the lane itself. -/
def source (x : Storage) (here : Word) : LaneSource → Word
  | .keep => here
  | .lane r k => x.vec r k
  | .guest s => x.guest s
  | .value w => w

/-- A register holds the same on both hosts. -/
def SameReg (x y : Storage) (r : HostReg) : Prop := y.gpr r = x.gpr r ∧ y.vec r = x.vec r

/-- Guest storage and all registers but one are the same. -/
structure OnlyReg (r : HostReg) (x y : Storage) : Prop where
  guest : y.guest = x.guest
  other : ∀ q, q ≠ r → SameReg x y q

theorem SameReg.lane {x y : Storage} {r : HostReg} (h : SameReg x y r) (host : Host) (k : Nat) :
    y.lane host r k = x.lane host r k := by
  unfold Storage.lane
  rw [h.1, h.2]

theorem SameReg.refl (x : Storage) (r : HostReg) : SameReg x x r := ⟨rfl, rfl⟩

theorem SameReg.trans {x y z : Storage} {r : HostReg} (h : SameReg x y r) (h' : SameReg y z r) :
    SameReg x z r :=
  ⟨h'.1.trans h.1, h'.2.trans h.2⟩

theorem OnlyReg.refl (x : Storage) (r : HostReg) : OnlyReg r x x := ⟨rfl, fun q _ => .refl x q⟩

theorem OnlyReg.trans {x y z : Storage} {r : HostReg} (h : OnlyReg r x y) (h' : OnlyReg r y z) :
    OnlyReg r x z :=
  ⟨h'.guest.trans h.guest, fun q hq => (h.other q hq).trans (h'.other q hq)⟩

/-- The host with another content of an integer register. -/
def setGpr (x : Storage) (r : HostReg) (v : UInt64) : Storage :=
  { x with gpr := fun q => if q = r then v else x.gpr q }

/-- The host with other lanes in a register. -/
def setVec (x : Storage) (r : HostReg) (lanes : Nat → Word) : Storage :=
  { x with vec := fun q => if q = r then lanes else x.vec q }

theorem onlyReg_setGpr (x : Storage) (r : HostReg) (v : UInt64) : OnlyReg r x (x.setGpr r v) :=
  ⟨rfl, fun _ hq => ⟨if_neg hq, rfl⟩⟩

theorem onlyReg_setVec (x : Storage) (r : HostReg) (lanes : Nat → Word) :
    OnlyReg r x (x.setVec r lanes) :=
  ⟨rfl, fun _ hq => ⟨rfl, if_neg hq⟩⟩

theorem vec_setVec (x : Storage) (r : HostReg) (lanes : Nat → Word) :
    (x.setVec r lanes).vec r = lanes :=
  if_pos rfl

/-- A word that is put into a register of either class is there. -/
theorem lane_setVec_setGpr (x : Storage) (host : Host) (r : HostReg) (w : Word)
    (lanes : Nat → Word) (k : Nat) (h : lanes k = w) :
    ((x.setGpr r w.toUInt64).setVec r lanes).lane host r k = w := by
  unfold lane
  cases host.bankOf r with
  | gpr =>
    show (if r = r then w.toUInt64 else x.gpr r).toUInt32 = w
    rw [if_pos rfl, UInt32.toUInt32_toUInt64]
  | fpr =>
    show (if r = r then lanes else x.vec r) k = w
    rw [if_pos rfl, h]

end Storage

/-! ## Actions -/

/-- Carrying out an action leads from host `x` to host `y`. -/
def Performs (host : Host) (base : UInt64) (a : Action) (x y : Storage) : Prop :=
  match a with
  | .load r s count =>
    Storage.OnlyReg r x y ∧ y.lane host r 0 = x.guest s ∧
      (host.bankOf r = .fpr → ∀ k < count, y.vec r k = x.guest (s + k))
  | .store r s lane count =>
    y.gpr = x.gpr ∧ y.vec = x.vec ∧
      (∀ k < count, y.guest (s + k) = x.lane host r (lane + k)) ∧
      ∀ q, q < s ∨ s + count ≤ q → y.guest q = x.guest q
  | .setValue r w => Storage.OnlyReg r x y ∧ y.lane host r 0 = w
  | .storeValue s w =>
    y.gpr = x.gpr ∧ y.vec = x.vec ∧ y.guest s = w ∧ ∀ q, q ≠ s → y.guest q = x.guest q
  | .addBase r => Storage.OnlyReg r x y ∧ y.gpr r = x.gpr r + base
  | .removeBase r => Storage.OnlyReg r x y ∧ y.gpr r = x.gpr r - base
  | .move dest src => Storage.OnlyReg dest x y ∧ y.gpr dest = x.gpr src ∧ y.vec dest = x.vec src
  | .extract dest src lane =>
    Storage.OnlyReg dest x y ∧ y.lane host dest 0 = x.lane host src lane
  | .compose dest sources =>
    Storage.OnlyReg dest x y ∧ ∀ k : Fin 4, y.vec dest k = x.source (x.vec dest k) (sources.get k)

/-- Every action can be carried out. -/
theorem exists_performs (host : Host) (base : UInt64) (a : Action) (x : Storage) :
    ∃ y, Performs host base a x y := by
  cases a with
  | load r s count =>
    -- both classes get the word, since only one of them counts
    refine ⟨(x.setGpr r (x.guest s).toUInt64).setVec r fun k => x.guest (s + k),
      (x.onlyReg_setGpr r _).trans (Storage.onlyReg_setVec _ r _), ?_, ?_⟩
    · exact Storage.lane_setVec_setGpr x host r _ _ 0 rfl
    · intro _ k _
      rw [Storage.vec_setVec]
  | store r s lane count =>
    refine ⟨{ x with guest := fun q =>
      if s ≤ q ∧ q < s + count then x.lane host r (lane + (q - s)) else x.guest q },
      rfl, rfl, ?_, ?_⟩
    · intro k hk
      show (if s ≤ s + k ∧ s + k < s + count then _ else _) = _
      rw [if_pos ⟨Nat.le_add_right s k, Nat.add_lt_add_left hk s⟩, Nat.add_sub_cancel_left]
    · intro q hq
      have hout : ¬ (s ≤ q ∧ q < s + count) := by
        unfold Slot at *
        omega
      exact if_neg hout
  | setValue r w =>
    refine ⟨(x.setGpr r w.toUInt64).setVec r fun _ => w,
      (x.onlyReg_setGpr r _).trans (Storage.onlyReg_setVec _ r _), ?_⟩
    exact Storage.lane_setVec_setGpr x host r w _ 0 rfl
  | storeValue s w =>
    refine ⟨{ x with guest := fun q => if q = s then w else x.guest q }, rfl, rfl, if_pos rfl, ?_⟩
    exact fun q hq => if_neg hq
  | addBase r => exact ⟨x.setGpr r _, x.onlyReg_setGpr r _, if_pos rfl⟩
  | removeBase r => exact ⟨x.setGpr r _, x.onlyReg_setGpr r _, if_pos rfl⟩
  | move dest src =>
    exact ⟨(x.setGpr dest (x.gpr src)).setVec dest (x.vec src),
      (x.onlyReg_setGpr dest _).trans (Storage.onlyReg_setVec _ dest _), if_pos rfl, if_pos rfl⟩
  | extract dest src lane =>
    refine ⟨(x.setGpr dest (x.lane host src lane).toUInt64).setVec dest
      fun _ => x.lane host src lane,
      (x.onlyReg_setGpr dest _).trans (Storage.onlyReg_setVec _ dest _), ?_⟩
    exact Storage.lane_setVec_setGpr x host dest _ _ 0 rfl
  | compose dest sources =>
    refine ⟨x.setVec dest fun k => if h : k < 4 then x.source (x.vec dest k) sources[k] else 0,
      x.onlyReg_setVec dest _, fun k => ?_⟩
    rw [Storage.vec_setVec]
    exact dif_pos k.2

/-- Carrying out actions one after the other. -/
def PerformsAll (host : Host) (base : UInt64) : List Action → Storage → Storage → Prop
  | [], x, y => y = x
  | a :: as, x, y => ∃ z, Performs host base a x z ∧ PerformsAll host base as z y

theorem performsAll_append {host : Host} {base : UInt64} (as bs : List Action) {x y : Storage} :
    PerformsAll host base (as ++ bs) x y
      ↔ ∃ z, PerformsAll host base as x z ∧ PerformsAll host base bs z y := by
  induction as generalizing x with
  | nil => exact ⟨fun h => ⟨x, rfl, h⟩, fun ⟨_, hz, h⟩ => hz ▸ h⟩
  | cons a as ih =>
    constructor
    · rintro ⟨u, hu, h⟩
      obtain ⟨z, hz, h⟩ := ih.mp h
      exact ⟨z, ⟨u, hu, hz⟩, h⟩
    · rintro ⟨z, ⟨u, hu, hz⟩, h⟩
      exact ⟨u, hu, ih.mpr ⟨z, hz, h⟩⟩

/-- Actions that follow each other can be carried out. -/
theorem exists_performsAll (host : Host) (base : UInt64) (as : List Action) (x : Storage) :
    ∃ y, PerformsAll host base as x y := by
  induction as generalizing x with
  | nil => exact ⟨x, rfl⟩
  | cons a as ih =>
    obtain ⟨z, hz⟩ := exists_performs host base a x
    obtain ⟨y, hy⟩ := ih z
    exact ⟨y, z, hz, hy⟩

/-! ## Operations -/

/-- The engine after an action has been asked for. -/
def Engine.asked (e : Engine) (a : Action) : Engine := { e with actions := e.actions.push a }

/-- The operation succeeds on `e` and gives `a` and `e'`, and host `x` becomes host `y` when it
carries out what the operation has asked for. -/
def Ran {α : Type} (base : UInt64) (op : EngineM α) (e : Engine) (x : Storage) (a : α)
    (e' : Engine) (y : Storage) : Prop :=
  op e = .ok (a, e') ∧ ∃ as, e'.actions.toList = e.actions.toList ++ as ∧
    PerformsAll e.host base as x y

/-- If the operation succeeds on `e`, then it has only added to the actions, and on every host that
carries out from `x` on what it has asked for, `Q` holds of its result, of the engine and of the
host. -/
def After {α : Type} (base : UInt64) (op : EngineM α) (e : Engine) (x : Storage)
    (Q : α → Engine → Storage → Prop) : Prop :=
  ∀ a e', op e = .ok (a, e') → e'.host = e.host ∧
    ∃ as, e'.actions.toList = e.actions.toList ++ as ∧
      ∀ y, PerformsAll e.host base as x y → Q a e' y

section After

variable {α β : Type} {base : UInt64} {op : EngineM α} {e : Engine} {x : Storage}
  {Q : α → Engine → Storage → Prop} {R : β → Engine → Storage → Prop}

theorem After.of_ran {a : α} {e' : Engine} {y : Storage} (h : After base op e x Q)
    (hran : Ran base op e x a e' y) : Q a e' y := by
  obtain ⟨hop, as, has, hy⟩ := hran
  obtain ⟨-, bs, hbs, hQ⟩ := h a e' hop
  -- the actions that were added are determined by the engine
  have heq : bs = as := List.append_cancel_left (hbs.symm.trans has)
  exact hQ y (heq ▸ hy)

theorem After.mono {Q' : α → Engine → Storage → Prop} (h : After base op e x Q)
    (hQ : ∀ a e' y, Q a e' y → Q' a e' y) : After base op e x Q' := by
  intro a e' ha
  obtain ⟨hhost, as, has, hy⟩ := h a e' ha
  exact ⟨hhost, as, has, fun y hp => hQ a e' y (hy y hp)⟩

theorem after_pure {a : α} (h : Q a e x) : After base (pure a) e x Q := by
  intro b e' hb
  cases hb
  refine ⟨rfl, [], (List.append_nil _).symm, fun y hy => ?_⟩
  rw [hy]
  exact h

/-- **An operation made of two parts.** That the actions of the first part can be carried out is
needed to know that the second part only adds to them. -/
theorem after_bind {f : α → EngineM β}
    (h : After base op e x fun a e' y => After base (f a) e' y R) :
    After base (op >>= f) e x R := by
  intro b e'' hb
  replace hb : (op e >>= fun p => f p.1 p.2) = .ok (b, e'') := hb
  cases hop : op e with
  | error g =>
    rw [hop] at hb
    exact nomatch hb
  | ok p =>
    obtain ⟨a, e'⟩ := p
    rw [hop] at hb
    obtain ⟨hhost, as, has, hy⟩ := h a e' hop
    -- some host carries out the first part
    obtain ⟨y₀, hy₀⟩ := exists_performsAll e.host base as x
    obtain ⟨hhost', bs, hbs, -⟩ := hy y₀ hy₀ b e'' hb
    refine ⟨hhost'.trans hhost, as ++ bs, by rw [hbs, has, List.append_assoc], fun z hz => ?_⟩
    obtain ⟨y, hxy, hyz⟩ := (performsAll_append as bs).mp hz
    obtain ⟨-, cs, hcs, hQ⟩ := hy y hxy b e'' hb
    have heq : cs = bs := List.append_cancel_left (hcs.symm.trans hbs)
    rw [heq, hhost] at hQ
    exact hQ z hyz

theorem after_violate {v : Violation} : After base (violate v : EngineM α) e x Q :=
  fun _ _ h => nomatch h

theorem after_get {f : Engine → EngineM β} (h : After base (f e) e x R) :
    After base (get >>= f) e x R :=
  h

/-- An operation that changes the tables only. -/
theorem after_modify {f : Engine → Engine} {Q : Unit → Engine → Storage → Prop}
    (hhost : (f e).host = e.host) (hacts : (f e).actions = e.actions) (h : Q () (f e) x) :
    After base (modify f) e x Q := by
  intro a e' ha
  cases ha
  refine ⟨hhost, [], by rw [hacts, List.append_nil], fun y hy => ?_⟩
  rw [hy]
  exact h

theorem after_set {d : Engine} {f : PUnit → EngineM β} (hhost : d.host = e.host)
    (hacts : d.actions = e.actions) (h : After base (f ⟨⟩) d x R) :
    After base (set d >>= f) e x R := by
  intro b e' hb
  obtain ⟨hhost', as, has, hy⟩ := h b e' hb
  refine ⟨hhost'.trans hhost, as, by rw [has, hacts], fun y hp => hy y ?_⟩
  rw [hhost]
  exact hp

theorem after_emit {a : Action} {Q : Unit → Engine → Storage → Prop}
    (h : ∀ y, Performs e.host base a x y → Q () (e.asked a) y) :
    After base (emit a) e x Q := by
  intro _ e' ha
  cases ha
  refine ⟨rfl, [a], Array.toList_push, fun y hy => ?_⟩
  obtain ⟨z, hz, rfl⟩ := hy
  exact h _ hz

/-- A condition that the caller has to meet. -/
theorem after_require {p : Prop} [Decidable p] {v : Violation} {f : Unit → EngineM β}
    (h : ¬ p → After base (f ()) e x R) :
    After base (if p then violate v >>= f else f ()) e x R := by
  by_cases hp : p
  · rw [if_pos hp]
    exact after_bind after_violate
  · rw [if_neg hp]
    exact h hp

theorem after_requireSlot {s : Slot} {f : Unit → EngineM β}
    (h : s < Slot.count → After base (f ()) e x R) :
    After base (requireSlot s >>= f) e x R := by
  unfold requireSlot
  by_cases hs : s < Slot.count
  · rw [if_pos hs]
    exact h hs
  · rw [if_neg hs]
    exact fun _ _ h => nomatch h

theorem after_requireReg {r : HostReg} {f : Unit → EngineM β}
    (h : r < e.hosts.size → After base (f ()) e x R) :
    After base (requireReg r >>= f) e x R := by
  by_cases hr : r < e.hosts.size
  · have heq : requireReg r e = pure ((), e) := by
      show (if r < e.hosts.size then pure () else throwThe Fault .outOfBounds : EngineM Unit) e = _
      rw [if_pos hr]
      rfl
    intro b e' hb
    refine h hr b e' ?_
    rw [← hb]
    show _ = (requireReg r e >>= fun p => f p.1 p.2)
    rw [heq]
    rfl
  · have heq : requireReg r e = .error .outOfBounds := by
      show (if r < e.hosts.size then pure () else throwThe Fault .outOfBounds : EngineM Unit) e = _
      rw [if_neg hr]
      rfl
    intro b e' hb
    replace hb : (requireReg r e >>= fun p => f p.1 p.2) = .ok (b, e') := hb
    rw [heq] at hb
    exact nomatch hb

/-- **A loop.** What holds of the hosts and engines before every round holds after the last. -/
theorem after_forM {γ : Type} {f : γ → EngineM Unit} (I : List γ → Engine → Storage → Prop)
    (hstep : ∀ a as e x, I (a :: as) e x → After base (f a) e x fun _ e' y => I as e' y)
    (as : List γ) (h : I as e x) : After base (as.forM f) e x fun _ e' y => I [] e' y := by
  induction as generalizing e x with
  | nil => exact after_pure h
  | cons a as ih => exact after_bind ((hstep a as e x h).mono fun _ e' y h' => ih h')

end After

end Dynarec.Registers
