/-
The register engine at work on a host.

A session is the engine together with a host that has carried out all it was asked for, and a
record of what the code of the block has done so far: the last word given to each slot, and the
slots whose register has been evicted as dead since. A block starts with the tables reset and the
bound registers loaded, and every slot has its word in guest storage. Then come, in any order, the
start of an instruction, the mapping of operands, known values and stores. An operand that is mapped
to be written gets its new word before anything else happens; which word is up to the code, and so
is what else it puts into the register.

`current_eq_last` says that the engine never mixes up words: whatever has happened, the current
value of every slot is the last word given to it, unless its register was evicted as dead since; and
a value that the engine reports as known is the last word without exception.
-/
import Dynarec.Aarch64.Host
import Dynarec.Amd64.Host
import Dynarec.Proofs.Registers.Start
import Dynarec.Registers.Sketch

set_option autoImplicit false
set_option maxRecDepth 2048

namespace Dynarec.Registers

/-! ## Mappings -/

/-- A mapping that the code of an instruction asks for. -/
inductive Request where
  | integer (s : Slot) (mode : Mode)
  | pointer (s : Slot)
  | float (s : Slot) (mode : Mode)
  | group (first : Slot) (mode : Mode)

namespace Request

def run : Request → EngineM HostReg
  | .integer s mode => mapInteger s mode
  | .pointer s => mapPointer s
  | .float s mode => mapFloat s mode
  | .group first mode => mapGroup first mode

/-- How the slots are used; an address is read. -/
def mode : Request → Mode
  | .integer _ mode | .float _ mode | .group _ mode => mode
  | .pointer _ => .read

/-- The first slot of the mapping. -/
def first : Request → Slot
  | .integer s _ | .pointer s | .float s _ | .group s _ => s

/-- How many slots are mapped. -/
def width : Request → Nat
  | .group .. => 4
  | _ => 1

/-- The slots that are mapped. -/
def slots (q : Request) : Set Slot := {s | q.first ≤ s ∧ s < q.first + q.width}

/-- The slots whose register is evicted as dead for the mapping. -/
def givenUp (q : Request) (e : Engine) : Set Slot :=
  match q with
  | .integer s _ | .pointer s => (e.lock s).givenUpFor .gpr s
  | .float s _ => e.givenUpForFloat s
  | .group first _ => e.givenUpForGroup first

end Request

/-! ## Sessions -/

/-- The engine at work on a host. -/
structure Session where
  engine : Engine
  storage : Storage
  /-- The last word given to each slot. -/
  last : Slot → Word
  /-- The slots whose register has been evicted as dead since they got their last word. -/
  lost : Set Slot
  /-- A mapping whose slots are to get new words now, and its register. -/
  due : Option (Request × HostReg)

/-- The slots that are to get a new word now and whose old one did not matter. -/
def Session.unset (w : Session) : Set Slot :=
  {s | ∃ q r, w.due = some (q, r) ∧ s ∈ q.mode.unread q.slots}

/-- What can happen next in a session. -/
inductive Session.Step (base : UInt64) (w : Session) : Session → Prop
  | beginInst (i : Nat) (hdue : w.due = none) :
    Step base w { w with engine := w.engine.beginInst i }
  | map (q : Request) {r : HostReg} {e : Engine} {y : Storage} (hdue : w.due = none)
    (hran : Ran base q.run w.engine w.storage r e y) :
    Step base w
      { engine := e, storage := y, last := w.last, lost := w.lost ∪ q.givenUp w.engine
        due := if q.mode.writes then some (q, r) else none }
  /-- The code puts new words into the lanes of the register and anything into the rest of it. -/
  | put {q : Request} {r : HostReg} {y : Storage} (hdue : w.due = some (q, r))
    (hput : Storage.OnlyReg r w.storage y) :
    Step base w
      { engine := w.engine, storage := y
        last := fun s =>
          if q.first ≤ s ∧ s < q.first + q.width then y.lane w.engine.host r (s - q.first)
          else w.last s
        lost := w.lost \ q.slots, due := none }
  | setKnown (s : Slot) (v : Word) {e : Engine} {y : Storage} (hdue : w.due = none)
    (hran : Ran base (setKnown s v) w.engine w.storage () e y) :
    Step base w
      { w with engine := e, storage := y, last := assign w.last s v, lost := w.lost \ {s} }
  | flushSlot (s : Slot) {e : Engine} {y : Storage} (hdue : w.due = none)
    (hran : Ran base (flushSlot s) w.engine w.storage () e y) :
    Step base w { w with engine := e, storage := y }
  | flushAll {e : Engine} {y : Storage} (hdue : w.due = none)
    (hran : Ran base flushAll w.engine w.storage () e y) :
    Step base w { w with engine := e, storage := y }

/-- The sessions of a block of instructions, on whatever engine and host it starts. -/
inductive Session.Reached (base : UInt64) (e₀ : Engine) (insts : List Inst) : Session → Prop
  | start {x y : Storage} {e : Engine}
    (hran : Ran base reloadStatics (e₀.start insts) x () e y) :
    Reached base e₀ insts { engine := e, storage := y, last := x.guest, lost := ∅, due := none }
  | step {w w' : Session} (h : Reached base e₀ insts w) (hstep : w.Step base w') :
    Reached base e₀ insts w'

/-! ## The invariant -/

/-- The words are where the engine says, and a register that is to be written can be written. -/
structure Session.Sound (base : UInt64) (w : Session) : Prop where
  coherent : Coherent base w.last (w.lost ∪ w.unset) w.engine w.storage
  writable : ∀ q r, w.due = some (q, r) → Writable w.engine r q.first q.width

theorem Mode.writes_of_not_reads {mode : Mode} (h : mode.reads = false) : mode.writes = true := by
  cases mode with
  | read => exact nomatch h
  | write => rfl
  | readWrite => rfl

theorem Session.unset_eq_empty {w : Session} (hdue : w.due = none) : w.unset = ∅ := by
  rw [Set.eq_empty_iff_forall_notMem]
  rintro s ⟨q, r, hsome, -⟩
  rw [hdue] at hsome
  exact nomatch hsome

namespace Request

variable {base : UInt64} {last : Slot → Word} {lost : Set Slot} {e : Engine} {x : Storage}

theorem slots_of_width_one {q : Request} (h : q.width = 1) : q.slots = {q.first} := by
  ext s
  unfold slots
  rw [h]
  show q.first ≤ s ∧ s < q.first + 1 ↔ s = q.first
  unfold Slot
  omega

/-- Every mapping keeps the words, apart from those given up and those that do not matter. -/
theorem after_run (q : Request) (hc : Coherent base last lost e x) :
    After base q.run e x fun r e' y =>
      Coherent base last (lost ∪ q.givenUp e ∪ q.mode.unread q.slots) e' y ∧
        (q.mode.writes = true → Writable e' r q.first q.width) := by
  cases q with
  | integer s mode =>
    rw [slots_of_width_one rfl]
    exact (after_mapInteger hc).mono fun r e' y h => ⟨h.1, h.2.2.2.2⟩
  | pointer s =>
    exact (after_mapPointer hc).mono fun r e' y h =>
      ⟨h.lose Set.subset_union_left, fun hw => nomatch hw⟩
  | float s mode =>
    rw [slots_of_width_one rfl]
    exact after_mapFloat hc
  | group first mode => exact after_mapGroup hc

end Request

/-- The code puts new words into a register that can be written. -/
theorem Session.Sound.put {base : UInt64} {w : Session} {q : Request} {r : HostReg} {y : Storage}
    (hw : w.Sound base) (hdue : w.due = some (q, r)) (hput : Storage.OnlyReg r w.storage y) :
    Coherent base
      (fun s => if q.first ≤ s ∧ s < q.first + q.width then y.lane w.engine.host r (s - q.first)
        else w.last s)
      (w.lost \ q.slots) w.engine y := by
  obtain ⟨⟨h, hr, hfirst, hwidth, hdirty, hpointer⟩, hres⟩ := hw.writable q r hdue
  have hc := hw.coherent
  -- the slots of the mapping are those that live in the register
  have hin : ∀ s, (w.engine.residence s).reg? = some r → q.first ≤ s ∧ s < q.first + q.width := by
    intro s hs
    have hspan := (hc.placed_of hs hr).spans
    unfold Holding.Spans at hspan
    rw [hfirst, hwidth] at hspan
    exact hspan
  have hlives : ∀ s, s ∈ q.slots → w.engine.residence s = .host r (s - q.first) := by
    rintro s ⟨hle, hlt⟩
    have hk : s - q.first < q.width := by
      unfold Slot at *
      omega
    have heq : q.first + (s - q.first) = s := by
      unfold Slot at *
      omega
    have hlane := hres _ hk
    rw [heq] at hlane
    exact hlane
  have hout : ∀ s, (w.engine.residence s).reg? ≠ some r → s ∉ q.slots := by
    intro s hs hmem
    rw [hlives s hmem] at hs
    exact hs rfl
  refine hc.refill hput (fun s hs => if_neg (hout s hs)) ?_ ?_ ?_ ?_
  · rintro s hs hl (hlost | ⟨q', r', hdue', -, hmem⟩)
    · exact hl ⟨hlost, hout s hs⟩
    · rw [hdue] at hdue'
      cases hdue'
      exact hout s hs hmem
  · intro s h' hs hr' _
    rw [hr] at hr'
    cases hr'
    rw [if_pos (hin s hs), hlives s (hin s hs)]
    unfold Storage.word
    rw [hpointer]
    rfl
  · -- the register counts as dirty, so nothing is said about guest storage
    intro s h' hs hr' hd
    rw [hr] at hr'
    cases hr'
    rw [hdirty] at hd
    exact nomatch hd
  · intro s v hs hv
    rw [hlives s (hin s hs)] at hv
    exact nomatch hv

/-- **One step.** Whatever happens next keeps the words. -/
theorem Session.Sound.step {base : UInt64} {w w' : Session} (hw : w.Sound base)
    (hstep : w.Step base w') : w'.Sound base := by
  have hc := hw.coherent
  have hsound : ∀ {v : Session}, v.due = none → Coherent base v.last v.lost v.engine v.storage →
      v.Sound base := by
    intro v hdue hcv
    refine ⟨hcv.lose Set.subset_union_left, fun q r hsome => ?_⟩
    rw [hdue] at hsome
    exact nomatch hsome
  -- when nothing is due, only the slots given up are lost
  have hsettled : w.due = none → Coherent base w.last w.lost w.engine w.storage := by
    intro hdue
    rw [unset_eq_empty hdue, Set.union_empty] at hc
    exact hc
  cases hstep with
  | beginInst i hdue =>
    exact hsound hdue ((hsettled hdue).of_alike (w.engine.alike_beginInst i))
  | map q hdue hran =>
    obtain ⟨hcoherent, hwritable⟩ := (q.after_run (hsettled hdue)).of_ran hran
    by_cases hmode : q.mode.writes = true
    · refine ⟨hcoherent.lose (Set.union_subset_union_right _ fun s hs => ?_), fun q' r' hsome => ?_⟩
      · exact ⟨q, _, if_pos hmode, hs⟩
      · rw [if_pos hmode] at hsome
        cases hsome
        exact hwritable hmode
    · refine hsound (if_neg hmode) (hcoherent.lose ?_)
      -- a mapping that writes nothing reads, so no word was left out
      rintro s (hs | hs)
      · exact hs
      · exact absurd (Mode.writes_of_not_reads hs.1) hmode
  | put hdue hput => exact hsound rfl (hw.put hdue hput)
  | setKnown s v hdue hran => exact hsound hdue ((after_setKnown (hsettled hdue) v).of_ran hran)
  | flushSlot s hdue hran => exact hsound hdue ((after_flushSlot (hsettled hdue)).of_ran hran)
  | flushAll hdue hran => exact hsound hdue ((after_flushAll (hsettled hdue)).of_ran hran)

/-- The words are where the engine says in every session. -/
theorem Session.Reached.sound {base : UInt64} {e₀ : Engine} {insts : List Inst} {w : Session}
    (hsane : e₀.host.Sane) (h : Reached base e₀ insts w) : w.Sound base := by
  induction h with
  | start hran =>
    have hc := (after_reloadStatics insts _ hsane).of_ran hran
    refine ⟨hc.lose Set.subset_union_left, fun q r hsome => nomatch hsome⟩
  | step _ hstep ih => exact ih.step hstep

/-- **The current value of a slot is the last word given to it.** In every session of a block the
current value of every slot is the last word given to it, initially the word in guest storage,
unless its register has been evicted as dead since or it is about to get a new word; and a value
reported as known is the last word given to the slot. Of the host it is asked that its bound slots
are integer slots, each in an integer register of its own that no order hands out (`Host.Sane`),
which both hosts meet. -/
theorem Session.current_eq_last {base : UInt64} {e₀ : Engine} {insts : List Inst} {w : Session}
    (hsane : e₀.host.Sane) (h : Reached base e₀ insts w) :
    (∀ s, s ∉ w.lost → s ∉ w.unset → w.engine.current base w.storage s = w.last s) ∧
      ∀ s v e, knownValue s w.engine = .ok (some v, e) → w.last s = v := by
  have hc := (h.sound hsane).coherent
  refine ⟨fun s hlost hunset => hc.current_eq fun hs => hs.elim hlost hunset, fun s v e hv => ?_⟩
  refine hc.known s v ?_
  unfold knownValue requireSlot at hv
  by_cases hs : s < Slot.count
  · rw [if_pos hs] at hv
    replace hv : Except.ok ((w.engine.residence s).known?, w.engine) = Except.ok (some v, e) := hv
    exact congrArg Prod.fst (Except.ok.inj hv)
  · rw [if_neg hs] at hv
    exact nomatch hv

/-! ## The hosts -/

theorem aarch64_sane : Aarch64.host.Sane := by decide

theorem amd64_sane : Amd64.host.Sane := by decide

theorem sketch_sane : sketch.Sane := by decide

/-! ## A session on the small host -/

/-- The engine after an operation that succeeds. -/
def Engine.after {α : Type} (e : Engine) (op : EngineM α) : Engine :=
  match op e with
  | .ok (_, e') => e'
  | .error _ => e

theorem ran_of_eval {α : Type} {base : UInt64} {op : EngineM α} {e : Engine} {x y : Storage} {a : α}
    {as : List Action} (hop : (op e).toOption.map Prod.fst = some a)
    (hacts : (e.after op).actions.toList = e.actions.toList ++ as)
    (hy : PerformsAll e.host base as x y) : Ran base op e x a (e.after op) y := by
  unfold Engine.after at hacts ⊢
  cases hres : op e with
  | error g =>
    rw [hres] at hop
    exact nomatch hop
  | ok p =>
    rw [hres] at hop hacts
    obtain ⟨b, e'⟩ := p
    cases hop
    exact ⟨hres, as, hacts, hy⟩

/-- On the small host with its binding in force as a pointer, slot 5 is read and gets the word 77.
The bound slot keeps its word. -/
theorem Session.current_eq_last_readWrite :
    sketch.Sane ∧ ∃ w : Session,
      Reached 4096 (Engine.new sketch { useStatics := true, pointerify := true }) [] w ∧
        w.engine.current 4096 w.storage 5 = 77 ∧ w.engine.current 4096 w.storage 29 = 29 := by
  let x : Storage := ⟨fun _ => 0, fun _ _ => 0, fun s => UInt32.ofNat s⟩
  let e := (Engine.new sketch { useStatics := true, pointerify := true }).start []
  -- the bound register is loaded and becomes a pointer
  obtain ⟨y, hy⟩ := exists_performsAll sketch 4096 [.load 3 29 1, .addBase 3] x
  have hstart : Ran 4096 reloadStatics e x () (e.after reloadStatics) y :=
    ran_of_eval (by decide) (by decide) hy
  obtain ⟨z, hz⟩ := exists_performsAll sketch 4096 [.load 0 5 1] y
  have hmap : Ran 4096 (mapInteger 5 .readWrite) (e.after reloadStatics) y 0
      ((e.after reloadStatics).after (mapInteger 5 .readWrite)) z :=
    ran_of_eval (by decide) (by decide) hz
  have hreached := (((Reached.start hstart).step (.map (.integer 5 .readWrite) rfl hmap)).step
    (.put rfl (z.onlyReg_setGpr 0 77)))
  obtain ⟨hcurrent, -⟩ := current_eq_last sketch_sane hreached
  have hbank : ((e.after reloadStatics).after (mapInteger 5 .readWrite)).host.bankOf 0 = .gpr := by
    decide
  have hfree : ((e.after reloadStatics).lock 5).findFree .gpr = some 0 := by decide
  refine ⟨sketch_sane, _, hreached, (hcurrent 5 ?_ ?_).trans ?_, (hcurrent 29 ?_ ?_).trans ?_⟩
  · exact fun h => h.2 ⟨by decide, by decide⟩
  · exact fun ⟨_, _, h, _⟩ => nomatch h
  · have hin : (Request.integer 5 .readWrite).first ≤ 5 ∧ 5 < (Request.integer 5 .readWrite).first
        + (Request.integer 5 .readWrite).width := by decide
    simp only [if_pos hin]
    unfold Storage.lane
    rw [hbank]
    rfl
  · rintro ⟨h | ⟨-, h, -⟩, -⟩
    · exact h
    · exact nomatch hfree.symm.trans h
  · exact fun ⟨_, _, h, _⟩ => nomatch h
  · have hout : ¬ ((Request.integer 5 .readWrite).first ≤ 29
        ∧ 29 < (Request.integer 5 .readWrite).first + (Request.integer 5 .readWrite).width) := by
      decide
    simp only [if_neg hout]
    rfl

end Dynarec.Registers
