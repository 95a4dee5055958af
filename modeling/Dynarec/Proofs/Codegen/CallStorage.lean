/-
Guest storage at the calls of a compiled block.

A call of the interpreter may fault and end the block, and then guest storage is all that is left of
the guest's registers. So it should have the last word of every slot. It has, except for slots whose
register was evicted as dead: the engine drops a register without a store if the next instruction
that touches its slot overwrites it, and does not ask whether a call comes before.
-/
import Dynarec.Proofs.Codegen.Sessions

set_option autoImplicit false
set_option maxRecDepth 8192

namespace Dynarec.Codegen

open Dynarec.Registers
open Dynarec.Registers.Session (Visited)

/-! ## Blocks being compiled -/

/-- The engine that a block is compiled with. -/
def engineOf (s : Settings) : Engine :=
  match s.target with
  | .aarch64 => Engine.new Aarch64.host (Aarch64.policy s)
  | .amd64 => Engine.new Amd64.host (Amd64.policy s)

/-- The engine when the instruction at position `n` of a block is about to be lowered, in a process
with the interpreter at `helper`. -/
def Reaches (helper : UInt64) (s : Settings) (b : Block) (n : Nat) (e : Engine) : Prop :=
  match s.target with
  | .aarch64 => Aarch64.Reaches helper s b n e
  | .amd64 => Amd64.Reaches helper s b n e

theorem attained_of_reaches {helper : UInt64} {s : Settings} {b : Block} {n : Nat} {e : Engine}
    (base : UInt64) (h : Reaches helper s b n e) : Engine.Attained base (engineOf s) b.insts e := by
  unfold Reaches at h
  unfold engineOf
  split at h
  · exact Aarch64.attained_of_reaches base h
  · exact Amd64.attained_of_reaches base h

theorem host_engineOf (s : Settings) :
    (engineOf s).host = Aarch64.host ∨ (engineOf s).host = Amd64.host := by
  unfold engineOf
  split
  · exact .inl (Engine.host_new _ _)
  · exact .inr (Engine.host_new _ _)

/-! ## A block with too few registers -/

/-- Ten slots, and the registers that they get. Slot 1 has lost its register when slot 11 gets it.
-/
def crowd : List (UInt8 × HostReg) :=
  [(1, 12), (3, 13), (4, 6), (5, 7), (6, 8), (7, 9), (8, 10), (9, 11), (10, 5), (11, 12)]

/-- The slots of the crowd get words computed from slot 2. With slot 2 itself there is one register
too few for them. Then comes a load that is lowered as a call, and then slot 1 gets a new word. -/
def crowded : Block where
  insts := crowd.map (fun p => ⟨.addConst, p.1, 2, 0⟩) ++ [⟨.load32Left, 12, 2, 1⟩, ⟨.mov, 1, 2, 0⟩]
  pool := ⟨[1, 0]⟩

/-- The engine when slot 2 has been mapped for the instruction at position `k`. -/
def sourced (e : Engine) (k : Nat) : Engine :=
  { (movedOn e k).after (mapInteger 2 .read) with actions := #[] }

/-- The engine when the slot that gets the word has been mapped as well. -/
def computed (e : Engine) (k : Nat) (d : Slot) : Engine :=
  { (sourced e k).after (mapInteger d .write) with actions := #[] }

/-- Slot 2 is in register 3, for which a load is needed at most, and `d` gets register `r`, for
which nothing is needed. -/
def Computes (e : Engine) (k : Nat) (d : Slot) (r : HostReg) : Prop :=
  (mapInteger 2 .read (movedOn e k)).toOption.map Prod.fst = some 3 ∧
    ((movedOn e k).after (mapInteger 2 .read)).actions.toList ∈ [[], [Action.load 3 2 1]] ∧
      (mapInteger d .write (sourced e k)).toOption.map Prod.fst = some r ∧
        ((sourced e k).after (mapInteger d .write)).actions.toList = []

instance (e : Engine) (k : Nat) (d : Slot) (r : HostReg) : Decidable (Computes e k d r) := by
  unfold Computes
  infer_instance

/-- The engine when the words of the crowd have been computed. -/
def computedAll (e : Engine) (k : Nat) : List (UInt8 × HostReg) → Engine
  | [] => e
  | p :: rest => computedAll (computed e k p.1.toNat) (k + 1) rest

/-- All of the crowd gets the registers that it should. -/
def computesAll (e : Engine) (k : Nat) : List (UInt8 × HostReg) → Bool
  | [] => true
  | p :: rest => Computes e k p.1.toNat p.2 && p.2 < 16 &&
    computesAll (computed e k p.1.toNat) (k + 1) rest

section Session

variable {base : UInt64} {e₀ : Engine} {insts : List Inst}

/-- A session goes on with the computation of a word. Guest storage stays as it is. -/
theorem exists_visited_computed {w : Session} (hw : w.Visited base e₀ insts) (hdue : w.due = none)
    (hhost : e₀.host = Amd64.host) {k : Nat} {d : Slot} {r : HostReg} (hr : r < 16)
    (h : Computes w.engine k d r) (hempty : w.engine.actions = #[]) :
    ∃ w' : Session, w'.Visited base e₀ insts ∧ w'.due = none ∧ w'.engine = computed w.engine k d ∧
      w'.storage.guest = w.storage.guest ∧ w'.last = assign w.last d 77 ∧ d ∉ w'.lost := by
  obtain ⟨hread, hload, hwrite, hquiet⟩ := h
  have hnone : (movedOn w.engine k).actions.toList = [] := congrArg Array.toList hempty
  -- slot 2
  obtain ⟨y, hy⟩ := exists_performsAll (movedOn w.engine k).host base
    ((movedOn w.engine k).after (mapInteger 2 .read)).actions.toList w.storage
  have hsource : Ran base (mapInteger 2 .read) (w.engine.beginInst k) w.storage 3
      ((movedOn w.engine k).after (mapInteger 2 .read)) y := by
    rw [← movedOn_eq]
    exact ran_of_eval hread (by rw [hnone, List.nil_append]) hy
  have hguest : y.guest = w.storage.guest := by
    obtain heq | heq := List.mem_pair.mp hload
    · rw [heq] at hy
      rw [show y = w.storage from hy]
    · rw [heq] at hy
      obtain ⟨z, hz, rfl⟩ := hy
      exact hz.1.1
  have hw₁ := ((hw.step (.beginInst k hdue)).step (.map (.integer 2 .read) hdue hsource)).handOver
  -- the slot that gets the word
  have hdest : Ran base (mapInteger d .write) (sourced w.engine k) y r
      ((sourced w.engine k).after (mapInteger d .write)) y :=
    ran_of_eval hwrite (hquiet.trans (List.append_nil _).symm) rfl
  have hw₂ := (hw₁.step (.map (.integer d .write) rfl hdest)).handOver
  refine ⟨_, hw₂.step (.put rfl (y.onlyReg_setGpr r 77)), rfl, rfl, hguest, ?_,
    fun hlost => hlost.2 ⟨le_refl d, Nat.lt_succ_self d⟩⟩
  obtain ⟨hsane, hkeeps⟩ := sane_of_host (.inr hhost)
  have hbank : ((sourced w.engine k).after (mapInteger d .write)).host.bankOf r = .gpr := by
    rw [(hw₂.sound hsane hkeeps).2.host, (e₀.start_fixed insts).1, hhost]
    exact if_pos hr
  funext t
  unfold assign
  refine if_congr ?_ ?_ rfl
  · show d ≤ t ∧ t < d + 1 ↔ t = d
    unfold Slot at *
    omega
  · unfold Storage.lane
    rw [hbank]
    show (if r = r then (77 : UInt64) else _).toUInt32 = 77
    rw [if_pos rfl]
    rfl

end Session

theorem after_eq {α : Type} {e : Engine} {op : EngineM α} {a : α}
    (hop : (op e).toOption.map Prod.fst = some a) : op e = .ok (a, e.after op) := by
  unfold Engine.after
  cases hres : op e with
  | error g =>
    rw [hres] at hop
    exact nomatch hop
  | ok p =>
    rw [hres] at hop
    cases hop
    rfl

/-- The code generator goes on with the computation of a word. -/
theorem yields_walk_computed (helper : UInt64) {st : Amd64.LowerState} {k : Nat} {d : UInt8}
    {r : HostReg}
    {rest : List Inst} {P : List (Opcode × Bool) → Amd64.LowerState → Prop} (hr : r < 16)
    (h : Computes st.engine k d.toNat r) (ht : Tables (computed st.engine k d.toNat))
    (hrest : ∀ st', st'.engine = computed st.engine k d.toNat →
      Yields ((Amd64.lowering helper).walk crowded (k + 1) rest) st' fun l st'' =>
        P ((.addConst, true) :: l) st'') :
    Yields ((Amd64.lowering helper).walk crowded k (⟨.addConst, d, 2, 0⟩ :: rest)) st P := by
  obtain ⟨hread, hload, hwrite, hquiet⟩ := h
  obtain ⟨asm₁, hasm₁⟩ : ∃ asm₁, st.asm.performAll
      ((movedOn st.engine k).after (mapInteger 2 .read)).actions = .ok asm₁ := by
    obtain heq | heq := List.mem_pair.mp hload
    · rw [Array.toList_eq_nil_iff.mp heq]
      exact ⟨_, rfl⟩
    · rw [show ((movedOn st.engine k).after (mapInteger 2 .read)).actions = #[.load 3 2 1] from
        Array.toList_inj.mp heq]
      exact ⟨_, rfl⟩
  have hreg : Amd64.integerReg r = .ok ⟨r, hr⟩ := dif_pos hr
  unfold Lowering.walk
  refine yields_bind (yields_modify (yields_lift (a := some 1) rfl ?_))
  rw [← movedOn_eq]
  refine yields_bind (yields_bind (yields_bind (Amd64.yields_withEngine (after_eq hread) hasm₁
    (yields_pure ?_))))
  have hasm₂ : asm₁.performAll ((sourced st.engine k).after (mapInteger d.toNat .write)).actions =
      .ok asm₁ := by
    rw [Array.toList_eq_nil_iff.mp hquiet]
    rfl
  refine yields_bind (yields_bind (Amd64.yields_withEngine (after_eq hwrite) hasm₂ ?_))
  · show Yields (liftM (Amd64.integerReg r)) _ _
    rw [hreg]
    refine yields_pure (yields_modify (yields_bind (yields_get ?_)))
    show Yields (liftM (computed st.engine k d.toNat).check : Amd64.LowerM Unit) _ _
    rw [ht.check_eq]
    exact yields_pure (yields_bind ((hrest _ rfl).mono fun _ _ h => yields_pure h))

/-- Both go on with the words of the crowd. Only the slots of the crowd get new words. -/
theorem exists_walk_computed (helper : UInt64) {base : UInt64} {e₀ : Engine} {insts : List Inst}
    (hhost : e₀.host = Amd64.host) (ps : List (UInt8 × HostReg)) :
    ∀ (k : Nat) (st : Amd64.LowerState) (w : Session), w.Visited base e₀ insts → w.due = none →
      w.engine = st.engine → st.engine.actions = #[] → computesAll st.engine k ps = true →
      Yields ((Amd64.lowering helper).walk crowded k (ps.map fun p => ⟨.addConst, p.1, 2, 0⟩)) st
        fun _ st' => st'.engine = computedAll st.engine k ps ∧
          ∃ w' : Session, w'.Visited base e₀ insts ∧ w'.due = none ∧ w'.engine = st'.engine ∧
            w'.storage.guest = w.storage.guest ∧
              w'.last = ps.foldl (fun last p => assign last p.1.toNat 77) w.last := by
  obtain ⟨hsane, hkeeps⟩ := sane_of_host (.inr hhost)
  induction ps with
  | nil =>
    intro k st w hw hdue hengine _ _
    exact yields_pure ⟨rfl, w, hw, hdue, hengine, rfl, rfl⟩
  | cons p rest ih =>
    intro k st w hw hdue hengine hempty hall
    simp only [computesAll, Bool.and_eq_true, decide_eq_true_eq] at hall
    obtain ⟨⟨hone, hr⟩, hrest⟩ := hall
    rw [← hengine] at hone hempty
    obtain ⟨w₁, hw₁, hdue₁, hengine₁, hguest, hlast, -⟩ :=
      exists_visited_computed hw hdue hhost hr hone hempty
    rw [hengine] at hone hengine₁
    refine yields_walk_computed helper hr hone ?_ fun st' hst' => ?_
    · rw [← hengine₁]
      exact (hw₁.sound hsane hkeeps).1.coherent.toTables
    · rw [← hst'] at hengine₁ hrest
      have hempty' : st'.engine.actions = #[] := by
        rw [hst']
        rfl
      refine (ih (k + 1) st' w₁ hw₁ hdue₁ hengine₁ hempty' hrest).mono ?_
      rintro l st'' ⟨hall, w', hw', hdue', hengine', hguest', hlast'⟩
      refine ⟨?_, w', hw', hdue', hengine', hguest'.trans hguest, ?_⟩
      · rw [hall, hst']
        rfl
      · rw [hlast', hlast]
        rfl

theorem computesAll_crowd :
    computesAll ((Engine.new Amd64.host {}).start crowded.insts) 0 crowd = true := by
  decide

theorem residence_crowd :
    (computedAll ((Engine.new Amd64.host {}).start crowded.insts) 0 crowd).residence 1 = .guest := by
  decide

/-- There are no bindings to be loaded on x86-64. -/
theorem ran_reloadStatics (insts : List Inst) (x : Storage) :
    Ran 4096 reloadStatics ((Engine.new Amd64.host {}).start insts) x ()
      ((Engine.new Amd64.host {}).start insts) x :=
  ⟨rfl, [], (List.append_nil _).symm, rfl⟩

/-! ## Guest storage -/

/-- **Guest storage is complete at a call, up to slots evicted as dead.** Whatever instruction of
whatever block is about to be lowered, the engine is that of some session; and in all sessions that
have it, everything can be stored for a call of any helper, and guest storage then has the value
that the engine had for each slot. That is the last word given to the slot, unless its register has
been evicted as dead since. -/
theorem storage_at_call (helper : UInt64) (s : Settings) (b : Block) (n : Nat) (e : Engine)
    (h : Reaches helper s b n e) (base : UInt64) (writes : List Slot) :
    (∃ w : Session, w.Visited base (engineOf s) b.insts ∧ w.due = none ∧ w.engine = e) ∧
      ∀ w : Session, w.Visited base (engineOf s) b.insts → w.due = none → w.engine = e →
        (∃ e₁ x₁, Ran base (flushBeforeCall writes) e w.storage () e₁ x₁) ∧
          ∀ e₁ x₁, Ran base (flushBeforeCall writes) e w.storage () e₁ x₁ →
            (∀ t, x₁.guest t = e.current base w.storage t) ∧
              ∀ t, t ∉ w.lost → x₁.guest t = w.last t := by
  obtain ⟨hsane, hkeeps⟩ := sane_of_host (host_engineOf s)
  refine ⟨attained_of_reaches base h, ?_⟩
  rintro w hw hdue rfl
  exact hw.stored_at_call hsane hkeeps hdue writes

/-- When slot 1 of the crowded block has been given 77 and has its register still, 77 is stored for
a call. -/
theorem storage_at_call_computed : ∃ (e : Engine) (w : Session) (e₁ : Engine) (x₁ : Storage),
    Reaches 0x555555554000 (Settings.standard .amd64) crowded 1 e ∧ w.engine = e ∧
      Ran 4096 (flushBeforeCall [12]) e w.storage () e₁ x₁ ∧ x₁.guest 1 = 77 := by
  let e₀ := Engine.new Amd64.host {}
  let x : Storage := ⟨fun _ => 0, fun _ _ => 0, fun _ => 0⟩
  obtain ⟨hone, -⟩ := Bool.and_eq_true_iff.mp (Bool.and_eq_true_iff.mp computesAll_crowd).1
  have hone : Computes (e₀.start crowded.insts) 0 1 12 := of_decide_eq_true hone
  obtain ⟨w, hw, hdue, hengine, -, hlast, hkept⟩ :=
    exists_visited_computed (Session.Visited.start (ran_reloadStatics crowded.insts x)) rfl rfl
      (by decide) hone rfl
  have ht := (hw.sound amd64_sane amd64_keepsStatics).1.coherent.toTables
  rw [hengine] at ht
  obtain ⟨lowered, st, hrun, hst⟩ : Yields
      ((Amd64.lowering 0x555555554000).walk crowded 0 [⟨.addConst, 1, 2, 0⟩])
      ⟨e₀.start crowded.insts, {}, (Amd64.Assembler.newLabel {}).1⟩
      fun _ st => st.engine = computed (e₀.start crowded.insts) 0 1 :=
    yields_walk_computed _ (by decide) hone ht fun st' h => yields_pure h
  have hreach :
      Reaches 0x555555554000 (Settings.standard .amd64) crowded 1 (w.engine.beginInst 1) :=
    ⟨lowered, st, _, _, hrun, by rw [hengine, hst]⟩
  obtain ⟨-, hcall⟩ := storage_at_call _ _ _ _ _ hreach 4096 [12]
  obtain ⟨⟨e₁, x₁, hflush⟩, hstored⟩ := hcall _ (hw.step (.beginInst 1 hdue)) hdue rfl
  refine ⟨_, _, e₁, x₁, hreach, rfl, hflush, ?_⟩
  rw [(hstored e₁ x₁ hflush).2 1 hkept]
  show w.last 1 = 77
  rw [hlast]
  rfl

/-- **Guest storage is not complete at every call.** When the load of the crowded block is about to
be lowered as a call, slot 1 has been given 77, but when everything has been stored, guest storage
has its old word 0. -/
theorem storage_stale_at_call : ∃ (e : Engine) (w : Session),
    Reaches 0x555555554000 (Settings.standard .amd64) crowded 10 e ∧
      crowded.insts[10]? = some ⟨.load32Left, 12, 2, 1⟩ ∧
        Opcode.load32Left.nativeOnAmd64 = false ∧ Slot.isTemp 1 = false ∧
          w.Visited 4096 (engineOf (Settings.standard .amd64)) crowded.insts ∧ w.due = none ∧
            w.engine = e ∧ w.last 1 = 77 ∧
              ∃ e₁ x₁, Ran 4096 (flushBeforeCall (Inst.writeSlots ⟨.load32Left, 12, 2, 1⟩)) e
                w.storage () e₁ x₁ ∧ x₁.guest 1 = 0 := by
  let e₀ := Engine.new Amd64.host {}
  let x : Storage := ⟨fun _ => 0, fun _ _ => 0, fun _ => 0⟩
  obtain ⟨lowered, st, hrun, hst, w, hw, hdue, hengine, hguest, hlast⟩ :=
    exists_walk_computed 0x555555554000 rfl crowd 0
      ⟨e₀.start crowded.insts, {}, (Amd64.Assembler.newLabel {}).1⟩ _
      (Session.Visited.start (ran_reloadStatics crowded.insts x)) rfl rfl rfl computesAll_crowd
  have hw' := hw.step (.beginInst 10 hdue)
  obtain ⟨⟨e₁, x₁, hflush⟩, hstored⟩ :=
    hw'.stored_at_call amd64_sane amd64_keepsStatics hdue [12]
  refine ⟨w.engine.beginInst 10, _, ⟨lowered, st, _, _, hrun, by rw [hengine]⟩, by decide, rfl,
    by decide, hw', hdue, rfl, ?_, e₁, x₁, hflush, ?_⟩
  · show w.last 1 = 77
    rw [hlast]
    rfl
  · rw [(hstored e₁ x₁ hflush).1 1]
    show (w.engine.beginInst 10).current 4096 w.storage 1 = 0
    unfold Engine.current
    rw [(w.engine.alike_beginInst 10).residence, hengine, hst, residence_crowd]
    show w.storage.guest 1 = 0
    rw [hguest]

end Dynarec.Codegen
