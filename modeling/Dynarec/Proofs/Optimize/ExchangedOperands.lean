/-
The float sums and products whose operands constant propagation exchanges.

When the second operand of a sum or product of floats is also its destination, the pass emits the
instruction with the operands exchanged. Everything about the machine afterwards is the same, but
for the bits of the destination: the first of two NaNs is the result, so the exchange shows exactly
if both operands are NaNs that differ when made quiet.

Where the instruction is in the output follows from how the pass goes on: it may be interrupted
before any instruction and taken up again, and what it has appended stays.
-/
import Dynarec.Proofs.Optimize.ConstantDemand
import Dynarec.Proofs.Optimize.LocalRewrites
import Dynarec.Proofs.Optimize.RepeatedFolding
import Dynarec.Proofs.Single.Commutation

set_option autoImplicit false
set_option maxRecDepth 2048

namespace Dynarec

open Guest
open Single (Clash TakesFirstNaN quiet)

/-! ## The instruction -/

namespace Guest

variable {i : Inst} {c v w : Word} {m : Machine}

theorem effect_takesFirstNaN (hop : i.op = .fAdd ∨ i.op = .fMul) :
    ∃ f, TakesFirstNaN f ∧ ∀ (a b : UInt8) (m : Machine) (c : Word),
      effect { i with src1 := a, src2 := b } c m
        = floatBinary { i with src1 := a, src2 := b } m.state f := by
  obtain ⟨op, dest, src1, src2⟩ := i
  rcases hop with rfl | rfl
  · exact ⟨Single.add, Single.takesFirstNaN_add, fun _ _ _ _ => rfl⟩
  · exact ⟨Single.guestMul, Single.takesFirstNaN_guestMul, fun _ _ _ _ => rfl⟩

theorem Machine.setFloat_inj {f : UInt8} (hf : Slot.ofFloat f < 256) :
    m.setFloat f v = m.setFloat f w ↔ v = w := by
  refine ⟨fun h => ?_, congrArg _⟩
  have hslot : ∀ u, (m.setFloat f u).state.slot (Slot.ofFloat f) = u := fun u =>
    (State.slot_setSlot ..).trans (if_pos ⟨rfl, hf⟩)
  rw [← hslot v, h, hslot]

/-- One operation is applied to the operands in either order. If a register is none of the file, the
instruction fails in either order, since the destination is one of the operands. -/
theorem step_exchanged (hop : i.op = .fAdd ∨ i.op = .fMul) (hdest : i.src2 = i.dest) :
    ∃ f, TakesFirstNaN f ∧ ∀ (c : Word) (m : Machine),
      (∀ v w, m.state.float i.src1 = .ok v → m.state.float i.src2 = .ok w →
        step i c m = (.ok none, m.setFloat i.dest (f v w)) ∧
        step { i with src1 := i.src2, src2 := i.src1 } c m
          = (.ok none, m.setFloat i.dest (f w v))) ∧
      ((∀ v w, m.state.float i.src1 = .ok v → m.state.float i.src2 ≠ .ok w) →
        step { i with src1 := i.src2, src2 := i.src1 } c m = step i c m) := by
  obtain ⟨f, hf, heffect⟩ := effect_takesFirstNaN hop
  refine ⟨f, hf, fun c m => ?_⟩
  rw [step_floatBinary (heffect i.src1 i.src2 m c), step_floatBinary (heffect i.src2 i.src1 m c)]
  constructor
  · intro v w hv hw
    obtain ⟨h1, hv⟩ := State.slot_of_float hv
    obtain ⟨h2, hw⟩ := State.slot_of_float hw
    have hd : Slot.ofFloat i.dest < 256 := hdest ▸ h2
    rw [if_pos ⟨h1, h2, hd⟩, if_pos ⟨h2, h1, hd⟩]
    subst hv hw
    exact ⟨rfl, rfl⟩
  · intro h
    have hout : ¬(Slot.ofFloat i.src1 < 256 ∧ Slot.ofFloat i.src2 < 256) := fun ⟨h1, h2⟩ =>
      h _ _ (State.float_eq h1) (State.float_eq h2)
    rw [if_neg fun hall => hout ⟨hall.2.1, hall.1⟩, if_neg fun hall => hout ⟨hall.1, hall.2.1⟩]

/-- **An exchange of operands shows exactly if they clash.** -/
theorem step_exchanged_iff (hop : i.op = .fAdd ∨ i.op = .fMul) (hdest : i.src2 = i.dest) :
    step { i with src1 := i.src2, src2 := i.src1 } c m = step i c m ↔
      ∀ v w, m.state.float i.src1 = .ok v → m.state.float i.src2 = .ok w → ¬Clash v w := by
  obtain ⟨f, hf, hstep⟩ := step_exchanged hop hdest
  obtain ⟨hboth, hfails⟩ := hstep c m
  constructor
  · intro h v w hv hw
    obtain ⟨hplain, hexchanged⟩ := hboth v w hv hw
    rw [hplain, hexchanged, Prod.mk.injEq] at h
    have hd : Slot.ofFloat i.dest < 256 := hdest ▸ (State.slot_of_float hw).1
    exact hf.comm_iff.mp ((Machine.setFloat_inj hd).mp h.2).symm
  · intro h
    by_cases hreads : ∃ v w, m.state.float i.src1 = .ok v ∧ m.state.float i.src2 = .ok w
    · obtain ⟨v, w, hv, hw⟩ := hreads
      obtain ⟨hplain, hexchanged⟩ := hboth v w hv hw
      rw [hplain, hexchanged, hf.comm_iff.mpr (h v w hv hw)]
    · exact hfails fun v w hv hw => hreads ⟨v, w, hv, hw⟩

/-- Of two words that clash, the instruction leaves the first one, made quiet, and the one with
exchanged operands leaves the second. -/
theorem step_of_clash (hop : i.op = .fAdd ∨ i.op = .fMul) (hdest : i.src2 = i.dest)
    (hv : m.state.float i.src1 = .ok v) (hw : m.state.float i.src2 = .ok w) (h : Clash v w) :
    step i c m = (.ok none, m.setFloat i.dest (quiet v)) ∧
      step { i with src1 := i.src2, src2 := i.src1 } c m
        = (.ok none, m.setFloat i.dest (quiet w)) := by
  obtain ⟨f, hf, hstep⟩ := step_exchanged hop hdest
  rw [← hf.of_clash h, ← hf.of_clash h.symm]
  exact (hstep c m).1 v w hv hw

end Guest

namespace Optimize.ConstantPropagation

open Folding

variable {source b b' : Block} {limit cap : Nat} {insts pre post : List Inst} {i : Inst}
  {s s' : Folding} {c? : Option Word}

/-! ## What has been built stays -/

theorem Folding.Draws.keeps {V : Word → Prop} {x : Block → Except Fault Folding}
    (h : Draws V x) (hb : x b = .ok s') : b.insts <+: s'.out.insts := by
  obtain ⟨t, ws, -, -, hx⟩ := h
  obtain ⟨f, -, hf⟩ | ⟨p, new, -, hp⟩ := hx b
  · exact nomatch hf.symm.trans hb
  · cases hp.symm.trans hb
    exact List.prefix_append _ _

theorem constantOf_none_or (h : source.constantOf i = .ok c?) :
    c? = none ∨ i.op.constField?.isSome = true := by
  cases hf : i.op.constField? with
  | some f => exact Or.inr rfl
  | none =>
    rw [Block.constantOf, Block.constantIndex_eq_none hf] at h
    exact Or.inl (Except.ok.inj h).symm

theorem prefix_fold (hi : c? = none ∨ i.op.constField?.isSome = true)
    (h : s.fold i c? = .ok s') : s.out.insts <+: s'.out.insts := by
  obtain ⟨v, hdraws⟩ := adds_fold (s := s) hi
  exact (hdraws (fun _ => True) trivial fun _ _ _ _ => trivial).keeps (b := s.out) h

theorem prefix_flushAll (h : s.flushAll = .ok s') : s.out.insts <+: s'.out.insts := by
  have hdraws : Draws (fun _ => True) fun b => (s.on b).flushAll :=
    draws_flushAll fun _ _ _ _ => trivial
  exact hdraws.keeps (b := s.out) h

theorem prefix_walk (h : walk source limit insts s = .ok s') : s.out.insts <+: s'.out.insts := by
  induction insts generalizing s with
  | nil =>
    cases Except.ok.inj h
    exact List.prefix_rfl
  | cons i rest ih =>
    rw [walk] at h
    split at h
    · obtain ⟨t, ht, h⟩ := bind_eq_ok.mp h
      obtain ⟨out, hout, h⟩ := bind_eq_ok.mp h
      rw [← pure_eq_ok.mp h]
      obtain ⟨js, -, hjs⟩ := appendAll_insts (i :: rest) hout
      exact (prefix_flushAll ht).trans ⟨js, hjs.symm⟩
    · obtain ⟨c?, hc, h⟩ := bind_eq_ok.mp h
      obtain ⟨t, ht, h⟩ := bind_eq_ok.mp h
      exact (prefix_fold (constantOf_none_or hc) ht).trans (ih h)

/-! ## Interrupting the walk -/

theorem appendAll_append (b source : Block) (is js : List Inst) :
    b.appendAll source (is ++ js) = b.appendAll source is >>= fun b => b.appendAll source js :=
  List.foldlM_append

/-- When the pool has passed the limit and everything is flushed, the rest is taken over. -/
theorem walk_of_synced (hlimit : limit < s.out.pool.size) (hs : ∀ r, s.Synced r)
    (rest : List Inst) : walk source limit rest s
      = s.out.appendAll source rest >>= fun out => .ok { s with out := out } := by
  cases rest with
  | nil => rfl
  | cons i rest =>
    rw [walk, if_pos hlimit, flushAll_of_synced hs]
    rfl

/-- **The walk may be interrupted.** -/
theorem walk_append (pre rest : List Inst) (s : Folding) :
    walk source limit (pre ++ rest) s = walk source limit pre s >>= walk source limit rest := by
  induction pre generalizing s with
  | nil => rfl
  | cons i pre ih =>
    rw [List.cons_append, walk, walk]
    by_cases hlimit : limit < s.out.pool.size
    · rw [if_pos hlimit, if_pos hlimit]
      cases ht : s.flushAll with
      | error f => rfl
      | ok t =>
        show (t.out.appendAll source (i :: pre ++ rest) >>= fun out => .ok { t with out := out })
          = (t.out.appendAll source (i :: pre) >>= fun out => .ok { t with out := out })
            >>= walk source limit rest
        rw [appendAll_append, bind_assoc, bind_assoc]
        cases hout : t.out.appendAll source (i :: pre) with
        | error f => rfl
        | ok out =>
          -- the pool has passed the limit and nothing is left to be flushed
          have hgrown : limit < out.pool.size :=
            Nat.lt_of_lt_of_le hlimit
              (Nat.le_trans (pool_flushes _ ht) (pool_appendAll _ hout))
          exact (walk_of_synced (s := { t with out := out }) hgrown
            (flushed_flushAll ht).2 rest).symm
    · rw [if_neg hlimit, if_neg hlimit, bind_assoc]
      refine congrArg _ (funext fun c? => ?_)
      rw [bind_assoc]
      exact congrArg _ (funext ih)

/-! ## The exchange -/

/-- Flushes set registers to constants. -/
theorem flushes_insts (l : List UInt8) (h : l.foldlM Folding.flush s = .ok s') :
    ∃ flushed, (∀ j ∈ flushed, j.op = .setConst) ∧ s'.out.insts = s.out.insts ++ flushed := by
  refine flushes_keep
    (I := fun t => ∃ flushed, (∀ j ∈ flushed, j.op = .setConst) ∧
      t.out.insts = s.out.insts ++ flushed)
    (fun r t t' ht hflush => ?_) l ⟨[], fun _ hj => absurd hj List.not_mem_nil, by simp⟩ h
  obtain ⟨flushed, hops, hinsts⟩ := ht
  rcases flush_cases hflush with ⟨-, rfl⟩ | ⟨w, b, -, -, -, hb, rfl⟩
  · exact ⟨flushed, hops, hinsts⟩
  · rw [Block.setConst_eq] at hb
    obtain ⟨j, hj, hpush⟩ := pushWith_insts hb
    refine ⟨flushed ++ [j], fun k hk => ?_, ?_⟩
    · rcases List.mem_append.mp hk with hk | hk
      · exact hops k hk
      · rw [List.mem_singleton.mp hk, hj.op]
    · rw [← List.append_assoc, ← hinsts]
      exact hpush

/-- **One instruction.** What it reads is flushed, then it is emitted with its operands
exchanged. -/
theorem fold_exchanged (hop : i.op = .fAdd ∨ i.op = .fMul) (hdest : i.src2 = i.dest)
    (hne : i.src1 ≠ i.dest) (h : s.fold i none = .ok s') :
    ∃ flushed, (∀ j ∈ flushed, j.op = .setConst) ∧ s'.out.insts
      = s.out.insts ++ flushed ++ [{ i with src1 := i.src2, src2 := i.src1 }] := by
  have hswap : swapTowardDest i = { i with src1 := i.src2, src2 := i.src1 } :=
    if_pos ⟨hdest, fun hsame => hne (hsame.trans hdest)⟩
  rw [fold_swapped hop, hswap] at h
  obtain ⟨t, ht, h⟩ := bind_eq_ok.mp h
  obtain ⟨flushed, hops, hinsts⟩ := flushes_insts _ ht
  refine ⟨flushed, hops, ?_⟩
  have hforget : ∀ rs : List UInt8, (rs.foldl forget t).out = t.out := fun rs =>
    congrArg (·.out) (foldl_forget_on rs t t.out)
  rw [← Except.ok.inj h, ← hinsts, ← hforget]
  rfl

/-- The rest of the walk, from the instruction on. If the pool has passed the limit the instruction
is taken over, otherwise it is folded. -/
theorem walk_exchanged (hop : i.op = .fAdd ∨ i.op = .fMul) (hdest : i.src2 = i.dest)
    (hne : i.src1 ≠ i.dest) (h : walk source limit (i :: post) s = .ok s') :
    ∃ flushed after, (∀ j ∈ flushed, j.op = .setConst) ∧
      s'.out.insts = s.out.insts ++ flushed ++
        (if limit < s.out.pool.size then i else { i with src1 := i.src2, src2 := i.src1 })
          :: after := by
  have hnone : i.constantIndex = none := by
    refine Block.constantIndex_eq_none ?_
    rcases hop with hop | hop <;> rw [Opcode.constField?, hop] <;> rfl
  rw [walk] at h
  by_cases hlimit : limit < s.out.pool.size
  · rw [if_pos hlimit] at h
    obtain ⟨t, ht, h⟩ := bind_eq_ok.mp h
    obtain ⟨out, hout, h⟩ := bind_eq_ok.mp h
    obtain ⟨flushed, hops, hflushed⟩ := flushes_insts flushOrder ht
    obtain ⟨out₁, hi, hpost⟩ := bind_eq_ok.mp hout
    obtain ⟨after, -, hafter⟩ := appendAll_insts post hpost
    refine ⟨flushed, after, hops, ?_⟩
    rw [if_pos hlimit, ← pure_eq_ok.mp h, hafter, append_eq_push hnone hi, ← hflushed,
      ← List.singleton_append, ← List.append_assoc]
    rfl
  · rw [if_neg hlimit] at h
    obtain ⟨c?, hc, hfold⟩ := bind_eq_ok.mp h
    rw [Block.constantOf, hnone] at hc
    obtain rfl := Except.ok.inj hc
    obtain ⟨t, ht, hrest⟩ := bind_eq_ok.mp hfold
    obtain ⟨flushed, hops, hflushed⟩ := fold_exchanged hop hdest hne ht
    obtain ⟨after, hafter⟩ := prefix_walk hrest
    refine ⟨flushed, after, hops, ?_⟩
    rw [if_neg hlimit, ← hafter, hflushed, List.append_assoc _ [_], List.singleton_append]

/-- **Where the instruction is.** In the output of the pass, what has been built before the
instruction comes first, then some registers are set, then the instruction comes with its operands
exchanged, unless the pool has passed the limit before. -/
theorem run_exchanged (hinsts : b.insts = pre ++ i :: post) (hop : i.op = .fAdd ∨ i.op = .fMul)
    (hdest : i.src2 = i.dest) (hne : i.src1 ≠ i.dest) (hrun : run cap b = .ok b') :
    ∃ s flushed after, walk b (b.pool.size + cap) pre {} = .ok s ∧
      (∀ j ∈ flushed, j.op = .setConst) ∧
      b'.insts = s.out.insts ++ flushed ++
        (if b.pool.size + cap < s.out.pool.size then i
          else { i with src1 := i.src2, src2 := i.src1 }) :: after := by
  obtain ⟨limit, hlimit, h⟩ := bind_eq_ok.mp hrun
  obtain ⟨s₂, hwalk, h⟩ := bind_eq_ok.mp h
  obtain ⟨s₃, hflush, h⟩ := bind_eq_ok.mp h
  rw [hinsts, walk_append] at hwalk
  obtain ⟨s, hpre, hwalk⟩ := bind_eq_ok.mp hwalk
  obtain ⟨flushed, after, hops, hwalked⟩ := walk_exchanged hop hdest hne hwalk
  obtain ⟨last, hlast⟩ := prefix_flushAll hflush
  rw [← pure_eq_ok.mp h, ← asDouble_eq_ok hlimit]
  refine ⟨s, flushed, after ++ last, hpre, hops, ?_⟩
  rw [← hlast, hwalked, List.append_assoc, List.cons_append]

/-- **Exchanging the operands of a float sum or product.** In every program, an instruction whose
second operand is also its destination is emitted with its operands exchanged. Then it leaves the
same machine exactly if the operands are not two NaNs that differ when made quiet; if they are, the
destination gets the second one instead of the first. -/
theorem exchange_keeps_bits_iff (hinsts : b.insts = pre ++ i :: post)
    (hop : i.op = .fAdd ∨ i.op = .fMul) (hdest : i.src2 = i.dest) (hne : i.src1 ≠ i.dest)
    (hrun : run cap b = .ok b') :
    let exchanged : Inst := { i with src1 := i.src2, src2 := i.src1 }
    (∃ s flushed after, walk b (b.pool.size + cap) pre {} = .ok s ∧
      (∀ j ∈ flushed, j.op = .setConst) ∧ b'.insts = s.out.insts ++ flushed ++
        (if b.pool.size + cap < s.out.pool.size then i else exchanged) :: after) ∧
    ∀ (c : Word) (m : Machine),
      (step exchanged c m = step i c m ↔
        ∀ v w, m.state.float i.src1 = .ok v → m.state.float i.src2 = .ok w → ¬Clash v w) ∧
      ∀ v w, m.state.float i.src1 = .ok v → m.state.float i.src2 = .ok w → Clash v w →
        step i c m = (.ok none, m.setFloat i.dest (quiet v)) ∧
        step exchanged c m = (.ok none, m.setFloat i.dest (quiet w)) :=
  ⟨run_exchanged hinsts hop hdest hne hrun, fun _ _ =>
    ⟨step_exchanged_iff hop hdest, fun _ _ hv hw => step_of_clash hop hdest hv hw⟩⟩

/-- Infinity times zero, the zero in the destination: the exchange does not show. -/
theorem exchange_keeps_infinity_by_zero :
    let i : Inst := ⟨.fMul, 1, 0, 1⟩
    let b : Block := ⟨[⟨.setConst, 4, 0, 0⟩, i], ⟨[7]⟩⟩
    let b' : Block := ⟨[⟨.fMul, 1, 1, 0⟩, ⟨.setConst, 4, 0, 0⟩], ⟨[7]⟩⟩
    let m : Machine := ⟨({} : State).setSlots [(32, 0x7f800000), (33, 0x80000000)], Memory.zeroed 0⟩
    b.insts = [⟨.setConst, 4, 0, 0⟩] ++ i :: [] ∧ i.src2 = i.dest ∧ i.src1 ≠ i.dest ∧
      run 128 b = .ok b' ∧ step ⟨.fMul, 1, 1, 0⟩ 0 m = step i 0 m ∧
      (step i 0 m).2.state.float 1 = .ok 0x7fc00000 := by
  intro i b b' m
  have hinsts : b.insts = [⟨.setConst, 4, 0, 0⟩] ++ i :: [] := rfl
  have hne : i.src1 ≠ i.dest := by decide
  have hrun : run 128 b = .ok b' := by
    rw [← runTable_eq]
    decide
  have hfirst : m.state.float 0 = .ok 0x7f800000 := by decide
  have hsecond : m.state.float 1 = .ok 0x80000000 := by decide
  have hclash : ∀ v w, m.state.float i.src1 = .ok v → m.state.float i.src2 = .ok w →
      ¬Clash v w := by
    intro v w hv hw
    obtain rfl := Except.ok.inj (hfirst.symm.trans hv)
    obtain rfl := Except.ok.inj (hsecond.symm.trans hw)
    decide
  obtain ⟨-, hexchange⟩ := exchange_keeps_bits_iff hinsts (Or.inr rfl) rfl hne hrun
  exact ⟨hinsts, rfl, hne, hrun, (hexchange 0 m).1.mpr hclash, by decide⟩

/-- **The exchange of operands can change the result.** The sum of two quiet NaNs is the first of
them in the program, and the second one in the output. -/
theorem exchange_changes_payload :
    let b : Block := ⟨[⟨.fAdd, 1, 0, 1⟩], {}⟩
    let b' : Block := ⟨[⟨.fAdd, 1, 1, 0⟩], {}⟩
    let m : Machine := ⟨({} : State).setSlots [(32, 0x7fc00001), (33, 0x7fc00002)], Memory.zeroed 0⟩
    run 128 b = .ok b' ∧
      (runBlock b m).1 = .ok none ∧ (runBlock b m).2.state.float 1 = .ok 0x7fc00001 ∧
      (runBlock b' m).1 = .ok none ∧ (runBlock b' m).2.state.float 1 = .ok 0x7fc00002 := by
  intro b b' m
  rw [← runTable_eq]
  decide

end Optimize.ConstantPropagation

end Dynarec
