/-
Narrowing twice.

A dropped mask no longer hides what comes behind it. When a load is masked to 16 bits and then to 8,
the first narrowing sees the first mask only; it leaves a half-word load behind which the second
mask now comes first, and a second narrowing makes it a byte load. `Cascades` says that this happens
somewhere in a list of instructions. `run_again` proves that it is the only reason for which
narrowing changes its own output, and that narrowing a third time never changes anything;
`run_not_idempotent` is a block in which it happens.

The pass works with positions, and what it does to one instruction depends on loads far before it.
`thin` is the same pass as one recursion over the instructions: it carries along the registers whose
next mask is dropped, and decides at each load by the mask that comes next (`nextMask`).
`run_eq_thin` proves the two equal. Of the output one then only has to know which mask comes next
after each of its loads: the same one as before for a register that is not waiting for its mask
(`nextMask_thin`), and the one behind it for a register that is (`nextMask_thin_due`).
-/
import Dynarec.Proofs.Optimize.CanonicalPools
import Dynarec.Proofs.Optimize.NarrowLoads
import Dynarec.Proofs.Optimize.Refinement

set_option autoImplicit false

namespace Dynarec.Optimize.NarrowLoads

open Guest

/-! ## The next mask of a register -/

/-- The instruction is a mask of a register. -/
def IsMask (i : Inst) (reg : UInt8) : Prop := i.op = .andConst ∧ i.src1 = reg ∧ i.dest = reg

instance (i : Inst) (reg : UInt8) : Decidable (IsMask i reg) :=
  inferInstanceAs (Decidable (_ ∧ _ ∧ _))

/-- The instruction ends the search for the mask of a register. -/
def blocks (i : Inst) (reg : UInt8) : Bool :=
  i.isExit || i.isBarrier || i.readsGpr reg || i.destGpr == some reg

/-- The mask of a register that comes before anything that reads the register, names it as its
destination or leaves the block, and the instructions behind it. -/
def nextMask (p : Pool) (reg : UInt8) : List Inst → Option (Word × List Inst)
  | [] => none
  | i :: rest =>
    if IsMask i reg then some (p.constant i, rest)
    else if blocks i reg then none
    else nextMask p reg rest

variable {b : Block} {p : Pool} {i j : Inst} {insts rest : List Inst} {load op : Opcode}
  {keep : Bool} {w : Word} {reg r : UInt8} {pos here : Nat} {ps : List Promise}
  {ns past later : List Narrowing} {due : List UInt8}

theorem readSlots_mask (h : IsMask i reg) : i.readSlots = [reg.toNat] := by
  obtain ⟨hop, hsrc, -⟩ := h
  rw [Inst.readSlots, hop, hsrc]
  rfl

/-- A mask is in the way of its own register only. -/
theorem blocks_mask (h : IsMask i reg) : blocks i r = (r == reg) := by
  have hread : i.readsGpr r = (r == reg) := by
    rw [Inst.readsGpr, Inst.readsSlot, readSlots_mask h, List.contains_eq_mem, Bool.eq_iff_iff]
    simp only [List.mem_singleton, UInt8.toNat_inj, decide_eq_true_eq, beq_iff_eq]
  have hdest : (i.destGpr == some r) = (r == reg) := by
    rw [Inst.destGpr, h.1, h.2.2, if_pos (by decide), Bool.eq_iff_iff, beq_iff_eq, beq_iff_eq,
      Option.some.injEq, eq_comm]
  rw [blocks, hread, hdest, Inst.isExit, Inst.isBarrier, h.1]
  exact Bool.or_self _

theorem blocks_other_mask (h : IsMask i reg) (hne : r ≠ reg) : blocks i r = false := by
  rw [blocks_mask h, beq_eq_false_iff_ne.mpr hne]

/-- **What the search finds** is decided by the next mask. -/
theorem search_eq (hb : ∀ i ∈ insts, ∀ k, i.constantIndex = some k → k.toNat < b.pool.size) :
    ∃ k, search b load reg pos here insts = .ok
      (((nextMask b.pool reg insts).bind fun m => narrow? load m.1).map (Narrowing.at pos k)) := by
  induction insts generalizing here with
  | nil => exact ⟨here, rfl⟩
  | cons i rest ih =>
    have hrest := fun j hj => hb j (List.mem_cons_of_mem i hj)
    rw [search, nextMask]
    by_cases hmask : IsMask i reg
    · have hmask' : i.op = .andConst ∧ i.src1 = reg ∧ i.dest = reg := hmask
      have hstay : (i.isExit || i.isBarrier) = false := by
        rw [Inst.isExit, Inst.isBarrier, hmask.1]
        rfl
      have hread : i.readsGpr reg = true := by
        rw [Inst.readsGpr, Inst.readsSlot, readSlots_mask hmask, List.contains_iff_mem]
        exact List.mem_singleton_self _
      refine ⟨here, ?_⟩
      rw [if_pos hmask, hstay, if_neg Bool.false_ne_true, if_pos hread, if_pos hmask',
        constantOf_mask hmask.1 (hb i List.mem_cons_self), Option.bind_some]
      simp only [bind, Except.bind, Option.getD_some]
      cases narrow? load (b.pool.constant i) <;> rfl
    · have hmask' : ¬(i.op = .andConst ∧ i.src1 = reg ∧ i.dest = reg) := hmask
      rw [if_neg hmask, if_neg hmask', blocks]
      by_cases hleave : (i.isExit || i.isBarrier) = true
      · rw [if_pos hleave, hleave, Bool.true_or, Bool.true_or, if_pos rfl]
        exact ⟨here, rfl⟩
      by_cases hread : i.readsGpr reg = true
      · rw [if_neg hleave, if_pos hread, hread, Bool.or_true, Bool.true_or, if_pos rfl]
        exact ⟨here, rfl⟩
      rw [Bool.not_eq_true] at hleave hread
      rw [hleave, hread, if_neg Bool.false_ne_true, if_neg Bool.false_ne_true, Bool.or_false,
        Bool.false_or]
      by_cases hdest : i.destGpr = some reg
      · rw [if_pos hdest, hdest, beq_self_eq_true, if_pos rfl]
        exact ⟨here, rfl⟩
      · rw [if_neg hdest, if_neg fun h => hdest (eq_of_beq h)]
        exact ih hrest

/-! ## The pass without positions -/

/-- How a load is narrowed, seen from what follows it. -/
def narrowing? (p : Pool) (i : Inst) (rest : List Inst) : Option (Opcode × Bool) :=
  if isWide i.op ∧ i.dest ≠ 0 then (nextMask p i.dest rest).bind fun m => narrow? i.op m.1
  else none

/-- What is left of instructions when the next mask of each register in `due` is dropped. -/
def thin (p : Pool) : List UInt8 → List Inst → List Inst
  | _, [] => []
  | due, i :: rest =>
    if IsMask i i.dest ∧ i.dest ∈ due then thin p (due.filter (· ≠ i.dest)) rest
    else match narrowing? p i rest with
      | none => i :: thin p due rest
      | some (op, keep) => { i with op := op } :: thin p (if keep then due else i.dest :: due) rest

/-- The registers of the promises whose mask is dropped. -/
def dueOf (ps : List Promise) : List UInt8 := (ps.filter fun p => p.dropped.isSome).map (·.reg)

theorem mem_dueOf : r ∈ dueOf ps ↔ ∃ p ∈ ps, p.dropped ≠ none ∧ p.reg = r := by
  simp only [dueOf, List.mem_map, List.mem_filter, Option.isSome_iff_ne_none, and_assoc]

theorem dueOf_others : dueOf (others ps r) = (dueOf ps).filter (· ≠ r) := by
  simp only [dueOf, others, List.filter_map, List.filter_filter, Function.comp_def, Bool.and_comm]

theorem dueOf_others_of_not_mem (h : r ∉ dueOf ps) : dueOf (others ps r) = dueOf ps := by
  rw [dueOf_others, List.filter_eq_self]
  intro q hq
  refine decide_eq_true fun heq => h ?_
  rwa [← heq]

theorem isMask_of_masks {q : Promise} (h : Masks b i q) : IsMask i i.dest :=
  ⟨h.op, h.src.trans h.dest.symm, rfl⟩

/-- A mask is no load, so it is not narrowed. -/
theorem narrowing?_mask (h : IsMask i r) (p : Pool) (rest : List Inst) :
    narrowing? p i rest = none := by
  rw [narrowing?, h.1]
  exact if_neg fun hload => absurd hload.1 (by decide)

/-- The plan has a narrowing for a load exactly if what follows says so. -/
theorem plan_cons_eq
    (hb : ∀ j ∈ rest, ∀ k, j.constantIndex = some k → k.toNat < b.pool.size)
    (h : plan b pos (i :: rest) = .ok ns) :
    ∃ k first? later, first? = (narrowing? b.pool i rest).map (Narrowing.at pos k) ∧
      ns = first?.toList ++ later ∧ plan b (pos + 1) rest = .ok later ∧
      ∀ n, first? = some n → isWide i.op = true ∧ i.dest ≠ 0 ∧
        search b i.op i.dest pos (pos + 1) rest = .ok (some n) := by
  obtain ⟨k, hk⟩ : ∃ k, search b i.op i.dest pos (pos + 1) rest = .ok _ := search_eq hb
  rw [plan] at h
  unfold narrowing?
  by_cases hwide : isWide i.op = true ∧ i.dest ≠ 0
  · rw [if_pos hwide] at h
    rw [if_pos hwide]
    obtain ⟨first?, hfirst, h⟩ := bind_eq_ok.mp h
    obtain ⟨later, hlater, h⟩ := bind_eq_ok.mp h
    refine ⟨k, first?, later, ?_, (pure_eq_ok.mp h).symm, hlater, fun n hn => ?_⟩
    · exact Except.ok.inj (hfirst.symm.trans hk)
    · exact ⟨hwide.1, hwide.2, by rw [hfirst, hn]⟩
  · rw [if_neg hwide] at h
    rw [if_neg hwide]
    obtain ⟨first?, hfirst, h⟩ := bind_eq_ok.mp h
    obtain ⟨later, hlater, h⟩ := bind_eq_ok.mp h
    exact ⟨k, none, later, rfl, by rw [← pure_eq_ok.mp h, ← pure_eq_ok.mp hfirst], hlater,
      fun n hn => absurd hn.symm (Option.some_ne_none n)⟩

/-- What a promise for this load adds to the registers that wait for a mask. -/
theorem dueOf_cons {found : Narrowing} (hreg : reg ≠ 0) (k : Nat) (m : Opcode × Bool)
    (hfound : Narrowing.at here k m = found) :
    dueOf (⟨here, reg, w, found.dropped, hreg⟩ :: ps)
      = if m.2 then dueOf ps else reg :: dueOf ps := by
  subst hfound
  obtain ⟨op, keep⟩ := m
  cases keep <;> rfl

/-- What is dropped here is the mask of a register that waits for it. -/
theorem dropped_iff_due (hready : Ready b past ps here) (hi : b.insts[here]? = some i) :
    (∃ n ∈ past, n.dropped = some here) ↔ IsMask i i.dest ∧ i.dest ∈ dueOf ps := by
  constructor
  · rintro ⟨n, hn, hdropped⟩
    obtain ⟨j, q, hj, hq, hof, hmask⟩ := hready.masks_of_dropped hn hdropped
    cases hi.symm.trans hj
    have hdue : q.dropped ≠ none := by
      rw [hof.dropped, hdropped]
      exact Option.some_ne_none here
    exact ⟨isMask_of_masks hmask, mem_dueOf.mpr ⟨q, hq, hdue, hmask.dest.symm⟩⟩
  · rintro ⟨hmask, hdue⟩
    obtain ⟨q, hq, hdropped, hreg⟩ := mem_dueOf.mp hdue
    rcases hready.cases hi hq with ⟨-, hhere⟩ | ⟨hpass, -⟩
    · obtain ⟨n, hn, hof⟩ := hready.origin q hq
      obtain ⟨j, hj⟩ := Option.ne_none_iff_exists'.mp hdropped
      exact ⟨n, hn, by rw [← hof.dropped, hj, hhere j hj]⟩
    · refine absurd ?_ hpass.read
      rw [readSlots_mask hmask, hreg]
      exact List.mem_singleton_self _

/-- At a mask the promises about its register are settled. -/
theorem ready_mask (hready : Ready b past ps here) (hi : b.insts[here]? = some i)
    (hmask : ∃ q ∈ ps, Masks b i q) : Ready b past (others ps i.dest) (here + 1) := by
  obtain ⟨q, -, hmask⟩ := hmask
  rw [hmask.dest]
  exact hready.mask hi hmask

/-- At a narrowed load a promise is made. -/
theorem ready_load {found : Narrowing} (hready : Ready b past ps (here + 1))
    (hi : b.insts[here]? = some i) (hreg : i.dest ≠ 0)
    (hrange : ∀ j ∈ b.insts.drop (here + 1), ∀ k, j.constantIndex = some k →
      k.toNat < b.pool.size)
    (hfound : search b i.op i.dest here (here + 1) (b.insts.drop (here + 1)) = .ok (some found)) :
    ∃ w, Ready b (past ++ [found]) (⟨here, i.dest, w, found.dropped, hreg⟩ :: ps) (here + 1) := by
  obtain ⟨hload, w, keep, hnarrow, hkeep, hawaits⟩ := awaits_of_search hreg hrange hfound
  obtain ⟨-, -, -, hlow, -⟩ := narrow?_spec hnarrow
  have hof : Promise.Of b ⟨here, i.dest, w, found.dropped, hreg⟩ found :=
    ⟨hload.symm, rfl, ⟨i, by rw [hload, hi], rfl⟩, fun hd => hlow (hkeep hd)⟩
  refine ⟨w, hready.add ?_ hof hawaits⟩
  rw [hload]
  exact Nat.lt_succ_self here

/-- **The walk over a block** leaves what `thin` leaves. -/
theorem filterMap_eq_thin (hb : b.InRange) (hinsts : b.insts.drop here = insts)
    (hready : Ready b past ps here) (hplan : plan b here insts = .ok later) :
    (insts.zipIdx here).filterMap (fun x => kept? (past ++ later) x.2 x.1)
      = thin b.pool (dueOf ps) insts := by
  induction insts generalizing here past ps later with
  | nil => rfl
  | cons i rest ih =>
    have hi : b.insts[here]? = some i := by rw [← List.head?_drop, hinsts, List.head?_cons]
    have hdrop : b.insts.drop (here + 1) = rest := by
      rw [← List.drop_drop, hinsts, List.drop_one, List.tail_cons]
    have hrange : ∀ j ∈ rest, ∀ k, j.constantIndex = some k → k.toNat < b.pool.size :=
      fun j hj => hb j (List.mem_of_mem_drop (hdrop ▸ hj))
    obtain ⟨k, first?, later, hfirst, rfl, hlater, hsearch⟩ := plan_cons_eq hrange hplan
    have hlater' : ∀ n ∈ later, here < n.load ∧ ∀ j, n.dropped = some j → n.load < j :=
      fun n hn => ⟨(plan_spec hrange hlater n hn).1, (plan_spec hrange hlater n hn).2.1⟩
    have hfirst' : ∀ n, first? = some n → n.load = here ∧ ∀ j, n.dropped = some j → here < j := by
      intro n hn
      obtain ⟨-, hreg, hfound⟩ := hsearch n hn
      obtain ⟨hload, _, _, -, -, hawaits⟩ := awaits_of_search hreg hrange hfound
      exact ⟨hload, hawaits.le_dropped⟩
    have hnone : IsMask i i.dest → first? = none := by
      intro hmask
      rw [hfirst, narrowing?_mask hmask, Option.map_none]
    rw [List.zipIdx_cons, List.filterMap_cons, thin]
    by_cases hdue : IsMask i i.dest ∧ i.dest ∈ dueOf ps
    · obtain ⟨n, hn, hdropped⟩ := (dropped_iff_due hready hi).mpr hdue
      obtain ⟨j, q, hj, hq, -, hmask⟩ := hready.masks_of_dropped hn hdropped
      cases hi.symm.trans hj
      rw [if_pos hdue, kept?_eq_none (List.mem_append_left _ hn) hdropped, hnone hdue.1,
        Option.toList_none, List.nil_append, ← dueOf_others]
      exact ih hdrop (ready_mask hready hi ⟨q, hq, hmask⟩) hlater
    · have hkeep : ¬∃ n ∈ past, n.dropped = some here := fun h =>
        hdue ((dropped_iff_due hready hi).mp h)
      rw [if_neg hdue, kept?_eq_some hready.load hkeep hfirst' hlater']
      by_cases hmask : ∃ q ∈ ps, Masks b i q
      · -- a mask that stays settles promises, but none that waits for a dropped one
        have hismask : IsMask i i.dest := by
          obtain ⟨q, -, hq⟩ := hmask
          exact isMask_of_masks hq
        rw [hnone hismask, narrowing?_mask hismask,
          ← dueOf_others_of_not_mem fun hmem => hdue ⟨hismask, hmem⟩]
        exact congrArg (i :: ·) (ih hdrop (ready_mask hready hi hmask) hlater)
      · obtain ⟨-, hready'⟩ := hready.pass hi fun q hq hq' => hmask ⟨q, hq, hq'⟩
        cases hnarrow : narrowing? b.pool i rest with
        | none =>
          rw [hnarrow] at hfirst
          subst hfirst
          exact congrArg (i :: ·) (ih hdrop hready' hlater)
        | some m =>
          rw [hnarrow, Option.map_some] at hfirst
          subst hfirst
          obtain ⟨-, hreg, hfound⟩ := hsearch _ rfl
          obtain ⟨w, hready''⟩ := ready_load hready' hi hreg (hdrop.symm ▸ hrange)
            (hdrop.symm ▸ hfound)
          rw [Option.toList_some, ← List.append_assoc]
          refine congrArg (_ :: ·) ((ih hdrop hready'' hlater).trans ?_)
          rw [dueOf_cons hreg k m rfl]

theorem left_eq_thin (hb : b.InRange) :
    ∃ ns, plan b 0 b.insts = .ok ns ∧ left ns b.insts = thin b.pool [] b.insts := by
  obtain ⟨ns, hplan⟩ : ∃ ns, plan b 0 b.insts = .ok ns := plan_ok hb
  exact ⟨ns, hplan, filterMap_eq_thin hb rfl (Ready.nil b) hplan⟩

/-- **The pass in one recursion.** -/
theorem run_eq_thin (hb : b.InRange) : run b = .ok (b.taken (thin b.pool [] b.insts)) := by
  obtain ⟨ns, hplan, hleft⟩ := left_eq_thin hb
  refine bind_eq_ok.mpr ⟨ns, hplan, ?_⟩
  show Block.appendAll {} b (left ns b.insts) = _
  rw [← hleft]
  exact Block.appendAll_taken [] _ (left_inRange hb hplan)

/-! ## What comes next in the output -/

theorem nextMask_mask (h : IsMask i r) : nextMask p r (i :: rest) = some (p.constant i, rest) := by
  rw [nextMask, if_pos h]

theorem nextMask_blocked (hmask : ¬IsMask i r) (h : blocks i r = true) :
    nextMask p r (i :: rest) = none := by
  rw [nextMask, if_neg hmask, if_pos h]

theorem nextMask_pass (h : blocks i r = false) : nextMask p r (i :: rest) = nextMask p r rest := by
  have hmask : ¬IsMask i r := by
    intro hmask
    rw [blocks_mask hmask, beq_self_eq_true] at h
    exact nomatch h
  rw [nextMask, if_neg hmask, if_neg (Bool.eq_false_iff.mp h)]

/-- What a narrowed load is. -/
theorem narrowing?_spec (h : narrowing? p i rest = some (op, keep)) :
    isWide i.op = true ∧ i.dest ≠ 0 ∧
      ∃ w more, nextMask p i.dest rest = some (w, more) ∧ narrow? i.op w = some (op, keep) := by
  unfold narrowing? at h
  split at h
  · rename_i hwide
    obtain ⟨⟨w, more⟩, hnext, hnarrow⟩ := Option.bind_eq_some_iff.mp h
    exact ⟨hwide.1, hwide.2, w, more, hnext, hnarrow⟩
  · exact nomatch h

theorem not_isMask_wide (h : op = .load8 ∨ isWide op = true) (hop : i.op = op) : ¬IsMask i r := by
  rintro ⟨hmask, -⟩
  rw [← hop, hmask] at h
  exact absurd h (by decide)

/-- A load names its register. -/
theorem blocks_wide (h : isWide i.op = true) : blocks i i.dest = true := by
  obtain ⟨-, hdest, hrole, -⟩ := wide_signature h
  rw [blocks, Inst.destGpr, if_pos ⟨hdest, hrole⟩, beq_self_eq_true, Bool.or_true]

/-- A narrowed load is in the way of the same registers. -/
theorem blocks_narrowed (h : narrow? i.op w = some (op, keep)) (r : UInt8) :
    blocks { i with op := op } r = blocks i r := by
  obtain ⟨hop, hwide, -⟩ := narrow?_spec h
  have hsig : ∀ o : Opcode, o = .load8 ∨ isWide o = true →
      o.signature = { dest := .gpr, src1 := .gpr, src2 := .const } := by
    intro o ho
    cases o <;> first | rfl | exact absurd ho (by decide)
  simp only [blocks, Inst.isExit, Inst.isBarrier, Inst.readsGpr, Inst.readsSlot, Inst.readSlots,
    Inst.destGpr, hsig op hop, hsig i.op (Or.inr hwide)]

/-- What becomes of an instruction that stays, and which registers then wait for a mask. -/
inductive Stays (p : Pool) (due : List UInt8) (i : Inst) (rest : List Inst) :
    Inst → List UInt8 → Prop
  | same (h : narrowing? p i rest = none) : Stays p due i rest i due
  | narrowed {op : Opcode} {keep : Bool} (h : narrowing? p i rest = some (op, keep)) :
      Stays p due i rest { i with op := op } (if keep then due else i.dest :: due)

/-- **One step of `thin`.** -/
theorem thin_cons (p : Pool) (due : List UInt8) (i : Inst) (rest : List Inst) :
    (IsMask i i.dest ∧ i.dest ∈ due ∧
      thin p due (i :: rest) = thin p (due.filter (· ≠ i.dest)) rest) ∨
    ((IsMask i i.dest → i.dest ∉ due) ∧
      ∃ j due', thin p due (i :: rest) = j :: thin p due' rest ∧ Stays p due i rest j due') := by
  rw [thin]
  by_cases hdue : IsMask i i.dest ∧ i.dest ∈ due
  · rw [if_pos hdue]
    exact Or.inl ⟨hdue.1, hdue.2, rfl⟩
  · rw [if_neg hdue]
    refine Or.inr ⟨fun hmask hmem => hdue ⟨hmask, hmem⟩, ?_⟩
    cases hnarrow : narrowing? p i rest with
    | none => exact ⟨_, _, rfl, Stays.same hnarrow⟩
    | some m => exact ⟨_, _, rfl, Stays.narrowed hnarrow⟩

namespace Stays

variable {due' : List UInt8}

/-- An instruction that stays is in the way of the same registers. -/
theorem blocks (h : Stays p due i rest j due') (r : UInt8) :
    NarrowLoads.blocks j r = NarrowLoads.blocks i r := by
  cases h with
  | same _ => rfl
  | narrowed h =>
    obtain ⟨-, -, w, -, -, hnarrow⟩ := narrowing?_spec h
    exact blocks_narrowed hnarrow r

/-- A mask that stays stays as it is. -/
theorem eq_of_isMask (h : Stays p due i rest j due') (hmask : IsMask i r) : j = i := by
  cases h with
  | same _ => rfl
  | narrowed h => exact absurd hmask (not_isMask_wide (Or.inr (narrowing?_spec h).1) rfl)

theorem isMask (h : Stays p due i rest j due') (hmask : IsMask j r) : IsMask i r := by
  cases h with
  | same _ => exact hmask
  | narrowed h =>
    obtain ⟨-, -, w, -, -, hnarrow⟩ := narrowing?_spec h
    exact absurd hmask (not_isMask_wide (narrow?_spec hnarrow).1 rfl)

/-- Only the register of a load may begin to wait. -/
theorem mem_due (h : Stays p due i rest j due') (hpass : NarrowLoads.blocks i r = false) :
    r ∈ due' ↔ r ∈ due := by
  cases h with
  | same _ => rfl
  | @narrowed op keep h =>
    have hne : r ≠ i.dest := by
      rintro rfl
      rw [blocks_wide (narrowing?_spec h).1] at hpass
      exact nomatch hpass
    cases keep with
    | true => rfl
    | false => exact List.mem_cons.trans (or_iff_right hne)

end Stays

/-- What stays is no mask of a register that waits for one. -/
theorem not_isMask_due (hkeep : IsMask i i.dest → i.dest ∉ due) (hr : r ∈ due) : ¬IsMask i r := by
  intro hmask
  obtain rfl : i.dest = r := hmask.2.2
  exact hkeep hmask hr

/-- A register that waits for no mask has the same next mask as before. -/
theorem nextMask_thin (hr : r ∉ due) :
    (nextMask p r (thin p due insts)).map Prod.fst = (nextMask p r insts).map Prod.fst := by
  induction insts generalizing due with
  | nil => rfl
  | cons i rest ih =>
    rcases thin_cons p due i rest with ⟨hmask, hdue, hthin⟩ | ⟨-, j, due', hthin, hstays⟩
    · have hne : r ≠ i.dest := by
        rintro rfl
        exact hr hdue
      rw [hthin, nextMask_pass (blocks_other_mask hmask hne)]
      exact ih fun h => hr (List.mem_filter.mp h).1
    · rw [hthin]
      by_cases hmask : IsMask i r
      · rw [hstays.eq_of_isMask hmask, nextMask_mask hmask, nextMask_mask hmask]
        rfl
      by_cases hblock : blocks i r = true
      · rw [nextMask_blocked hmask hblock, nextMask_blocked (fun h => hmask (hstays.isMask h))
          ((hstays.blocks r).trans hblock)]
      · rw [Bool.not_eq_true] at hblock
        rw [nextMask_pass hblock, nextMask_pass ((hstays.blocks r).trans hblock)]
        exact ih fun h => hr ((hstays.mem_due hblock).mp h)

/-- A register that waits for its mask has the next one behind it. -/
theorem nextMask_thin_due {more : List Inst} (hr : r ∈ due)
    (hnext : nextMask p r insts = some (w, more)) :
    (nextMask p r (thin p due insts)).map Prod.fst = (nextMask p r more).map Prod.fst := by
  induction insts generalizing due with
  | nil => exact nomatch hnext
  | cons i rest ih =>
    rcases thin_cons p due i rest with ⟨hmask, hdue, hthin⟩ | ⟨hkeep, j, due', hthin, hstays⟩
    · rw [hthin]
      by_cases heq : r = i.dest
      · subst heq
        rw [nextMask_mask hmask] at hnext
        cases hnext
        exact nextMask_thin fun h => of_decide_eq_true (List.mem_filter.mp h).2 rfl
      · rw [nextMask_pass (blocks_other_mask hmask heq)] at hnext
        exact ih (List.mem_filter.mpr ⟨hr, decide_eq_true heq⟩) hnext
    · have hmask : ¬IsMask i r := not_isMask_due hkeep hr
      have hpass : blocks i r = false := by
        refine Bool.eq_false_iff.mpr fun hblock => ?_
        rw [nextMask_blocked hmask hblock] at hnext
        exact nomatch hnext
      rw [nextMask_pass hpass] at hnext
      rw [hthin, nextMask_pass ((hstays.blocks r).trans hpass)]
      exact ih ((hstays.mem_due hpass).mpr hr) hnext

/-- The next mask of every register that waits for one is ahead. -/
def Awaited (p : Pool) (due : List UInt8) (insts : List Inst) : Prop :=
  ∀ r ∈ due, nextMask p r insts ≠ none

theorem awaited_nil (p : Pool) (insts : List Inst) : Awaited p [] insts :=
  fun _ hr => absurd hr List.not_mem_nil

/-- A register that waits is not loaded. -/
theorem Awaited.dest_not_mem (h : Awaited p due (i :: rest)) (hwide : isWide i.op = true) :
    i.dest ∉ due := by
  intro hmem
  exact h i.dest hmem (nextMask_blocked (not_isMask_wide (Or.inr hwide) rfl) (blocks_wide hwide))

theorem Awaited.dropped (h : Awaited p due (i :: rest)) (hmask : IsMask i i.dest) :
    Awaited p (due.filter (· ≠ i.dest)) rest := by
  intro r hr
  obtain ⟨hr, hne⟩ := List.mem_filter.mp hr
  rw [← nextMask_pass (blocks_other_mask hmask (of_decide_eq_true hne))]
  exact h r hr

theorem Awaited.stays {due' : List UInt8} (h : Awaited p due (i :: rest))
    (hkeep : IsMask i i.dest → i.dest ∉ due) (hstays : Stays p due i rest j due') :
    Awaited p due' rest := by
  have hold : ∀ r ∈ due, nextMask p r rest ≠ none := by
    intro r hr
    have hpass : blocks i r = false := Bool.eq_false_iff.mpr fun hblock =>
      h r hr (nextMask_blocked (not_isMask_due hkeep hr) hblock)
    rw [← nextMask_pass hpass]
    exact h r hr
  cases hstays with
  | same _ => exact hold
  | @narrowed op keep hnarrow =>
    obtain ⟨-, -, w, more, hnext, -⟩ := narrowing?_spec hnarrow
    intro r hr
    cases keep with
    | true => exact hold r hr
    | false =>
      rcases List.mem_cons.mp hr with rfl | hr
      · rw [hnext]
        exact Option.some_ne_none _
      · exact hold r hr

/-! ## Loads with two masks -/

/-- A word load that is masked to 16 bits and then to 8 or fewer. -/
def DoublyMasked (p : Pool) (i : Inst) (rest : List Inst) : Prop :=
  i.op = .load32 ∧ i.dest ≠ 0 ∧ ∃ m ∈ nextMask p i.dest rest, m.1 = 0xffff ∧
    ∃ n ∈ nextMask p i.dest m.2, n.1 &&& 0xffffff00 = 0

instance (p : Pool) (i : Inst) (rest : List Inst) : Decidable (DoublyMasked p i rest) :=
  inferInstanceAs (Decidable (_ ∧ _ ∧ _))

/-- Some load is masked to 16 bits and then to 8 or fewer. -/
def Cascades (p : Pool) : List Inst → Prop
  | [] => False
  | i :: rest => DoublyMasked p i rest ∨ Cascades p rest

instance decidableCascades (p : Pool) : ∀ insts, Decidable (Cascades p insts)
  | [] => inferInstanceAs (Decidable False)
  | i :: rest =>
    have := decidableCascades p rest
    inferInstanceAs (Decidable (DoublyMasked p i rest ∨ Cascades p rest))

/-- No load is narrowed. -/
def Settled (p : Pool) : List Inst → Prop
  | [] => True
  | i :: rest => narrowing? p i rest = none ∧ Settled p rest

theorem DoublyMasked.narrowing? (h : DoublyMasked p i rest) :
    NarrowLoads.narrowing? p i rest = some (.load16, false) := by
  obtain ⟨hop, hreg, ⟨w, more⟩, hnext, rfl, -⟩ := h
  rw [NarrowLoads.narrowing?, if_pos ⟨by rw [hop]; rfl, hreg⟩, hnext, Option.bind_some, hop]
  show narrow? .load32 0xffff = _
  decide

theorem doublyMasked_iff {more : List Inst} (hop : i.op = .load32) (hreg : i.dest ≠ 0)
    (hnext : nextMask p i.dest rest = some (0xffff, more)) :
    DoublyMasked p i rest ↔ ∃ n ∈ nextMask p i.dest more, n.1 &&& 0xffffff00 = 0 := by
  constructor
  · rintro ⟨-, -, m, hm, -, hbyte⟩
    cases hnext.symm.trans hm
    exact hbyte
  · exact fun hbyte => ⟨hop, hreg, (0xffff, more), hnext, rfl, hbyte⟩

/-- The two ways of narrowing. -/
theorem narrow?_cases (h : narrow? load w = some (op, keep)) :
    (op = .load8 ∧ w &&& 0xffffff00 = 0) ∨
    (load = .load32 ∧ op = .load16 ∧ w &&& 0xffffff00 ≠ 0 ∧ (keep = false ↔ w = 0xffff)) := by
  rw [narrow?] at h
  split at h
  · rename_i hbyte
    cases h
    exact Or.inl ⟨rfl, eq_of_beq (Bool.and_eq_true_iff.mp hbyte).2⟩
  · rename_i hbyte
    split at h
    · rename_i hhalf
      obtain ⟨hload, -⟩ := Bool.and_eq_true_iff.mp hhalf
      obtain rfl : load = .load32 := of_decide_eq_true hload
      cases h
      refine Or.inr ⟨rfl, rfl, fun hzero => hbyte ?_, bne_eq_false_iff_eq⟩
      rw [hzero]
      rfl
    · cases h

theorem narrow?_half (w : Word) : narrow? .load16 w = none ↔ ¬w &&& 0xffffff00 = 0 := by
  rw [narrow?, show isWide .load16 = true from rfl, Bool.true_and]
  by_cases hbyte : w &&& 0xffffff00 = 0
  · rw [if_pos (beq_iff_eq.mpr hbyte)]
    exact iff_of_false (Option.some_ne_none _) (not_not_intro hbyte)
  · have hload : decide (Opcode.load16 = .load32) = false := rfl
    rw [if_neg fun h => hbyte (eq_of_beq h), hload, Bool.false_and, if_neg Bool.false_ne_true]
    exact iff_of_true rfl hbyte

theorem bind_narrow? (x : Option (Word × List Inst)) :
    (x.bind fun m => narrow? load m.1) = (x.map Prod.fst).bind (narrow? load) := by
  cases x <;> rfl

/-- How a load is narrowed depends on the word of the mask only. -/
theorem narrowing?_congr {rest' : List Inst}
    (h : (nextMask p i.dest rest').map Prod.fst = (nextMask p i.dest rest).map Prod.fst) :
    narrowing? p i rest' = narrowing? p i rest := by
  simp only [narrowing?, bind_narrow?, h]

/-- **One load after narrowing.** It can be narrowed again only if it had two masks. -/
theorem narrowing?_thin {due' : List UInt8} (hawaited : Awaited p due (i :: rest))
    (hstays : Stays p due i rest j due') :
    narrowing? p j (thin p due' rest) = none ↔ ¬DoublyMasked p i rest := by
  cases hstays with
  | same hnarrow =>
    have hfree : narrowing? p i (thin p due rest) = none := by
      by_cases hwide : isWide i.op = true
      · rw [narrowing?_congr (nextMask_thin (hawaited.dest_not_mem hwide)), hnarrow]
      · rw [narrowing?, if_neg fun h => hwide h.1]
    refine ⟨fun _ hdouble => ?_, fun _ => hfree⟩
    rw [hdouble.narrowing?] at hnarrow
    exact nomatch hnarrow
  | @narrowed op keep hnarrow =>
    obtain ⟨hwide, hreg, w, more, hnext, hw⟩ := narrowing?_spec hnarrow
    have hfree : i.dest ∉ due := hawaited.dest_not_mem hwide
    have hdouble : DoublyMasked p i rest → w = 0xffff ∧ op = .load16 ∧ keep = false := by
      intro hdouble
      have hsame := hdouble.narrowing?
      obtain ⟨-, -, m, hm, hword, -⟩ := hdouble
      cases hnarrow.symm.trans hsame
      cases hnext.symm.trans hm
      exact ⟨hword, rfl, rfl⟩
    rcases narrow?_cases hw with ⟨rfl, -⟩ | ⟨hload, rfl, hbyte, hkeep⟩
    · refine ⟨fun _ h => (nomatch (hdouble h).2.1), fun _ => ?_⟩
      rw [narrowing?, if_neg fun h => nomatch h.1]
    · -- a half-word load is narrowed if the next mask in the output keeps a byte
      have hagain : ∀ insts, narrowing? p { i with op := .load16 } insts
          = ((nextMask p i.dest insts).map Prod.fst).bind (narrow? .load16) := by
        intro insts
        rw [narrowing?, if_pos ⟨rfl, hreg⟩, bind_narrow?]
      rw [hagain]
      cases keep with
      | true =>
        rw [if_pos rfl, nextMask_thin hfree, hnext, Option.map_some, Option.bind_some, narrow?_half]
        exact ⟨fun _ h => (nomatch (hdouble h).2.2), fun _ => hbyte⟩
      | false =>
        obtain rfl : w = 0xffff := hkeep.mp rfl
        rw [if_neg nofun, nextMask_thin_due List.mem_cons_self hnext,
          doublyMasked_iff hload hreg hnext]
        cases nextMask p i.dest more with
        | none => exact ⟨fun _ ⟨_, h, _⟩ => (nomatch h), fun _ => rfl⟩
        | some m =>
          rw [Option.map_some, Option.bind_some, narrow?_half]
          exact not_congr ⟨fun h => ⟨m, rfl, h⟩, fun ⟨n, hn, h⟩ => Option.some.inj hn ▸ h⟩

/-- Narrowing settles the loads without a second mask. -/
theorem settled_thin (h : Awaited p due insts) :
    Settled p (thin p due insts) ↔ ¬Cascades p insts := by
  induction insts generalizing due with
  | nil => exact ⟨fun _ => id, fun _ => trivial⟩
  | cons i rest ih =>
    rw [Cascades, not_or]
    rcases thin_cons p due i rest with ⟨hmask, -, hthin⟩ | ⟨hkeep, j, due', hthin, hstays⟩
    · have hload : ¬DoublyMasked p i rest := by
        rintro ⟨hop, -⟩
        rw [hmask.1] at hop
        exact nomatch hop
      rw [hthin, ih (h.dropped hmask), and_iff_right hload]
    · rw [hthin, Settled, narrowing?_thin h hstays, ih (h.stays hkeep hstays)]

/-- No load has two masks after narrowing. -/
theorem not_cascades_thin (h : Awaited p due insts) : ¬Cascades p (thin p due insts) := by
  induction insts generalizing due with
  | nil => exact id
  | cons i rest ih =>
    rcases thin_cons p due i rest with ⟨hmask, -, hthin⟩ | ⟨hkeep, j, due', hthin, hstays⟩
    · rw [hthin]
      exact ih (h.dropped hmask)
    · rw [hthin, Cascades, not_or]
      refine ⟨fun hdouble => ?_, ih (h.stays hkeep hstays)⟩
      have hagain := hdouble.narrowing?
      cases hstays with
      | same hnarrow =>
        have hwide : isWide i.op = true := (narrowing?_spec hagain).1
        rw [narrowing?_congr (nextMask_thin (h.dest_not_mem hwide)), hnarrow] at hagain
        exact nomatch hagain
      | narrowed hnarrow =>
        -- a narrowed load is no word load any more
        obtain ⟨-, -, w, -, -, hw⟩ := narrowing?_spec hnarrow
        obtain rfl := hdouble.1
        rcases narrow?_cases hw with ⟨hop, -⟩ | ⟨-, hop, -⟩ <;> exact nomatch hop

/-- Instructions are left alone exactly if no load is narrowed. -/
theorem settled_iff_ops : Settled p insts ↔ (thin p [] insts).map (·.op) = insts.map (·.op) := by
  induction insts with
  | nil => exact ⟨fun _ => rfl, fun _ => trivial⟩
  | cons i rest ih =>
    rcases thin_cons p [] i rest with ⟨-, hmem, -⟩ | ⟨-, j, due', hthin, hstays⟩
    · exact absurd hmem List.not_mem_nil
    · rw [hthin, Settled, List.map_cons, List.map_cons, List.cons.injEq]
      cases hstays with
      | same hnarrow => rw [ih, and_iff_right hnarrow, and_iff_right rfl]
      | @narrowed op keep hnarrow =>
        obtain ⟨hwide, -, w, -, -, hw⟩ := narrowing?_spec hnarrow
        have hop : op ≠ i.op := by
          rintro rfl
          rcases narrow?_cases hw with ⟨hop, -⟩ | ⟨hload, hop, -⟩
          · rw [hop] at hwide
            exact nomatch hwide
          · exact nomatch hload.symm.trans hop
        exact iff_of_false (fun h => nomatch hnarrow.symm.trans h.1) fun h => hop h.1

theorem thin_eq_self (h : Settled p insts) : thin p [] insts = insts := by
  induction insts with
  | nil => rfl
  | cons i rest ih =>
    rw [thin, if_neg fun hdue => absurd hdue.2 List.not_mem_nil, h.1]
    exact congrArg (i :: ·) (ih h.2)

/-! ## Constants at other positions -/

/-- An instruction plays the same part when its constant is in another pool. -/
structure Renumbered (p p' : Pool) (i j : Inst) : Prop where
  op : j.op = i.op
  blocks (r : UInt8) : NarrowLoads.blocks j r = NarrowLoads.blocks i r
  mask (r : UInt8) : IsMask j r ↔ IsMask i r
  dest : isWide i.op = true → j.dest = i.dest
  constant : p'.constant j = p.constant i

theorem blocks_setField {f : Field} (h : i.op.constField? = some f) (k r : UInt8) :
    blocks (i.setField f k) r = blocks i r := by
  obtain ⟨op, dest, src1, src2⟩ := i
  cases op <;> cases h <;> rfl

theorem isMask_setField {f : Field} (h : i.op.constField? = some f) (k r : UInt8) :
    IsMask (i.setField f k) r ↔ IsMask i r := by
  have hop : (i.setField f k).op = i.op := (setField_operands h k).1
  by_cases hand : i.op = .andConst
  · rw [hand] at h
    cases h
    exact Iff.rfl
  · exact iff_of_false (fun hmask => hand (hop.symm.trans hmask.1)) fun hmask => hand hmask.1

theorem dest_setField {f : Field} (hwide : isWide i.op = true) (h : i.op.constField? = some f)
    (k : UInt8) : (i.setField f k).dest = i.dest := by
  have hfield : ∀ op, isWide op = true → op.constField? = some .src2 := by
    intro op hop
    cases op <;> first | rfl | exact absurd hop (by decide)
  rw [hfield i.op hwide] at h
  cases h
  rfl

/-- The instructions of a copy play the same part as those copied. -/
theorem renumbered_taken (hb : ∀ i ∈ insts, ∀ k, i.constantIndex = some k → k.toNat < b.pool.size) :
    List.Forall₂ (Renumbered b.pool (b.taken insts).pool) insts (b.taken insts).insts := by
  have hsize : (b.taken insts).pool.size ≤ 256 := (Block.drawn_taken insts).size_le
  refine List.forall₂_map_right_iff.mpr (List.forall₂_same.mpr fun i hi => ?_)
  unfold Pool.reposition
  split
  · rename_i f c hf hc
    have hindex : ∀ k, (i.setField f k).constantIndex = some k := Block.constantIndex_setField hf
    obtain ⟨k, hk, hget⟩ := Option.bind_eq_some_iff.mp hc
    have hlt : (insts.filterMap b.pool.constant?).eraseDups.idxOf c < (b.taken insts).pool.size :=
      List.idxOf_lt_length_of_mem (List.mem_eraseDups.mpr (List.mem_filterMap.mpr ⟨i, hi, hc⟩))
    refine ⟨(setField_operands hf _).1, blocks_setField hf _, isMask_setField hf _,
      fun hwide => dest_setField hwide hf _, ?_⟩
    rw [Pool.constant, hindex, Option.bind_some, Pool.constant, hk, Option.bind_some, hget,
      toNat_ofNat_of_lt (Nat.lt_of_lt_of_le hlt hsize)]
    exact congrArg (·.getD 0) ((List.getElem?_eq_getElem hlt).trans
      (congrArg some (List.getElem_idxOf hlt)))
  · rename_i hnone
    refine ⟨rfl, fun _ => rfl, fun _ => Iff.rfl, fun _ => rfl, ?_⟩
    -- an instruction in range without a constant in the pool has none at all
    have hindex : i.constantIndex = none := by
      cases hk : i.constantIndex with
      | none => rfl
      | some k =>
        obtain ⟨f, hf, -⟩ := Option.map_eq_some_iff.mp hk
        exact absurd (Pool.constant?_eq hk (hb i hi k hk)) (hnone f _ hf)
    rw [Pool.constant, Pool.constant, hindex, Option.bind_none, Option.bind_none]

section Renumbered

variable {p' : Pool} {insts' rest' : List Inst}

theorem nextMask_renumbered (h : List.Forall₂ (Renumbered p p') insts insts') :
    Option.Rel (fun m m' => m'.1 = m.1 ∧ List.Forall₂ (Renumbered p p') m.2 m'.2)
      (nextMask p r insts) (nextMask p' r insts') := by
  induction h with
  | nil => exact Option.Rel.none
  | @cons i j rest rest' hij hrest ih =>
    by_cases hmask : IsMask i r
    · rw [nextMask_mask hmask, nextMask_mask ((hij.mask r).mpr hmask)]
      exact Option.Rel.some ⟨hij.constant, hrest⟩
    by_cases hblock : blocks i r = true
    · rw [nextMask_blocked hmask hblock, nextMask_blocked (fun h => hmask ((hij.mask r).mp h))
        ((hij.blocks r).trans hblock)]
      exact Option.Rel.none
    · rw [Bool.not_eq_true] at hblock
      rw [nextMask_pass hblock, nextMask_pass ((hij.blocks r).trans hblock)]
      exact ih

theorem word_renumbered (h : List.Forall₂ (Renumbered p p') insts insts') :
    (nextMask p' r insts').map Prod.fst = (nextMask p r insts).map Prod.fst := by
  have hnext := nextMask_renumbered (r := r) h
  generalize nextMask p r insts = x at hnext ⊢
  generalize nextMask p' r insts' = y at hnext ⊢
  cases hnext with
  | none => rfl
  | some hword => exact congrArg some hword.1

theorem settled_renumbered (h : List.Forall₂ (Renumbered p p') insts insts') :
    Settled p' insts' ↔ Settled p insts := by
  induction h with
  | nil => exact Iff.rfl
  | @cons i j rest rest' hij hrest ih =>
    have hsame : narrowing? p' j rest' = narrowing? p i rest := by
      unfold narrowing?
      rw [hij.op]
      by_cases hwide : isWide i.op = true
      · rw [hij.dest hwide, bind_narrow?, bind_narrow?, word_renumbered hrest]
      · rw [if_neg fun h => hwide h.1, if_neg fun h => hwide h.1]
    rw [Settled, Settled, hsame, ih]

theorem exists_next_renumbered {P P' : Word × List Inst → Prop}
    (h : List.Forall₂ (Renumbered p p') insts insts')
    (hP : ∀ m m', m'.1 = m.1 → List.Forall₂ (Renumbered p p') m.2 m'.2 → (P' m' ↔ P m)) :
    (∃ m ∈ nextMask p' r insts', P' m) ↔ ∃ m ∈ nextMask p r insts, P m := by
  have hnext := nextMask_renumbered (r := r) h
  generalize nextMask p r insts = x at hnext ⊢
  generalize nextMask p' r insts' = y at hnext ⊢
  cases hnext with
  | none => simp only [Option.mem_def, reduceCtorEq, false_and, exists_false]
  | @some m m' hm =>
    simp only [Option.mem_def, Option.some.injEq, exists_eq_left', hP m m' hm.1 hm.2]

theorem DoublyMasked.renumbered (hij : Renumbered p p' i j)
    (h : List.Forall₂ (Renumbered p p') rest rest') :
    DoublyMasked p' j rest' ↔ DoublyMasked p i rest := by
  by_cases hop : i.op = .load32
  · have hdest : j.dest = i.dest := hij.dest (by rw [hop]; rfl)
    rw [DoublyMasked, DoublyMasked, hij.op, hdest]
    refine and_congr_right fun _ => and_congr_right fun _ => ?_
    refine exists_next_renumbered h fun m m' hfirst hrest => ?_
    rw [hfirst]
    refine and_congr_right fun _ => exists_next_renumbered hrest fun n n' hsecond _ => ?_
    rw [hsecond]
  · exact iff_of_false (fun hdouble => hop (hij.op.symm.trans hdouble.1)) fun hdouble =>
      hop hdouble.1

theorem cascades_renumbered (h : List.Forall₂ (Renumbered p p') insts insts') :
    Cascades p' insts' ↔ Cascades p insts := by
  induction h with
  | nil => exact Iff.rfl
  | cons hij hrest ih =>
    rw [Cascades, Cascades, ih]
    exact or_congr_left (DoublyMasked.renumbered hij hrest)

end Renumbered

/-! ## Narrowing again -/

theorem ops_renumbered {p' : Pool} {insts' : List Inst}
    (h : List.Forall₂ (Renumbered p p') insts insts') : insts'.map (·.op) = insts.map (·.op) := by
  induction h with
  | nil => rfl
  | cons hij _ ih => rw [List.map_cons, List.map_cons, hij.op, ih]

/-- What is left of a block has its constants where the block has them. -/
theorem thin_inRange (hb : b.InRange) :
    ∀ j ∈ thin b.pool [] b.insts, ∀ k, j.constantIndex = some k → k.toNat < b.pool.size := by
  obtain ⟨ns, hplan, hleft⟩ := left_eq_thin hb
  rw [← hleft]
  exact left_inRange hb hplan

/-- Narrowing leaves a canonical block alone exactly if it narrows no load. -/
theorem run_eq_self_iff {q : Block} (hq : q.Canonical) :
    run q = .ok q ↔ Settled q.pool q.insts := by
  rw [run_eq_thin hq.inRange]
  constructor
  · intro h
    have hinsts : (q.taken (thin q.pool [] q.insts)).insts = q.insts :=
      congrArg Block.insts (Except.ok.inj h)
    have hcopy := renumbered_taken (thin_inRange hq.inRange)
    rw [hinsts] at hcopy
    exact settled_iff_ops.mpr (ops_renumbered hcopy).symm
  · intro h
    rw [thin_eq_self h, Block.taken_eq_self hq.firstUse]

theorem pass_run_settled_iff {q : Block} (cap : Nat) (hb : b.InRange) (h : run b = .ok q) :
    Pass.narrowLoads.run cap q = .ok (q, false) ↔ ¬Cascades b.pool b.insts := by
  have hq : q.Canonical := builds_output .narrowLoads cap b q h
  have hsame : Pass.narrowLoads.run cap q = .ok (q, false) ↔ run q = .ok q := Pass.run_unchanged_iff
  rw [hsame, run_eq_self_iff hq]
  cases (run_eq_thin hb).symm.trans h
  rw [settled_renumbered (renumbered_taken (thin_inRange hb)), settled_thin (awaited_nil _ _)]

/-- **Narrowing twice.** Narrowing changes its own output exactly if some word load was masked to 16
bits and then to 8 or fewer, and it never changes its output of the second time. -/
theorem run_again {q : Block} (cap : Nat) (hb : b.InRange) (h : run b = .ok q) :
    (Pass.narrowLoads.run cap q = .ok (q, false) ↔ ¬Cascades b.pool b.insts) ∧
      ∃ r changed, Pass.narrowLoads.run cap q = .ok (r, changed) ∧
        Pass.narrowLoads.run cap r = .ok (r, false) := by
  refine ⟨pass_run_settled_iff cap hb h, ?_⟩
  have hq : q.InRange := (builds_output .narrowLoads cap b q h).inRange
  have hrun := run_eq_thin hq
  refine ⟨_, _, bind_eq_ok.mpr ⟨_, hrun, rfl⟩, (pass_run_settled_iff cap hq hrun).mpr ?_⟩
  cases (run_eq_thin hb).symm.trans h
  rw [cascades_renumbered (renumbered_taken (thin_inRange hb))]
  exact not_cascades_thin (awaited_nil _ _)

/-- A word load that is masked once: the second narrowing has nothing to do. -/
theorem run_again_once :
    let b : Block := ⟨[⟨.load32, 5, 4, 0⟩, ⟨.andConst, 5, 5, 1⟩, ⟨.andConst, 5, 5, 2⟩],
      ⟨[0, 0xffff, 0x1ff]⟩⟩
    let q : Block := ⟨[⟨.load16, 5, 4, 0⟩, ⟨.andConst, 5, 5, 1⟩], ⟨[0, 0x1ff]⟩⟩
    run b = .ok q ∧ Pass.narrowLoads.run 0 q = .ok (q, false) := by
  intro b q
  have hrun : run b = .ok q := by decide
  have hb : b.InRange := by decide
  have honce : ¬Cascades b.pool b.insts := by decide
  exact ⟨hrun, (run_again 0 hb hrun).1.mpr honce⟩

/-- **Narrowing is not idempotent.** The mask to 16 bits goes with the first narrowing, and the
mask to 8 bits with the second. -/
theorem run_not_idempotent :
    ¬∀ (cap : Nat) (b q : Block) (changed : Bool), b.InRange →
      Pass.narrowLoads.run cap b = .ok (q, changed) →
      Pass.narrowLoads.run cap q = .ok (q, false) := by
  intro h
  let b : Block := ⟨[⟨.load32, 2, 4, 0⟩, ⟨.andConst, 2, 2, 1⟩, ⟨.andConst, 2, 2, 2⟩],
    ⟨[0, 0xffff, 0xff]⟩⟩
  let q : Block := ⟨[⟨.load16, 2, 4, 0⟩, ⟨.andConst, 2, 2, 1⟩], ⟨[0, 0xff]⟩⟩
  have hfirst : Pass.narrowLoads.run 0 b = .ok (q, true) := by decide
  have hsecond : Pass.narrowLoads.run 0 q ≠ .ok (q, false) := by decide
  exact hsecond (h 0 b q true (by decide) hfirst)

end Dynarec.Optimize.NarrowLoads
