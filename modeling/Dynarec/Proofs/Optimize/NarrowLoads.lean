/-
Narrowing of loads: what it keeps, and where it goes wrong.

The search for the mask of a load passes over instructions that neither read the register nor leave
the block, so that a promise is made only where a mask settles it. It gives up at an instruction
whose destination field names the register. That misses the instructions that write a register
which they do not name: those that write the product register, the outcome of a comparison, the link
bit or a vector control register. `run_mask_lost` is such a block.

`Undisturbed b m` excludes this and no more: in the run of `b` from `m`, a dropped mask whose
register has been overwritten since the load meets a word that it would not change. Under it a block
that ends without a fault ends in the same way after narrowing (`run_narrowed`); without it there is
a dropped mask after which the register differs (`mask_lost_of_disturbed`). A block that faults may
stop faulting, since a narrower load needs fewer bytes.

The argument follows the two runs side by side. `Ready` ties the open promises to the plan and to
the instructions ahead, `Midway` adds that the machines are the same up to them, and one instruction
keeps both (`Midway.step`).
-/
import Dynarec.Proofs.Optimize.Promises
import Mathlib.Data.Nat.Find

set_option autoImplicit false
set_option maxRecDepth 2048

namespace Dynarec.Optimize.NarrowLoads

open Guest

/-! ## The search -/

variable {b : Block} {i : Inst} {insts rest : List Inst} {load op : Opcode} {keep : Bool} {w : Word}
  {reg : UInt8} {pos here : Nat} {found : Narrowing} {m m' n : Machine} {t : Option Word}
  {ps : List Promise}

/-- A block whose positions are in range has a constant for every mask. -/
theorem constantOf_mask {source : Block} (hop : i.op = .andConst)
    (hi : ∀ k, i.constantIndex = some k → k.toNat < source.pool.size) :
    source.constantOf i = .ok (some (source.pool.constant i)) := by
  have hindex : i.constantIndex = some i.src2 := by
    rw [Inst.constantIndex, hop]
    rfl
  rw [Block.constantOf_eq hi, hindex]
  rfl

/-- The narrowing of the load at `pos` by the mask at `here`. -/
def Narrowing.at (pos here : Nat) (r : Opcode × Bool) : Narrowing :=
  { load := pos, op := r.1, dropped := if r.2 then none else some here }

/-- **One step of the search.** It gives up, ends at a mask, or passes over an instruction that
neither leaves nor reads the register nor names it as its destination. -/
theorem search_cases (hi : ∀ k, i.constantIndex = some k → k.toNat < b.pool.size) :
    search b load reg pos here (i :: rest) = .ok none ∨
    (i.op = .andConst ∧ i.src1 = reg ∧ i.dest = reg ∧ search b load reg pos here (i :: rest)
      = .ok ((narrow? load (b.pool.constant i)).map (Narrowing.at pos here))) ∨
    (i.isExit = false ∧ reg.toNat ∉ i.readSlots ∧ i.destGpr ≠ some reg ∧
      search b load reg pos here (i :: rest) = search b load reg pos (here + 1) rest) := by
  rw [search]
  split
  · exact Or.inl rfl
  · rename_i hstay
    split
    · split
      · rename_i hmask
        refine Or.inr (Or.inl ⟨hmask.1, hmask.2.1, hmask.2.2, ?_⟩)
        rw [constantOf_mask hmask.1 hi]
        simp only [bind, Except.bind, Option.getD_some]
        cases narrow? load (b.pool.constant i) <;> rfl
      · exact Or.inl rfl
    · rename_i hread
      split
      · exact Or.inl rfl
      · rename_i hdest
        refine Or.inr (Or.inr ⟨?_, fun hmem => hread ?_, hdest, rfl⟩)
        · exact (Bool.or_eq_false_iff.mp (Bool.eq_false_iff.mpr hstay)).1
        · exact List.contains_iff_mem.mpr hmem

/-- The search does not fail. -/
theorem search_ok (hb : ∀ i ∈ insts, ∀ k, i.constantIndex = some k → k.toNat < b.pool.size) :
    ∃ r, search b load reg pos here insts = .ok r := by
  induction insts generalizing here with
  | nil => exact ⟨none, rfl⟩
  | cons i rest ih =>
    rcases search_cases (hb i List.mem_cons_self) with h | ⟨-, -, -, h⟩ | ⟨-, -, -, h⟩
    · exact ⟨_, h⟩
    · exact ⟨_, h⟩
    · rw [h]
      exact ih fun j hj => hb j (List.mem_cons_of_mem i hj)

/-- **What the search finds** narrows the load, by a mask that a promise may await. -/
theorem awaits_of_search (hreg : reg ≠ 0)
    (hb : ∀ i ∈ insts, ∀ k, i.constantIndex = some k → k.toNat < b.pool.size)
    (h : search b load reg pos here insts = .ok (some found)) :
    found.load = pos ∧ ∃ w keep, narrow? load w = some (found.op, keep)
      ∧ (found.dropped ≠ none → keep = false)
      ∧ Awaits b ⟨pos, reg, w, found.dropped, hreg⟩ here insts := by
  induction insts generalizing here with
  | nil => exact nomatch h
  | cons i rest ih =>
    rcases search_cases (hb i List.mem_cons_self) with hs | ⟨hop, hsrc, hdest, hs⟩ |
      ⟨hexit, hread, hdest, hs⟩
    · rw [hs] at h
      exact nomatch h
    · rw [hs] at h
      obtain ⟨⟨op, keep⟩, hnarrow, rfl⟩ := Option.map_eq_some_iff.mp (Except.ok.inj h)
      refine ⟨rfl, b.pool.constant i, keep, hnarrow, fun hd => ?_,
        Awaits.mask ⟨hop, hdest, hsrc, rfl⟩ fun j hj => ?_⟩
      · cases keep with
        | true => exact absurd rfl hd
        | false => rfl
      · cases keep with
        | true => exact nomatch hj
        | false => exact (Option.some.inj hj).symm
    · rw [hs] at h
      obtain ⟨hload, w, keep, hnarrow, hkeep, hawaits⟩ :=
        ih (fun j hj => hb j (List.mem_cons_of_mem i hj)) h
      exact ⟨hload, w, keep, hnarrow, hkeep, Awaits.pass ⟨hexit, hread, hdest⟩ hawaits⟩

/-! ## The plan -/

variable {ns past : List Narrowing} {first? : Option Narrowing}

/-- The plan of a block is made instruction by instruction. -/
theorem plan_cons (h : plan b pos (i :: rest) = .ok ns) :
    ∃ first? later, ns = first?.toList ++ later ∧ plan b (pos + 1) rest = .ok later ∧
      ∀ n, first? = some n → isWide i.op = true ∧ i.dest ≠ 0 ∧
        search b i.op i.dest pos (pos + 1) rest = .ok (some n) := by
  rw [plan] at h
  split at h
  · rename_i hwide
    obtain ⟨first?, hfirst, h⟩ := bind_eq_ok.mp h
    obtain ⟨later, hlater, h⟩ := bind_eq_ok.mp h
    refine ⟨first?, later, (pure_eq_ok.mp h).symm, hlater, fun n hn => ?_⟩
    exact ⟨hwide.1, hwide.2, by rw [hfirst, hn]⟩
  · obtain ⟨first?, hfirst, h⟩ := bind_eq_ok.mp h
    obtain ⟨later, hlater, h⟩ := bind_eq_ok.mp h
    refine ⟨first?, later, (pure_eq_ok.mp h).symm, hlater, fun n hn => ?_⟩
    rw [← pure_eq_ok.mp hfirst] at hn
    exact nomatch hn

/-- Planning does not fail. -/
theorem plan_ok (hb : ∀ i ∈ insts, ∀ k, i.constantIndex = some k → k.toNat < b.pool.size) :
    ∃ ns, plan b pos insts = .ok ns := by
  induction insts generalizing pos with
  | nil => exact ⟨[], rfl⟩
  | cons i rest ih =>
    have hrest : ∀ j ∈ rest, ∀ k, j.constantIndex = some k → k.toNat < b.pool.size :=
      fun j hj => hb j (List.mem_cons_of_mem i hj)
    obtain ⟨later, hlater⟩ : ∃ later, plan b (pos + 1) rest = .ok later := ih hrest
    obtain ⟨r, hr⟩ : ∃ r, search b i.op i.dest pos (pos + 1) rest = .ok r := search_ok hrest
    rw [plan]
    split
    · exact ⟨_, bind_eq_ok.mpr ⟨r, hr, bind_eq_ok.mpr ⟨later, hlater, rfl⟩⟩⟩
    · exact ⟨_, bind_eq_ok.mpr ⟨none, rfl, bind_eq_ok.mpr ⟨later, hlater, rfl⟩⟩⟩

/-- A narrowing is of an instruction that the plan is for, and its mask comes after it. -/
theorem plan_spec (hb : ∀ i ∈ insts, ∀ k, i.constantIndex = some k → k.toNat < b.pool.size)
    (h : plan b pos insts = .ok ns) :
    ∀ n ∈ ns, pos ≤ n.load ∧ (∀ j, n.dropped = some j → n.load < j) ∧
      ∃ l w keep, insts[n.load - pos]? = some l ∧ narrow? l.op w = some (n.op, keep) := by
  induction insts generalizing pos ns with
  | nil =>
    cases h
    exact fun n hn => absurd hn List.not_mem_nil
  | cons i rest ih =>
    have hrest : ∀ j ∈ rest, ∀ k, j.constantIndex = some k → k.toNat < b.pool.size :=
      fun j hj => hb j (List.mem_cons_of_mem i hj)
    obtain ⟨first?, later, rfl, hlater, hfirst⟩ := plan_cons h
    intro n hn
    rcases List.mem_append.mp hn with hn | hn
    · -- the narrowing of this instruction, or of a later one
      obtain ⟨-, hreg, hsearch⟩ := hfirst n (Option.mem_toList.mp hn)
      obtain ⟨hload, w, keep, hnarrow, -, hawaits⟩ := awaits_of_search hreg hrest hsearch
      rw [hload]
      refine ⟨Nat.le_refl pos, hawaits.le_dropped, i, w, keep, ?_, hnarrow⟩
      rw [Nat.sub_self, List.getElem?_cons_zero]
    · obtain ⟨hle, hlt, l, w, keep, hl, hnarrow⟩ := ih hrest hlater n hn
      refine ⟨Nat.le_of_succ_le hle, hlt, l, w, keep, ?_, hnarrow⟩
      rw [show n.load - pos = n.load - (pos + 1) + 1 by omega, List.getElem?_cons_succ, hl]

/-- A narrowed load has its constant where the wide one has it. -/
theorem constantIndex_narrowed (h : narrow? i.op w = some (op, keep)) :
    ({ i with op := op } : Inst).constantIndex = i.constantIndex := by
  obtain ⟨hop, hwide, -⟩ := narrow?_spec h
  have hfield : ∀ o : Opcode, o = .load8 ∨ isWide o = true → o.constField? = some .src2 := by
    intro o ho
    cases o <;> first | rfl | exact absurd ho (by decide)
  simp only [Inst.constantIndex, hfield op hop, hfield i.op (Or.inr hwide), Option.map_some,
    Inst.field]

/-- The instruction after a narrowing, if there is one. -/
def narrowedBy (first? : Option Narrowing) (i : Inst) : Inst :=
  match first? with
  | some n => { i with op := n.op }
  | none => i

theorem kept?_eq_none {n : Narrowing} (hn : n ∈ ns) (hd : n.dropped = some here) :
    kept? ns here i = none := by
  rw [kept?, if_pos]
  exact List.any_eq_true.mpr ⟨n, hn, beq_iff_eq.mpr hd⟩

/-- What becomes of an instruction that no earlier load drops is decided by the narrowing of its
own. -/
theorem kept?_eq_some {later : List Narrowing} (hpast : ∀ n ∈ past, n.load < here)
    (hdrop : ¬ ∃ n ∈ past, n.dropped = some here)
    (hfirst : ∀ n, first? = some n → n.load = here ∧ ∀ j, n.dropped = some j → here < j)
    (hlater : ∀ n ∈ later, here < n.load ∧ ∀ j, n.dropped = some j → n.load < j) :
    kept? (past ++ (first?.toList ++ later)) here i = some (narrowedBy first? i) := by
  -- a mask comes after its load, so only earlier loads can drop what is here
  have hnone :
      ¬ ((past ++ (first?.toList ++ later)).any fun n => n.dropped == some here) = true := by
    rw [List.any_eq_true]
    rintro ⟨n, hn, hd⟩
    replace hd : n.dropped = some here := eq_of_beq hd
    rcases List.mem_append.mp hn with hn | hn
    · exact hdrop ⟨n, hn, hd⟩
    · rcases List.mem_append.mp hn with hn | hn
      · exact absurd ((hfirst n (Option.mem_toList.mp hn)).2 here hd) (Nat.lt_irrefl here)
      · have h1 := (hlater n hn).1
        have h2 := (hlater n hn).2 here hd
        omega
  have hpast_find : past.find? (fun n => n.load == here) = none :=
    List.find?_eq_none.mpr fun n hn heq =>
      absurd (eq_of_beq heq) (Nat.ne_of_lt (hpast n hn))
  have hlater_find : later.find? (fun n => n.load == here) = none :=
    List.find?_eq_none.mpr fun n hn heq =>
      absurd (eq_of_beq heq) (Nat.ne_of_gt (hlater n hn).1)
  have hfind : (past ++ (first?.toList ++ later)).find? (fun n => n.load == here) = first? := by
    rw [List.find?_append, hpast_find, List.find?_append, hlater_find, Option.none_or,
      Option.or_none]
    cases first? with
    | none => rfl
    | some n =>
      rw [Option.toList_some, List.find?_singleton, (hfirst n rfl).1,
        if_pos (beq_self_eq_true here)]
  rw [kept?, if_neg hnone, hfind]
  cases first? <;> rfl

/-! ## Promises and the plan -/

/-- The promise is that of a narrowing. -/
structure Promise.Of (b : Block) (p : Promise) (n : Narrowing) : Prop where
  load : p.load = n.load
  dropped : p.dropped = n.dropped
  inst : ∃ l, b.insts[n.load]? = some l ∧ l.dest = p.reg
  mask : n.dropped ≠ none → p.mask = lowBits n.op

/-- Where the walk over a block stands: every mask ahead that is dropped has its promise, and every
promise comes from a narrowing and awaits its mask. -/
structure Ready (b : Block) (past : List Narrowing) (ps : List Promise) (here : Nat) : Prop where
  load : ∀ n ∈ past, n.load < here
  pending : ∀ n ∈ past, ∀ j, n.dropped = some j → here ≤ j → ∃ p ∈ ps, p.Of b n
  origin : ∀ p ∈ ps, ∃ n ∈ past, p.Of b n
  awaits : ∀ p ∈ ps, Awaits b p here (b.insts.drop here)

/-- A mask at position `j` is dropped although the register has been overwritten since the load by a
word that the mask would change. -/
def Narrowing.SpoiltAt (b : Block) (n : Narrowing) (j : Nat) (m : Machine) : Prop :=
  n.dropped = some j ∧ ∃ l, b.insts[n.load]? = some l ∧ Overwritten b n.load l.dest j ∧
    m.state.slot l.dest.toNat &&& lowBits n.op ≠ m.state.slot l.dest.toNat

theorem drop_eq_cons (hi : b.insts[here]? = some i) :
    b.insts.drop here = i :: b.insts.drop (here + 1) := by
  obtain ⟨hlt, rfl⟩ := List.getElem?_eq_some_iff.mp hi
  exact List.drop_eq_getElem_cons hlt

namespace Ready

theorem nil (b : Block) : Ready b [] [] 0 :=
  ⟨fun _ hn => absurd hn List.not_mem_nil, fun _ hn => absurd hn List.not_mem_nil,
    fun _ hp => absurd hp List.not_mem_nil, fun _ hp => absurd hp List.not_mem_nil⟩

theorem load_lt (h : Ready b past ps here) : ∀ p ∈ ps, p.load < here := by
  intro p hp
  obtain ⟨n, hn, hof⟩ := h.origin p hp
  rw [hof.load]
  exact h.load n hn

theorem cases (h : Ready b past ps here) (hi : b.insts[here]? = some i) {p : Promise}
    (hp : p ∈ ps) : (Masks b i p ∧ ∀ j, p.dropped = some j → j = here)
      ∨ (Passes i p ∧ Awaits b p (here + 1) (b.insts.drop (here + 1))) := by
  have hawaits := h.awaits p hp
  rw [drop_eq_cons hi] at hawaits
  exact hawaits.masks_or_passes

/-- At a mask the promises about its register are settled. -/
theorem mask {p : Promise} (h : Ready b past ps here) (hi : b.insts[here]? = some i)
    (hmask : Masks b i p) : Ready b past (others ps p.reg) (here + 1) := by
  refine ⟨fun n hn => Nat.lt_succ_of_lt (h.load n hn), fun n hn j hj hle => ?_, fun q hq => ?_,
    fun q hq => ?_⟩
  · obtain ⟨q, hq, hof⟩ := h.pending n hn j hj (Nat.le_of_succ_le hle)
    refine ⟨q, mem_others.mpr ⟨hq, ?_⟩, hof⟩
    rcases h.cases hi hq with hhere | hpass
    · have heq := hhere.2 j (hof.dropped.trans hj)
      omega
    · exact hmask.reg_ne hpass.1
  · exact h.origin q (mem_others.mp hq).1
  · obtain ⟨hq, hne⟩ := mem_others.mp hq
    rcases h.cases hi hq with hhere | hpass
    · exact absurd (hhere.1.dest.symm.trans hmask.dest) hne
    · exact hpass.2

/-- An instruction that no promise waits for. -/
theorem pass (h : Ready b past ps here) (hi : b.insts[here]? = some i)
    (hps : ∀ p ∈ ps, ¬ Masks b i p) :
    (∀ p ∈ ps, Passes i p) ∧ Ready b past ps (here + 1) := by
  have hboth : ∀ p ∈ ps, Passes i p ∧ Awaits b p (here + 1) (b.insts.drop (here + 1)) :=
    fun p hp => (h.cases hi hp).resolve_left fun hhere => hps p hp hhere.1
  exact ⟨fun p hp => (hboth p hp).1, fun n hn => Nat.lt_succ_of_lt (h.load n hn),
    fun n hn j hj hle => h.pending n hn j hj (Nat.le_of_succ_le hle), h.origin,
    fun p hp => (hboth p hp).2⟩

/-- A new promise. -/
theorem add {k : Narrowing} {p : Promise} (h : Ready b past ps here) (hload : k.load < here)
    (hof : p.Of b k) (hp : Awaits b p here (b.insts.drop here)) :
    Ready b (past ++ [k]) (p :: ps) here := by
  refine ⟨fun n hn => ?_, fun n hn j hj hle => ?_, fun q hq => ?_, fun q hq => ?_⟩
  · rcases List.mem_append.mp hn with hn | hn
    · exact h.load n hn
    · rw [List.mem_singleton.mp hn]
      exact hload
  · rcases List.mem_append.mp hn with hn | hn
    · obtain ⟨q, hq, hof'⟩ := h.pending n hn j hj hle
      exact ⟨q, List.mem_cons_of_mem p hq, hof'⟩
    · exact ⟨p, List.mem_cons_self, List.mem_singleton.mp hn ▸ hof⟩
  · rcases List.mem_cons.mp hq with rfl | hq
    · exact ⟨k, List.mem_append_right _ (List.mem_singleton_self k), hof⟩
    · obtain ⟨n, hn, hof'⟩ := h.origin q hq
      exact ⟨n, List.mem_append_left _ hn, hof'⟩
  · rcases List.mem_cons.mp hq with rfl | hq
    · exact hp
    · exact h.awaits q hq

/-- What is dropped here is the mask of a promise. -/
theorem masks_of_dropped {k : Narrowing} (h : Ready b past ps here) (hk : k ∈ past)
    (hd : k.dropped = some here) :
    ∃ i p, b.insts[here]? = some i ∧ p ∈ ps ∧ p.Of b k ∧ Masks b i p := by
  obtain ⟨p, hp, hof⟩ := h.pending k hk here hd (Nat.le_refl here)
  obtain ⟨i, hi⟩ : ∃ i, b.insts[here]? = some i := by
    cases hdrop : b.insts.drop here with
    | nil =>
      have hawaits := h.awaits p hp
      rw [hdrop] at hawaits
      exact nomatch hawaits
    | cons i rest => exact ⟨i, by rw [← List.head?_drop, hdrop, List.head?_cons]⟩
  refine ⟨i, p, hi, hp, hof, ?_⟩
  rcases h.cases hi hp with hhere | hpass
  · exact hhere.1
  · exact absurd (hpass.2.le_dropped here (hof.dropped.trans hd)) (Nat.not_succ_le_self here)

/-- What a mask that is dropped here meets, if no narrowing is spoilt. -/
theorem fits {p : Promise} (h : Ready b past ps here) (hi : b.insts[here]? = some i) (hp : p ∈ ps)
    (hmask : Masks b i p) (hund : ∀ k ∈ past, ¬ k.SpoiltAt b here m) (hd : p.dropped ≠ none)
    (hover : Overwritten b p.load p.reg here) :
    m.state.slot p.reg.toNat &&& p.mask = m.state.slot p.reg.toNat := by
  obtain ⟨k, hk, hof⟩ := h.origin p hp
  obtain ⟨l, hl, hdest⟩ := hof.inst
  obtain ⟨j, hj⟩ := Option.ne_none_iff_exists'.mp hd
  have hhere : j = here := by
    rcases h.cases hi hp with hhere | hpass
    · exact hhere.2 j hj
    · exact absurd rfl (hmask.reg_ne hpass.1)
  subst hhere
  rw [hof.load, ← hdest] at hover
  rw [hof.mask (hof.dropped ▸ hd), ← hdest]
  by_contra hne
  exact hund k hk ⟨hof.dropped.symm.trans hj, l, hl, hover, hne⟩

end Ready

/-! ## Two runs side by side -/

/-- Where the run of a block and the run of what is left of it stand before position `here`. -/
def Midway (b : Block) (ns : List Narrowing) (here : Nat) (m n : Machine) : Prop :=
  ∃ past later ps, ns = past ++ later ∧ plan b here (b.insts.drop here) = .ok later ∧
    Ready b past ps here ∧ Tracks b here ps m n

/-- **At a mask** the promises about its register are settled, also when it is dropped. -/
theorem Ready.step_mask (h : Ready b past ps here) (hi : b.insts[here]? = some i)
    (hmask : ∃ p ∈ ps, Masks b i p) (hund : ∀ k ∈ past, ¬ k.SpoiltAt b here m)
    (hT : Tracks b here ps m n) (hm : Guest.step i (b.pool.constant i) m = (.ok t, m')) :
    t = none ∧ ∃ ps', Ready b past ps' (here + 1)
      ∧ ((∃ k ∈ past, k.dropped = some here) → Tracks b (here + 1) ps' m' n)
      ∧ ∃ n', Guest.step i (b.pool.constant i) n = (.ok none, n')
        ∧ Tracks b (here + 1) ps' m' n' := by
  -- the promise that drops the mask, if there is one
  obtain ⟨p, hp, hpm, hdrop⟩ : ∃ p ∈ ps, Masks b i p ∧
      ((∃ k ∈ past, k.dropped = some here) → p.dropped ≠ none) := by
    by_cases hd : ∃ k ∈ past, k.dropped = some here
    · obtain ⟨k, hk, hkd⟩ := hd
      obtain ⟨j, p, hj, hp, hof, hpm⟩ := h.masks_of_dropped hk hkd
      cases hi.symm.trans hj
      refine ⟨p, hp, hpm, fun _ hn => ?_⟩
      rw [hof.dropped, hkd] at hn
      exact nomatch hn
    · obtain ⟨p, hp, hpm⟩ := hmask
      exact ⟨p, hp, hpm, fun hd' => absurd hd' hd⟩
  obtain ⟨rfl, hgone, hkeep⟩ := hT.masked hi h.load_lt hp hpm (h.fits hi hp hpm hund) hm
  exact ⟨rfl, others ps p.reg, h.mask hi hpm, fun hd => hgone (hdrop hd), hkeep⟩

/-- **At a narrowed load** a promise is made. -/
theorem Ready.step_narrowed {k : Narrowing} (h : Ready b past ps (here + 1)) (hb : b.InRange)
    (hi : b.insts[here]? = some i) (hload : ∀ p ∈ ps, p.load < here)
    (hpass : ∀ p ∈ ps, Passes i p) (hwide : isWide i.op = true) (hreg : i.dest ≠ 0)
    (hsearch : search b i.op i.dest here (here + 1) (b.insts.drop (here + 1)) = .ok (some k))
    (hT : Tracks b here ps m n) (hm : Guest.step i (b.pool.constant i) m = (.ok t, m')) :
    t = none ∧ ∃ ps', Ready b (past ++ [k]) ps' (here + 1)
      ∧ ({ i with op := k.op } : Inst).constantIndex = i.constantIndex
      ∧ ∃ n', Guest.step { i with op := k.op } (b.pool.constant i) n = (.ok none, n')
        ∧ Tracks b (here + 1) ps' m' n' := by
  obtain ⟨hsrc1, hdest, hrole, -⟩ := wide_signature hwide
  -- no open promise is about the registers of the load
  have hread : ∀ p ∈ ps, p.reg ≠ i.src1 := by
    intro p hp heq
    refine (hpass p hp).read ?_
    rw [heq, Inst.readSlots, List.append_assoc, List.append_assoc, hsrc1]
    exact List.mem_append_left _ (List.mem_singleton.mpr rfl)
  have hother : ∀ p ∈ ps, p.reg ≠ i.dest := by
    intro p hp heq
    refine (hpass p hp).dest ?_
    rw [Inst.destGpr, if_pos ⟨hdest, hrole⟩, heq]
  obtain ⟨hk, w, keep, hnarrow, hkeep, hawaits⟩ := awaits_of_search hreg
    (fun j hj => hb j (List.mem_of_mem_drop hj)) hsearch
  obtain ⟨-, -, -, hlow, -⟩ := narrow?_spec hnarrow
  obtain ⟨rfl, n', hn, hT'⟩ := hT.narrowed hi hload hreg hnarrow hkeep hread hother hm
  have hof : Promise.Of b ⟨here, i.dest, w, k.dropped, hreg⟩ k :=
    ⟨hk.symm, rfl, ⟨i, by rw [hk, hi], rfl⟩, fun hd => hlow (hkeep hd)⟩
  refine ⟨rfl, _, h.add ?_ hof hawaits, constantIndex_narrowed hnarrow, n', hn, hT'⟩
  rw [hk]
  exact Nat.lt_succ_self here

/-- **One instruction.** What it has become ends as it does; when the block is left the machines are
the same. -/
theorem Midway.step (h : Midway b ns here m n) (hb : b.InRange) (hi : b.insts[here]? = some i)
    (hund : ∀ k ∈ ns, ¬ k.SpoiltAt b here m)
    (hm : Guest.step i (b.pool.constant i) m = (.ok t, m')) :
    ∃ n', runCode (b.pool.resolve (kept? ns here i).toList) n = (.ok t, n')
      ∧ (t = none → Midway b ns (here + 1) m' n') ∧ (t ≠ none → m' = n') := by
  obtain ⟨past, later, ps, rfl, hplan, hready, hT⟩ := h
  rw [drop_eq_cons hi] at hplan
  obtain ⟨first?, later, rfl, hlater, hfirst⟩ := plan_cons hplan
  have hrange : ∀ j ∈ b.insts.drop (here + 1), ∀ k, j.constantIndex = some k →
      k.toNat < b.pool.size := fun j hj => hb j (List.mem_of_mem_drop hj)
  have hund' : ∀ k ∈ past, ¬ k.SpoiltAt b here m := fun k hk => hund k (List.mem_append_left _ hk)
  by_cases hmask : ∃ p ∈ ps, Masks b i p
  · -- a mask is no load, so it has no narrowing of its own
    have hnone : first? = none := by
      obtain ⟨p, -, hpm⟩ := hmask
      cases hf : first? with
      | none => rfl
      | some k =>
        have hwide := (hfirst k hf).1
        rw [hpm.op] at hwide
        exact nomatch hwide
    subst hnone
    obtain ⟨rfl, ps', hready', hgone, n', hn, hT'⟩ := hready.step_mask hi hmask hund' hT hm
    by_cases hd : ∃ k ∈ past, k.dropped = some here
    · obtain ⟨k, hk, hkd⟩ := hd
      rw [kept?_eq_none (List.mem_append_left _ hk) hkd]
      exact ⟨n, rfl, fun _ => ⟨past, later, ps', rfl, hlater, hready', hgone ⟨k, hk, hkd⟩⟩,
        fun ht => absurd rfl ht⟩
    · rw [kept?_eq_some hready.load hd (fun k (hk : none = some k) => nomatch hk)
        fun k hk => ⟨(plan_spec hrange hlater k hk).1, (plan_spec hrange hlater k hk).2.1⟩]
      exact ⟨n', (runCode_singleton i _ n).trans hn,
        fun _ => ⟨past, later, ps', rfl, hlater, hready', hT'⟩, fun ht => absurd rfl ht⟩
  · obtain ⟨hpass, hready'⟩ := hready.pass hi fun p hp hpm => hmask ⟨p, hp, hpm⟩
    have hd : ¬ ∃ k ∈ past, k.dropped = some here := by
      rintro ⟨k, hk, hkd⟩
      obtain ⟨j, p, hj, hp, -, hpm⟩ := hready.masks_of_dropped hk hkd
      cases hi.symm.trans hj
      exact hmask ⟨p, hp, hpm⟩
    rw [kept?_eq_some hready.load hd (fun k hk => ?_)
      fun k hk => ⟨(plan_spec hrange hlater k hk).1, (plan_spec hrange hlater k hk).2.1⟩]
    · rw [Option.toList_some, Pool.resolve, List.map_singleton, runCode_singleton]
      cases hf : first? with
      | some k =>
        obtain ⟨hwide, hreg, hsearch⟩ := hfirst k hf
        obtain ⟨rfl, ps', hready', hindex, n', hn, hT'⟩ :=
          hready'.step_narrowed hb hi hready.load_lt hpass hwide hreg hsearch hT hm
        have hconst : b.pool.constant (narrowedBy (some k) i) = b.pool.constant i :=
          congrArg (fun x : Option UInt8 => (x.bind fun k => b.pool.values[k.toNat]?).getD 0) hindex
        refine ⟨n', ?_, fun _ => ⟨past ++ [k], later, ps', ?_, hlater, hready', hT'⟩,
          fun ht => absurd rfl ht⟩
        · rw [hconst]
          exact hn
        · rw [Option.toList_some, List.append_assoc]
      | none =>
        obtain ⟨n', hn, hT'⟩ := hT.step hi hready.load_lt (fun p hp => (hpass p hp).read) hm
        refine ⟨n', hn, fun _ => ⟨past, later, ps, rfl, hlater, hready', hT'⟩, fun ht => ?_⟩
        -- an instruction that leaves is passed over by no promise
        have hps : ps = [] := List.eq_nil_iff_forall_not_mem.mpr fun p hp =>
          ht (step_exit (hpass p hp).exit hm)
        rw [hps] at hT'
        exact hT'.eq
    · obtain ⟨-, hreg, hsearch⟩ := hfirst k hk
      obtain ⟨hload, _, _, -, -, hawaits⟩ := awaits_of_search hreg hrange hsearch
      exact ⟨hload, hawaits.le_dropped⟩

/-- At the end of the block no promise is open. -/
theorem Midway.eq_of_end (h : Midway b ns b.insts.length m n) : m = n := by
  obtain ⟨past, later, ps, -, -, hready, hT⟩ := h
  have hps : ps = [] := List.eq_nil_iff_forall_not_mem.mpr fun p hp => by
    have hawaits := hready.awaits p hp
    rw [List.drop_length] at hawaits
    exact nomatch hawaits
  rw [hps] at hT
  exact hT.eq

/-- What is left of some instructions at the start of a block. -/
def left (ns : List Narrowing) (insts : List Inst) : List Inst :=
  insts.zipIdx.filterMap fun (i, pos) => kept? ns pos i

theorem left_take_succ (ns : List Narrowing) (hi : b.insts[here]? = some i) :
    left ns (b.insts.take (here + 1))
      = left ns (b.insts.take here) ++ (kept? ns here i).toList := by
  obtain ⟨hlt, -⟩ := List.getElem?_eq_some_iff.mp hi
  have hlen : (b.insts.take here).length = here := by
    rw [List.length_take, Nat.min_eq_left (Nat.le_of_lt hlt)]
  unfold left
  rw [List.take_add_one, hi, Option.toList_some, List.zipIdx_append, List.filterMap_append, hlen,
    Nat.zero_add]
  rfl

/-- The run of a block from `m₀` comes to position `k` with machine `m`. -/
def Reaches (b : Block) (m₀ : Machine) (k : Nat) (m : Machine) : Prop :=
  k ≤ b.insts.length ∧ runCode (b.pool.resolve (b.insts.take k)) m₀ = (.ok none, m)

variable {m₀ : Machine} {k : Nat}

theorem reaches_succ : Reaches b m₀ (k + 1) m' ↔
    ∃ i m, b.insts[k]? = some i ∧ Reaches b m₀ k m ∧
      step i (b.pool.constant i) m = (.ok none, m') := by
  have hrun : ∀ i, b.insts[k]? = some i → runCode (b.pool.resolve (b.insts.take (k + 1))) m₀
      = (runCode (b.pool.resolve (b.insts.take k)) m₀).andThen (step i (b.pool.constant i)) := by
    intro i hi
    rw [List.take_add_one, hi, Option.toList_some, Pool.resolve_append, runCode_append]
    exact congrArg _ (funext (runCode_singleton i _))
  constructor
  · rintro ⟨hle, h⟩
    have hi := List.getElem?_eq_getElem hle
    rw [hrun _ hi] at h
    obtain ⟨m, hm, hs⟩ | ⟨hne, -⟩ := Outcome.andThen_eq_ok h
    · exact ⟨_, m, hi, ⟨Nat.le_of_succ_le hle, hm⟩, hs⟩
    · exact absurd rfl hne
  · rintro ⟨i, m, hi, ⟨-, hm⟩, hs⟩
    obtain ⟨hlt, -⟩ := List.getElem?_eq_some_iff.mp hi
    refine ⟨hlt, ?_⟩
    rw [hrun i hi, hm, Outcome.andThen_next, hs]

/-- **A run up to some position.** As long as no mask met on the way is spoilt, what is left of the
instructions runs along. -/
theorem Midway.reach (hb : b.InRange) (hplan : plan b 0 b.insts = .ok ns)
    (hund : ∀ j < k, ∀ m, Reaches b m₀ j m → ∀ q ∈ ns, ¬ q.SpoiltAt b j m)
    (h : Reaches b m₀ k m) :
    ∃ n, runCode (b.pool.resolve (left ns (b.insts.take k))) m₀ = (.ok none, n)
      ∧ Midway b ns k m n := by
  induction k generalizing m with
  | zero =>
    obtain ⟨-, h⟩ := h
    rw [List.take_zero] at h
    cases h
    exact ⟨m₀, rfl, [], ns, [], rfl, hplan, Ready.nil b, Tracks.refl b m₀⟩
  | succ k ih =>
    obtain ⟨i, m₁, hi, hreach, hs⟩ := reaches_succ.mp h
    obtain ⟨n₁, hn₁, hmid⟩ := ih (fun j hj => hund j (Nat.lt_succ_of_lt hj)) hreach
    obtain ⟨n, hn, hnext, -⟩ := hmid.step hb hi (hund k (Nat.lt_succ_self k) m₁ hreach) hs
    refine ⟨n, ?_, hnext rfl⟩
    rw [left_take_succ ns hi, Pool.resolve_append, runCode_append, hn₁, Outcome.andThen_next, hn]

/-! ## Whole blocks -/

/-- What is left of a block has its constants where the block has them. -/
theorem left_inRange (hb : b.InRange) (hplan : plan b 0 b.insts = .ok ns) :
    ∀ j ∈ left ns b.insts, ∀ k, j.constantIndex = some k → k.toNat < b.pool.size := by
  intro j hj
  obtain ⟨⟨i, pos⟩, hmem, hkept⟩ := List.mem_filterMap.mp hj
  have hi : b.insts[pos]? = some i := List.mk_mem_zipIdx_iff_getElem?.mp hmem
  have hindex : j.constantIndex = i.constantIndex := by
    simp only [kept?] at hkept
    split at hkept
    · exact nomatch hkept
    · split at hkept
      · rename_i n hfind
        cases hkept
        obtain ⟨-, -, l, w, keep, hl, hnarrow⟩ :=
          plan_spec hb hplan n (List.mem_of_find?_eq_some hfind)
        have hpos : (n.load == pos) = true :=
          List.find?_some (p := fun n : Narrowing => n.load == pos) hfind
        -- the narrowing found here is that of this instruction
        rw [eq_of_beq hpos, Nat.sub_zero, hi] at hl
        cases hl
        exact constantIndex_narrowed hnarrow
      · cases hkept
        rfl
  rw [hindex]
  exact hb i (List.mem_of_getElem? hi)

theorem left_take_append (ns : List Narrowing) (insts : List Inst) (k : Nat) :
    ∃ later, left ns insts = left ns (insts.take k) ++ later := by
  refine ⟨((insts.drop k).zipIdx (0 + (insts.take k).length)).filterMap
    fun (i, pos) => kept? ns pos i, ?_⟩
  unfold left
  rw [← List.filterMap_append, ← List.zipIdx_append, List.take_append_drop]

/-- A block that is left is left by one of its instructions. -/
theorem runCode_exit {p : Pool} {u : Word}
    (h : runCode (p.resolve insts) m = (.ok (some u), m')) :
    ∃ k i m₁, insts[k]? = some i ∧ runCode (p.resolve (insts.take k)) m = (.ok none, m₁) ∧
      step i (p.constant i) m₁ = (.ok (some u), m') := by
  induction insts generalizing m with
  | nil => exact nomatch h
  | cons i rest ih =>
    obtain ⟨m₁, hs, h⟩ | ⟨-, hs⟩ := Outcome.andThen_eq_ok h
    · obtain ⟨k, j, m₂, hj, hrun, hstep⟩ := ih h
      refine ⟨k + 1, j, m₂, hj, ?_, hstep⟩
      show Outcome.andThen (step i (p.constant i) m) (runCode (p.resolve (rest.take k))) = _
      rw [hs, Outcome.andThen_next, hrun]
    · exact ⟨0, i, m, rfl, rfl, hs⟩

/-- In the run of a block from `m₀` no dropped mask is spoilt. -/
def Undisturbed (b : Block) (m₀ : Machine) : Prop :=
  ∀ ns, plan b 0 b.insts = .ok ns → ∀ n ∈ ns, ∀ j m, Reaches b m₀ j m → ¬ n.SpoiltAt b j m

/-- **Narrowing preserves meaning where no dropped mask was needed.** Narrowing does not fail, and a
block that ends without a fault ends after narrowing with the same exit and the same machine, if
every dropped mask that the run meets finds the loaded word or a word that it would not change. -/
theorem run_narrowed (hb : b.InRange) :
    ∃ b', run b = .ok b' ∧ ∀ m t m', Undisturbed b m → runBlock b m = (.ok t, m') →
      runBlock b' m = (.ok t, m') := by
  obtain ⟨ns, hplan⟩ : ∃ ns, plan b 0 b.insts = .ok ns := plan_ok hb
  have hrange := left_inRange hb hplan
  obtain ⟨b', hb'⟩ := Block.appendAll_ok (b := {}) (left ns b.insts)
    ⟨List.nodup_nil, fun v hv => absurd hv List.not_mem_nil⟩ hrange
  refine ⟨b', bind_eq_ok.mpr ⟨ns, hplan, hb'⟩, fun m t m' hund hm => ?_⟩
  rw [runBlock_eq_runCode hb] at hm
  rw [(Block.emits_appendAll _ Block.tidy_empty hrange hb').run]
  show runCode (b.pool.resolve (left ns b.insts)) m = (.ok t, m')
  have hspared : ∀ k, ∀ j < k, ∀ m₁, Reaches b m j m₁ → ∀ q ∈ ns, ¬ q.SpoiltAt b j m₁ :=
    fun _ j _ m₁ hreach q hq => hund ns hplan q hq j m₁ hreach
  cases t with
  | none =>
    have hreach : Reaches b m b.insts.length m' := by
      refine ⟨Nat.le_refl _, ?_⟩
      rw [List.take_length]
      exact hm
    obtain ⟨n, hn, hmid⟩ := Midway.reach hb hplan (hspared _) hreach
    rw [List.take_length] at hn
    rw [hn, hmid.eq_of_end]
  | some u =>
    obtain ⟨k, i, m₁, hi, hrun, hs⟩ := runCode_exit hm
    obtain ⟨hlt, -⟩ := List.getElem?_eq_some_iff.mp hi
    have hreach : Reaches b m k m₁ := ⟨Nat.le_of_lt hlt, hrun⟩
    obtain ⟨n₁, hn₁, hmid⟩ := Midway.reach hb hplan (hspared k) hreach
    obtain ⟨n, hn, -, hsame⟩ := hmid.step hb hi
      (fun q hq => hund ns hplan q hq k m₁ hreach) hs
    -- the instructions after the exit do not matter
    obtain ⟨later, hleft⟩ := left_take_append ns b.insts (k + 1)
    rw [hleft, left_take_succ ns hi, Pool.resolve_append, Pool.resolve_append, runCode_append,
      runCode_append, hn₁, Outcome.andThen_next, hn, Outcome.andThen_exit,
      hsame fun h => nomatch h]

/-- A word load that keeps its low byte becomes a byte load, and its mask goes. -/
theorem run_narrowed_byte :
    let b : Block := ⟨[⟨.load32, 5, 4, 0⟩, ⟨.mov, 6, 4, 0⟩, ⟨.andConst, 5, 5, 1⟩], ⟨[0, 0xff]⟩⟩
    let b' : Block := ⟨[⟨.load8, 5, 4, 0⟩, ⟨.mov, 6, 4, 0⟩], ⟨[0]⟩⟩
    let m : Machine := ⟨{}, ⟨#[0x12, 0x34, 0x56, 0x78]⟩⟩
    run b = .ok b' ∧ (runBlock b m).1 = .ok none ∧ runBlock b' m = runBlock b m := by
  intro b b' m
  have hrun : run b = .ok b' := by decide
  have hend : (runBlock b m).1 = .ok none := by decide
  have hrange : b.InRange := by decide
  -- the instruction in between writes another register
  have hund : Undisturbed b m := by
    rintro ns hplan n hn j m₁ - ⟨hj, l, hl, ⟨i, hi, hw⟩, -⟩
    have hns : ns = [⟨0, .load8, some 2⟩] := (Except.ok.inj hplan).symm
    rw [hns] at hn
    cases List.mem_singleton.mp hn
    cases hl
    cases hj
    cases List.mem_singleton.mp hi
    exact absurd hw (by decide)
  have hpair : runBlock b m = (.ok none, (runBlock b m).2) := by rw [← hend]
  obtain ⟨b'', hrun', hsame⟩ := run_narrowed hrange
  cases hrun.symm.trans hrun'
  refine ⟨hrun, hend, ?_⟩
  rw [hsame m none _ hund hpair, ← hpair]

/-- **The condition cannot be weakened.** If the run of a block meets a dropped mask that was
needed, then the narrowed block runs along with it up to that mask, and after it the register
differs: it keeps the word that the mask would have changed. -/
theorem mask_lost_of_disturbed (hb : b.InRange) (hdisturbed : ¬ Undisturbed b m₀) :
    ∃ ns j i m₁ n₁, plan b 0 b.insts = .ok ns ∧ b.insts[j]? = some i ∧ i.op = .andConst
      ∧ kept? ns j i = none ∧ Reaches b m₀ (j + 1) m₁
      ∧ runCode (b.pool.resolve (left ns (b.insts.take (j + 1)))) m₀ = (.ok none, n₁)
      ∧ n₁.state.slot i.dest.toNat ≠ m₁.state.slot i.dest.toNat := by
  obtain ⟨ns, hplan⟩ : ∃ ns, plan b 0 b.insts = .ok ns := plan_ok hb
  have hex : ∃ j m, Reaches b m₀ j m ∧ ∃ q ∈ ns, q.SpoiltAt b j m := by
    by_contra hnone
    refine hdisturbed fun ns' hplan' q hq j m hreach hspoilt => hnone ⟨j, m, hreach, q, ?_, hspoilt⟩
    cases hplan.symm.trans hplan'
    exact hq
  -- the first mask that is spoilt: up to it the runs go side by side
  classical
  obtain ⟨m, hreach, q, hq, hspoilt⟩ := Nat.find_spec hex
  have hbefore : ∀ j < Nat.find hex, ∀ m, Reaches b m₀ j m → ∀ q ∈ ns, ¬ q.SpoiltAt b j m :=
    fun j hj m hreach q hq hspoilt => Nat.find_min hex hj ⟨m, hreach, q, hq, hspoilt⟩
  generalize Nat.find hex = j at hreach hspoilt hbefore
  obtain ⟨n, hn, past, later, ps, rfl, hlater, hready, hT⟩ := Midway.reach hb hplan hbefore hreach
  obtain ⟨hd, l, hl, hover, hne⟩ := hspoilt
  have hpast : q ∈ past := by
    refine (List.mem_append.mp hq).resolve_right fun hq => ?_
    obtain ⟨hle, hlt, -⟩ := plan_spec (fun i hi => hb i (List.mem_of_mem_drop hi)) hlater q hq
    exact absurd (hlt j hd) (Nat.not_lt.mpr hle)
  obtain ⟨i, p, hi, hp, hof, hmask⟩ := hready.masks_of_dropped hpast hd
  obtain ⟨l', hl', hdest⟩ := hof.inst
  cases hl.symm.trans hl'
  have hgone : kept? (past ++ later) j i = none := kept?_eq_none hq hd
  refine ⟨past ++ later, j, i, _, n, hplan, hi, hmask.op, hgone,
    reaches_succ.mpr ⟨i, m, hi, hreach, hmask.step m⟩, ?_, ?_⟩
  · rw [left_take_succ _ hi, hgone, Option.toList_none, List.append_nil, hn]
  · -- the register has been overwritten, so that it held the same word on both machines
    rw [hdest, ← hof.load] at hover
    rw [hdest] at hne
    rw [hmask.dest, Machine.slot_setReg, if_pos rfl, (hT.kept p hp).stale hover, hof.mask]
    · exact hne.symm
    · rw [hd]
      exact Option.some_ne_none j

/-- **A mask that was needed is lost.** The low half of the product register is loaded, set to
another word and then masked. The search for the mask passes over the instruction that sets it,
because it does not name it, and drops the mask. -/
theorem run_mask_lost :
    let b : Block :=
      ⟨[⟨.load32, 240, 4, 0⟩, ⟨.mtLo, 0, 5, 0⟩, ⟨.andConst, 240, 240, 1⟩], ⟨[0, 0xff]⟩⟩
    let b' : Block := ⟨[⟨.load8, 240, 4, 0⟩, ⟨.mtLo, 0, 5, 0⟩], ⟨[0]⟩⟩
    let m : Machine := ⟨({} : State).setSlot 5 0x1234, Memory.zeroed 4⟩
    (∀ i ∈ b.insts, i.fits = true) ∧ run b = .ok b'
      ∧ (runBlock b m).1 = .ok none ∧ (runBlock b m).2.state.slot Slot.lo = 0x34
      ∧ (runBlock b' m).1 = .ok none ∧ (runBlock b' m).2.state.slot Slot.lo = 0x1234 := by
  intro b b' m
  refine ⟨by decide, ?_, ?_, ?_, ?_, ?_⟩ <;> decide


end Dynarec.Optimize.NarrowLoads
