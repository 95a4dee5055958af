/-
What a copy of a block is.

Taking instructions over one by one interns their constants one by one, so the pool that results
holds each constant once, in order of first use, and every instruction names its constant by the
position it has there. `Block.taken` says this without a loop, `copy_eq_ok` says that copying a
block in range gives exactly that, and a block whose pool already has this form is its own copy.

The invariant of the loop is that the pool so far is a beginning of the pool at the end; the
position of a constant that is already there does not move any more.
-/
import Dynarec.Proofs.Guest.Code
import Mathlib.Data.List.Nodup

set_option autoImplicit false

namespace Dynarec

/-- The constant operand of an instruction, if it has one and the pool holds it. -/
def Pool.constant? (p : Pool) (i : Inst) : Option Word :=
  i.constantIndex.bind fun k => p.values[k.toNat]?

/-- The constants that the instructions of a block use, in order, with repetitions. -/
def Block.constants (b : Block) : List Word := b.insts.filterMap b.pool.constant?

/-- An instruction of a pool with the position that its constant has among `values`. -/
def Pool.reposition (p : Pool) (values : List Word) (i : Inst) : Inst :=
  match i.op.constField?, p.constant? i with
  | some f, some c => i.setField f (UInt8.ofNat (values.idxOf c))
  | _, _ => i

/-- Instructions of a block with a pool of their own: their constants in order of first use. -/
def Block.taken (source : Block) (is : List Inst) : Block :=
  let values := (is.filterMap source.pool.constant?).eraseDups
  { insts := is.map (source.pool.reposition values), pool := { values := values } }

/-! ## Constants in order of first use -/

theorem nodup_eraseDups (cs : List Word) : cs.eraseDups.Nodup := by
  cases cs with
  | nil => simp
  | cons c cs =>
    rw [List.eraseDups_cons, List.nodup_cons]
    exact ⟨by simp [List.mem_eraseDups], nodup_eraseDups _⟩
termination_by cs.length
decreasing_by
  have hshort : (cs.filter fun d => !d == c).length ≤ cs.length := List.length_filter_le _ _
  rw [List.length_cons]
  omega

/-- One more use of a constant adds it at the end unless it was used before. -/
theorem eraseDups_concat (cs : List Word) (c : Word) :
    (cs ++ [c]).eraseDups = if c ∈ cs then cs.eraseDups else cs.eraseDups ++ [c] := by
  rw [List.eraseDups_append]
  split
  · next h => simp [List.removeAll, h]
  · next h => simp [List.removeAll, h, List.eraseDups_cons]

theorem idxOf?_of_mem {cs : List Word} {c : Word} (h : c ∈ cs) :
    cs.idxOf? c = some (cs.idxOf c) := by
  obtain ⟨k, hk⟩ := Option.isSome_iff_exists.1 (List.isSome_idxOf?.2 h)
  rw [List.idxOf_eq_getD_idxOf?, hk, Option.getD_some]

/-- **Interning keeps the order of first use.** -/
theorem Pool.intern_first {cs : List Word} {c : Word}
    (hroom : c ∉ cs → cs.eraseDups.length < capacity) :
    Pool.intern { values := cs.eraseDups } c =
      .ok (UInt8.ofNat ((cs ++ [c]).eraseDups.idxOf c), { values := (cs ++ [c]).eraseDups }) := by
  rw [eraseDups_concat]
  by_cases h : c ∈ cs
  · have hmem : c ∈ cs.eraseDups := List.mem_eraseDups.2 h
    simp [Pool.intern, idxOf?_of_mem hmem, h]
  · have hmem : c ∉ cs.eraseDups := fun hc => h (List.mem_eraseDups.1 hc)
    have hfree : ¬ capacity ≤ cs.eraseDups.length := Nat.not_le.2 (hroom h)
    simp [Pool.intern, Pool.size, List.idxOf?_eq_none_iff.2 hmem, h, hfree, List.idxOf_append, hmem]

/-! ## Taking instructions over -/

section Taken

variable {source : Block} {i : Inst}

theorem Pool.constant?_eq {p : Pool} {k : UInt8} (hk : i.constantIndex = some k)
    (hlt : k.toNat < p.size) : p.constant? i = some (p.constant i) := by
  have hget : p.values[k.toNat]? = some (p.values.get ⟨k.toNat, hlt⟩) :=
    List.getElem?_eq_getElem hlt
  simp only [Pool.constant?, Pool.constant, hk, Option.bind_some, hget, Option.getD_some]

/-- The pool of instructions taken over is drawn from the source. -/
theorem Block.drawn_taken (is : List Inst) : source.pool.Drawn (source.taken is).pool := by
  refine ⟨nodup_eraseDups _, ?_⟩
  intro v hv
  obtain ⟨i, -, hi⟩ := List.mem_filterMap.1 (List.mem_eraseDups.1 hv)
  obtain ⟨k, hk, hget⟩ := Option.bind_eq_some_iff.1 hi
  have hconst : source.pool.constant i = v := by simp [Pool.constant, hk, hget]
  rw [← hconst]
  exact Pool.constant_mem_reachable hk

/-- A pool drawn from another one has no more constants than there are positions. -/
theorem Pool.Drawn.size_le {source p : Pool} (h : source.Drawn p) : p.size ≤ capacity := by
  have hle := (List.subperm_of_subset h.nodup h.mem).length_le
  rwa [Pool.reachable, List.length_map, List.length_range] at hle

/-- While a constant of the source is missing, a pool drawn from it is not full. -/
theorem Pool.Drawn.size_lt {source p : Pool} {c : Word} (h : source.Drawn p)
    (hc : c ∈ source.reachable) (hnew : c ∉ p.values) : p.size < capacity := by
  by_contra hfull
  obtain ⟨k, p', hok, -⟩ := h.intern_ok hc
  simp [Pool.intern, List.idxOf?_eq_none_iff.2 hnew, Nat.not_lt.1 hfull] at hok

/-- Positions do not move when the pool grows at its end. -/
theorem Pool.reposition_append {p : Pool} {values more : List Word}
    (h : ∀ c, p.constant? i = some c → c ∈ values) :
    p.reposition (values ++ more) i = p.reposition values i := by
  unfold Pool.reposition
  split
  · next f c _ hc => rw [List.idxOf_append_of_mem (h c hc)]
  · rfl

theorem Block.taken_concat (is : List Inst) (i : Inst) :
    source.taken (is ++ [i]) =
      { insts := (source.taken is).insts ++
          [source.pool.reposition (source.taken (is ++ [i])).pool.values i],
        pool := (source.taken (is ++ [i])).pool } := by
  simp only [Block.taken, List.map_append, List.map_cons, List.map_nil, Block.mk.injEq, and_true]
  congr 1
  apply List.map_congr_left
  intro j hj
  rw [List.filterMap_append, List.eraseDups_append]
  apply Pool.reposition_append
  intro c hc
  exact List.mem_eraseDups.2 (List.mem_filterMap.2 ⟨j, hj, hc⟩)

/-- **One instruction taken over.** -/
theorem Block.append_taken (is : List Inst)
    (h : ∀ k, i.constantIndex = some k → k.toNat < source.pool.size) :
    (source.taken is).append source i = .ok (source.taken (is ++ [i])) := by
  rw [Block.append, constantOf_eq h, Block.taken_concat]
  cases hk : i.constantIndex with
  | none =>
    have hnone : source.pool.constant? i = none := by simp [Pool.constant?, hk]
    have hsame : ∀ values, source.pool.reposition values i = i := by
      intro values
      simp [Pool.reposition, hnone]
    simp only [Option.map_none, hsame]
    simp [bind, Except.bind, Block.pushWith, Block.push, Block.taken, hnone]
  | some k =>
    have hsome := Pool.constant?_eq hk (h k hk)
    obtain ⟨f, hf⟩ : ∃ f, i.op.constField? = some f := by
      cases hf : i.op.constField? with
      | none => simp [Inst.constantIndex, hf] at hk
      | some f => exact ⟨f, rfl⟩
    -- A pool drawn from the source has room for one more of its constants.
    have hintern : (source.taken is).pool.intern (source.pool.constant i) =
        .ok (UInt8.ofNat ((source.taken (is ++ [i])).pool.values.idxOf (source.pool.constant i)),
          (source.taken (is ++ [i])).pool) := by
      simp only [Block.taken, List.filterMap_append, List.filterMap_cons, List.filterMap_nil, hsome]
      apply Pool.intern_first
      intro hnew
      apply (Block.drawn_taken is).size_lt (Pool.constant_mem_reachable hk)
      exact fun hmem => hnew (List.mem_eraseDups.1 hmem)
    have hposition : source.pool.reposition (source.taken (is ++ [i])).pool.values i =
        i.setField f (UInt8.ofNat
          ((source.taken (is ++ [i])).pool.values.idxOf (source.pool.constant i))) := by
      simp only [Pool.reposition, hf, hsome]
    rw [hposition]
    simp only [Option.map_some, Block.pushWith, Block.intern, hintern, Inst.setConstantIndex, hf,
      Block.push, bind, Except.bind, pure, Except.pure]

theorem Block.appendAll_taken (is js : List Inst)
    (h : ∀ i ∈ js, ∀ k, i.constantIndex = some k → k.toNat < source.pool.size) :
    (source.taken is).appendAll source js = .ok (source.taken (is ++ js)) := by
  induction js generalizing is with
  | nil => simp [Block.appendAll, pure, Except.pure]
  | cons i js ih =>
    have hstep := Block.append_taken is (h i List.mem_cons_self)
    have hrest := ih (is ++ [i]) fun j hj => h j (List.mem_cons_of_mem i hj)
    rw [List.append_assoc, List.singleton_append] at hrest
    simpa [Block.appendAll, hstep, bind, Except.bind] using hrest

end Taken

/-- **What a copy is.** Copying a block in range succeeds and gives its instructions with their
constants in order of first use. -/
theorem Block.copy_eq_ok {b : Block} (h : b.InRange) : b.copy = .ok (b.taken b.insts) :=
  Block.appendAll_taken [] b.insts h

/-- A block whose pool holds its constants in order of first use is its own copy. -/
theorem Block.taken_eq_self {b : Block}
    (hpool : b.pool.values = b.constants.eraseDups) : b.taken b.insts = b := by
  have hsame : ∀ i ∈ b.insts, b.pool.reposition b.pool.values i = i := by
    intro i hi
    unfold Pool.reposition
    split
    · next f c hf hc =>
      obtain ⟨k, hk, hget⟩ := Option.bind_eq_some_iff.1 hc
      have hfield : i.field f = k := by simpa [Inst.constantIndex, hf] using hk
      obtain ⟨hlt, rfl⟩ := List.getElem?_eq_some_iff.1 hget
      have hnodup : b.pool.values.Nodup := hpool ▸ nodup_eraseDups _
      rw [hnodup.idxOf_getElem _ hlt, UInt8.ofNat_toNat, ← hfield]
      cases f <;> rfl
    · rfl
  show Block.mk (b.insts.map (b.pool.reposition b.constants.eraseDups))
    { values := b.constants.eraseDups } = b
  rw [← hpool, List.map_congr_left hsame, List.map_id']

end Dynarec
