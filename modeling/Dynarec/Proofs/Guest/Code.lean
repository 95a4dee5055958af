/-
Building a block and running it.

No optimisation changes the block that it reads: each builds another one, instruction by
instruction, and interns every constant again. Such a block runs instructions whose constants sit
in a pool that is still growing. This file says once, for all of them, what that building means for
execution.

`Code` is a list of instructions with their constants resolved, and `runCode` executes it; a block
with in-range positions runs as its code (`runBlock_eq_runCode`). `Emits b b' code` says that
building went from `b` to `b'` and that `b'` runs as `b` followed by `code`. It holds for each way
of appending an instruction and composes, so that a pass is understood through the code it emits
and no proof about a pass looks at positions or pools.

Taking instructions over from another block never runs out of pool: there are only 256 positions
to take constants from (`Block.appendAll_ok`).
-/
import Dynarec.Guest.Run
import Mathlib.Data.List.Perm.Subperm

set_option autoImplicit false

namespace Dynarec

/-! ## Computations that may fail -/

section Except

variable {ε α β : Type}

/-- A sequence succeeds when both parts do. -/
theorem bind_eq_ok {x : Except ε α} {f : α → Except ε β} {b : β} :
    (x >>= f) = .ok b ↔ ∃ a, x = .ok a ∧ f a = .ok b := by
  cases x with
  | error e => exact ⟨fun h => (nomatch h), fun ⟨_, h, _⟩ => nomatch h⟩
  | ok a => exact ⟨fun h => ⟨a, rfl, h⟩, fun ⟨_, ha, h⟩ => Except.ok.inj ha ▸ h⟩

theorem pure_eq_ok {a b : α} : (pure a : Except Fault α) = .ok b ↔ a = b :=
  ⟨fun h => Except.ok.inj h, fun h => h ▸ rfl⟩

/-- A step that fails keeps what it changed, and the steps after it are not made. -/
theorem run_bind {σ : Type} (x : ExceptT ε (StateM σ) α) (k : α → ExceptT ε (StateM σ) β) (s : σ) :
    (x >>= k).run.run s =
      match x.run.run s with
      | (.ok a, s) => (k a).run.run s
      | (.error e, s) => (.error e, s) := by
  unfold ExceptT.run StateT.run
  simp only [bind, ExceptT.bind, ExceptT.mk, StateT.bind, ExceptT.bindCont]
  rcases x s with ⟨_ | _, _⟩ <;> rfl

end Except

/-! ## Outcomes -/

namespace Guest

/-- How execution ends: an exit, the end of the block or a fault, and the machine then. -/
abbrev Outcome := Except Fault (Option Word) × Machine

namespace Outcome

/-- Go on after the end of some code; an exit and a fault end everything. -/
def andThen (r : Outcome) (next : Machine → Outcome) : Outcome :=
  match r with
  | (.ok none, m) => next m
  | r => r

theorem andThen_next (m : Machine) (next : Machine → Outcome) :
    andThen (.ok none, m) next = next m := rfl

theorem andThen_exit (t : Word) (m : Machine) (next : Machine → Outcome) :
    andThen (.ok (some t), m) next = (.ok (some t), m) := rfl

/-- Execution goes on after the end of some code, or ends there with an exit. -/
theorem andThen_eq_ok {r : Outcome} {next : Machine → Outcome} {t : Option Word} {m' : Machine}
    (h : andThen r next = (.ok t, m')) :
    (∃ m, r = (.ok none, m) ∧ next m = (.ok t, m')) ∨ (t ≠ none ∧ r = (.ok t, m')) := by
  rcases r with ⟨_ | _ | u, m⟩
  · exact nomatch h
  · exact Or.inl ⟨m, rfl, h⟩
  · cases h
    exact Or.inr ⟨(fun hn => nomatch hn), rfl⟩

theorem andThen_assoc (r : Outcome) (f g : Machine → Outcome) :
    andThen (andThen r f) g = andThen r fun m => andThen (f m) g := by
  rcases r with ⟨_ | _ | _, m⟩ <;> rfl

end Outcome

open Outcome

/-! ## Code -/

/-- Instructions whose constants have been looked up. -/
abbrev Code := List (Inst × Word)

/-- Execute code. -/
def runCode : Code → Machine → Outcome
  | [], m => (.ok none, m)
  | (i, c) :: rest, m => andThen (step i c m) (runCode rest)

theorem runCode_append (xs ys : Code) (m : Machine) :
    runCode (xs ++ ys) m = andThen (runCode xs m) (runCode ys) := by
  induction xs generalizing m with
  | nil => rfl
  | cons p xs ih =>
    obtain ⟨i, c⟩ := p
    rw [List.cons_append, runCode, runCode, andThen_assoc]
    exact congrArg _ (funext ih)

theorem runCode_singleton (i : Inst) (c : Word) (m : Machine) :
    runCode [(i, c)] m = step i c m := by
  rw [runCode]
  rcases step i c m with ⟨_ | _ | _, m⟩ <;> rfl

/-- The position of a constant is not part of what an instruction does. -/
theorem step_setField {i : Inst} {f : Field} (h : i.op.constField? = some f) (index : UInt8)
    (c : Word) (m : Machine) : step (i.setField f index) c m = step i c m := by
  obtain ⟨op, dest, src1, src2⟩ := i
  cases op <;> cases h <;> rfl

end Guest

open Guest

/-! ## Resolving constants -/

/-- The constant operand of an instruction, zero if there is none. -/
def Pool.constant (p : Pool) (i : Inst) : Word :=
  (i.constantIndex.bind fun k => p.values[k.toNat]?).getD 0

theorem Pool.constant_getD (p : Pool) (i : Inst) :
    (i.constantIndex.map fun _ => p.constant i).getD 0 = p.constant i := by
  unfold Pool.constant
  cases i.constantIndex <;> rfl

/-- Every position that an instruction names is one of the pool. -/
def Block.InRange (b : Block) : Prop :=
  ∀ i ∈ b.insts, ∀ k, i.constantIndex = some k → k.toNat < b.pool.size

instance Block.decidableInRange (b : Block) : Decidable b.InRange :=
  decidable_of_iff (∀ i ∈ b.insts, i.constantIndex.all (·.toNat < b.pool.size) = true)
    (forall₂_congr fun i _ => by simp only [Option.all_eq_true, decide_eq_true_eq])

/-- Instructions with their constants. -/
def Pool.resolve (p : Pool) (insts : List Inst) : Code := insts.map fun i => (i, p.constant i)

theorem Pool.resolve_append (p : Pool) (xs ys : List Inst) :
    p.resolve (xs ++ ys) = p.resolve xs ++ p.resolve ys := List.map_append

/-- The instructions of a block with their constants. -/
def Block.code (b : Block) : Code := b.pool.resolve b.insts

theorem Pool.get_eq {p : Pool} {k : UInt8} (h : k.toNat < p.size) :
    p.get k = .ok (p.values.get ⟨k.toNat, h⟩) := by
  rw [Pool.get, List.getElem?_eq_getElem h]
  rfl

/-- Looking up the constant of an instruction in range succeeds. -/
theorem Pool.lookup_eq {p : Pool} {i : Inst}
    (h : ∀ k, i.constantIndex = some k → k.toNat < p.size) :
    i.constantIndex.mapM p.get = .ok (i.constantIndex.map fun _ => p.constant i) := by
  unfold Pool.constant
  cases hi : i.constantIndex with
  | none => rfl
  | some k =>
    have hk := h k hi
    rw [Option.bind_some, List.getElem?_eq_getElem hk, Option.getD_some, Option.map_some]
    show (some <$> p.get k : Except Fault (Option Word)) = _
    rw [Pool.get_eq hk]
    rfl

theorem runInsts_eq_runCode (pool : Pool) (insts : List Inst) (m : Machine)
    (h : ∀ i ∈ insts, ∀ k, i.constantIndex = some k → k.toNat < pool.size) :
    runInsts pool insts m = runCode (pool.resolve insts) m := by
  induction insts generalizing m with
  | nil => rfl
  | cons i rest ih =>
    rw [runInsts, Pool.lookup_eq (h i List.mem_cons_self), Pool.resolve, List.map_cons, runCode]
    simp only [Pool.constant_getD]
    rcases step i (pool.constant i) m with ⟨_ | _ | _, m'⟩
    · rfl
    · exact ih m' fun j hj => h j (List.mem_cons_of_mem i hj)
    · rfl

/-- A block in range runs as its code. -/
theorem runBlock_eq_runCode {b : Block} (h : b.InRange) (m : Machine) :
    runBlock b m = runCode b.code m :=
  runInsts_eq_runCode b.pool b.insts m h

/-! ## Interning -/

theorem toNat_ofNat_of_lt {n : Nat} (h : n < 256) : (UInt8.ofNat n).toNat = n := by
  rw [UInt8.toNat_ofNat', Nat.mod_eq_of_lt h]

/-- An interned constant is found at its position, and whatever was in the pool stays where it
was. -/
theorem Pool.intern_spec {p p' : Pool} {v : Word} {k : UInt8} (hp : p.size ≤ capacity)
    (h : p.intern v = .ok (k, p')) :
    p'.size ≤ capacity ∧ p'.values[k.toNat]? = some v ∧ ∃ more, p'.values = p.values ++ more := by
  unfold Pool.intern at h
  split at h
  · rename_i j hj
    obtain ⟨rfl, rfl⟩ := Prod.mk.inj (Except.ok.inj h)
    obtain ⟨hlt, hv, -⟩ := List.idxOf?_eq_some_iff.mp hj
    have hlt' : j < 256 := Nat.lt_of_lt_of_le hlt hp
    refine ⟨hp, ?_, [], (List.append_nil _).symm⟩
    rw [toNat_ofNat_of_lt hlt', List.getElem?_eq_getElem hlt, hv]
  · split at h
    · exact nomatch h
    · rename_i hfull
      obtain ⟨rfl, rfl⟩ := Prod.mk.inj (Except.ok.inj h)
      have hlt : p.size < 256 := Nat.lt_of_not_le hfull
      refine ⟨?_, ?_, [v], rfl⟩
      · show (p.values ++ [v]).length ≤ 256
        rw [List.length_append, List.length_singleton]
        exact hlt
      · show (p.values ++ [v])[(UInt8.ofNat p.size).toNat]? = some v
        rw [toNat_ofNat_of_lt hlt]
        exact List.getElem?_concat_length

/-- The constant of an instruction does not change when the pool grows. -/
theorem Pool.constant_of_append {p p' : Pool} {more : List Word} {i : Inst}
    (h : p'.values = p.values ++ more)
    (hi : ∀ k, i.constantIndex = some k → k.toNat < p.size) : p'.constant i = p.constant i := by
  unfold Pool.constant
  cases hk : i.constantIndex with
  | none => rfl
  | some k =>
    rw [Option.bind_some, Option.bind_some, h, List.getElem?_append_left (hi k hk)]

/-! ## Emission -/

/-- A block under construction: positions in range, and no more constants than positions. -/
structure Block.Tidy (b : Block) : Prop where
  inRange : b.InRange
  bounded : b.pool.size ≤ Pool.capacity

theorem Block.tidy_empty : ({} : Block).Tidy :=
  ⟨fun _ hi => absurd hi List.not_mem_nil, Nat.zero_le _⟩

/-- Building went from `b` to `b'`, and `b'` runs as `b` followed by `code`. -/
structure Block.Emits (b b' : Block) (code : Code) : Prop where
  tidy : b'.Tidy
  run : ∀ m, runBlock b' m = Outcome.andThen (runBlock b m) (runCode code)

namespace Block

variable {b b' b'' source : Block} {i : Inst} {c : Word} {code code' : Code}

theorem Emits.refl (hb : b.Tidy) : b.Emits b [] := by
  refine ⟨hb, fun m => ?_⟩
  rcases runBlock b m with ⟨_ | _ | _, m'⟩ <;> rfl

theorem Emits.trans (h : b.Emits b' code) (h' : b'.Emits b'' code') :
    b.Emits b'' (code ++ code') := by
  refine ⟨h'.tidy, fun m => ?_⟩
  rw [h'.run, h.run, Outcome.andThen_assoc]
  refine congrArg _ (funext fun m' => ?_)
  rw [runCode_append]

theorem Emits.congr (h : b.Emits b' code) (hcode : ∀ m, runCode code m = runCode code' m) :
    b.Emits b' code' := by
  refine ⟨h.tidy, fun m => ?_⟩
  rw [h.run, funext hcode]

/-- The code of a block whose pool has grown and which has got one more instruction: old positions
still mean the same. -/
theorem code_of_grown (b' : Block) (more : List Word) (j : Inst) (hb : b.InRange)
    (hpool : b'.pool.values = b.pool.values ++ more) (hinsts : b'.insts = b.insts ++ [j]) :
    b'.code = b.code ++ [(j, b'.pool.constant j)] := by
  unfold Block.code
  rw [hinsts, Pool.resolve_append]
  refine congrArg₂ _ (List.map_congr_left fun x hx => ?_) rfl
  rw [Pool.constant_of_append hpool (hb x hx)]

/-- Such a block runs the one that it has grown from and then the instruction. -/
theorem emits_of_grown (b' : Block) (more : List Word) (j : Inst) (hb : b.Tidy)
    (hpool : b'.pool.values = b.pool.values ++ more) (hsize : b'.pool.size ≤ Pool.capacity)
    (hinsts : b'.insts = b.insts ++ [j])
    (hj : ∀ k, j.constantIndex = some k → k.toNat < b'.pool.size) :
    b.Emits b' [(j, b'.pool.constant j)] := by
  have hgrown : b.pool.size ≤ b'.pool.size := by
    simp only [Pool.size, hpool, List.length_append]
    omega
  have hrange : b'.InRange := by
    intro x hx k hk
    rw [hinsts] at hx
    rcases List.mem_append.mp hx with h | h
    · exact Nat.lt_of_lt_of_le (hb.inRange x h k hk) hgrown
    · rw [List.mem_singleton.mp h] at hk
      exact hj k hk
  refine ⟨⟨hrange, hsize⟩, fun m => ?_⟩
  rw [runBlock_eq_runCode hrange, code_of_grown b' more j hb.inRange hpool hinsts, runCode_append,
    runBlock_eq_runCode hb.inRange]

/-- Appending an instruction without a constant. -/
theorem emits_push (hb : b.Tidy) (hi : i.constantIndex = none) :
    b.Emits (b.push i) [(i, 0)] := by
  have h := emits_of_grown (b.push i) [] i hb (List.append_nil _).symm hb.bounded rfl
    (fun k hk => by rw [hi] at hk; exact nomatch hk)
  have hc : (b.push i).pool.constant i = 0 := by
    rw [Pool.constant, hi]
    rfl
  rwa [hc] at h

theorem constantIndex_setField {f : Field} (hf : i.op.constField? = some f) (k : UInt8) :
    (i.setField f k).constantIndex = some k := by
  cases f <;>
    simp only [Inst.constantIndex, Inst.setField, hf, Option.map_some, Inst.field]

/-- Appending an instruction with a constant: the pool decides whether it succeeds. -/
theorem pushWith_some (b : Block) (i : Inst) (c : Word) :
    b.pushWith i (some c) = (b.pool.intern c >>= fun q =>
      i.setConstantIndex q.1 >>= fun j => .ok ⟨b.insts ++ [j], q.2⟩) := by
  simp only [Block.pushWith, Block.intern, bind_assoc, pure_bind]
  rfl

/-- What appending an instruction with a constant does to a block. -/
theorem pushWith_eq_ok (h : b.pushWith i (some c) = .ok b') :
    ∃ f k pool, i.op.constField? = some f ∧ b.pool.intern c = .ok (k, pool)
      ∧ b' = { insts := b.insts ++ [i.setField f k], pool := pool } := by
  simp only [Block.pushWith, Block.intern, bind_eq_ok, pure_eq_ok] at h
  obtain ⟨_, ⟨⟨k, pool⟩, hk, rfl⟩, j, hj, rfl⟩ := h
  cases hf : i.op.constField? with
  | none =>
    rw [Inst.setConstantIndex, hf] at hj
    exact nomatch hj
  | some f =>
    rw [Inst.setConstantIndex, hf] at hj
    exact ⟨f, k, pool, rfl, hk, by rw [← Except.ok.inj hj]; rfl⟩

/-- Appending an instruction with a constant. The position that it gets does not matter. -/
theorem emits_pushWith (hb : b.Tidy) (h : b.pushWith i (some c) = .ok b') :
    b.Emits b' [(i, c)] := by
  obtain ⟨f, k, pool, hf, hk, rfl⟩ := pushWith_eq_ok h
  obtain ⟨hsize, hget, more, hmore⟩ := Pool.intern_spec hb.bounded hk
  have hindex := constantIndex_setField hf k
  have hlt : k.toNat < pool.size := (List.getElem?_eq_some_iff.mp hget).1
  have hconst : pool.constant (i.setField f k) = c := by
    rw [Pool.constant, hindex, Option.bind_some, hget, Option.getD_some]
  have hemit := emits_of_grown { insts := b.insts ++ [i.setField f k], pool := pool } more
    (i.setField f k) hb hmore hsize rfl
    (fun j hj => by rw [hindex] at hj; cases hj; exact hlt)
  refine hemit.congr fun m => ?_
  rw [runCode_singleton, runCode_singleton, hconst, step_setField hf]

theorem setConst_eq (dest : UInt8) (w : Word) :
    b.setConst dest w = b.pushWith { op := .setConst, dest := dest } (some w) := rfl

theorem setConstF_eq (dest : UInt8) (w : Word) :
    b.setConstF dest w = b.pushWith { op := .setConstF, dest := dest } (some w) := rfl

theorem exitToConst_eq (target : Word) :
    b.exitToConst target = b.pushWith { op := .exitToConst } (some target) := rfl

theorem pushConst_eq {op : Opcode} (h : op.constField? = some .src2) (dest src : UInt8) (w : Word) :
    b.pushConst op dest src w = b.pushWith { op := op, dest := dest, src1 := src } (some w) := by
  simp only [Block.pushConst, Block.pushWith, Inst.setConstantIndex, h]
  rfl

/-- Emitting an instruction with a constant, if it has one. -/
theorem emits_pushWith_getD {c? : Option Word} (hb : b.Tidy) (h : b.pushWith i c? = .ok b')
    (hi : c? = none → i.constantIndex = none) : b.Emits b' [(i, c?.getD 0)] := by
  cases c? with
  | none =>
    rw [← Except.ok.inj h]
    exact emits_push hb (hi rfl)
  | some c => exact emits_pushWith hb h

/-- Looking up a constant in range. -/
theorem constantOf_eq (h : ∀ k, i.constantIndex = some k → k.toNat < source.pool.size) :
    source.constantOf i = .ok (i.constantIndex.map fun _ => source.pool.constant i) := by
  rw [← Pool.lookup_eq h, Block.constantOf]
  cases i.constantIndex <;> rfl

/-- Emitting an instruction with the constant that it has in another block. -/
theorem emits_pushWith_constant (hb : b.Tidy)
    (h : b.pushWith i (i.constantIndex.map fun _ => source.pool.constant i) = .ok b') :
    b.Emits b' [(i, source.pool.constant i)] := by
  have hemit := emits_pushWith_getD hb h fun hnone => Option.map_eq_none_iff.mp hnone
  rwa [Pool.constant_getD] at hemit

/-- Taking instructions over from another block. -/
theorem emits_appendAll (is : List Inst) (hb : b.Tidy)
    (hs : ∀ i ∈ is, ∀ k, i.constantIndex = some k → k.toNat < source.pool.size)
    (h : b.appendAll source is = .ok b') :
    b.Emits b' (source.pool.resolve is) := by
  induction is generalizing b with
  | nil =>
    rw [← pure_eq_ok.mp h]
    exact Emits.refl hb
  | cons i is ih =>
    obtain ⟨b₁, h₁, h⟩ := bind_eq_ok.mp h
    replace h₁ : b.append source i = .ok b₁ := h₁
    rw [Block.append, constantOf_eq (hs i List.mem_cons_self)] at h₁
    have hemit : b.Emits b₁ [(i, source.pool.constant i)] := emits_pushWith_constant hb h₁
    exact hemit.trans (ih hemit.tidy (fun j hj => hs j (List.mem_cons_of_mem i hj)) h)

end Block

/-! ## Simulation

A pass reads instructions and emits others. What it keeps up is a relation between the machine that
runs the block read so far and the one that runs the block built so far. -/

/-- The second outcome does what the first does: it goes on with a related machine, it leaves for
the same address with the same machine, or it faults at the same access with the same memory. A
broken rule may have any outcome. -/
structure Guest.Follows (R : Machine → Machine → Prop) (r r' : Outcome) : Prop where
  next : ∀ m, r = (.ok none, m) → ∃ n, r' = (.ok none, n) ∧ R m n
  exit : ∀ t m, r = (.ok (some t), m) → r' = r
  fault : ∀ a k m, r = (.error (.memory a k), m) →
    ∃ n, r' = (.error (.memory a k), n) ∧ n.memory = m.memory

namespace Guest.Follows

variable {R R' : Machine → Machine → Prop} {r r' : Outcome}

theorem of_next {m n : Machine} (h : R m n) : Follows R (.ok none, m) (.ok none, n) :=
  ⟨fun _ hm => ⟨n, rfl, (Prod.mk.inj hm).2 ▸ h⟩, fun _ _ hm => (nomatch hm),
    fun _ _ _ hm => nomatch hm⟩

theorem of_exit (t : Word) (m : Machine) : Follows R (.ok (some t), m) (.ok (some t), m) :=
  ⟨fun _ hm => (nomatch hm), fun _ _ _ => rfl, fun _ _ _ hm => nomatch hm⟩

theorem andThen (h : Follows R r r') {f g : Machine → Outcome}
    (hfg : ∀ m n, R m n → Follows R' (f m) (g n)) :
    Follows R' (Outcome.andThen r f) (Outcome.andThen r' g) := by
  rcases r with ⟨e | _ | t, m⟩
  · -- a fault ends both sides
    refine ⟨fun _ hm => (nomatch hm), fun _ _ hm => (nomatch hm), fun a k m' hm => ?_⟩
    obtain ⟨n, rfl, hmemory⟩ := h.fault a k m' hm
    exact ⟨n, rfl, hmemory⟩
  · obtain ⟨n, rfl, hR⟩ := h.next m rfl
    exact hfg m n hR
  · obtain rfl := h.exit t m rfl
    exact of_exit t m

/-- Equal machines go on in the same way. -/
theorem of_eq (hR : ∀ m, R m m) : Follows R r r :=
  ⟨fun m hm => ⟨m, hm, hR m⟩, fun _ _ _ => rfl, fun _ _ m hm => ⟨m, hm, rfl⟩⟩

end Guest.Follows

/-- Building went from `b` to `b'`, and what was emitted simulates `source`: from machines in `R`
it follows the source to machines in `R'`. -/
def Block.Simulates (b b' : Block) (R R' : Machine → Machine → Prop) (source : Machine → Outcome) :
    Prop :=
  b.Tidy → ∃ code, b.Emits b' code ∧ ∀ m n, R m n → Follows R' (source m) (runCode code n)

namespace Block.Simulates

variable {b b' b'' : Block} {R R' R'' : Machine → Machine → Prop}
  {source source' : Machine → Outcome}

theorem trans (h : b.Simulates b' R R' source) (h' : b'.Simulates b'' R' R'' source') :
    b.Simulates b'' R R'' fun m => Outcome.andThen (source m) source' := by
  intro hb
  obtain ⟨code, hemit, hcode⟩ := h hb
  obtain ⟨code', hemit', hcode'⟩ := h' hemit.tidy
  refine ⟨code ++ code', hemit.trans hemit', fun m n hR => ?_⟩
  rw [runCode_append]
  exact (hcode m n hR).andThen hcode'

/-- The source may be replaced by one that does the same on related machines. -/
theorem congr (h : b.Simulates b' R R' source') (hs : ∀ m n, R m n → source m = source' m) :
    b.Simulates b' R R' source := by
  intro hb
  obtain ⟨code, hemit, hcode⟩ := h hb
  refine ⟨code, hemit, fun m n hR => ?_⟩
  rw [hs m n hR]
  exact hcode m n hR

/-- Nothing is emitted. -/
theorem of_silent (h : ∀ m n, R m n → ∃ m', source m = (.ok none, m') ∧ R' m' n) :
    b.Simulates b R R' source := by
  refine fun hb => ⟨[], Emits.refl hb, fun m n hR => ?_⟩
  obtain ⟨m', hm, hR'⟩ := h m n hR
  rw [hm]
  exact Follows.of_next hR'

/-- One instruction is emitted. -/
theorem of_pushWith {j : Inst} {c? : Option Word} (hp : b.pushWith j c? = .ok b')
    (hj : c? = none → j.constantIndex = none)
    (h : ∀ m n, R m n → Follows R' (source m) (step j (c?.getD 0) n)) :
    b.Simulates b' R R' source := by
  refine fun hb => ⟨[(j, c?.getD 0)], emits_pushWith_getD hb hp hj, fun m n hR => ?_⟩
  rw [runCode_singleton]
  exact h m n hR

end Block.Simulates

/-! ## There is room for every constant of another block -/

/-- The words that a position can stand for. -/
def Pool.reachable (p : Pool) : List Word :=
  (List.range Pool.capacity).map fun k => p.values.getD k 0

theorem Pool.constant_mem_reachable {p : Pool} {i : Inst} {k : UInt8}
    (h : i.constantIndex = some k) : p.constant i ∈ p.reachable := by
  rw [Pool.constant, h, Option.bind_some]
  exact List.mem_map.mpr ⟨k.toNat, List.mem_range.mpr k.toNat_lt, rfl⟩

/-- A pool whose constants are distinct and all come from another one. -/
structure Pool.Drawn (source p : Pool) : Prop where
  nodup : p.values.Nodup
  mem : ∀ v ∈ p.values, v ∈ source.reachable

/-- Interning a constant of the other pool succeeds: were the pool full, the constant would be the
257th among 256 words. -/
theorem Pool.Drawn.intern_ok {source p : Pool} {v : Word} (h : source.Drawn p)
    (hv : v ∈ source.reachable) : ∃ k p', p.intern v = .ok (k, p') ∧ source.Drawn p' := by
  unfold Pool.intern
  cases hi : p.values.idxOf? v with
  | some j => exact ⟨_, _, rfl, h⟩
  | none =>
    have hnew : v ∉ p.values := List.idxOf?_eq_none_iff.mp hi
    -- with the new constant there would be 257 words among 256
    have hnodup : (v :: p.values).Nodup := List.nodup_cons.mpr ⟨hnew, h.nodup⟩
    have hsub : v :: p.values ⊆ source.reachable := by
      intro w hw
      rcases List.mem_cons.mp hw with rfl | hw
      · exact hv
      · exact h.mem w hw
    have hlen : p.size + 1 ≤ Pool.capacity := by
      have hle := (List.subperm_of_subset hnodup hsub).length_le
      rwa [List.length_cons, Pool.reachable, List.length_map, List.length_range] at hle
    simp only [if_neg (Nat.not_le.mpr hlen)]
    refine ⟨_, _, rfl, ?_, ?_⟩
    · exact (List.perm_append_singleton v p.values).symm.nodup hnodup
    · intro w hw
      rcases List.mem_append.mp hw with hw | hw
      · exact h.mem w hw
      · rw [List.mem_singleton.mp hw]
        exact hv

namespace Block

variable {b source : Block}

/-- Taking an instruction in range over from another block succeeds. -/
theorem append_ok {i : Inst} (hd : source.pool.Drawn b.pool)
    (hi : ∀ k, i.constantIndex = some k → k.toNat < source.pool.size) :
    ∃ b', b.append source i = .ok b' ∧ source.pool.Drawn b'.pool := by
  rw [Block.append, constantOf_eq hi]
  cases hindex : i.constantIndex with
  | none => exact ⟨b.push i, rfl, hd⟩
  | some k =>
    obtain ⟨j, p', hp, hd'⟩ := hd.intern_ok (Pool.constant_mem_reachable hindex)
    obtain ⟨f, hf⟩ : ∃ f, i.op.constField? = some f := by
      cases hf : i.op.constField? with
      | none => rw [Inst.constantIndex, hf] at hindex; exact nomatch hindex
      | some f => exact ⟨f, rfl⟩
    refine ⟨{ insts := b.insts ++ [i.setField f j], pool := p' }, ?_, hd'⟩
    refine bind_eq_ok.mpr ⟨_, rfl, bind_eq_ok.mpr ⟨(j, { b with pool := p' }), ?_, ?_⟩⟩
    · exact bind_eq_ok.mpr ⟨_, hp, rfl⟩
    · exact bind_eq_ok.mpr ⟨i.setField f j, by rw [Inst.setConstantIndex, hf], rfl⟩

/-- Taking instructions in range over from another block succeeds. -/
theorem appendAll_ok (is : List Inst) (hd : source.pool.Drawn b.pool)
    (hs : ∀ i ∈ is, ∀ k, i.constantIndex = some k → k.toNat < source.pool.size) :
    ∃ b', b.appendAll source is = .ok b' := by
  induction is generalizing b with
  | nil => exact ⟨b, rfl⟩
  | cons i is ih =>
    obtain ⟨b₁, h₁, hd₁⟩ := append_ok hd (hs i List.mem_cons_self)
    obtain ⟨b', h'⟩ := ih hd₁ fun j hj => hs j (List.mem_cons_of_mem i hj)
    exact ⟨b', bind_eq_ok.mpr ⟨b₁, h₁, h'⟩⟩

end Block

end Dynarec
