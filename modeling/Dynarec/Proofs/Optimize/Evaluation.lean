/-
Folding, written so that it evaluates well.

Before an exit every known value is put into its slot. The pass goes through all slots and looks
each of them up, so that an evaluation reads half of a table of 256 entries for each of its entries.
Here the table is walked along once, with the slots beside it (`flushTable`), and the pass is
written with that walk. The two passes are equal (`runTable_eq`): what the pass makes of a given
block is evaluated on this side.
-/
import Dynarec.Proofs.Optimize.Folding

set_option autoImplicit false

namespace Dynarec.Optimize.ConstantPropagation

namespace Folding
variable {s s' : Folding}

/-! ## Flushing along the table -/

/-- A flush does not change what is known. -/
theorem known_flush {r : UInt8} (h : s.flush r = .ok s') : s'.known = s.known := by
  rw [flush] at h
  split at h
  · cases h
    rfl
  · split at h
    · cases h
      rfl
    · obtain ⟨b, -, hs⟩ := bind_eq_ok.mp h
      rw [← pure_eq_ok.mp hs]

/-- Put a known value into its slot. -/
def flushEntry (s : Folding) (p : UInt8 × Option Word) : Except Fault Folding :=
  if p.2.isSome then s.flush p.1 else .ok s

/-- Put all known values into their slots, in one walk along the table. -/
def flushTable (s : Folding) : Except Fault Folding :=
  (flushOrder.zip (s.known.toList.drop 1)).foldlM flushEntry s

theorem length_flushOrder : flushOrder.length = 255 := by
  rw [flushOrder, List.length_map, List.length_range']

theorem value?_of_mem_zip {p : UInt8 × Option Word}
    (h : p ∈ flushOrder.zip (s.known.toList.drop 1)) : s.value? p.1 = p.2 := by
  obtain ⟨k, hk, rfl⟩ := List.mem_iff_getElem.mp h
  have hlt : k < 255 := by
    rw [List.length_zip, length_flushOrder] at hk
    exact Nat.lt_of_lt_of_le hk (Nat.min_le_left _ _)
  have hr : (UInt8.ofNat (1 + 1 * k)).toNat = 1 + k := by
    rw [Nat.one_mul]
    exact UInt8.toNat_ofNat_of_lt' (Nat.lt_of_lt_of_le (Nat.add_lt_add_left hlt 1) (by decide))
  simp only [List.getElem_zip, List.getElem_drop, Vector.getElem_toList, flushOrder,
    List.getElem_map, List.getElem_range', value?, PerSlot.at, hr]
  rfl

/-- **Flushing along the table is flushing everything.** No flush changes what is known, so the
table may be read at the start. -/
theorem flushTable_eq (s : Folding) : s.flushTable = s.flushAll := by
  have hwalk : ∀ (l : List (UInt8 × Option Word)) (t : Folding), t.known = s.known →
      (∀ p ∈ l, s.value? p.1 = p.2) → l.foldlM flushEntry t = (l.map Prod.fst).foldlM flush t := by
    intro l
    induction l with
    | nil => exact fun _ _ _ => rfl
    | cons p l ih =>
      intro t ht hl
      have hv : t.value? p.1 = p.2 := by
        rw [value?, ht]
        exact hl _ List.mem_cons_self
      have hhead : t.flushEntry p = t.flush p.1 := by
        unfold flushEntry
        cases hknown : p.2 with
        | none => exact (flush_of_synced (.inr (.inl (hv.trans hknown)))).symm
        | some w => rfl
      rw [List.foldlM_cons, List.map_cons, List.foldlM_cons, hhead]
      cases hflush : t.flush p.1 with
      | error f => rfl
      | ok t' =>
        exact ih t' ((known_flush hflush).trans ht) fun q hq => hl q (List.mem_cons_of_mem _ hq)
  unfold flushTable flushAll
  rw [hwalk _ s rfl fun p hp => value?_of_mem_zip hp, List.map_fst_zip]
  refine Nat.le_of_eq ?_
  rw [length_flushOrder, List.length_drop, Vector.length_toList]

/-! ## Folding along the table -/

/-- Flush everything along the table and then emit an instruction. -/
def emitLast (s : Folding) (i : Inst) (constant : Option Word) : Except Fault Folding := do
  (← s.flushTable).emit i constant

/-- Leave for a constant address, flushing along the table. -/
def leaveFor (s : Folding) (target : Word) : Except Fault Folding := do
  let s ← s.flushTable
  return { s with out := ← s.out.exitToConst target }

/-- An exit whose outcome may be known, flushing along the table. -/
def decideLast (s : Folding) (i : Inst) (c : Word) (outcome : Option Bool) :
    Except Fault Folding :=
  outcome.elim (s.emitLast i (some c)) fun taken =>
    if taken then do return { (← s.leaveFor c) with dropExit := true } else .ok s

/-- One instruction, flushing along the table where everything is flushed. -/
def foldTable (s : Folding) (i : Inst) (constant : Option Word) : Except Fault Folding :=
  match i.op with
  | .exitToConstIfEq | .exitToConstIfNeq | .exitToConstIfGtZ | .exitToConstIfGeZ
  | .exitToConstIfLtZ | .exitToConstIfLeZ =>
    s.decideLast i (constant.getD 0) (s.outcome? i)
  | .exitToConst =>
    if s.dropExit then .ok { s with dropExit := false } else s.emitLast i constant
  | .exitToReg => (s.value? i.src1).elim (s.emitLast i none) s.leaveFor
  | .syscall | .exitToPC | .nop => s.emitLast i constant
  | _ => s.fold i constant

theorem foldTable_eq (s : Folding) (i : Inst) (constant : Option Word) :
    s.foldTable i constant = s.fold i constant := by
  have hemit : ∀ c, s.emitLast i c = s.emitExit i c := fun c => by
    rw [emitLast, flushTable_eq]
    rfl
  have hleave : ∀ a, s.leaveFor a = s.leave a := fun a => by
    rw [leaveFor, flushTable_eq]
    rfl
  have hdecide : ∀ o, s.decideLast i (constant.getD 0) o = s.decide? i (constant.getD 0) o := by
    intro o
    cases o with
    | none => exact hemit _
    | some taken =>
      cases taken
      · rfl
      · exact congrArg (· >>= fun t => .ok { t with dropExit := true }) (hleave _)
  cases hop : i.op with
  | exitToReg =>
    simp only [foldTable, fold, hop]
    cases s.value? i.src1 with
    | none => exact hemit none
    | some a => exact hleave a
  | _ => simp only [foldTable, fold, hop, hemit, hdecide]

end Folding

/-- The walk, flushing along the table. -/
def walkTable (source : Block) (limit : Nat) : List Inst → Folding → Except Fault Folding
  | [], s => .ok s
  | i :: rest, s =>
    if limit < s.out.pool.size then do
      let s ← s.flushTable
      return { s with out := ← s.out.appendAll source (i :: rest) }
    else do
      walkTable source limit rest (← s.foldTable i (← source.constantOf i))

/-- What is known at the start: slot zero. -/
def start : Folding := { known := PerSlot.put (Vector.replicate 256 none) 0 (some 0) }

theorem start_eq : start = {} := rfl

/-- The block with its constants propagated, written so that it evaluates well. -/
def runTable (cap : Nat) (b : Block) : Except Fault Block := do
  let s ← walkTable b (← asDouble (b.pool.size + cap)) b.insts start
  return (← s.flushTable).out

/-- **Folding along the table is folding.** -/
theorem runTable_eq (cap : Nat) (b : Block) : runTable cap b = run cap b := by
  have hwalk : ∀ limit insts s, walkTable b limit insts s = walk b limit insts s := by
    intro limit insts
    induction insts with
    | nil => exact fun _ => rfl
    | cons i rest ih =>
      intro s
      simp only [walkTable, walk, Folding.flushTable_eq, Folding.foldTable_eq, ih]
  simp only [runTable, run, hwalk, Folding.flushTable_eq, start_eq]

end Dynarec.Optimize.ConstantPropagation
