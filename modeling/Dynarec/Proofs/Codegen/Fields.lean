/-
The fields of the instructions that a code generator is given.

In an instruction that fits, the kind of operand that an opcode has in a field says which slots the
field names (`names_of_op`), so they can be mapped (`Names.float`, `Names.group`). The slots that
are filled or copied without any arithmetic are integer slots, whether a field names them or the
opcode does (`integerSlot_of_slotConst`, `integerSlots_of_slotMove`).

Nothing is known of the fields of an instruction that does not fit. What follows from fitting is
therefore stated under a condition `ok`, which may be any that implies it.
-/
import Dynarec.Codegen.Compiled
import Dynarec.Proofs.Guest.Footprint
import Dynarec.Proofs.Registers.Supply

set_option autoImplicit false

namespace Dynarec.Codegen

open Dynarec.Registers

/-- A field of the kind names registers of its own class. -/
structure Names (kind : OperandKind) (value : UInt8) : Prop where
  fits : kind.fits value = true

/-- A slot for an integer. -/
def IntegerSlot (s : Slot) : Prop := s < Slot.count ∧ Slot.isInteger s = true

namespace Names

variable {r : UInt8}

theorem integerSlot (h : Names .gpr r) : IntegerSlot r.toNat := ⟨r.toNat_lt, h.fits⟩

theorem float (h : Names .fpr r) (mode : Mode) : (Request.float (Slot.ofFloat r) mode).Fits := by
  have hlt : Slot.ofFloat r < 208 := of_decide_eq_true h.fits
  exact ⟨Nat.lt_trans hlt (by decide), Slot.isInteger_eq_false.mpr ⟨Nat.le_add_right _ _, hlt⟩⟩

theorem group (h : Names .vec4 r) (mode : Mode) : (Request.group (Slot.ofFloat r) mode).Fits :=
  ⟨Nat.le_add_right _ _, of_decide_eq_true h.fits⟩

end Names

section

variable {i : Inst} {ok : Prop}

/-- The fields of an instruction that fits, by its opcode. -/
theorem names_of_op {op : Opcode} (hf : ok → i.fits = true) (hop : i.op = op) :
    (ok → Names op.signature.dest i.dest) ∧ (ok → Names op.signature.src1 i.src1) ∧
      (ok → Names op.signature.src2 i.src2) := by
  have hfields := fun hok => Inst.fits_iff.mp (hf hok)
  rw [hop] at hfields
  exact ⟨fun hok => ⟨(hfields hok).1⟩, fun hok => ⟨(hfields hok).2.1⟩,
    fun hok => ⟨(hfields hok).2.2⟩⟩

theorem integerSlot_ofControl (n : UInt8) : IntegerSlot (Slot.ofControl n) := by
  have hle : (n &&& 15).toNat ≤ 15 := by
    rw [UInt8.toNat_and]
    exact Nat.and_le_right
  refine ⟨Nat.lt_of_le_of_lt (Nat.add_le_add_left hle 208) (by decide), ?_⟩
  exact Bool.or_eq_true_iff.mpr (Or.inr (decide_eq_true (Nat.le_add_right 208 _)))

theorem integerSlot_of_slotConst {dest : Slot} (hf : ok → i.fits = true)
    (h : slotConst? i = some dest) : ok → IntegerSlot dest := by
  unfold slotConst? at h
  split at h
  · rename_i hop
    cases h
    exact fun hok => ((names_of_op hf hop).1 hok).integerSlot
  · cases h
    exact fun _ => integerSlot_ofControl i.dest
  · exact nomatch h

theorem integerSlots_of_slotMove {dest src : Slot} (hf : ok → i.fits = true)
    (h : slotMove? i = some (dest, src)) : (ok → IntegerSlot dest) ∧ (ok → IntegerSlot src) := by
  -- the slots that the opcode names
  have hspecial : ∀ s ∈ [Slot.lo, Slot.hi, Slot.fpCond],
      s < Slot.count ∧ Slot.isInteger s = true := by decide
  have hd : ∀ {op}, i.op = op → op.signature.dest = .gpr → ok → IntegerSlot i.dest.toNat :=
    fun hop hk hok => Names.integerSlot (hk ▸ (names_of_op hf hop).1 hok)
  have hs : ∀ {op}, i.op = op → op.signature.src1 = .gpr → ok → IntegerSlot i.src1.toNat :=
    fun hop hk hok => Names.integerSlot (hk ▸ (names_of_op hf hop).2.1 hok)
  unfold slotMove? at h
  split at h <;> try (rename_i hop; cases h)
  · exact ⟨hd hop rfl, hs hop rfl⟩
  · exact ⟨fun _ => hspecial _ (by decide), hs hop rfl⟩
  · exact ⟨fun _ => hspecial _ (by decide), hs hop rfl⟩
  · exact ⟨hd hop rfl, fun _ => hspecial _ (by decide)⟩
  · exact ⟨hd hop rfl, fun _ => hspecial _ (by decide)⟩
  · exact ⟨fun _ => hspecial _ (by decide), hs hop rfl⟩
  · exact ⟨hd hop rfl, fun _ => hspecial _ (by decide)⟩
  · exact ⟨fun _ => integerSlot_ofControl i.dest, hs hop rfl⟩

end

end Dynarec.Codegen
