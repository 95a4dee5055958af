/-
Exchanging the operands of a sum or a product.

The numeric part of both operations is symmetric: a finite sum is formed at the smaller of the two
exponents, the sign of a product is that of both operands together, and two infinities that are not
opposed are one pattern. Only the choice of a NaN goes by position, since the first one wins. It
shows exactly if both operands are NaNs that differ when made quiet (`Clash`); a signalling NaN and
the quiet one with the same payload do not.
-/
import Dynarec.Single.Arithmetic
import Dynarec.Proofs.Single.Patterns

set_option autoImplicit false

namespace Dynarec.Single

variable {a b : Word}

/-! ## Infinities and zeros -/

/-- There is one infinity of each sign. -/
theorem eq_of_isInfinite (ha : isInfinite a = true) (hb : isInfinite b = true)
    (hsign : isNegative a = isNegative b) : a = b := by
  obtain ⟨haexp, hafrac⟩ := isInfinite_iff.mp ha
  obtain ⟨hbexp, hbfrac⟩ := isInfinite_iff.mp hb
  rw [← UInt32.toNat_inj, toNat_eq_fields a, toNat_eq_fields b, haexp, hbexp, hafrac, hbfrac, hsign]

theorem not_isNaN_of_isInfinite (h : isInfinite a = true) : ¬isNaN a = true :=
  fun hnan => fraction_of_isNaN hnan (isInfinite_iff.mp h).2

theorem not_isNaN_of_isZero (h : isZero a = true) : ¬isNaN a = true := by
  intro hnan
  have hmagnitude : a.toNat % 2 ^ 31 = 0 := by
    rw [isZero, beq_iff_eq, ← UInt32.toNat_inj] at h
    exact (toNat_magnitude a).symm.trans h
  have hfraction := fraction_of_isNaN hnan
  rw [fraction_eq] at hfraction
  omega

/-! ## The numeric part -/

theorem addFinite_comm (a b : Word) : addFinite a b = addFinite b a := by
  rw [addFinite, addFinite, Int.min_comm, Int.add_comm, Bool.and_comm]

theorem addNumbers_comm (a b : Word) : addNumbers a b = addNumbers b a := by
  rw [addNumbers, addNumbers]
  by_cases ha : isInfinite a = true
  · by_cases hb : isInfinite b = true
    · by_cases hsign : isNegative a = isNegative b
      · rw [eq_of_isInfinite ha hb hsign]
      · simp [ha, hb, hsign, Ne.symm hsign]
    · simp [ha, hb]
  · by_cases hb : isInfinite b = true
    · simp [ha, hb]
    · rw [if_neg ha, if_neg hb, if_neg hb, if_neg ha, addFinite_comm]

theorem signOf_comm (a b : Word) : signOf a b = signOf b a := bne_comm

/-- The operands are an infinity and a zero, in either order. -/
theorem infinity_by_zero_comm (a b : Word) :
    ((isInfinite a && isZero b) || (isZero a && isInfinite b))
      = ((isInfinite b && isZero a) || (isZero b && isInfinite a)) := by
  rw [Bool.or_comm, Bool.and_comm (isZero a), Bool.and_comm (isInfinite a)]

theorem mulNumbers_comm (a b : Word) : mulNumbers a b = mulNumbers b a := by
  rw [mulNumbers, mulNumbers, infinity_by_zero_comm, Bool.or_comm (isInfinite a), signOf_comm,
    Nat.mul_comm, Int.add_comm]

/-! ## Sums and products -/

/-- Two NaNs that differ when made quiet. -/
def Clash (a b : Word) : Prop := isNaN a = true ∧ isNaN b = true ∧ quiet a ≠ quiet b

instance (a b : Word) : Decidable (Clash a b) := inferInstanceAs (Decidable (_ ∧ _ ∧ _))

theorem Clash.symm (h : Clash a b) : Clash b a := ⟨h.2.1, h.1, h.2.2.symm⟩

/-- The first NaN does not depend on the order unless two of them clash. -/
theorem firstNaN_comm (h : ¬Clash a b) : firstNaN a b = firstNaN b a := by
  rw [firstNaN, firstNaN]
  by_cases ha : isNaN a = true
  · by_cases hb : isNaN b = true
    · have hquiet : quiet a = quiet b := Decidable.not_not.mp fun hne => h ⟨ha, hb, hne⟩
      rw [if_pos ha, if_pos hb, hquiet]
    · rw [if_pos ha, if_neg hb, if_pos ha]
  · by_cases hb : isNaN b = true
    · rw [if_neg ha, if_pos hb, if_pos hb]
    · rw [if_neg ha, if_neg hb, if_neg hb, if_neg ha]

/-- The operation takes the first NaN if there is one, and is symmetric otherwise. -/
def TakesFirstNaN (f : Word → Word → Word) : Prop :=
  ∃ g : Word → Word → Word,
    (∀ a b, f a b = (firstNaN a b).getD (g a b)) ∧ ∀ a b, g a b = g b a

/-- Of two NaNs that clash the first is taken. -/
theorem TakesFirstNaN.of_clash {f : Word → Word → Word} (hf : TakesFirstNaN f) (h : Clash a b) :
    f a b = quiet a := by
  obtain ⟨g, hg, -⟩ := hf
  rw [hg, firstNaN, if_pos h.1]
  rfl

/-- **The operands may be exchanged unless they clash.** -/
theorem TakesFirstNaN.comm_iff {f : Word → Word → Word} (hf : TakesFirstNaN f) :
    f a b = f b a ↔ ¬Clash a b := by
  constructor
  · intro h hclash
    rw [hf.of_clash hclash, hf.of_clash hclash.symm] at h
    exact hclash.2.2 h
  · intro h
    obtain ⟨g, hg, hsymm⟩ := hf
    rw [hg, hg, firstNaN_comm h, hsymm]

theorem takesFirstNaN_add : TakesFirstNaN add := ⟨addNumbers, fun _ _ => rfl, addNumbers_comm⟩

/-- The guest's product of two patterns neither of which is a NaN. -/
def guestMulNumbers (a b : Word) : Word :=
  if (isZero b && isInfinite a) || (isZero a && isInfinite b) then canonicalNaN else mulNumbers a b

theorem guestMulNumbers_comm (a b : Word) : guestMulNumbers a b = guestMulNumbers b a := by
  rw [guestMulNumbers, guestMulNumbers, mulNumbers_comm, Bool.or_comm]

/-- The guest's product takes the first NaN too, since neither an infinity nor a zero is a NaN. -/
theorem guestMul_eq (a b : Word) : guestMul a b = (firstNaN a b).getD (guestMulNumbers a b) := by
  rw [guestMul, guestMulNumbers]
  split
  · next h =>
    have hnone : firstNaN a b = none := by
      rw [Bool.or_eq_true, Bool.and_eq_true, Bool.and_eq_true] at h
      rcases h with ⟨hzero, hinf⟩ | ⟨hzero, hinf⟩
      · rw [firstNaN, if_neg (not_isNaN_of_isInfinite hinf), if_neg (not_isNaN_of_isZero hzero)]
      · rw [firstNaN, if_neg (not_isNaN_of_isZero hzero), if_neg (not_isNaN_of_isInfinite hinf)]
    rw [hnone]
    rfl
  · rfl

theorem takesFirstNaN_guestMul : TakesFirstNaN guestMul :=
  ⟨guestMulNumbers, guestMul_eq, guestMulNumbers_comm⟩

end Dynarec.Single
