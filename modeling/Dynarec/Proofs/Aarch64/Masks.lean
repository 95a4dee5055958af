/-
Bitmasks are read and written without loss.

The value that `decode` gives consists of copies of a rotated run of ones, and the search of
`ofValue?` accepts exactly such values, with the fields of the run. A value whose lowest bit is set
is searched for by its complement, which is a run exactly if the value is; a word is written twice,
and since it repeats after 32 bits its element is no longer than that.
-/
import Dynarec.Proofs.Aarch64.FirstRun
import Mathlib.Order.Interval.Finset.Nat

set_option autoImplicit false

namespace Dynarec.Aarch64.Mask

/-- The size of the element that the fields describe: the place of the highest zero bit of
`n : s`, as a power of two. -/
def elementSize (m : Mask) : Nat :=
  twoTo (m.n.toNat <<< 6 ||| (63 - m.s.toNat % 64)).log2

/-- The fields describe an element: its size is at least two and its run is not full. -/
def Describes (m : Mask) : Prop :=
  2 ≤ m.n.toNat <<< 6 ||| (63 - m.s.toNat % 64) ∧
    m.s.toNat % m.elementSize ≠ m.elementSize - 1

instance (m : Mask) : Decidable m.Describes := by unfold Describes; infer_instance
/-! ## Fields and elements -/

/-- The fields of an element describe it. -/
theorem fields_ofElement {size ones : Nat} (hsize : size ∈ sizes) (hpos : 0 < ones)
    (hones : ones < size) (r : Nat) :
    (ofElement size ones r).Describes ∧ (ofElement size ones r).elementSize = size ∧
      (ofElement size ones r).s.toNat % size + 1 = ones ∧
      ((ofElement size ones r).n = 0 ↔ size ≤ 32) := by
  -- Size and length do not depend on the rotation, and there are 120 pairs of them.
  have hall : ∀ size ∈ sizes, ∀ ones < size, 0 < ones →
      (ofElement size ones 0).Describes ∧ (ofElement size ones 0).elementSize = size ∧
      (ofElement size ones 0).s.toNat % size + 1 = ones ∧
      ((ofElement size ones 0).n = 0 ↔ size ≤ 32) := by decide
  exact hall size hsize ones hones hpos

/-- Fields in range that describe an element are the fields of that element. -/
theorem Describes.eq_ofElement {m : Mask} (h : m.Describes) (hn : m.n ≤ 1) (hs : m.s < 64) :
    m.elementSize ∈ sizes ∧ m.s.toNat % m.elementSize + 1 < m.elementSize ∧
      ∀ r, ofElement m.elementSize (m.s.toNat % m.elementSize + 1) r =
        { m with r := UInt8.ofNat r } := by
  have hall : ∀ n < 2, ∀ s < 64, ∀ m ∈ [Mask.mk (UInt8.ofNat n) (UInt8.ofNat s) 0], m.Describes →
      m.elementSize ∈ sizes ∧ m.s.toNat % m.elementSize + 1 < m.elementSize ∧
      ofElement m.elementSize (m.s.toNat % m.elementSize + 1) 0 = m := by decide
  obtain ⟨n, s, r⟩ := m
  have hn' : n.toNat < 2 := Nat.lt_succ_of_le (UInt8.le_iff_toNat_le.1 hn)
  have hs' : s.toNat < 64 := UInt8.lt_iff_toNat_lt.1 hs
  obtain ⟨hsize, hones, heq⟩ := hall n.toNat hn' s.toNat hs' ⟨n, s, 0⟩ (by simp) h
  refine ⟨hsize, hones, ?_⟩
  intro r'
  have hfields := Mask.mk.inj heq
  exact Mask.mk.injEq .. ▸ ⟨hfields.1, hfields.2.1, rfl⟩

/-- The size bit is what tells an element of 64 bits. -/
theorem Describes.n_eq_zero_iff {m : Mask} (h : m.Describes) (hn : m.n ≤ 1) (hs : m.s < 64) :
    m.n = 0 ↔ m.elementSize ≤ 32 := by
  obtain ⟨hsize, hones, heq⟩ := h.eq_ofElement hn hs
  have hfields := (fields_ofElement hsize (Nat.succ_pos _) hones 0).2.2.2
  rwa [heq 0] at hfields

/-! ## From fields to runs -/

theorem copies_fill {size width : Nat} (hw : width = 32 ∨ width = 64) (hsize : size ∈ sizes)
    (hle : size ≤ width) :
    (width + size - 1) / size = width / size ∧ width / size * size = width := by
  have hall : ∀ width ∈ [32, 64], ∀ size ∈ sizes, size ≤ width →
      (width + size - 1) / size = width / size ∧ width / size * size = width := by decide
  exact hall width (by simpa using hw) size hsize hle

/-- The value of fields that describe an element: the element, as often as it fits. -/
theorem decode_of_describes {m : Mask} {width : Nat} (h : m.Describes)
    (hw : width = 32 ∨ width = 64) (hsize : m.elementSize ∈ sizes) (hle : m.elementSize ≤ width)
    (hn : width = 32 → m.n = 0) :
    decode m width = .ok (some (UInt64.ofNat (repeated m.elementSize
      (element m.elementSize (m.s.toNat % m.elementSize + 1) (m.r.toNat % m.elementSize))
      (width / m.elementSize)))) := by
  obtain ⟨hbits, hfull⟩ := h
  obtain ⟨hcount, hfill⟩ := copies_fill hw hsize hle
  have hlt := repeated_lt (element_lt m.elementSize (m.s.toNat % m.elementSize + 1)
    (m.r.toNat % m.elementSize)) (pos_of_mem_sizes hsize) (width / m.elementSize)
  rw [hfill] at hlt
  -- None of the guards of the decoder applies.
  have hreserved : ¬ (m.n.toNat <<< 6 ||| (63 - m.s.toNat % 64) < 2 ∨
      m.s.toNat % m.elementSize = m.elementSize - 1) := by
    rintro (hsmall | heq)
    · omega
    · exact hfull heq
  have hroom : ¬ (64 < m.elementSize ∨ 64 < width / m.elementSize * m.elementSize) := by
    rw [hfill]
    omega
  have hnarrow : ¬ (width = 32 ∧ m.n ≠ 0) := fun hbad => hbad.2 (hn hbad.1)
  simp only [elementSize] at *
  simp only [decode, hnarrow, hreserved, hcount, hroom, if_false]
  split
  · subst width
    rw [twoTo_eq 32, Nat.mod_eq_of_lt hlt]
  · rfl

/-- Reserved fields, and an element wider than the operation, have no value. -/
theorem decode_of_not_describes {m : Mask} {width : Nat}
    (h : ¬ (m.Describes ∧ (width = 32 → m.n = 0))) : decode m width = .ok none := by
  by_cases hnarrow : width = 32 ∧ m.n ≠ 0
  · simp [decode, hnarrow]
  · have hreserved : m.n.toNat <<< 6 ||| (63 - m.s.toNat % 64) < 2 ∨
        m.s.toNat % m.elementSize = m.elementSize - 1 := by
      by_contra hnot
      rw [not_or] at hnot
      apply h
      refine ⟨⟨by omega, hnot.2⟩, ?_⟩
      intro hw
      by_contra hne
      exact hnarrow ⟨hw, hne⟩
    simp only [elementSize] at hreserved
    simp only [decode, hnarrow, hreserved, if_false, if_true]

/-- **What `decode` gives.** Fields in range have a value exactly when they describe an element
that fits the width, and the value is the run. -/
theorem decode_eq_some_iff {m : Mask} {width : Nat} {v : UInt64} (hn : m.n ≤ 1) (hs : m.s < 64)
    (hw : width = 32 ∨ width = 64) :
    decode m width = .ok (some v) ↔ m.Describes ∧ m.elementSize ≤ width ∧
      IsRun width m.elementSize (m.s.toNat % m.elementSize + 1) (m.r.toNat % m.elementSize)
        v.toNat ∧ v.toNat < 2 ^ width := by
  by_cases hdesc : m.Describes
  · obtain ⟨hsize, hones, -⟩ := hdesc.eq_ofElement hn hs
    have hzero := hdesc.n_eq_zero_iff hn hs
    have hle64 := le_of_mem_sizes hsize
    by_cases hle : m.elementSize ≤ width
    · have hfits : width = 32 → m.n = 0 := fun h32 => hzero.2 (by omega)
      have hrot : m.r.toNat % m.elementSize < m.elementSize :=
        Nat.mod_lt _ (pos_of_mem_sizes hsize)
      have hrun : IsRun (width / m.elementSize * m.elementSize) m.elementSize _ _ _ :=
        isRun_repeated hrot hones.le
      have hlt := repeated_lt (element_lt m.elementSize (m.s.toNat % m.elementSize + 1)
        (m.r.toNat % m.elementSize)) (pos_of_mem_sizes hsize) (width / m.elementSize)
      rw [(copies_fill hw hsize hle).2] at hrun hlt
      have hword : 2 ^ width ≤ 2 ^ 64 := Nat.pow_le_pow_right (by decide) (by omega)
      rw [decode_of_describes hdesc hw hsize hle hfits]
      constructor
      · intro h
        rw [← Option.some.inj (Except.ok.inj h),
          UInt64.toNat_ofNat_of_lt' (lt_of_lt_of_le hlt hword)]
        exact ⟨hdesc, hle, hrun, hlt⟩
      · rintro ⟨-, -, hv, hvlt⟩
        rw [← hv.unique hrun hvlt hlt, UInt64.ofNat_toNat]
    · -- Only an element of 64 bits is too wide, and the size bit of its fields is set.
      have hnone : decode m width = .ok none := by
        apply decode_of_not_describes
        rintro ⟨-, hfits⟩
        have h32 : width = 32 := by omega
        have := hzero.1 (hfits h32)
        omega
      simp [hnone, hle]
  · have hnone : decode m width = .ok none := decode_of_not_describes fun h => hdesc h.1
    simp [hnone, hdesc]

/-! ## From values to runs -/

section

variable {v : UInt64} {width : Nat}

theorem testBit_and_one (v : UInt64) : (v &&& 1 != 0) = v.toNat.testBit 0 := by
  have hbit : (v &&& 1).toNat = (v.toNat.testBit 0).toNat := by
    rw [UInt64.toNat_and, Nat.testBit_zero]
    show v.toNat &&& 1 = _
    rw [Nat.and_one_is_mod]
    rcases Nat.mod_two_eq_zero_or_one v.toNat with h | h <;> rw [h] <;> rfl
  cases h : v.toNat.testBit 0 <;> rw [h] at hbit
  · rw [bne_eq_false_iff_eq]
    exact UInt64.toNat_inj.mp hbit
  · rw [bne_iff_ne]
    intro hzero
    rw [hzero] at hbit
    cases hbit

theorem testBit_not (v : UInt64) {p : Nat} (hp : p < 64) :
    (~~~v).toNat.testBit p = !v.toNat.testBit p := by
  have hnot : (~~~v).toNat = 2 ^ 64 - (v.toNat + 1) := by
    rw [UInt64.toNat_not]
    show 2 ^ 64 - 1 - v.toNat = _
    omega
  rw [hnot, Nat.testBit_two_pow_sub_succ v.toNat_lt, decide_eq_true hp, Bool.true_and]

/-- The lower half of a double word, written twice. -/
theorem testBit_double (v : UInt64) {p : Nat} (hp : p < 64) :
    (v <<< 32 ||| v <<< 32 >>> 32).toNat.testBit p = v.toNat.testBit (p % 32) := by
  have hamount : (32 : UInt64).toNat % 64 = 32 := rfl
  rw [UInt64.toNat_or, UInt64.toNat_shiftRight, UInt64.toNat_shiftLeft, hamount, Nat.testBit_or,
    Nat.testBit_shiftRight, Nat.testBit_mod_two_pow, Nat.testBit_mod_two_pow, Nat.testBit_shiftLeft,
    Nat.testBit_shiftLeft, decide_eq_true hp, Bool.true_and]
  by_cases hlow : p < 32
  · have hnot : ¬ p ≥ 32 := by omega
    have hin : 32 + p < 64 := by omega
    simp [hnot, hin, Nat.mod_eq_of_lt hlow]
  · have hge : p ≥ 32 := by omega
    have hout : ¬ 32 + p < 64 := by omega
    have hmod : p % 32 = p - 32 := by omega
    simp [hge, hout, hmod]

/-- **The double word to look at** has the bits of the value, inverted if the lowest one is set, and
repeats them after the width. -/
theorem testBit_prepare (hw : width = 32 ∨ width = 64) :
    (prepare v width).1 = v.toNat.testBit 0 ∧
      ∀ p < 64, (prepare v width).2.toNat.testBit p =
        (v.toNat.testBit (p % width) != v.toNat.testBit 0) := by
  have heven : ∀ (low : UInt64), ∀ p < 64,
      (if (low &&& 1 != 0) = true then ~~~low else low).toNat.testBit p =
        (low.toNat.testBit p != low.toNat.testBit 0) := by
    intro low p hp
    rw [testBit_and_one]
    cases low.toNat.testBit 0
    · simp
    · rw [if_pos rfl, testBit_not _ hp, Bool.bne_true]
  rcases hw with rfl | rfl
  · have hlow : ∀ p < 32, (v &&& 0xffffffff).toNat.testBit p = v.toNat.testBit p := by
      intro p hp
      have hmask : (0xffffffff : UInt64).toNat = 2 ^ 32 - 1 := rfl
      rw [UInt64.toNat_and, hmask, Nat.and_two_pow_sub_one_eq_mod, Nat.testBit_mod_two_pow,
        decide_eq_true hp, Bool.true_and]
    simp only [prepare, if_true]
    refine ⟨(testBit_and_one _).trans (hlow 0 (by decide)), fun p hp => ?_⟩
    have hmod : p % 32 < 32 := Nat.mod_lt p (by decide)
    rw [testBit_double _ hp, heven _ _ (by omega), hlow _ hmod, hlow 0 (by decide)]
  · simp only [prepare, Nat.reduceEqDiff, if_false]
    refine ⟨testBit_and_one v, fun p hp => ?_⟩
    rw [heven v p hp, Nat.mod_eq_of_lt hp]

theorem prepare_even (hw : width = 32 ∨ width = 64) :
    (prepare v width).2.toNat.testBit 0 = false := by
  rw [(testBit_prepare hw).2 0 (by decide), Nat.zero_mod, bne_self_eq_false]

/-- Repeated to a double word, bits are a run exactly if they are one at the width. -/
theorem isRun_repeat {size ones r x y : Nat} (hw : width = 32 ∨ width = 64) (hdvd : size ∣ width)
    (hxy : ∀ p < 64, x.testBit p = y.testBit (p % width)) :
    IsRun 64 size ones r x ↔ IsRun width size ones r y := by
  have hpos : 0 < width := by omega
  have hle : width ≤ 64 := by omega
  constructor
  · intro h p hp
    rw [← h p (by omega), hxy p (by omega), Nat.mod_eq_of_lt hp]
  · intro h p hp
    have hmod : (p % width + r) % size = (p + r) % size :=
      Nat.ModEq.add_right r (Nat.mod_mod_of_dvd p hdvd)
    rw [hxy p hp, h _ (Nat.mod_lt p hpos), hmod]

theorem dvd_width {size : Nat} (hw : width = 32 ∨ width = 64) (hsize : size ∈ sizes)
    (hle : size ≤ width) : size ∣ width := by
  have hall : ∀ width ∈ [32, 64], ∀ size ∈ sizes, size ≤ width → size ∣ width := by decide
  exact hall width (by simpa using hw) size hsize hle

/-- The prepared value is a run exactly if the value is one, which is the complement if the lowest
bit is set. -/
theorem isRun_prepare {size ones r : Nat} (hw : width = 32 ∨ width = 64) (hsize : size ∈ sizes)
    (hle : size ≤ width) (hones : ones ≤ size) (hr : r < size) :
    IsRun 64 size ones r (prepare v width).2.toNat ↔
      if (prepare v width).1 then
        IsRun width size (size - ones) ((r + (size - ones)) % size) v.toNat
      else IsRun width size ones r v.toNat := by
  obtain ⟨hnegated, hbits⟩ := testBit_prepare (v := v) hw
  have hdvd := dvd_width hw hsize hle
  rw [hnegated]
  cases hlow : v.toNat.testBit 0 <;> rw [hlow] at hbits
  · exact isRun_repeat hw hdvd fun p hp => (hbits p hp).trans (Bool.bne_false _)
  · -- The complement of the prepared value repeats the bits of the value.
    have hcomplement : ∀ p < 64, (~~~(prepare v width).2).toNat.testBit p =
        v.toNat.testBit (p % width) := by
      intro p hp
      rw [testBit_not _ hp, hbits p hp, Bool.bne_true, Bool.not_not]
    rw [if_pos rfl, isRun_complement_iff hr hones fun p hp => testBit_not _ hp]
    exact isRun_repeat hw hdvd hcomplement

end

/-- **What `ofValue?` accepts**, at both widths. -/
theorem ofValue?_eq_some_iff {v : UInt64} {m : Mask} {width : Nat}
    (hw : width = 32 ∨ width = 64) :
    ofValue? v width = .ok (some m) ↔ ∃ size ∈ sizes, size ≤ width ∧ ∃ ones r, 0 < ones ∧
      ones < size ∧ r < size ∧ IsRun width size ones r v.toNat ∧ m = ofElement size ones r := by
  have hfields := ofEven?_eq_some_iff (m := m) (prepare v width).1 (prepare_even (v := v) hw)
  have hsearch : ofValue? v width = ofEven? (prepare v width).1 (prepare v width).2 := if_pos hw
  rw [hsearch, hfields]
  -- The prepared value repeats after the width, so its element is not longer.
  have hshort : ∀ size ∈ sizes, ∀ ones r, 0 < ones → ones < size → r < size →
      IsRun 64 size ones r (prepare v width).2.toNat → size ≤ width := by
    intro size hsize ones r hpos hones hr hrun
    by_contra hgt
    have hlt : width < size := Nat.lt_of_not_le hgt
    have hle := le_of_mem_sizes hsize
    have hwidth : width ∈ sizes := by rcases hw with rfl | rfl <;> decide
    refine hrun.not_period hr hle hpos hones (pos_of_mem_sizes hwidth)
      (dvd_of_lt_sizes hwidth hsize hlt) hlt fun p hp => ?_
    have hmod : p % width < 64 := lt_of_le_of_lt (Nat.mod_le p width) hp
    rw [(testBit_prepare hw).2 p hp, (testBit_prepare hw).2 _ hmod, Nat.mod_mod]
  constructor
  · rintro ⟨size, hsize, ones, r, hpos, hones, hr, hrun, hm⟩
    have hle := hshort size hsize ones r hpos hones hr hrun
    rw [isRun_prepare hw hsize hle hones.le hr] at hrun
    split at hrun <;> rename_i hnegated
    · rw [if_pos hnegated] at hm
      exact ⟨size, hsize, hle, _, _, by omega, by omega, Nat.mod_lt _ (by omega), hrun, hm⟩
    · rw [if_neg hnegated] at hm
      exact ⟨size, hsize, hle, _, _, hpos, hones, hr, hrun, hm⟩
  · rintro ⟨size, hsize, hle, ones, r, hpos, hones, hr, hrun, rfl⟩
    by_cases hnegated : (prepare v width).1 = true
    · -- The prepared value is the complement of the complement.
      have hones' : size - (size - ones) = ones := Nat.sub_sub_self hones.le
      have hrot := complement_rotation hr hones.le
      have hr' : (r + (size - ones)) % size < size := Nat.mod_lt _ (by omega)
      refine ⟨size, hsize, size - ones, (r + (size - ones)) % size, by omega, by omega, hr', ?_, ?_⟩
      · rw [isRun_prepare hw hsize hle (Nat.sub_le size ones) hr', if_pos hnegated, hones', hrot]
        exact hrun
      · rw [if_pos hnegated, hones', hrot]
    · refine ⟨size, hsize, ones, r, hpos, hones, hr, ?_, (if_neg hnegated).symm⟩
      rwa [isRun_prepare hw hsize hle hones.le hr, if_neg hnegated]

/-- **The search always answers.** -/
theorem ofValue?_ok {width : Nat} (hw : width = 32 ∨ width = 64) (v : UInt64) :
    ∃ found, ofValue? v width = .ok found := by
  rw [ofValue?, if_pos hw]
  exact ofEven?_ok (prepare_even hw)

/-! ## Both ways -/

/-- The fields of a run are in range and describe it. -/
theorem decode_ofElement {size ones r width : Nat} {v : UInt64} (hw : width = 32 ∨ width = 64)
    (hsize : size ∈ sizes) (hle : size ≤ width) (hpos : 0 < ones) (hones : ones < size)
    (hr : r < size) (hrun : IsRun width size ones r v.toNat) :
    decode (ofElement size ones r) width = .ok (some (UInt64.ofNat (v.toNat % 2 ^ width))) := by
  have hle64 := le_of_mem_sizes hsize
  obtain ⟨hdesc, hsz, hlen, -⟩ := fields_ofElement hsize hpos hones r
  have hn : (ofElement size ones r).n ≤ 1 := by
    simp only [ofElement]
    split <;> decide
  have hs : (ofElement size ones r).s < 64 := by
    have hbelow : (128 - 2 * size % 128 + (ones - 1)) % 64 < 64 := Nat.mod_lt _ (by decide)
    rw [UInt8.lt_iff_toNat_lt, ofElement, UInt8.toNat_ofNat_of_lt' (lt_trans hbelow (by decide))]
    exact hbelow
  have hrot : (ofElement size ones r).r.toNat = r := by
    apply UInt8.toNat_ofNat_of_lt'
    exact lt_of_lt_of_le hr (le_trans hle64 (by decide))
  have hlow : v.toNat % 2 ^ width < 2 ^ width := Nat.mod_lt _ (Nat.two_pow_pos width)
  have hnat : (UInt64.ofNat (v.toNat % 2 ^ width)).toNat = v.toNat % 2 ^ width := by
    apply UInt64.toNat_ofNat_of_lt'
    exact lt_of_le_of_lt (Nat.mod_le _ _) v.toNat_lt
  rw [decode_eq_some_iff hn hs hw, hsz, hlen, hrot, Nat.mod_eq_of_lt hr, hnat]
  exact ⟨hdesc, hle, hrun.mod, hlow⟩

/-- **Masks are read and written without loss.** At 32 and at 64 bits the search for fields always
answers; fields that it finds have the value they were found for, and at 32 bits the size bit is
clear; from fields in range that have a value the search comes back to the same fields, with the
rotation taken modulo the element; and it finds fields exactly for the values that are copies of a
rotated run of ones, neither empty nor full. -/
theorem ofValue?_decode {width : Nat} (hw : width = 32 ∨ width = 64) :
    (∀ v, ∃ found, ofValue? v width = .ok found) ∧
    (∀ v m, ofValue? v width = .ok (some m) →
      decode m width = .ok (some (UInt64.ofNat (v.toNat % 2 ^ width))) ∧
        (width = 32 → m.n = 0)) ∧
    (∀ m v, m.n ≤ 1 → m.s < 64 → m.r < 64 → decode m width = .ok (some v) →
      ofValue? v width = .ok (some { m with r := UInt8.ofNat (m.r.toNat % m.elementSize) })) ∧
    (∀ v, (∃ m, ofValue? v width = .ok (some m)) ↔
      ∃ size ∈ [2, 4, 8, 16, 32, 64], size ≤ width ∧ ∃ ones r, 0 < ones ∧ ones < size ∧
        r < size ∧ ∀ i < width, v.toNat.testBit i = decide ((i + r) % size < ones)) := by
  refine ⟨?_, ?_, ?_, ?_⟩
  · exact ofValue?_ok hw
  · intro v m h
    obtain ⟨size, hsize, hle, ones, r, hpos, hones, hr, hrun, rfl⟩ :=
      (ofValue?_eq_some_iff hw).1 h
    refine ⟨decode_ofElement hw hsize hle hpos hones hr hrun, ?_⟩
    intro h32
    exact (fields_ofElement hsize hpos hones r).2.2.2.2 (by omega)
  · intro m v hn hs _ h
    obtain ⟨hdesc, hle, hrun, -⟩ := (decode_eq_some_iff hn hs hw).1 h
    obtain ⟨hsize, hones, heq⟩ := hdesc.eq_ofElement hn hs
    rw [ofValue?_eq_some_iff hw]
    exact ⟨_, hsize, hle, _, _, Nat.succ_pos _, hones, Nat.mod_lt _ (pos_of_mem_sizes hsize), hrun,
      (heq _).symm⟩
  · intro v
    constructor
    · rintro ⟨m, h⟩
      obtain ⟨size, hsize, hle, ones, r, hpos, hones, hr, hrun, -⟩ :=
        (ofValue?_eq_some_iff hw).1 h
      exact ⟨size, hsize, hle, ones, r, hpos, hones, hr, hrun⟩
    · rintro ⟨size, hsize, hle, ones, r, hpos, hones, hr, hrun⟩
      exact ⟨_, (ofValue?_eq_some_iff hw).2
        ⟨size, hsize, hle, ones, r, hpos, hones, hr, hrun, rfl⟩⟩

/-- Fields with a rotation above their element, and a value that they have at 32 bits: twelve ones
in each half, four of them at the top. -/
theorem ofValue?_decode_halves :
    decode ⟨0, 0b101011, 20⟩ 32 = .ok (some 0xf0fff0ff) ∧
      ofValue? 0xf0fff0ff 32 = .ok (some ⟨0, 0b101011, 4⟩) ∧
      ∃ size ∈ [2, 4, 8, 16, 32, 64], size ≤ 32 ∧ ∃ ones r, 0 < ones ∧ ones < size ∧ r < size ∧
        ∀ i < 32, (0xf0fff0ff : UInt64).toNat.testBit i = decide ((i + r) % size < ones) := by
  have hvalue : decode ⟨0, 0b101011, 20⟩ 32 = .ok (some 0xf0fff0ff) := by decide
  obtain ⟨-, -, hback, haccept⟩ := @ofValue?_decode 32 (Or.inl rfl)
  have hfound := hback ⟨0, 0b101011, 20⟩ 0xf0fff0ff (by decide) (by decide) (by decide) hvalue
  exact ⟨hvalue, hfound, (haccept _).1 ⟨_, hfound⟩⟩

end Dynarec.Aarch64.Mask
