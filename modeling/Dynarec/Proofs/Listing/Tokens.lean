/-
The texts of operands are read back.

What the printer writes between marks is made of letters, digits and underscores of the ASCII
range. Such a text is never cut by a reader and never skipped as a blank, and what follows it in a
line, a blank, a comma or a line feed, ends it. From these two facts and from the round trip of
numerals every operand is read back: `readOperand_text`, one case for each kind.
-/
import Dynarec.Listing.Printer
import Dynarec.Listing.Reader
import Mathlib.Data.List.Basic
import Mathlib.Tactic.IntervalCases

set_option autoImplicit false
set_option maxRecDepth 2048

/-! ## Numerals -/

namespace Dynarec.Text

theorem digitIn?_digitChar {base d : Nat} (hbase : base ≤ 16) (h : d < base) :
    digitIn? base d.digitChar = some d := by
  have hvalue : digitValue? d.digitChar = some d := by
    have hd : d < 16 := by omega
    interval_cases d <;> decide
  simp [digitIn?, hvalue, h]

theorem digitsFrom?_append (base acc : Nat) (xs ys : List Char) :
    digitsFrom? base acc (xs ++ ys) =
      (digitsFrom? base acc xs).bind fun n => digitsFrom? base n ys := by
  induction xs generalizing acc with
  | nil => rfl
  | cons c xs ih =>
    rw [List.cons_append, digitsFrom?, digitsFrom?]
    cases digitIn? base c with
    | none => rfl
    | some d => exact ih _

/-- The digits of a number have its value. The induction is on the number: all digits but the last
are those of the quotient. -/
theorem digitsFrom?_toDigits {base : Nat} (hone : 1 < base) (hbase : base ≤ 16) (n : Nat) :
    digitsFrom? base 0 (Nat.toDigits base n) = some n := by
  induction n using Nat.strongRecOn with
  | _ n ih =>
    rw [Nat.toDigits_eq_if hone]
    split
    · next hlt => simp [digitsFrom?, digitIn?_digitChar hbase hlt]
    · next hge =>
      have hpos : 0 < n := by omega
      have hmod : n % base < base := Nat.mod_lt n (by omega)
      rw [digitsFrom?_append, ih _ (Nat.div_lt_self hpos hone)]
      simp [digitsFrom?, digitIn?_digitChar hbase hmod, Nat.div_add_mod']

theorem mem_toDigits {base n : Nat} {c : Char} (hone : 1 < base)
    (hc : c ∈ Nat.toDigits base n) : ∃ d < base, c = d.digitChar := by
  induction n using Nat.strongRecOn with
  | _ n ih =>
    rw [Nat.toDigits_eq_if hone] at hc
    split at hc
    · next hlt => exact ⟨n, hlt, by simpa using hc⟩
    · next hge =>
      rcases List.mem_append.1 hc with hc | hc
      · exact ih _ (Nat.div_lt_self (by omega) hone) hc
      · exact ⟨n % base, Nat.mod_lt n (by omega), by simpa using hc⟩

/-- **Numerals are read back.** -/
theorem unsignedBelow?_toDigits {base limit n : Nat} (hone : 1 < base) (hbase : base ≤ 16)
    (h : n < limit) : unsignedBelow? base limit (Nat.toDigits base n) = some n := by
  have hdigits := digitsFrom?_toDigits hone hbase n
  have hunsigned : unsigned? base (Nat.toDigits base n) = some n := by
    cases hcs : Nat.toDigits base n with
    | nil => exact absurd hcs Nat.toDigits_ne_nil
    | cons c cs =>
      have hplus : c ≠ '+' := by
        obtain ⟨d, hd, rfl⟩ := mem_toDigits hone (hcs ▸ List.mem_cons_self : c ∈ _)
        have hd : d < 16 := by omega
        interval_cases d <;> decide
      rw [hcs] at hdigits
      simp [unsigned?, digits?, hplus, hdigits]
  simp [unsignedBelow?, hunsigned, h]

end Dynarec.Text

namespace Dynarec.Listing

open Dynarec.Text (isAlphabetic isBlank isNumeric)

/-! ## Characters of a token -/

/-- A character that the printer writes inside a name or a number. -/
def isTokenChar (c : Char) : Bool := c.isAlphanum || c == '_'

theorem toNat_lt_of_isAlphanum {c : Char} (h : c.isAlphanum = true) : c.toNat < 128 := by
  have hranges : (decide (c.val ≥ 'A'.val ∧ c.val ≤ 'Z'.val)
      || (decide (c.val ≥ 'a'.val) && decide (c.val ≤ 'z'.val))
      || (decide (c.val ≥ '0'.val) && decide (c.val ≤ '9'.val))) = true := h
  simp only [Bool.or_eq_true, Bool.and_eq_true, decide_eq_true_eq, UInt32.le_iff_toNat_le,
    ge_iff_le] at hranges
  have hz : 'z'.val.toNat = 122 := rfl
  have hZ : 'Z'.val.toNat = 90 := rfl
  have h9 : '9'.val.toNat = 57 := rfl
  have hc : c.toNat = c.val.toNat := rfl
  omega

/-- What holds of the first 128 characters holds of every character of a token. -/
theorem forall_token {p : Char → Bool} (h : ∀ n < 128, p (Char.ofNat n) = true) {c : Char}
    (hc : isTokenChar c = true) : p c = true := by
  have hlt : c.toNat < 128 := by
    simp only [isTokenChar, Bool.or_eq_true, beq_iff_eq] at hc
    rcases hc with hc | rfl
    · exact toNat_lt_of_isAlphanum hc
    · decide
  rw [← Char.ofNat_toNat c]
  exact h c.toNat hlt

theorem isNameChar_of_token {c : Char} (hc : isTokenChar c = true) : isNameChar c = true := by
  have hall : ∀ n < 128, (!isTokenChar (Char.ofNat n) || isNameChar (Char.ofNat n)) = true := by
    decide
  have h := @forall_token (fun c => !isTokenChar c || isNameChar c) hall c hc
  simpa [hc] using h

theorem isAlphabetic_of_isAlpha {c : Char} (hc : c.isAlpha = true) : isAlphabetic c = true := by
  have hall : ∀ n < 128, (!(Char.ofNat n).isAlpha || isAlphabetic (Char.ofNat n)) = true := by
    decide
  have htoken : isTokenChar c = true := by simp [isTokenChar, Char.isAlphanum, hc]
  have h := @forall_token (fun c => !c.isAlpha || isAlphabetic c) hall c htoken
  simpa [hc] using h

/-- No character of a token is a blank, a comment mark or a line feed. -/
theorem not_skipped_of_token {c : Char} (hc : isTokenChar c = true) :
    c ≠ ';' ∧ isBlank c = false ∧ c ≠ '\n' := by
  have hall : ∀ n < 128, (!isTokenChar (Char.ofNat n) || (Char.ofNat n != ';'
      && !isBlank (Char.ofNat n) && Char.ofNat n != '\n')) = true := by decide
  have h := @forall_token
    (fun c => !isTokenChar c || (c != ';' && !isBlank c && c != '\n')) hall c hc
  simpa [hc, and_assoc] using h

/-! ## Tokens in a line -/

/-- A text that starts with a character that no token has: what follows a token in a line. -/
def EndsToken (rest : List Char) : Prop := ∃ c ∈ [' ', ',', '\n'], ∃ cs, rest = c :: cs

/-- A name as the printer writes it: a letter and characters of a token. -/
def isName (t : List Char) : Bool := t.head?.any Char.isAlpha && t.all isTokenChar

theorem token_of_isName {t : List Char} (h : isName t = true) {c : Char} (hc : c ∈ t) :
    isTokenChar c = true := by
  simp only [isName, Bool.and_eq_true, List.all_eq_true] at h
  exact h.2 c hc

/-- A test that all characters of a text pass and no end of a token does cuts the text off. -/
theorem span_token {p : Char → Bool} {t rest : List Char} (ht : ∀ c ∈ t, p c = true)
    (hp : ∀ c ∈ [' ', ',', '\n'], p c = false) (hrest : EndsToken rest) :
    (t ++ rest).takeWhile p = t ∧ (t ++ rest).dropWhile p = rest := by
  obtain ⟨c, hc, cs, rfl⟩ := hrest
  rw [List.takeWhile_append_of_pos ht, List.dropWhile_append_of_pos ht]
  simp [hp c hc]

@[simp]
theorem skipBlanks_space (cs : List Char) : skipBlanks (' ' :: cs) = skipBlanks cs := by
  have hblank : isBlank ' ' = true := by decide
  simp [skipBlanks, hblank]

theorem skipBlanks_token {c : Char} (hc : isTokenChar c = true) (cs : List Char) :
    skipBlanks (c :: cs) = c :: cs := by
  obtain ⟨hmark, hblank, -⟩ := not_skipped_of_token hc
  simp [skipBlanks, hmark, hblank]

@[simp]
theorem readName_space (cs : List Char) : readName (' ' :: cs) = readName cs := by
  simp [readName]

@[simp]
theorem readNumber_space (cs : List Char) : readNumber (' ' :: cs) = readNumber cs := by
  simp [readNumber]

/-- **A printed name is read back.** -/
theorem readName_name {t rest : List Char} (h : isName t = true) (hrest : EndsToken rest) :
    readName (t ++ rest) = .ok (t, rest) := by
  have hends : ∀ d ∈ [' ', ',', '\n'], isNameChar d = false := by
    simp only [List.forall_mem_cons, List.not_mem_nil, IsEmpty.forall_iff, implies_true, and_true]
    decide
  obtain ⟨htake, hdrop⟩ :=
    span_token (fun d hd => isNameChar_of_token (token_of_isName h hd)) hends hrest
  cases t with
  | nil => simp [isName] at h
  | cons c cs =>
    have hc : c.isAlpha = true := by
      simp only [isName, List.head?_cons, Option.any_some, Bool.and_eq_true] at h
      exact h.1
    have hskip := skipBlanks_token (token_of_isName h List.mem_cons_self) (cs ++ rest)
    rw [List.cons_append] at htake hdrop ⊢
    simp [readName, hskip, isAlphabetic_of_isAlpha hc, htake, hdrop]

/-- **A printed number is read back** as the value of its token. -/
theorem readNumber_token {t rest : List Char} {w : Word} (hne : t ≠ [])
    (ht : ∀ c ∈ t, c.isAlphanum = true) (hw : numberValue? t = some w) (hrest : EndsToken rest) :
    readNumber (t ++ rest) = .ok (w, rest) := by
  have hnumber : ∀ c ∈ t, isNumberChar c = true := by
    intro c hc
    simp [isNumberChar, ht c hc]
  have hends : ∀ d ∈ [' ', ',', '\n'], isNumberChar d = false := by
    simp only [List.forall_mem_cons, List.not_mem_nil, IsEmpty.forall_iff, implies_true, and_true]
    decide
  obtain ⟨htake, hdrop⟩ := span_token hnumber hends hrest
  cases t with
  | nil => exact absurd rfl hne
  | cons c cs =>
    have hc : isTokenChar c = true := by simp [isTokenChar, ht c List.mem_cons_self]
    rw [List.cons_append] at htake hdrop ⊢
    simp [readNumber, skipBlanks_token hc, htake, hdrop, hw]

/-! ## Values of printed numbers -/

theorem isDigit_of_mem_toDigits {n : Nat} {c : Char} (h : c ∈ Nat.toDigits 10 n) :
    c.isDigit = true :=
  Nat.isDigit_of_mem_toDigits (by decide) (by decide) h

theorem isAlphanum_of_mem_toDigits {n : Nat} {c : Char} (h : c ∈ Nat.toDigits 16 n) :
    c.isAlphanum = true := by
  obtain ⟨d, hd, rfl⟩ := Text.mem_toDigits (by decide) h
  interval_cases d <;> decide

/-- A pattern whose first character does not occur in a text does not occur in it. -/
theorem occursIn_of_not_mem {c : Char} {pattern text : List Char} (h : c ∉ text) :
    Text.occursIn (c :: pattern) text = false := by
  induction text with
  | nil => rfl
  | cons d text ih =>
    rw [List.mem_cons, not_or] at h
    simp [Text.occursIn, List.isPrefixOf, ih h.2, h.1]

theorem numberValue?_digits {n : Nat} (h : n < wordLimit) :
    numberValue? (Nat.toDigits 10 n) = some (UInt32.ofNat n) := by
  have hread : Text.unsignedBelow? 10 wordLimit (Nat.toDigits 10 n) = some n :=
    Text.unsignedBelow?_toDigits (by decide) (by decide) h
  -- No digit is a letter, a point or a sign.
  have hnot : ∀ c, c.isDigit = false → c ∉ Nat.toDigits 10 n := by
    intro c hc hmem
    simp [isDigit_of_mem_toDigits hmem] at hc
  have hx := hnot 'x' (by decide)
  have hX := hnot 'X' (by decide)
  have hpoint := hnot '.' (by decide)
  have hminus := hnot '-' (by decide)
  have hinf : Text.occursIn "inf".toList (Nat.toDigits 10 n) = false :=
    occursIn_of_not_mem (hnot 'i' (by decide))
  have hnan : Text.occursIn "nan".toList (Nat.toDigits 10 n) = false :=
    occursIn_of_not_mem (hnot 'n' (by decide))
  unfold numberValue?
  split
  · next ds heq => simp [heq] at hx
  · next ds heq => simp [heq] at hX
  · rw [hinf, hnan]
    simp only [List.contains_eq_mem, hpoint, decide_false, Bool.or_false, Bool.false_eq_true,
      if_false]
    split
    · next ds heq => simp [heq] at hminus
    · rw [hread, Option.map_some]

theorem isAlphanum_of_mem_hex {n : Nat} {c : Char} (h : c ∈ (Text.hex n).toList) :
    c.isAlphanum = true := by
  simp only [Text.hex, Text.hexDigits, String.toList_append, String.toList_ofList,
    List.mem_append] at h
  rcases h with h | h
  · have hmark : c = '0' ∨ c = 'x' := by simpa using h
    rcases hmark with rfl | rfl <;> decide
  · exact isAlphanum_of_mem_toDigits h

theorem numberValue?_hex (w : Word) : numberValue? (Text.hex w.toNat).toList = some w := by
  have hread : Text.unsignedBelow? 16 wordLimit (Nat.toDigits 16 w.toNat) = some w.toNat :=
    Text.unsignedBelow?_toDigits (by decide) (by decide) w.toNat_lt
  have htext : (Text.hex w.toNat).toList = '0' :: 'x' :: Nat.toDigits 16 w.toNat := by
    simp [Text.hex, Text.hexDigits]
  simp [htext, numberValue?, hread]

/-! ## Operands -/

/-- What an operand stands for: the word of the pool for a position, otherwise the field itself. -/
def operandWord (constants : List Word) : OperandKind × UInt8 → Word
  | (.unused, _) => 0
  | (.const, v) => constants.getD v.toNat 0
  | (_, v) => v.toUInt32

/-- An operand that the listing can hold: an unused field is zero, a control register has one of
sixteen numbers, and a position is one of the pool. -/
def IsPrintable (constants : List Word) (p : OperandKind × UInt8) : Prop :=
  (p.1 = .unused → p.2 = 0) ∧ (p.1 = .vfpuCtrl → p.2.toNat < 16) ∧
    (p.1 = .const → p.2.toNat < constants.length)

theorem isName_mark {mark : List Char} (hmark : isName mark = true) (n : Nat) :
    isName (mark ++ Nat.toDigits 10 n) = true := by
  have hdigits : (Nat.toDigits 10 n).all isTokenChar = true := by
    rw [List.all_eq_true]
    intro c hc
    simp [isTokenChar, Char.isAlphanum, isDigit_of_mem_toDigits hc]
  cases mark with
  | nil => simp [isName] at hmark
  | cons c cs => simpa [isName, hdigits] using hmark

/-- A register written as a mark and a number is read back. -/
theorem readIndexed_text {mark : String} {rest : List Char} {limit n : Nat}
    (hmark : isName mark.toList = true) (hn : n < limit) (hrest : EndsToken rest) :
    readIndexed mark limit (mark.toList ++ Nat.toDigits 10 n ++ rest) =
      .ok (UInt32.ofNat n, rest) := by
  have hcut : mark.toList.isPrefixOf? (mark.toList ++ Nat.toDigits 10 n) =
      some (Nat.toDigits 10 n) := List.isPrefixOf?_eq_some_iff_append_eq.2 rfl
  have hread : Text.unsignedBelow? 10 limit (Nat.toDigits 10 n) = some n :=
    Text.unsignedBelow?_toDigits (by decide) (by decide) hn
  simp only [readIndexed, readName_name (isName_mark hmark n) hrest, bind, Except.bind, hcut, hread]
  rfl

/-- No special name is a letter and a number: its second character is no digit. -/
theorem find_special_numbered (c : Char) (n : Nat) :
    Slot.specialNames.find? (fun p => p.2.toList == c :: Nat.toDigits 10 n) = none := by
  have hsecond : ∀ p ∈ Slot.specialNames, (p.2.toList.drop 1).head?.any Char.isDigit = false := by
    decide
  rw [List.find?_eq_none]
  intro p hp heq
  have hdigit := hsecond p hp
  rw [beq_iff_eq.1 heq, List.drop_one, List.tail_cons] at hdigit
  cases hds : Nat.toDigits 10 n with
  | nil => exact absurd hds Nat.toDigits_ne_nil
  | cons d ds =>
    have hd : d.isDigit = true := by
      apply isDigit_of_mem_toDigits
      rw [hds]
      exact List.mem_cons_self
    simp [hds, hd] at hdigit

/-- **Every integer slot has a name that is read back**: its number, its own name, or the mark for
any other slot. -/
theorem ofRegName?_regName (r : UInt8) :
    isName (Slot.regName r).toList = true ∧ Slot.ofRegName? (Slot.regName r).toList = some r := by
  unfold Slot.regName
  split
  · next hlt =>
    have htext : (s!"r{r.toNat}").toList = 'r' :: Nat.toDigits 10 r.toNat := by
      simp [toString]
    have hread : Text.unsignedBelow? 10 Slot.integerCount (Nat.toDigits 10 r.toNat) =
        some r.toNat := Text.unsignedBelow?_toDigits (by decide) (by decide) hlt
    rw [htext]
    refine ⟨@isName_mark ['r'] (by decide) _, ?_⟩
    simp [Slot.ofRegName?, find_special_numbered, hread]
  · split
    · next p hfind =>
      -- The registers with a name of their own are a table.
      have hall : ∀ p ∈ Slot.specialNames, isName p.2.toList = true ∧
          Slot.ofRegName? p.2.toList = some p.1 := by decide
      obtain rfl : p.1 = r := by simpa using List.find?_some hfind
      exact hall p (List.mem_of_find?_eq_some hfind)
    · have htext : (s!"g{r.toNat}").toList = 'g' :: Nat.toDigits 10 r.toNat := by
        simp [toString]
      have hread : Text.unsignedBelow? 10 Slot.count (Nat.toDigits 10 r.toNat) =
          some r.toNat := Text.unsignedBelow?_toDigits (by decide) (by decide) r.toNat_lt
      rw [htext]
      refine ⟨@isName_mark ['g'] (by decide) _, ?_⟩
      simp [Slot.ofRegName?, find_special_numbered, hread]

/-- **A printed operand is read back**, one case for each kind. -/
theorem readOperand_text {constants : List Word} {kind : OperandKind} {v : UInt8} {t : String}
    {rest : List Char} (ht : operandText constants (kind, v) = some t)
    (hp : IsPrintable constants (kind, v)) (hrest : EndsToken rest) :
    readOperand kind (' ' :: t.toList ++ rest) = .ok (operandWord constants (kind, v), rest) := by
  have hv : v.toNat < 256 := v.toNat_lt
  have hword : UInt32.ofNat v.toNat = v.toUInt32 := by
    apply UInt32.toNat_inj.1
    rw [UInt32.toNat_ofNat_of_lt' (by simp only [UInt32.size]; omega), UInt8.toNat_toUInt32]
  have hindexed : ∀ (mark : String) (limit : Nat), isName mark.toList = true → v.toNat < limit →
      readIndexed mark limit (' ' :: (mark ++ toString v.toNat).toList ++ rest) =
        .ok (v.toUInt32, rest) := by
    intro mark limit hmark hlt
    rw [← hword, ← readIndexed_text hmark hlt hrest]
    simp [readIndexed]
  cases kind with
  | unused => simp [operandText] at ht
  | gpr =>
    obtain rfl : Slot.regName v = t := by simpa [operandText] using ht
    obtain ⟨hname, hreg⟩ := ofRegName?_regName v
    simp only [readOperand, List.cons_append, readName_space, readName_name hname hrest, bind,
      Except.bind, hreg]
    rfl
  | fpr =>
    obtain rfl : "f" ++ toString v.toNat = t := Option.some.inj ht
    exact hindexed "f" 256 (by decide) hv
  | vec4 =>
    obtain rfl : "f" ++ toString v.toNat = t := Option.some.inj ht
    exact hindexed "f" 256 (by decide) hv
  | vfpuCtrl =>
    obtain rfl : "vc" ++ toString v.toNat = t := Option.some.inj ht
    exact hindexed "vc" 16 (by decide) (hp.2.1 rfl)
  | imm =>
    obtain rfl : toString v.toNat = t := by simpa [operandText] using ht
    have hdigits : ∀ c ∈ Nat.toDigits 10 v.toNat, c.isAlphanum = true := by
      intro c hc
      simp [Char.isAlphanum, isDigit_of_mem_toDigits hc]
    have hvalue := numberValue?_digits (lt_trans hv (by decide : 256 < wordLimit))
    have hread := readNumber_token Nat.toDigits_ne_nil hdigits hvalue hrest
    have hsmall : ¬ 255 < v.toUInt32 := by
      rw [UInt32.lt_iff_toNat_lt, UInt8.toNat_toUInt32]
      exact Nat.not_lt.2 (Nat.le_of_lt_succ hv)
    rw [hword] at hread
    simp only [readOperand, List.cons_append, readNumber_space, Nat.toString_eq_ofList_toDigits,
      String.toList_ofList, hread, bind, Except.bind, hsmall, if_false]
    rfl
  | const =>
    have hlt : v.toNat < constants.length := hp.2.2 rfl
    have hget := List.getElem?_eq_getElem hlt
    obtain rfl : Text.hex constants[v.toNat].toNat = t := by simpa [operandText, hget] using ht
    have hne : (Text.hex constants[v.toNat].toNat).toList ≠ [] := by simp [Text.hex]
    have hread := readNumber_token hne (fun _ => isAlphanum_of_mem_hex) (numberValue?_hex _) hrest
    simp only [readOperand, List.cons_append, readNumber_space, hread, operandWord,
      List.getD_eq_getElem?_getD, hget, Option.getD_some]

end Dynarec.Listing
