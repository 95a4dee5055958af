/-
A listing is read line by line.

The cursor runs over the whole text, yet nothing is ever taken from another line. Each reader of a
text is compared with the reader of a line (`Reads`): in front of what is left of a line it gives
what the other gives on these characters alone, whatever lines follow; it passes over no line feed,
and so a fault has the number of the line. The rules for sequences and failures give this for all
readers down to items. Between two items the cursor passes over the rest of the line and over lines
without an item, which is what reading those lines on their own amounts to. So reading a text is
reading its lines one after the other (`parseModule_eq_readLines`).
-/
import Dynarec.Listing.Cursor
import Dynarec.Proofs.Guest.Code
import Mathlib.Data.List.TakeWhile

set_option autoImplicit false
set_option maxRecDepth 2048

namespace Dynarec.Listing

open Dynarec.Text (isAlphabetic isBlank)

/-! ## What is left of a line -/

/-- `cs` is what is left of a line and `tail` is what follows the line: a line feed can only stand
at the end of `cs`, and nothing follows a line without one. -/
def RestOfLine (cs tail : List Char) : Prop :=
  ('\n' ∉ cs ∧ tail = []) ∨ ∃ l, '\n' ∉ l ∧ cs = l ++ ['\n']

section RestOfLine

variable {cs tail passed rest : List Char} {c : Char}

theorem RestOfLine.nil (h : RestOfLine [] tail) : tail = [] := by
  rcases h with ⟨-, rfl⟩ | ⟨l, -, hl⟩
  · rfl
  · simp at hl

theorem RestOfLine.cons (h : RestOfLine (c :: cs) tail) (hc : c ≠ '\n') : RestOfLine cs tail := by
  rcases h with ⟨hcs, htail⟩ | ⟨l, hl, hcs⟩
  · exact Or.inl ⟨fun hmem => hcs (List.mem_cons_of_mem c hmem), htail⟩
  · cases l with
    | nil =>
      rw [List.nil_append, List.cons.injEq] at hcs
      exact absurd hcs.1 hc
    | cons d l =>
      rw [List.cons_append, List.cons.injEq] at hcs
      exact Or.inr ⟨l, fun hmem => hl (List.mem_cons_of_mem d hmem), hcs.2⟩

theorem RestOfLine.append (h : RestOfLine (passed ++ rest) tail) (hp : '\n' ∉ passed) :
    RestOfLine rest tail := by
  induction passed with
  | nil => exact h
  | cons c passed ih =>
    rw [List.mem_cons, not_or] at hp
    exact ih (h.cons (Ne.symm hp.1)) hp.2

/-- After a line feed nothing is left of a line. -/
theorem RestOfLine.feed (h : RestOfLine ('\n' :: cs) tail) : cs = [] := by
  rcases h with ⟨hcs, -⟩ | ⟨l, hl, hcs⟩
  · simp at hcs
  · cases l with
    | nil => simpa using hcs
    | cons d l =>
      rw [List.cons_append, List.cons.injEq] at hcs
      exact absurd (hcs.1 ▸ List.mem_cons_self) hl

/-- The line does not change while no line feed is passed over. -/
theorem count_passed {before : List Char} (hp : '\n' ∉ passed) :
    (passed.reverse ++ before).count '\n' = before.count '\n' := by
  rw [List.count_append, List.count_reverse, List.count_eq_zero.mpr hp, Nat.zero_add]

theorem head?_append (h : RestOfLine cs tail) : (cs ++ tail).head? = cs.head? := by
  cases cs with
  | nil => rw [h.nil, List.append_nil]
  | cons c cs => rfl

/-- Characters other than line feeds are taken from the line only. -/
theorem span_append {p : Char → Bool} (hp : p '\n' = false) (h : RestOfLine cs tail) :
    (cs ++ tail).takeWhile p = cs.takeWhile p ∧
      (cs ++ tail).dropWhile p = cs.dropWhile p ++ tail := by
  induction cs with
  | nil => simp [h.nil]
  | cons c cs ih =>
    by_cases hc : p c = true
    · have hfeed : c ≠ '\n' := by
        rintro rfl
        simp [hp] at hc
      obtain ⟨htake, hdrop⟩ := ih (h.cons hfeed)
      simp [hc, htake, hdrop]
    · simp [hc]

theorem feed_not_mem_takeWhile {p : Char → Bool} (hp : p '\n' = false) (cs : List Char) :
    '\n' ∉ cs.takeWhile p := by
  intro hmem
  have h := List.mem_takeWhile_imp hmem
  rw [hp] at h
  exact nomatch h

end RestOfLine

/-! ## Blanks and comments -/

section Blanks

variable {before cs tail : List Char}

theorem passBlanks_comment (h : RestOfLine cs tail) :
    Cursor.passBlanks false true before (cs ++ tail) =
      { before := (cs.takeWhile (· ≠ '\n')).reverse ++ before,
        after := cs.dropWhile (· ≠ '\n') ++ tail } := by
  induction cs generalizing before with
  | nil =>
    rw [h.nil]
    rfl
  | cons c cs ih =>
    rw [List.cons_append, Cursor.passBlanks]
    by_cases hc : c = '\n'
    · subst hc
      rw [if_neg (by decide), if_neg (by decide)]
      simp
    · rw [if_pos (by simp [hc]), ih (h.cons hc)]
      simp [hc]

/-- Passing over the blanks and the comment of a line. -/
theorem passBlanks_line (before : List Char) (h : RestOfLine cs tail) :
    ∃ passed, cs = passed ++ skipBlanks cs ∧ '\n' ∉ passed ∧
      Cursor.passBlanks false false before (cs ++ tail) =
        { before := passed.reverse ++ before, after := skipBlanks cs ++ tail } := by
  induction cs generalizing before with
  | nil =>
    refine ⟨[], rfl, List.not_mem_nil, ?_⟩
    rw [h.nil]
    rfl
  | cons c cs ih =>
    rw [List.cons_append, Cursor.passBlanks, skipBlanks]
    by_cases hsemi : c = ';'
    · -- a comment goes on to the line feed
      subst hsemi
      have hcs := h.cons (c := ';') (by decide)
      refine ⟨';' :: cs.takeWhile (· ≠ '\n'), ?_, ?_, ?_⟩
      · rw [if_pos rfl, List.cons_append, List.takeWhile_append_dropWhile]
      · rw [List.mem_cons, not_or]
        exact ⟨by decide, feed_not_mem_takeWhile (by decide) cs⟩
      · rw [if_pos (by decide), if_pos rfl, passBlanks_comment hcs]
        simp
    · by_cases hblank : c ≠ '\n' ∧ isBlank c = true
      · obtain ⟨passed, hsplit, hfeed, hpass⟩ := ih (c :: before) (h.cons hblank.1)
        refine ⟨c :: passed, ?_, ?_, ?_⟩
        · rw [if_neg hsemi, if_pos hblank, List.cons_append, ← hsplit]
        · rw [List.mem_cons, not_or]
          exact ⟨Ne.symm hblank.1, hfeed⟩
        · rw [if_neg (by simp [hsemi]), if_pos (by simp [hblank]), if_neg hsemi, if_pos hblank,
            hpass]
          simp
      · -- neither a comment nor a blank: both stop here
        refine ⟨[], ?_, List.not_mem_nil, ?_⟩
        · rw [if_neg hsemi, if_neg hblank, List.nil_append]
        · have hstop : ¬(isBlank c && (false || c != '\n')) = true := by
            simp only [Bool.false_or, Bool.and_eq_true, bne_iff_ne, ne_eq]
            exact fun hc => hblank ⟨hc.2, hc.1⟩
          rw [if_neg (by simp [hsemi]), if_neg hstop, if_neg hsemi, if_neg hblank]
          rfl

/-- Behind a comment there is only the line feed. -/
theorem dropWhile_eq_cons {c : Char} {rest : List Char}
    (h : cs.dropWhile (· ≠ '\n') = c :: rest) : c = '\n' := by
  have hhead := List.head?_dropWhile_not (· ≠ '\n') cs
  rw [h] at hhead
  simpa using hhead

/-- What stands behind the blanks and the comment of a line is neither. -/
theorem skipBlanks_stops {c : Char} {rest : List Char} (h : skipBlanks cs = c :: rest)
    (hc : c ≠ '\n') : c ≠ ';' ∧ isBlank c = false := by
  induction cs with
  | nil => exact nomatch h
  | cons d cs ih =>
    rw [skipBlanks] at h
    split at h
    · exact absurd (dropWhile_eq_cons h) hc
    · split at h
      · exact ih h
      · next hsemi hblank =>
        cases h
        refine ⟨hsemi, ?_⟩
        by_contra hne
        exact hblank ⟨hc, by simpa using hne⟩

/-- What is left behind the blanks and the comment of a line without an item. -/
theorem skipBlanks_of_readLineEnd (h : readLineEnd cs = .ok ()) :
    skipBlanks cs = [] ∨ ∃ rest, skipBlanks cs = '\n' :: rest := by
  rw [readLineEnd] at h
  cases hskip : skipBlanks cs with
  | nil => exact Or.inl rfl
  | cons c rest =>
    by_cases hc : c = '\n'
    · exact Or.inr ⟨rest, hc ▸ rfl⟩
    · simp [hskip, hc] at h

theorem skipBlanks_skipBlanks (cs : List Char) : skipBlanks (skipBlanks cs) = skipBlanks cs := by
  cases h : skipBlanks cs with
  | nil => rfl
  | cons c rest =>
    by_cases hc : c = '\n'
    · subst hc
      simp [skipBlanks]
    · obtain ⟨hsemi, hblank⟩ := skipBlanks_stops h hc
      simp [skipBlanks, hsemi, hblank]

end Blanks

/-! ## Readers of a text and of a line -/

/-- What a reader of a text gives where the reader of a line gives `x`: it fails in the line of the
cursor, or has passed over the characters that are taken from the line. -/
def Agrees {α : Type} (before cs tail : List Char) (x : Except ParseCause (α × List Char))
    (y : Except Fault (α × Cursor)) : Prop :=
  match x with
  | .error cause => y = .error (.parse (before.count '\n' + 1) cause)
  | .ok (a, rest) => ∃ passed, cs = passed ++ rest ∧ '\n' ∉ passed ∧
      y = .ok (a, { before := passed.reverse ++ before, after := rest ++ tail })

/-- In front of what is left of a line the reader of a text does what the reader of a line does. -/
def Reads {α : Type} (r : TextReader α) (f : LineReader α) : Prop :=
  ∀ before cs tail, RestOfLine cs tail →
    Agrees before cs tail (f cs) (r { before := before, after := cs ++ tail })

section Reads

variable {α β : Type} {r : TextReader α} {f f' : LineReader α}

theorem Reads.congr (h : Reads r f) (hf : ∀ cs, f' cs = f cs) : Reads r f' := by
  rw [show f' = f from funext hf]
  exact h

theorem reads_pure (a : α) : Reads (pure a) fun cs => .ok (a, cs) :=
  fun _ _ _ _ => ⟨[], rfl, List.not_mem_nil, rfl⟩

theorem reads_fail (cause : ParseCause) :
    Reads (TextReader.fail cause : TextReader α) fun _ => .error cause :=
  fun _ _ _ _ => rfl

theorem reads_bind {k : α → TextReader β} {g : α → LineReader β} (hr : Reads r f)
    (hk : ∀ a, Reads (k a) (g a)) : Reads (r >>= k) fun cs => f cs >>= fun p => g p.1 p.2 := by
  intro before cs tail hcs
  have h := hr before cs tail hcs
  show Agrees before cs tail ((f cs).bind fun p => g p.1 p.2)
    ((r { before := before, after := cs ++ tail }).bind fun p => k p.1 p.2)
  cases hf : f cs with
  | error cause =>
    rw [hf] at h
    rw [show r _ = _ from h]
    rfl
  | ok p =>
    obtain ⟨a, rest⟩ := p
    rw [hf] at h
    obtain ⟨passed, rfl, hpassed, h⟩ := h
    rw [h]
    -- no line feed has been passed, so the second reader is still in the line
    have hrest := hk a (passed.reverse ++ before) rest tail (hcs.append hpassed)
    show Agrees before (passed ++ rest) tail (g a rest) (k a _)
    cases hg : g a rest with
    | error cause =>
      rw [hg] at hrest
      show _ = Except.error (Fault.parse (before.count '\n' + 1) cause)
      rw [← count_passed hpassed]
      exact hrest
    | ok q =>
      obtain ⟨b, rest'⟩ := q
      rw [hg] at hrest
      obtain ⟨passed', rfl, hpassed', hrest⟩ := hrest
      refine ⟨passed ++ passed', (List.append_assoc ..).symm, ?_, ?_⟩
      · rw [List.mem_append, not_or]
        exact ⟨hpassed, hpassed'⟩
      · rw [List.reverse_append, List.append_assoc passed'.reverse]
        exact hrest

theorem reads_blanks : Reads TextReader.blanks fun cs => .ok ((), skipBlanks cs) := by
  intro before cs tail hcs
  obtain ⟨passed, hsplit, hpassed, hpass⟩ := passBlanks_line before hcs
  refine ⟨passed, hsplit, hpassed, ?_⟩
  rw [← hpass]
  rfl

theorem reads_peek : Reads TextReader.peek fun cs => .ok (cs.head?, cs) := by
  intro before cs tail hcs
  refine ⟨[], rfl, List.not_mem_nil, ?_⟩
  rw [← head?_append hcs]
  rfl

theorem reads_takeWhile {p : Char → Bool} (hp : p '\n' = false) :
    Reads (TextReader.takeWhile p) fun cs => .ok (cs.takeWhile p, cs.dropWhile p) := by
  intro before cs tail hcs
  obtain ⟨htake, hdrop⟩ := span_append hp hcs
  refine ⟨cs.takeWhile p, List.takeWhile_append_dropWhile.symm, feed_not_mem_takeWhile hp cs, ?_⟩
  rw [← hdrop, ← htake]
  rfl

theorem reads_mark {m : Char} (hm : m ≠ '\n') :
    Reads (TextReader.mark m) fun cs => (fun rest => ((), rest)) <$> readMark m cs := by
  -- passing over the mark itself
  have hadvance : Reads (TextReader.peek >>= fun found =>
      if found = some m then modify Cursor.advance else TextReader.fail (.expected m found))
      fun cs => if cs.head? = some m then .ok ((), cs.tail)
        else .error (.expected m cs.head?) := by
    intro before cs tail hcs
    cases cs with
    | nil =>
      rw [hcs.nil]
      rfl
    | cons c rest =>
      by_cases hc : c = m
      · subst hc
        simp only [List.head?_cons, if_pos]
        refine ⟨[c], rfl, by simpa using Ne.symm hm, ?_⟩
        show (if some c = some c then modify Cursor.advance else TextReader.fail _ : TextReader Unit)
          { before := before, after := c :: rest ++ tail } = _
        rw [if_pos rfl]
        rfl
      · simp only [List.head?_cons, Option.some.injEq, if_neg hc]
        show (if some c = some m then modify Cursor.advance else TextReader.fail _ : TextReader Unit)
          { before := before, after := c :: rest ++ tail } = _
        rw [if_neg fun h => hc (Option.some.inj h)]
        rfl
  refine (reads_bind reads_blanks fun _ => hadvance).congr fun cs => ?_
  simp only [readMark, bind, Except.bind]
  cases skipBlanks cs with
  | nil => rfl
  | cons c rest =>
    simp only [List.head?_cons, Option.some.injEq]
    split <;> rfl

theorem reads_lineEnd :
    Reads TextReader.lineEnd fun cs => (fun _ => ((), skipBlanks cs)) <$> readLineEnd cs := by
  refine (reads_bind reads_blanks fun _ => reads_bind reads_peek fun found =>
    (show Reads _ fun cs => found.elim (.ok ((), cs)) fun c =>
      if c = '\n' then .ok ((), cs) else .error (.trailing c) from ?_)).congr fun cs => ?_
  · cases found with
    | none => exact reads_pure ()
    | some c =>
      simp only [Option.elim_some]
      split
      · exact reads_pure ()
      · exact reads_fail _
  · simp only [readLineEnd, bind, Except.bind]
    cases skipBlanks cs with
    | nil => rfl
    | cons c rest =>
      simp only [List.head?_cons, Option.elim_some]
      split <;> rfl

theorem isNameChar_feed : isNameChar '\n' = false := by decide

theorem isAlphabetic_feed : isAlphabetic '\n' = false :=
  (Bool.or_eq_false_iff.mp (Bool.or_eq_false_iff.mp isNameChar_feed).1).1

theorem isNumberChar_feed : isNumberChar '\n' = false := by decide

theorem reads_name : Reads TextReader.name readName := by
  refine (reads_bind reads_blanks fun _ => reads_bind reads_peek fun found =>
    (show Reads _ fun cs => found.elim (.error (.notName none)) fun c =>
      if isAlphabetic c then .ok (cs.takeWhile isNameChar, cs.dropWhile isNameChar)
      else .error (.notName (some c)) from ?_)).congr fun cs => ?_
  · cases found with
    | none => exact reads_fail _
    | some c =>
      simp only [Option.elim_some]
      split
      · exact reads_takeWhile isNameChar_feed
      · exact reads_fail _
  · simp only [readName, bind, Except.bind]
    cases skipBlanks cs <;> rfl

theorem reads_number : Reads TextReader.number readNumber := by
  refine (reads_bind reads_blanks fun _ => reads_bind (reads_takeWhile isNumberChar_feed)
    fun token => (show Reads _ fun cs => if token.isEmpty then .error .noNumber
      else (numberValue? token).elim (.error (.badNumber (String.ofList token))) fun v =>
        .ok (v, cs) from ?_)).congr fun cs => ?_
  · split
    · exact reads_fail _
    · cases numberValue? token with
      | none => exact reads_fail _
      | some v => exact reads_pure v
  · simp only [readNumber, bind, Except.bind]
    cases numberValue? ((skipBlanks cs).takeWhile isNumberChar) <;> rfl

theorem reads_indexed (mark : String) (limit : Nat) :
    Reads (TextReader.indexed mark limit) (readIndexed mark limit) := by
  refine (reads_bind reads_name fun token => (show Reads _ fun cs =>
    ((mark.toList.isPrefixOf? token).bind (Text.unsignedBelow? 10 limit)).elim
      (.error (.badIndexed mark (String.ofList token)))
      fun v => .ok (UInt32.ofNat v, cs) from ?_)).congr fun cs => ?_
  · cases (mark.toList.isPrefixOf? token).bind (Text.unsignedBelow? 10 limit) with
    | none => exact reads_fail _
    | some v => exact reads_pure _
  · rw [readIndexed]
    refine congrArg (readName cs >>= ·) (funext fun p => ?_)
    obtain ⟨token, rest⟩ := p
    cases hmark : mark.toList.isPrefixOf? token with
    | none => simp only [hmark]; rfl
    | some ds =>
      simp only [hmark, Option.bind_some]
      cases Text.unsignedBelow? 10 limit ds <;> rfl

theorem reads_operand (kind : OperandKind) : Reads (TextReader.operand kind) (readOperand kind) := by
  cases kind with
  | gpr =>
    refine (reads_bind reads_name fun token => (show Reads _ fun cs =>
      (Slot.ofRegName? token).elim (.error (.unknownRegister (String.ofList token))) fun v =>
        .ok (v.toUInt32, cs) from ?_)).congr fun cs => ?_
    · cases Slot.ofRegName? token with
      | none => exact reads_fail _
      | some v => exact reads_pure _
    · rw [readOperand]
      refine congrArg (readName cs >>= ·) (funext fun p => ?_)
      simp only
      cases Slot.ofRegName? p.1 <;> rfl
  | fpr | vec4 => exact reads_indexed "f" 256
  | vfpuCtrl => exact reads_indexed "vc" 16
  | imm =>
    refine (reads_bind reads_number fun v => (show Reads _ fun cs =>
      if 255 < v then .error (.wideImmediate v) else .ok (v, cs) from ?_)).congr fun cs => ?_
    · split
      · exact reads_fail _
      · exact reads_pure v
    · rw [readOperand]
      refine congrArg (readNumber cs >>= ·) (funext fun p => ?_)
      simp only
      split <;> rfl
  | const => exact reads_number
  | unused => exact reads_pure 0

theorem reads_separator (isFirst : Bool) : Reads (TextReader.separator isFirst)
    fun cs => (fun rest => ((), rest)) <$> if isFirst then .ok cs else readMark ',' cs := by
  cases isFirst with
  | true => exact reads_pure ()
  | false => exact reads_mark (by decide)

theorem reads_operands (isFirst : Bool) (kinds : List OperandKind) :
    Reads (TextReader.operands isFirst kinds) (readOperands isFirst kinds) := by
  induction kinds generalizing isFirst with
  | nil => exact reads_pure []
  | cons kind kinds ih =>
    by_cases hkind : kind = .unused
    · subst hkind
      exact reads_bind (ih isFirst) fun vs => reads_pure (0 :: vs)
    · rw [TextReader.operands_cons hkind]
      refine (reads_bind (reads_separator isFirst) fun _ => reads_bind (reads_operand kind) fun v =>
        reads_bind (ih false) fun vs => reads_pure (v :: vs)).congr fun cs => ?_
      cases kind with
      | unused => exact absurd rfl hkind
      | _ =>
        cases isFirst with
        | true => rfl
        | false =>
          simp only [readOperands, Bool.false_eq_true, if_false]
          cases readMark ',' cs <;> rfl

theorem reads_header : Reads TextReader.header fun cs => do
    let p ← readNumber cs
    let rest ← readMark ':' p.2
    return (.header p.1, rest) := by
  refine (reads_bind reads_number fun addr => reads_bind (reads_mark (by decide)) fun _ =>
    reads_pure (Item.header addr)).congr fun cs => ?_
  refine congrArg (readNumber cs >>= ·) (funext fun p => ?_)
  cases readMark ':' p.2 <;> rfl

theorem reads_instruction (op : Opcode) : Reads (TextReader.instruction op) fun cs => do
    let p ← readOperands true [op.signature.dest, op.signature.src1, op.signature.src2] cs
    match p.1 with
    | [d, s1, s2] => return (.inst op d s1 s2, p.2)
    | _ => return (.inst op 0 0 0, p.2) := by
  refine (reads_bind (reads_operands true _) fun vs => (show Reads _ fun cs => match vs with
      | [d, s1, s2] => .ok (.inst op d s1 s2, cs)
      | _ => .ok (.inst op 0 0 0, cs) from ?_)).congr fun cs => rfl
  rcases vs with _ | ⟨d, _ | ⟨s1, _ | ⟨s2, _ | ⟨v, vs⟩⟩⟩⟩ <;> exact reads_pure _

/-- **Items are read from their line alone.** -/
theorem reads_item : Reads TextReader.item readItem := by
  refine (reads_bind reads_name fun token => (show Reads _ fun cs =>
    if token = "block".toList then do
      let p ← readNumber cs
      let rest ← readMark ':' p.2
      return (.header p.1, rest)
    else (Opcode.ofName? (String.ofList token)).elim
      (.error (.unknownOpcode (String.ofList token))) fun op => do
        let p ← readOperands true [op.signature.dest, op.signature.src1, op.signature.src2] cs
        match p.1 with
        | [d, s1, s2] => return (.inst op d s1 s2, p.2)
        | _ => return (.inst op 0 0 0, p.2) from ?_)).congr fun cs => ?_
  · split
    · exact reads_header
    · cases Opcode.ofName? (String.ofList token) with
      | none => exact reads_fail _
      | some op => exact reads_instruction op
  · rw [readItem]
    refine congrArg (readName cs >>= ·) (funext fun p => ?_)
    simp only
    split
    · rfl
    · cases Opcode.ofName? (String.ofList p.1) <;> rfl

theorem readItem_skipBlanks (cs : List Char) : readItem (skipBlanks cs) = readItem cs := by
  have hname : readName (skipBlanks cs) = readName cs := by
    unfold readName
    rw [skipBlanks_skipBlanks]
  rw [readItem, readItem, hname]

end Reads

/-! ## From one line to the next -/

section Lines

variable {before cs tail : List Char} {blocks : Module}

/-- Passing over line feeds too: the cursor stops where it does without unless it is in front of a
line feed, and then goes on behind it. -/
theorem passBlanks_feeds {inComment : Bool} {stop : Cursor}
    (h : Cursor.passBlanks false inComment before cs = stop) :
    Cursor.passBlanks true inComment before cs =
      if stop.after.head? = some '\n' then
        Cursor.passBlanks true false ('\n' :: stop.before) stop.after.tail
      else stop := by
  induction cs generalizing inComment before with
  | nil =>
    subst h
    rfl
  | cons c cs ih =>
    rw [Cursor.passBlanks] at h ⊢
    by_cases hcomment : ((inComment && c != '\n') || c == ';') = true
    · rw [if_pos hcomment] at h ⊢
      exact ih h
    · rw [if_neg hcomment] at h ⊢
      by_cases hfeed : c = '\n'
      · -- here the cursor that stops at line feeds stops
        subst hfeed
        rw [if_neg (by decide)] at h
        subst h
        rw [if_pos (by decide)]
        exact (if_pos rfl).symm
      · by_cases hblank : isBlank c = true
        · rw [if_pos (by simp [hblank, hfeed])] at h
          rw [if_pos (by simp [hblank])]
          exact ih h
        · rw [if_neg (by simp [hblank])] at h
          subst h
          rw [if_neg (by simp [hblank]), if_neg (by simpa using hfeed)]

/-- A line without an item is passed over as a whole. -/
theorem skipLines_blank (h : RestOfLine cs tail) (hblank : readLineEnd cs = .ok ()) :
    Cursor.skipLines { before := before, after := cs ++ tail } =
      Cursor.skipLines { before := cs.reverse ++ before, after := tail } := by
  obtain ⟨passed, hsplit, hpassed, hpass⟩ := passBlanks_line before h
  have hrest : RestOfLine (skipBlanks cs) tail := RestOfLine.append (hsplit ▸ h) hpassed
  unfold Cursor.skipLines
  rw [passBlanks_feeds hpass]
  rcases skipBlanks_of_readLineEnd hblank with hskip | ⟨rest, hskip⟩
  · rw [hskip] at hsplit hrest ⊢
    simp [hrest.nil, hsplit, Cursor.passBlanks]
  · rw [hskip] at hsplit hrest ⊢
    simp [hrest.feed ▸ hsplit, hrest.feed]

/-- In a line with an item the cursor stops in front of it. -/
theorem skipLines_item (before : List Char) (h : RestOfLine cs tail) (hitem : readLineEnd cs ≠ .ok ()) :
    ∃ passed, cs = passed ++ skipBlanks cs ∧ '\n' ∉ passed ∧ skipBlanks cs ≠ [] ∧
      Cursor.skipLines { before := before, after := cs ++ tail } =
        { before := passed.reverse ++ before, after := skipBlanks cs ++ tail } := by
  obtain ⟨passed, hsplit, hpassed, hpass⟩ := passBlanks_line before h
  unfold Cursor.skipLines
  rw [passBlanks_feeds hpass]
  rw [readLineEnd] at hitem
  cases hskip : skipBlanks cs with
  | nil =>
    rw [hskip] at hitem
    exact absurd rfl hitem
  | cons c rest =>
    have hc : c ≠ '\n' := by
      rintro rfl
      rw [hskip] at hitem
      exact hitem (if_pos rfl)
    refine ⟨passed, hskip ▸ hsplit, hpassed, List.cons_ne_nil _ _, ?_⟩
    rw [if_neg (by simpa using hc)]

theorem readItems_eq (blocks : Module) (c : Cursor) :
    readItems blocks c =
      if c.skipLines.after.isEmpty then .ok blocks
      else TextReader.entry blocks c.skipLines >>= fun p => readItems p.1 p.2 := by
  rw [readItems]
  split
  · rfl
  · cases TextReader.entry blocks c.skipLines <;> rfl

theorem readItems_blank (h : RestOfLine cs tail) (hblank : readLineEnd cs = .ok ()) :
    readItems blocks { before := before, after := cs ++ tail } =
      readItems blocks { before := cs.reverse ++ before, after := tail } := by
  rw [readItems_eq, skipLines_blank h hblank, ← readItems_eq]

theorem readLine_blank (line : Nat) (hblank : readLineEnd cs = .ok ()) :
    readLine blocks line cs = .ok blocks := by
  rw [readLine]
  rcases skipBlanks_of_readLineEnd hblank with hskip | ⟨rest, hskip⟩
  · rw [hskip]
  · rw [hskip]
    exact if_pos rfl

theorem readLine_item (line : Nat) (hitem : readLineEnd cs ≠ .ok ()) :
    readLine blocks line cs = (do
      let (item, rest) ← atLine line (readItem cs)
      let blocks ← addItem blocks item
      atLine line (readLineEnd rest)
      return blocks) := by
  rw [readLineEnd] at hitem
  rw [readLine]
  cases hskip : skipBlanks cs with
  | nil =>
    rw [hskip] at hitem
    exact absurd rfl hitem
  | cons c rest =>
    rw [hskip] at hitem
    exact if_neg fun hc => hitem (if_pos hc)

theorem readLineEnd_skipBlanks (cs : List Char) : readLineEnd (skipBlanks cs) = readLineEnd cs := by
  rw [readLineEnd, readLineEnd, skipBlanks_skipBlanks]

theorem readLine_skipBlanks (line : Nat) (hitem : readLineEnd cs ≠ .ok ()) :
    readLine blocks line (skipBlanks cs) = readLine blocks line cs := by
  rw [readLine_item line hitem, readLine_item line (by rwa [readLineEnd_skipBlanks]),
    readItem_skipBlanks]

theorem entry_eq (blocks : Module) (c : Cursor) :
    TextReader.entry blocks c =
      (TextReader.item c).bind fun p => (addItem blocks p.1).bind fun blocks' =>
        (TextReader.lineEnd p.2).bind fun q => .ok (blocks', q.2) := by
  refine congrArg (TextReader.item c).bind (funext fun p => ?_)
  show ((liftM (addItem blocks p.1) : TextReader Module) p.2).bind (fun q =>
    (TextReader.lineEnd q.2).bind fun q' => .ok (q.1, q'.2)) = _
  cases addItem blocks p.1 <;> rfl

/-- An entry is read from its line alone, and what is left of the line is without an item. -/
theorem entry_line (blocks : Module) (before : List Char) (h : RestOfLine cs tail)
    (hitem : readLineEnd cs ≠ .ok ()) :
    match readLine blocks (before.count '\n' + 1) cs with
    | .error fault =>
      TextReader.entry blocks { before := before, after := cs ++ tail } = .error fault
    | .ok blocks' => ∃ passed rest, cs = passed ++ rest ∧ '\n' ∉ passed ∧
      readLineEnd rest = .ok () ∧
      TextReader.entry blocks { before := before, after := cs ++ tail } =
        .ok (blocks', { before := passed.reverse ++ before, after := rest ++ tail }) := by
  have hread := reads_item before cs tail h
  rw [readLine_item _ hitem, entry_eq]
  cases hi : readItem cs with
  | error cause =>
    rw [hi] at hread
    rw [show TextReader.item _ = _ from hread]
    rfl
  | ok p =>
    obtain ⟨item, rest⟩ := p
    rw [hi] at hread
    obtain ⟨passed, rfl, hpassed, hread⟩ := hread
    rw [hread]
    have hend := reads_lineEnd (passed.reverse ++ before) rest tail (h.append hpassed)
    simp only at hend
    cases hadd : addItem blocks item with
    | error fault => simp [atLine, Except.mapError, Except.bind, bind, hadd]
    | ok blocks' =>
      cases he : readLineEnd rest with
      | error cause =>
        rw [he] at hend
        have hfail : TextReader.lineEnd _ = _ := hend
        rw [count_passed hpassed] at hfail
        simp [atLine, Except.mapError, Except.bind, bind, hadd, he, hfail]
      | ok u =>
        -- the cursor is left in front of the line feed, and there the rest is blank as well
        rw [he] at hend
        obtain ⟨passed', hsplit, hpassed', hend⟩ := hend
        have hsplit' : passed ++ rest = passed ++ passed' ++ skipBlanks rest := by
          rw [List.append_assoc, ← hsplit]
        have hfeed : '\n' ∉ passed ++ passed' := by
          rw [List.mem_append, not_or]
          exact ⟨hpassed, hpassed'⟩
        have hblank : readLineEnd (skipBlanks rest) = .ok () := by rw [readLineEnd_skipBlanks, he]
        simp only [atLine, Except.mapError, Except.bind, bind, pure, Except.pure, hadd, he, hend]
        exact ⟨passed ++ passed', skipBlanks rest, hsplit', hfeed, hblank, by simp⟩

/-- **Reading on from the start of a line is reading the line and then the lines after it.** -/
theorem readItems_line (h : RestOfLine cs tail) :
    readItems blocks { before := before, after := cs ++ tail } =
      readLine blocks (before.count '\n' + 1) cs >>= fun blocks' =>
        readItems blocks' { before := cs.reverse ++ before, after := tail } := by
  by_cases hblank : readLineEnd cs = .ok ()
  · rw [readItems_blank h hblank, readLine_blank _ hblank]
    rfl
  · obtain ⟨passed, hsplit, hpassed, hne, hskip⟩ := skipLines_item before h hblank
    have hrest : RestOfLine (skipBlanks cs) tail := RestOfLine.append (hsplit ▸ h) hpassed
    have hentry := entry_line blocks (passed.reverse ++ before) hrest
      (by rwa [readLineEnd_skipBlanks])
    rw [count_passed hpassed, readLine_skipBlanks _ hblank] at hentry
    rw [readItems_eq, hskip, if_neg (by simp [hne])]
    cases hline : readLine blocks (before.count '\n' + 1) cs with
    | error fault =>
      rw [hline] at hentry
      rw [show TextReader.entry _ _ = _ from hentry]
      rfl
    | ok blocks' =>
      rw [hline] at hentry
      obtain ⟨passed', rest, hsplit', hpassed', hend, hentry⟩ := hentry
      rw [hentry]
      -- what the entry leaves of its line is passed over like a line without an item
      show readItems blocks' _ = readItems blocks' _
      rw [readItems_blank (hsplit' ▸ hrest |>.append hpassed') hend, hsplit, hsplit']
      simp

/-! ## The lines of a text -/

/-- Lines that make up a text: a line feed ends each of them but the last, which is not empty and
may end with one. -/
inductive IsLines : List (List Char) → Prop
  | nil : IsLines []
  | last (l : List Char) : l ≠ [] → '\n' ∉ l → IsLines [l]
  | cons (l : List Char) (rest : List (List Char)) :
    '\n' ∉ l → IsLines rest → IsLines ((l ++ ['\n']) :: rest)

theorem isLines_terminatedStep (c : Char) {lines : List (List Char)} (h : IsLines lines) :
    IsLines (Text.terminatedStep c lines) := by
  by_cases hc : c = '\n'
  · subst hc
    have hstep : Text.terminatedStep '\n' lines = ([] ++ ['\n']) :: lines := by
      cases lines <;> rfl
    rw [hstep]
    exact .cons [] lines List.not_mem_nil h
  · have hmem : ∀ l : List Char, '\n' ∉ l → '\n' ∉ c :: l := fun l hl => by
      simp [Ne.symm hc, hl]
    cases h with
    | nil => exact .last [c] (by simp) (hmem [] List.not_mem_nil)
    | last l hne hl =>
      rw [Text.terminatedStep, if_neg hc]
      exact .last (c :: l) (by simp) (hmem l hl)
    | cons l rest hl hrest =>
      rw [Text.terminatedStep, if_neg hc]
      exact .cons (c :: l) rest (hmem l hl) hrest

theorem isLines_terminatedLines (cs : List Char) : IsLines (Text.terminatedLines cs) := by
  induction cs with
  | nil => exact .nil
  | cons c cs ih => exact isLines_terminatedStep c ih

theorem flatten_terminatedLines (cs : List Char) : (Text.terminatedLines cs).flatten = cs := by
  induction cs with
  | nil => rfl
  | cons c cs ih =>
    have hstep : ∀ lines, (Text.terminatedStep c lines).flatten = c :: lines.flatten := by
      rintro (_ | ⟨l, rest⟩)
      · rfl
      · rw [Text.terminatedStep]
        split <;> rfl
    show (Text.terminatedStep c (Text.terminatedLines cs)).flatten = _
    rw [hstep, ih]

theorem readItems_lines {lines : List (List Char)} (h : IsLines lines) (blocks : Module)
    (before : List Char) :
    readItems blocks { before := before, after := lines.flatten } =
      readLines blocks (before.count '\n' + 1) lines := by
  induction h generalizing blocks before with
  | nil =>
    rw [readItems_eq]
    rfl
  | last l _ hl =>
    rw [List.flatten_cons, List.flatten_nil, readItems_line (Or.inl ⟨hl, rfl⟩)]
    refine congrArg (readLine blocks _ l >>= ·) (funext fun blocks' => ?_)
    rw [readItems_eq]
    rfl
  | cons l rest hl _ ih =>
    rw [List.flatten_cons, readItems_line (Or.inr ⟨l, hl, rfl⟩)]
    refine congrArg (readLine blocks _ (l ++ ['\n']) >>= ·) (funext fun blocks' => ?_)
    rw [ih, List.reverse_append, List.append_assoc]
    simp [List.count_eq_zero.mpr hl]

/-- **A listing is read line by line.** -/
theorem parseModule_eq_readLines (text : String) :
    parseModule text = List.reverse <$> readLines [] 1 (Text.terminatedLines text.toList) := by
  have h := readItems_lines (isLines_terminatedLines text.toList) [] []
  rw [flatten_terminatedLines] at h
  rw [parseModule, h]
  rfl

end Lines

end Dynarec.Listing
