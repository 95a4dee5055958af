/-
Reading whole listings.

A listing is read with one cursor, a place between two characters of the text that only moves
forward. A reader passes over blanks and comments and then over what it reads. Within an item it
stops at a line feed; only between two items are line feeds passed over like other blanks. A fault
carries the number of the line that the cursor is in when the fault is noticed, which is one more
than the number of line feeds passed so far.

No reader moves the cursor back (`Forward`) and an item takes at least the first character of its
name, so reading ends.

This is `Parser`: `skip_whitespace`, `expect`, `expect_line_end`, `read_identifier`, `read_number`,
`read_indexed`, `read_operand` and `parse_inst`.
-/
import Dynarec.Listing.Reader

set_option autoImplicit false

namespace Dynarec.Listing

open Dynarec.Text (isAlphabetic isBlank)

/-! ## Places in a text -/

/-- A place in a text. -/
structure Cursor where
  /-- The characters before the place, the nearest one first. -/
  before : List Char := []
  /-- The characters after the place. -/
  after : List Char
  deriving DecidableEq, Repr

namespace Cursor

/-- The number of the line that a place is in. -/
def line (c : Cursor) : Nat := c.before.count '\n' + 1

/-- The place after the next character. -/
def advance : Cursor → Cursor
  | { before := before, after := c :: rest } => { before := c :: before, after := rest }
  | { before := before, after := [] } => { before := before, after := [] }

/-- The place after the characters that satisfy `p`. -/
def passWhile (p : Char → Bool) (c : Cursor) : Cursor :=
  { before := (c.after.takeWhile p).reverse ++ c.before, after := c.after.dropWhile p }

/-- The place after blanks and comments, for a place that is inside a comment or not. Line feeds
end a comment; they are passed over if `feeds` is set. -/
def passBlanks (feeds inComment : Bool) (before : List Char) : List Char → Cursor
  | [] => { before := before, after := [] }
  | c :: cs =>
    if (inComment && c != '\n') || c == ';' then passBlanks feeds true (c :: before) cs
    else if isBlank c && (feeds || c != '\n') then passBlanks feeds false (c :: before) cs
    else { before := before, after := c :: cs }

/-- The place after blanks and comments of the same line. -/
def skipBlanks (c : Cursor) : Cursor := passBlanks false false c.before c.after

/-- The place after blanks, comments and line feeds. -/
def skipLines (c : Cursor) : Cursor := passBlanks true false c.before c.after

end Cursor

/-! ## Readers -/

/-- A reader of part of a text. -/
abbrev TextReader := StateT Cursor (Except Fault)

namespace TextReader

/-- Fail in the line that the cursor is in. -/
def fail {α : Type} (cause : ParseCause) : TextReader α := do
  throw (.parse (← get).line cause)

/-- Pass over blanks and comments of the line. -/
def blanks : TextReader Unit := modify Cursor.skipBlanks

/-- The characters that satisfy `p`. -/
def takeWhile (p : Char → Bool) : TextReader (List Char) := do
  let c ← get
  set (c.passWhile p)
  return c.after.takeWhile p

/-- The next character, unless the text ends here. -/
def peek : TextReader (Option Char) := do return (← get).after.head?

/-- A certain mark, after blanks. -/
def mark (m : Char) : TextReader Unit := do
  blanks
  let found ← peek
  if found = some m then modify Cursor.advance else fail (.expected m found)

/-- Only blanks and a comment remain of the line. -/
def lineEnd : TextReader Unit := do
  blanks
  match ← peek with
  | none => return ()
  | some c => if c = '\n' then return () else fail (.trailing c)

/-- A name, after blanks. -/
def name : TextReader (List Char) := do
  blanks
  match ← peek with
  | none => fail (.notName none)
  | some c => if isAlphabetic c then takeWhile isNameChar else fail (.notName (some c))

/-- A number, after blanks. -/
def number : TextReader Word := do
  blanks
  let token ← takeWhile isNumberChar
  if token.isEmpty then fail .noNumber
  else
    match numberValue? token with
    | some v => return v
    | none => fail (.badNumber (String.ofList token))

/-- A register written as a mark and a number below `limit`. -/
def indexed (mark : String) (limit : Nat) : TextReader Word := do
  let token ← name
  match (mark.toList.isPrefixOf? token).bind (Text.unsignedBelow? 10 limit) with
  | some v => return UInt32.ofNat v
  | none => fail (.badIndexed mark (String.ofList token))

/-- An operand of the given kind; a constant is given by its value. -/
def operand : OperandKind → TextReader Word
  | .gpr => do
    let token ← name
    match Slot.ofRegName? token with
    | some r => return r.toUInt32
    | none => fail (.unknownRegister (String.ofList token))
  | .fpr | .vec4 => indexed "f" 256
  | .vfpuCtrl => indexed "vc" 16
  | .imm => do
    let v ← number
    if 255 < v then fail (.wideImmediate v) else return v
  | .const => number
  | .unused => return 0

/-- The comma in front of every operand but the first. -/
def separator (isFirst : Bool) : TextReader Unit := if isFirst then pure () else mark ','

/-- The operands of the given kinds, separated by commas; an unused field reads nothing. -/
def operands (isFirst : Bool) : List OperandKind → TextReader (List Word)
  | [] => return []
  | .unused :: kinds => do
    let vs ← operands isFirst kinds
    return 0 :: vs
  | kind :: kinds => do
    separator isFirst
    let v ← operand kind
    let vs ← operands false kinds
    return v :: vs

/-- The address of a block header and the mark after it. -/
def header : TextReader Item := do
  let addr ← number
  mark ':'
  return .header addr

/-- The operands of an instruction. -/
def instruction (op : Opcode) : TextReader Item := do
  let s := op.signature
  match ← operands true [s.dest, s.src1, s.src2] with
  | [d, s1, s2] => return .inst op d s1 s2
  | _ => return .inst op 0 0 0

/-- An item. -/
def item : TextReader Item := do
  let token ← name
  if token = "block".toList then header
  else
    match Opcode.ofName? (String.ofList token) with
    | some op => instruction op
    | none => fail (.unknownOpcode (String.ofList token))

/-- The blocks after one more item, the newest block at the head. A full pool is noticed before
text after the item. -/
def entry (blocks : Module) : TextReader Module := do
  let blocks ← addItem blocks (← item)
  lineEnd
  return blocks

/-! ## Readers move forward -/

/-- Where the reader succeeds, the cursor has not moved back. -/
def Forward {α : Type} (r : TextReader α) : Prop :=
  ∀ c a c', r c = .ok (a, c') → c'.after.length ≤ c.after.length

section Forward

variable {α β : Type} {r : TextReader α}

theorem forward_pure (a : α) : Forward (pure a) := by
  intro c b c' h
  cases h
  exact Nat.le_refl _

theorem forward_fail (cause : ParseCause) : Forward (fail cause : TextReader α) :=
  fun _ _ _ h => nomatch h

theorem bind_eq_ok {f : α → TextReader β} {c c' : Cursor} {b : β}
    (h : (r >>= f) c = .ok (b, c')) : ∃ a c₁, r c = .ok (a, c₁) ∧ f a c₁ = .ok (b, c') := by
  have hbind : (r >>= f) c = (r c).bind fun p => f p.1 p.2 := rfl
  cases hc : r c with
  | error e =>
    rw [hbind, hc] at h
    exact nomatch h
  | ok p =>
    rw [hbind, hc] at h
    exact ⟨p.1, p.2, rfl, h⟩

theorem forward_bind {f : α → TextReader β} (hr : Forward r) (hf : ∀ a, Forward (f a)) :
    Forward (r >>= f) := by
  intro c b c' h
  obtain ⟨a, c₁, h₁, h₂⟩ := bind_eq_ok h
  exact Nat.le_trans (hf a c₁ b c' h₂) (hr c a c₁ h₁)

theorem forward_modify {f : Cursor → Cursor} (hf : ∀ c, (f c).after.length ≤ c.after.length) :
    Forward (modify f : TextReader Unit) := by
  intro c a c' h
  cases h
  exact hf c

theorem forward_lift (m : Except Fault α) : Forward (liftM m : TextReader α) := by
  intro c a c' h
  cases m with
  | error e => exact nomatch h
  | ok b =>
    cases h
    exact Nat.le_refl _

theorem forward_peek : Forward peek := by
  intro c a c' h
  cases h
  exact Nat.le_refl _

theorem length_passBlanks (feeds inComment : Bool) (before cs : List Char) :
    (Cursor.passBlanks feeds inComment before cs).after.length ≤ cs.length := by
  induction cs generalizing inComment before with
  | nil => exact Nat.le_refl _
  | cons c cs ih =>
    unfold Cursor.passBlanks
    split
    · exact Nat.le_succ_of_le (ih true (c :: before))
    · split
      · exact Nat.le_succ_of_le (ih false (c :: before))
      · exact Nat.le_refl _

theorem forward_blanks : Forward blanks :=
  forward_modify fun c => length_passBlanks false false c.before c.after

theorem forward_takeWhile (p : Char → Bool) : Forward (takeWhile p) := by
  intro c a c' h
  cases h
  exact (List.dropWhile_sublist p).length_le

theorem forward_mark (m : Char) : Forward (mark m) := by
  have hadvance : ∀ c : Cursor, c.advance.after.length ≤ c.after.length := by
    rintro ⟨before, _ | ⟨c, rest⟩⟩
    · exact Nat.le_refl _
    · exact Nat.le_succ _
  refine forward_bind forward_blanks fun _ => forward_bind forward_peek fun found => ?_
  split
  · exact forward_modify hadvance
  · exact forward_fail _

theorem forward_lineEnd : Forward lineEnd := by
  refine forward_bind forward_blanks fun _ => forward_bind forward_peek fun found => ?_
  split
  · exact forward_pure _
  · split
    · exact forward_pure _
    · exact forward_fail _

theorem forward_number : Forward number := by
  refine forward_bind forward_blanks fun _ => forward_bind (forward_takeWhile _) fun token => ?_
  split
  · exact forward_fail _
  · split
    · exact forward_pure _
    · exact forward_fail _

/-- A name takes a character: alphabetic characters are name characters. -/
theorem length_name {c c' : Cursor} {token : List Char} (h : name c = .ok (token, c')) :
    c'.after.length < c.after.length := by
  obtain ⟨_, c₁, h₁, h⟩ := bind_eq_ok h
  obtain ⟨found, c₂, h₂, h⟩ := bind_eq_ok h
  have hblanks := forward_blanks c _ c₁ h₁
  cases h₂
  obtain ⟨before, after⟩ := c₁
  cases after with
  | nil => exact nomatch h
  | cons d rest =>
    simp only [List.head?_cons] at h
    split at h
    · rename_i hd
      cases h
      have hname : isNameChar d = true := by simp [isNameChar, hd]
      have hdrop : (d :: rest).dropWhile isNameChar = rest.dropWhile isNameChar := by
        rw [List.dropWhile_cons, if_pos hname]
      show ((d :: rest).dropWhile isNameChar).length < c.after.length
      rw [hdrop]
      exact Nat.lt_of_le_of_lt (List.dropWhile_sublist _).length_le hblanks
    · exact nomatch h

theorem forward_name : Forward name := fun _ _ _ h => Nat.le_of_lt (length_name h)

theorem forward_indexed (mark : String) (limit : Nat) : Forward (indexed mark limit) := by
  refine forward_bind forward_name fun token => ?_
  split
  · exact forward_pure _
  · exact forward_fail _

theorem forward_operand (kind : OperandKind) : Forward (operand kind) := by
  cases kind with
  | gpr =>
    refine forward_bind forward_name fun token => ?_
    split
    · exact forward_pure _
    · exact forward_fail _
  | fpr | vec4 => exact forward_indexed "f" 256
  | vfpuCtrl => exact forward_indexed "vc" 16
  | imm =>
    refine forward_bind forward_number fun v => ?_
    split
    · exact forward_fail _
    · exact forward_pure _
  | const => exact forward_number
  | unused => exact forward_pure _

theorem operands_cons {kind : OperandKind} (hkind : kind ≠ .unused) (isFirst : Bool)
    (kinds : List OperandKind) :
    operands isFirst (kind :: kinds) = (do
      separator isFirst
      let v ← operand kind
      let vs ← operands false kinds
      return v :: vs) := by
  cases kind with
  | unused => exact absurd rfl hkind
  | _ => rfl

theorem forward_operands (isFirst : Bool) (kinds : List OperandKind) :
    Forward (operands isFirst kinds) := by
  induction kinds generalizing isFirst with
  | nil => exact forward_pure _
  | cons kind kinds ih =>
    by_cases hkind : kind = .unused
    · subst hkind
      exact forward_bind (ih isFirst) fun _ => forward_pure _
    · rw [operands_cons hkind]
      refine forward_bind ?_ fun _ => forward_bind (forward_operand kind) fun _ =>
        forward_bind (ih false) fun _ => forward_pure _
      unfold separator
      split
      · exact forward_pure _
      · exact forward_mark ','

theorem forward_header : Forward header :=
  forward_bind forward_number fun _ => forward_bind (forward_mark ':') fun _ => forward_pure _

theorem forward_instruction (op : Opcode) : Forward (instruction op) := by
  refine forward_bind (forward_operands true _) fun vs => ?_
  split <;> exact forward_pure _

/-- An item takes a character. -/
theorem length_item {c c' : Cursor} {i : Item} (h : item c = .ok (i, c')) :
    c'.after.length < c.after.length := by
  obtain ⟨token, c₁, h₁, h⟩ := bind_eq_ok h
  refine Nat.lt_of_le_of_lt ?_ (length_name h₁)
  split at h
  · exact forward_header c₁ i c' h
  · cases hop : Opcode.ofName? (String.ofList token) with
    | none =>
      rw [hop] at h
      exact nomatch h
    | some op =>
      rw [hop] at h
      exact forward_instruction op c₁ i c' h

theorem length_entry {c c' : Cursor} {blocks blocks' : Module}
    (h : entry blocks c = .ok (blocks', c')) : c'.after.length < c.after.length := by
  obtain ⟨i, c₁, h₁, h⟩ := bind_eq_ok h
  refine Nat.lt_of_le_of_lt ?_ (length_item h₁)
  exact forward_bind (forward_lift _) (fun _ => forward_bind forward_lineEnd fun _ =>
    forward_pure _) c₁ blocks' c' h

end Forward

end TextReader

/-! ## Listings -/

/-- The blocks after the items that follow a place, the newest block at the head. -/
def readItems (blocks : Module) (c : Cursor) : Except Fault Module :=
  if c.skipLines.after.isEmpty then .ok blocks
  else
    match _ : TextReader.entry blocks c.skipLines with
    | .error fault => .error fault
    | .ok (blocks, rest) => readItems blocks rest
termination_by c.after.length
decreasing_by
  rename_i hentry
  exact Nat.lt_of_lt_of_le (TextReader.length_entry hentry)
    (TextReader.length_passBlanks true false c.before c.after)

/-- The blocks of a listing. -/
def parseModule (text : String) : Except Fault Module :=
  List.reverse <$> readItems [] { after := text.toList }

/-- The block of a listing that holds at most one. -/
def parseBlock (text : String) : Except Fault Block := do
  match ← parseModule text with
  | [] => return {}
  | [(_, b)] => return b
  | blocks => throw (.parse 1 (.manyBlocks blocks.length))

end Dynarec.Listing
