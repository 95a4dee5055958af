/-
What the lines of a listing do.

A line that is read without a fault has one of three effects on the blocks read so far: a line of
blanks and a comment has none, a header opens an empty block, and an instruction is added to the
last block. These effects are described by `LineEffect`, in which the lines before and after do not
occur. A listing is read as the effects of its lines in order, and the first line that has no
effect gives the fault of the whole, with its own number.
-/
import Dynarec.Proofs.Listing.LineByLine
import Dynarec.Proofs.Listing.Tokens

set_option autoImplicit false
set_option maxRecDepth 8192

namespace Dynarec.Listing

open Dynarec.Text (isAlphabetic isBlank)

/-! ## The tokens of a line -/

/-- Blanks within a line. -/
def AreBlanks (gap : List Char) : Prop := ∀ c ∈ gap, c ≠ '\n' ∧ isBlank c = true

/-- Only blanks and a comment stand in a line. -/
def IsBlankLine (line : List Char) : Prop :=
  ∀ c ∈ line.takeWhile fun c => c ≠ ';' ∧ c ≠ '\n', isBlank c = true

/-- A run of characters that satisfy `p`, which ends where `rest` begins. -/
def IsRun (p : Char → Bool) (run rest : List Char) : Prop :=
  run ≠ [] ∧ (∀ c ∈ run, p c = true) ∧ ∀ c, rest.head? = some c → p c = false

section Tokens

variable {cs rest token : List Char} {c : Char}

theorem readLineEnd_iff : readLineEnd cs = .ok () ↔ IsBlankLine cs := by
  unfold readLineEnd IsBlankLine
  induction cs with
  | nil => simp [skipBlanks]
  | cons c cs ih =>
    by_cases hsemi : c = ';'
    · subst hsemi
      rw [skipBlanks, if_pos rfl]
      cases hdrop : cs.dropWhile (· ≠ '\n') with
      | nil => simp
      | cons d ds => simp [dropWhile_eq_cons hdrop]
    · by_cases hfeed : c = '\n'
      · subst hfeed
        simp [skipBlanks]
      · by_cases hblank : isBlank c = true
        · simpa [skipBlanks, hsemi, hfeed, hblank] using ih
        · simp [skipBlanks, hsemi, hfeed, hblank]

theorem skipBlanks_eq_cons_iff (hc : c ≠ '\n') :
    skipBlanks cs = c :: rest ↔
      (c ≠ ';' ∧ isBlank c = false) ∧ ∃ gap, AreBlanks gap ∧ cs = gap ++ c :: rest := by
  constructor
  · intro h
    refine ⟨skipBlanks_stops h hc, ?_⟩
    induction cs with
    | nil => exact nomatch h
    | cons d cs ih =>
      by_cases hsemi : d = ';'
      · rw [skipBlanks, if_pos hsemi] at h
        exact absurd (dropWhile_eq_cons h) hc
      · by_cases hblank : d ≠ '\n' ∧ isBlank d = true
        · rw [skipBlanks, if_neg hsemi, if_pos hblank] at h
          obtain ⟨gap, hgap, rfl⟩ := ih h
          exact ⟨d :: gap, List.forall_mem_cons.mpr ⟨hblank, hgap⟩, rfl⟩
        · rw [skipBlanks, if_neg hsemi, if_neg hblank] at h
          exact ⟨[], List.forall_mem_nil _, h⟩
  · -- no blank starts a comment, so the gap is passed over one character after the other
    rintro ⟨⟨hsemi, hblank⟩, gap, hgap, rfl⟩
    induction gap with
    | nil => simp [skipBlanks, hsemi, hblank]
    | cons d gap ih =>
      obtain ⟨hd, hgap⟩ := List.forall_mem_cons.mp hgap
      have hne : d ≠ ';' := by
        rintro rfl
        exact absurd hd.2 (by decide)
      rw [List.cons_append, skipBlanks, if_neg hne, if_pos hd]
      exact ih hgap

theorem span_run {p : Char → Bool} :
    token ≠ [] ∧ cs.takeWhile p = token ∧ cs.dropWhile p = rest ↔
      IsRun p token rest ∧ cs = token ++ rest := by
  constructor
  · rintro ⟨hne, rfl, rfl⟩
    refine ⟨⟨hne, fun c hc => List.mem_takeWhile_imp hc, fun c hc => ?_⟩,
      List.takeWhile_append_dropWhile.symm⟩
    have hnot := List.head?_dropWhile_not p cs
    rw [hc] at hnot
    exact hnot
  · rintro ⟨⟨hne, hrun, hend⟩, rfl⟩
    rw [List.takeWhile_append_of_pos hrun, List.dropWhile_append_of_pos hrun]
    cases rest with
    | nil => simp [hne]
    | cons c rest => simp [hne, hend c rfl]

theorem readMark_iff {m : Char} (hm : m ≠ '\n' ∧ m ≠ ';' ∧ isBlank m = false) :
    readMark m cs = .ok rest ↔ ∃ gap, AreBlanks gap ∧ cs = gap ++ m :: rest := by
  have hskip : readMark m cs = .ok rest ↔ skipBlanks cs = m :: rest := by
    unfold readMark
    cases skipBlanks cs with
    | nil => simp
    | cons c ds =>
      by_cases hc : c = m
      · simp [hc]
      · simp [hc]
  rw [hskip, skipBlanks_eq_cons_iff hm.1]
  simp [hm]

/-- A character is in at most one of two tables whose ranges do not meet. -/
theorem has_eq_false {ranges ranges' : Text.Ranges}
    (hapart : ∀ r ∈ ranges, ∀ r' ∈ ranges', r.2 < r'.1 ∨ r'.2 < r.1)
    (hc : ranges.has c = true) : ranges'.has c = false := by
  rw [← Bool.not_eq_true]
  intro hc'
  simp only [Text.Ranges.has, List.any_eq_true, Bool.and_eq_true, decide_eq_true_eq] at hc hc'
  obtain ⟨r, hr, hlo, hhi⟩ := hc
  obtain ⟨r', hr', hlo', hhi'⟩ := hc'
  have := hapart r hr r' hr'
  omega

/-- No alphabetic character is passed over as a blank or a comment. -/
theorem not_skipped_of_isAlphabetic (hc : isAlphabetic c = true) :
    c ≠ '\n' ∧ c ≠ ';' ∧ isBlank c = false := by
  -- the tables of alphabetic characters and of blanks have no character in common
  refine ⟨?_, ?_, has_eq_false (by decide) hc⟩
  · rintro rfl
    rw [isAlphabetic_feed] at hc
    cases hc
  · rintro rfl
    exact absurd hc (by decide)

/-- No character of a number is passed over as a blank or a comment. -/
theorem not_skipped_of_isNumberChar (hc : isNumberChar c = true) :
    c ≠ '\n' ∧ c ≠ ';' ∧ isBlank c = false := by
  simp only [isNumberChar, Bool.or_eq_true, beq_iff_eq] at hc
  rcases hc with ((hc | rfl) | rfl) | rfl
  · have htoken : isTokenChar c = true := by simp [isTokenChar, hc]
    obtain ⟨hsemi, hblank, hfeed⟩ := not_skipped_of_token htoken
    exact ⟨hfeed, hsemi, hblank⟩
  all_goals decide

/-- A token behind blanks, whose first character is not passed over. -/
theorem skipBlanks_eq_append_iff
    (hhead : ∀ c, token.head? = some c → c ≠ '\n' ∧ c ≠ ';' ∧ isBlank c = false) (hne : token ≠ []) :
    skipBlanks cs = token ++ rest ↔ ∃ gap, AreBlanks gap ∧ cs = gap ++ token ++ rest := by
  cases token with
  | nil => exact absurd rfl hne
  | cons c token =>
    have hc := hhead c rfl
    rw [List.cons_append, skipBlanks_eq_cons_iff hc.1]
    simp [hc]

theorem readNumber_iff {v : Word} :
    readNumber cs = .ok (v, rest) ↔
      ∃ token, (numberValue? token = some v ∧ IsRun isNumberChar token rest) ∧
        ∃ gap, AreBlanks gap ∧ cs = gap ++ token ++ rest := by
  have hread : readNumber cs = .ok (v, rest) ↔
      ∃ token, numberValue? token = some v ∧ token ≠ [] ∧
        (skipBlanks cs).takeWhile isNumberChar = token ∧
        (skipBlanks cs).dropWhile isNumberChar = rest := by
    simp only [readNumber, List.isEmpty_iff]
    split
    · next hnil => simp [hnil]
    · next hne =>
      cases hv : numberValue? ((skipBlanks cs).takeWhile isNumberChar) <;> simp [hne, hv]
  rw [hread]
  -- both sides name the token; what remains is that the cursor stops in front of it
  refine exists_congr fun token => ?_
  rw [span_run, and_assoc]
  refine and_congr_right fun _ => and_congr_right fun hrun => ?_
  refine skipBlanks_eq_append_iff (fun c hc => ?_) hrun.1
  exact not_skipped_of_isNumberChar (hrun.2.1 c (List.mem_of_head? hc))

theorem readName_iff :
    readName cs = .ok (token, rest) ↔
      ((∃ c, token.head? = some c ∧ isAlphabetic c = true) ∧ IsRun isNameChar token rest) ∧
        ∃ gap, AreBlanks gap ∧ cs = gap ++ token ++ rest := by
  have hread : readName cs = .ok (token, rest) ↔
      (∃ c, token.head? = some c ∧ isAlphabetic c = true) ∧ token ≠ [] ∧
        (skipBlanks cs).takeWhile isNameChar = token ∧
        (skipBlanks cs).dropWhile isNameChar = rest := by
    unfold readName
    cases hskip : skipBlanks cs with
    | nil =>
      simp only [List.takeWhile_nil, reduceCtorEq, false_iff]
      rintro ⟨-, hne, rfl, -⟩
      exact hne rfl
    | cons c ds =>
      by_cases halpha : isAlphabetic c = true
      · have hname : isNameChar c = true := by simp [isNameChar, halpha]
        simp only [if_pos halpha, List.takeWhile_cons_of_pos hname, Except.ok.injEq, Prod.mk.injEq]
        constructor
        · rintro ⟨rfl, rfl⟩
          exact ⟨⟨c, rfl, halpha⟩, List.cons_ne_nil _ _, rfl, rfl⟩
        · rintro ⟨-, -, htoken, hrest⟩
          exact ⟨htoken, hrest⟩
      · -- a run of name characters that starts with `c` starts with no alphabetic one
        simp only [if_neg halpha, reduceCtorEq, false_iff]
        rintro ⟨⟨d, hd, hdalpha⟩, -, rfl, -⟩
        rw [List.takeWhile_cons] at hd
        split at hd
        · cases hd
          exact halpha hdalpha
        · cases hd
  rw [hread, span_run, and_assoc]
  refine and_congr_right fun hhead => and_congr_right fun hrun => ?_
  obtain ⟨c, hc, halpha⟩ := hhead
  refine skipBlanks_eq_append_iff (fun d hd => ?_) hrun.1
  rw [hc] at hd
  cases hd
  exact not_skipped_of_isAlphabetic halpha

end Tokens

/-! ## The effect of a line -/

/-- A line that opens a block: the word `block`, a number and a colon, with blanks between them and
behind them blanks and a comment. -/
def IsHeaderLine (addr : Word) (line : List Char) : Prop :=
  ∃ gap₁ gap₂ gap₃ token rest, AreBlanks gap₁ ∧ AreBlanks gap₂ ∧ AreBlanks gap₃ ∧
    line = gap₁ ++ "block".toList ++ (gap₂ ++ token ++ (gap₃ ++ ':' :: rest)) ∧
    IsRun isNameChar "block".toList (gap₂ ++ token ++ (gap₃ ++ ':' :: rest)) ∧
    IsRun isNumberChar token (gap₃ ++ ':' :: rest) ∧ numberValue? token = some addr ∧
    IsBlankLine rest

/-- The blocks with one to add instructions to: one at address zero if there is none. -/
def opened (blocks : Module) : Module := if blocks.isEmpty then [(0, ({} : Block))] else blocks

/-- What a line does to the blocks in front of it. -/
inductive LineEffect (line : List Char) : Module → Module → Prop
  /-- Blanks and comments do nothing. -/
  | blank (blocks : Module) : IsBlankLine line → LineEffect line blocks blocks
  /-- A header opens an empty block. -/
  | header (blocks : Module) (addr : Word) :
    IsHeaderLine addr line → LineEffect line blocks (blocks ++ [(addr, ({} : Block))])
  /-- An instruction is added to the last block, and nothing else. -/
  | inst {blocks before : Module} {addr : Word} {b b' : Block} {op : Opcode} {d s1 s2 : Word}
    {rest : List Char} (i : Inst) :
    readItem line = .ok (.inst op d s1 s2, rest) → IsBlankLine rest →
    opened blocks = before ++ [(addr, b)] → pushItem b op d s1 s2 = .ok b' →
    i.op = op → b'.insts = b.insts ++ [i] →
    LineEffect line blocks (before ++ [(addr, b')])

section Effects

variable {line rest : List Char} {blocks blocks' : Module} {addr : Word} {k : Nat} {b b' : Block}

/-- An item starts with a name, and an item that is a header with the word `block`. -/
theorem readItem_name {item : Item} (h : readItem line = .ok (item, rest)) :
    ∃ token after, readName line = .ok (token, after) ∧
      ((∃ addr after', token = "block".toList ∧ readNumber after = .ok (addr, after') ∧
          readMark ':' after' = .ok rest ∧ item = .header addr) ∨
        ∃ op d s1 s2, item = .inst op d s1 s2) := by
  rw [readItem] at h
  cases hname : readName line with
  | error cause =>
    rw [hname] at h
    cases h
  | ok p =>
    obtain ⟨token, after⟩ := p
    rw [hname] at h
    refine ⟨token, after, rfl, ?_⟩
    simp only [bind, Except.bind] at h
    -- the word `block` is no opcode, and is tested first
    split at h
    · next hblock =>
      left
      cases hnumber : readNumber after with
      | error cause =>
        rw [hnumber] at h
        cases h
      | ok q =>
        obtain ⟨addr, after'⟩ := q
        simp only [hnumber] at h
        cases hmark : readMark ':' after' with
        | error cause =>
          rw [hmark] at h
          cases h
        | ok r =>
          rw [hmark] at h
          cases h
          exact ⟨addr, after', hblock, rfl, hmark, rfl⟩
    · right
      cases hop : Opcode.ofName? (String.ofList token) with
      | none =>
        rw [hop] at h
        cases h
      | some op =>
        simp only [hop] at h
        cases hvs : readOperands true [op.signature.dest, op.signature.src1, op.signature.src2]
            after with
        | error cause =>
          rw [hvs] at h
          cases h
        | ok q =>
          simp only [hvs] at h
          split at h
          · cases h
            exact ⟨op, _, _, _, rfl⟩
          · cases h
            exact ⟨op, 0, 0, 0, rfl⟩

theorem readItem_header_iff :
    (∃ rest, readItem line = .ok (.header addr, rest) ∧ IsBlankLine rest) ↔
      IsHeaderLine addr line := by
  constructor
  · rintro ⟨rest, hitem, hblank⟩
    obtain ⟨token, after, hname, ⟨_, after', rfl, hnumber, hmark, ⟨⟩⟩ | ⟨_, _, _, _, ⟨⟩⟩⟩ :=
      readItem_name hitem
    obtain ⟨⟨-, hblock⟩, gap₁, hgap₁, hline⟩ := readName_iff.mp hname
    obtain ⟨digits, ⟨hvalue, hrun⟩, gap₂, hgap₂, rfl⟩ := readNumber_iff.mp hnumber
    obtain ⟨gap₃, hgap₃, rfl⟩ := (readMark_iff (by decide)).mp hmark
    exact ⟨gap₁, gap₂, gap₃, digits, rest, hgap₁, hgap₂, hgap₃, hline, hblock, hrun, hvalue,
      hblank⟩
  · rintro ⟨gap₁, gap₂, gap₃, token, rest, hgap₁, hgap₂, hgap₃, hline, hblock, hrun, hvalue, hblank⟩
    have hname : readName line = .ok ("block".toList, gap₂ ++ token ++ (gap₃ ++ ':' :: rest)) :=
      readName_iff.mpr ⟨⟨⟨'b', rfl, by decide⟩, hblock⟩, gap₁, hgap₁, hline⟩
    have hnumber : readNumber (gap₂ ++ token ++ (gap₃ ++ ':' :: rest)) =
        .ok (addr, gap₃ ++ ':' :: rest) :=
      readNumber_iff.mpr ⟨token, ⟨hvalue, hrun⟩, gap₂, hgap₂, rfl⟩
    have hmark : readMark ':' (gap₃ ++ ':' :: rest) = .ok rest :=
      (readMark_iff (by decide)).mpr ⟨gap₃, hgap₃, rfl⟩
    refine ⟨rest, ?_, hblank⟩
    rw [readItem, hname]
    simp only [bind, Except.bind, if_true, hnumber, hmark]
    rfl

/-- Adding an instruction leaves the others and adds one. -/
theorem insts_pushItem {op : Opcode} {d s1 s2 : Word} (h : pushItem b op d s1 s2 = .ok b') :
    ∃ i : Inst, i.op = op ∧ b'.insts = b.insts ++ [i] := by
  have hwith : ∀ {i : Inst} {c : Word}, i.op = op → b.pushWith i (some c) = .ok b' →
      ∃ i : Inst, i.op = op ∧ b'.insts = b.insts ++ [i] := by
    intro i c hop hpush
    obtain ⟨f, index, pool, -, -, rfl⟩ := Block.pushWith_eq_ok hpush
    refine ⟨i.setField f index, ?_, rfl⟩
    cases f <;> exact hop
  rw [pushItem] at h
  split at h
  · cases h
    exact ⟨_, rfl, rfl⟩
  all_goals exact hwith rfl h

theorem addItem_inst_iff {op : Opcode} {d s1 s2 : Word} :
    addItem blocks.reverse (.inst op d s1 s2) = .ok blocks'.reverse ↔
      ∃ before addr b b', opened blocks = before ++ [(addr, b)] ∧
        pushItem b op d s1 s2 = .ok b' ∧ blocks' = before ++ [(addr, b')] := by
  -- the block that is filled is the last one, which the reader keeps at the head
  have hadd : addItem blocks.reverse (.inst op d s1 s2) =
      addItem (opened blocks).reverse (.inst op d s1 s2) := by
    cases blocks <;> rfl
  have hopened : opened blocks ≠ [] := by
    unfold opened
    split <;> simp_all
  obtain ⟨before, ⟨addr, b⟩, hlast⟩ := List.eq_nil_or_concat' (opened blocks) |>.resolve_left hopened
  rw [hadd, hlast, List.reverse_concat, addItem]
  simp only [bind_eq_ok, pure_eq_ok]
  constructor
  · rintro ⟨b', hpush, hblocks⟩
    rw [← List.reverse_concat, List.reverse_inj] at hblocks
    exact ⟨before, addr, b, b', rfl, hpush, hblocks.symm⟩
  · rintro ⟨before', addr', b₀, b', hlast', hpush, rfl⟩
    obtain ⟨rfl, hb⟩ := List.append_inj' hlast' rfl
    cases hb
    exact ⟨b', hpush, List.reverse_concat.symm⟩

/-- A line with an item is not blank. -/
theorem not_blank_of_readItem {item : Item} (h : readItem line = .ok (item, rest)) :
    readLineEnd line ≠ .ok () := by
  obtain ⟨token, after, hname, -⟩ := readItem_name h
  intro hend
  rw [readName] at hname
  rcases skipBlanks_of_readLineEnd hend with hskip | ⟨cs, hskip⟩
  · simp [hskip] at hname
  · simp [hskip, isAlphabetic_feed] at hname

theorem atLine_eq_ok {α : Type} {r : Except ParseCause α} {a : α} :
    atLine k r = .ok a ↔ r = .ok a := by
  cases r <;> simp [atLine, Except.mapError]

theorem readLine_item_iff (hline : readLineEnd line ≠ .ok ()) :
    readLine blocks k line = .ok blocks' ↔
      ∃ item rest, readItem line = .ok (item, rest) ∧ IsBlankLine rest ∧
        addItem blocks item = .ok blocks' := by
  rw [readLine_item k hline]
  simp only [bind_eq_ok, atLine_eq_ok, pure_eq_ok]
  constructor
  · rintro ⟨⟨item, rest⟩, hitem, blocks', hadd, _, hend, rfl⟩
    exact ⟨item, rest, hitem, readLineEnd_iff.mp hend, hadd⟩
  · rintro ⟨item, rest, hitem, hend, hadd⟩
    exact ⟨(item, rest), hitem, blocks', hadd, (), readLineEnd_iff.mpr hend, rfl⟩

/-- **A line is read without a fault exactly when it has an effect,** and that is what it does. -/
theorem readLine_eq_ok_iff :
    readLine blocks.reverse k line = .ok blocks'.reverse ↔ LineEffect line blocks blocks' := by
  by_cases hblank : readLineEnd line = .ok ()
  · rw [readLine_blank k hblank, Except.ok.injEq, List.reverse_inj]
    constructor
    · rintro rfl
      exact .blank blocks (readLineEnd_iff.mp hblank)
    · intro heffect
      cases heffect with
      | blank => rfl
      | header addr hheader =>
        obtain ⟨rest, hitem, -⟩ := readItem_header_iff.mpr hheader
        exact absurd hblank (not_blank_of_readItem hitem)
      | inst i hitem => exact absurd hblank (not_blank_of_readItem hitem)
  · rw [readLine_item_iff hblank]
    constructor
    · rintro ⟨item, rest, hitem, hend, hadd⟩
      cases item with
      | header addr =>
        have hblocks : blocks' = blocks ++ [(addr, ({} : Block))] := by
          rw [← List.reverse_inj, List.reverse_concat, Except.ok.inj hadd]
        rw [hblocks]
        exact .header blocks addr (readItem_header_iff.mp ⟨rest, hitem, hend⟩)
      | inst op d s1 s2 =>
        -- the instruction that is added is the last one of the last block
        obtain ⟨before, addr, b, b', hopened, hpush, rfl⟩ := addItem_inst_iff.mp hadd
        obtain ⟨i, hop, hinsts⟩ := insts_pushItem hpush
        exact .inst i hitem hend hopened hpush hop hinsts
    · intro heffect
      cases heffect with
      | blank hline => exact absurd (readLineEnd_iff.mpr hline) hblank
      | header addr hheader =>
        obtain ⟨rest, hitem, hend⟩ := readItem_header_iff.mpr hheader
        refine ⟨.header addr, rest, hitem, hend, ?_⟩
        rw [List.reverse_concat]
        rfl
      | inst i hitem hend hopened hpush _ _ =>
        exact ⟨_, _, hitem, hend, addItem_inst_iff.mpr ⟨_, _, _, _, hopened, hpush, rfl⟩⟩

theorem pushWith_eq_error {i : Inst} {f : Field} {c : Word} {fault : Fault}
    (hf : i.op.constField? = some f) (h : b.pushWith i (some c) = .error fault) :
    fault = .poolFull c := by
  have hset : ∀ index, i.setConstantIndex index = .ok (i.setField f index) := fun index => by
    rw [Inst.setConstantIndex, hf]
  rw [Block.pushWith, Block.intern, Pool.intern] at h
  cases hpos : b.pool.values.idxOf? c with
  | some index =>
    simp [hpos, hset, bind, Except.bind, pure, Except.pure] at h
  | none =>
    simp only [hpos] at h
    split at h
    · cases h
      rfl
    · simp [hset, bind, Except.bind, pure, Except.pure] at h

/-- An item is refused only by a full pool. -/
theorem addItem_eq_error {item : Item} {fault : Fault} (h : addItem blocks item = .error fault) :
    ∃ c, fault = .poolFull c := by
  cases item with
  | header addr => exact nomatch h
  | inst op d s1 s2 =>
    have hpush : ∀ b : Block, pushItem b op d s1 s2 = .error fault → ∃ c, fault = .poolFull c := by
      intro b hb
      rw [pushItem] at hb
      split at hb
      · exact nomatch hb
      all_goals
        rename_i hf
        exact ⟨_, pushWith_eq_error hf hb⟩
    cases blocks with
    | nil =>
      cases hb : pushItem {} op d s1 s2 with
      | error fault' =>
        rw [addItem, hb] at h
        cases h
        exact hpush {} hb
      | ok b =>
        rw [addItem, hb] at h
        exact nomatch h
    | cons p rest =>
      obtain ⟨addr, b⟩ := p
      cases hb : pushItem b op d s1 s2 with
      | error fault' =>
        rw [addItem, hb] at h
        cases h
        exact hpush b hb
      | ok b' =>
        rw [addItem, hb] at h
        exact nomatch h

/-- **A line's fault is about its text, and then has the number of the line, or about a full
pool.** -/
theorem readLine_eq_error {fault : Fault} (h : readLine blocks k line = .error fault) :
    (∃ cause, fault = .parse k cause) ∨ ∃ c, fault = .poolFull c := by
  by_cases hblank : readLineEnd line = .ok ()
  · rw [readLine_blank k hblank] at h
    cases h
  · rw [readLine_item k hblank] at h
    cases hitem : readItem line with
    | error cause =>
      rw [hitem] at h
      cases h
      exact Or.inl ⟨cause, rfl⟩
    | ok p =>
      obtain ⟨item, rest⟩ := p
      rw [hitem] at h
      cases hadd : addItem blocks item with
      | error fault' =>
        simp only [atLine, Except.mapError, bind, Except.bind, hadd] at h
        cases h
        exact Or.inr (addItem_eq_error hadd)
      | ok blocks' =>
        simp only [atLine, Except.mapError, bind, Except.bind, hadd] at h
        cases hend : readLineEnd rest with
        | error cause =>
          rw [hend] at h
          cases h
          exact Or.inl ⟨cause, rfl⟩
        | ok u =>
          rw [hend] at h
          cases h

end Effects

/-! ## The effects of all lines -/

/-- The effects of lines in order. -/
inductive LinesEffect : List (List Char) → Module → Module → Prop
  | nil (blocks : Module) : LinesEffect [] blocks blocks
  | cons {line : List Char} {rest : List (List Char)} {blocks blocks₁ blocks₂ : Module} :
    LineEffect line blocks blocks₁ → LinesEffect rest blocks₁ blocks₂ →
    LinesEffect (line :: rest) blocks blocks₂

section Run

variable {lines : List (List Char)} {blocks blocks' : Module} {k : Nat}

theorem readLines_eq_ok_iff :
    readLines blocks.reverse k lines = .ok blocks'.reverse ↔ LinesEffect lines blocks blocks' := by
  induction lines generalizing blocks k with
  | nil =>
    rw [readLines, Except.ok.injEq, List.reverse_inj]
    constructor
    · rintro rfl
      exact .nil blocks
    · rintro ⟨⟩
      rfl
  | cons line lines ih =>
    rw [readLines, bind_eq_ok]
    constructor
    · rintro ⟨mid, hline, hlines⟩
      rw [← List.reverse_reverse mid] at hline hlines
      exact .cons (readLine_eq_ok_iff.mp hline) (ih.mp hlines)
    · rintro (_ | ⟨hline, hlines⟩)
      exact ⟨_, readLine_eq_ok_iff.mpr hline, ih.mpr hlines⟩

/-- Reading lines fails in the first line that fails. -/
theorem readLines_eq_error_iff (lines : List (List Char)) (blocks : Module) (k : Nat)
    (fault : Fault) :
    readLines blocks.reverse k lines = .error fault ↔
      ∃ before line after mid, lines = before ++ line :: after ∧ LinesEffect before blocks mid ∧
        readLine mid.reverse (k + before.length) line = .error fault := by
  induction lines generalizing blocks k with
  | nil => simp [readLines]
  | cons line lines ih =>
    rw [readLines]
    cases hline : readLine blocks.reverse k line with
    | error fault' =>
      constructor
      · rintro ⟨⟩
        exact ⟨[], line, lines, blocks, rfl, .nil blocks, hline⟩
      · rintro ⟨_ | ⟨line', before⟩, _, after, mid, hsplit, hbefore, hfail⟩
        · cases hsplit
          cases hbefore
          rw [List.length_nil, Nat.add_zero, hline] at hfail
          exact hfail
        · -- the first line has no effect
          cases hsplit
          obtain _ | ⟨heffect, -⟩ := hbefore
          rw [readLine_eq_ok_iff.mpr heffect] at hline
          exact nomatch hline
    | ok mid =>
      rw [← List.reverse_reverse mid] at hline ⊢
      show readLines _ (k + 1) lines = _ ↔ _
      rw [ih]
      constructor
      · rintro ⟨before, line', after, mid', rfl, hbefore, hfail⟩
        refine ⟨line :: before, line', after, mid', rfl,
          .cons (readLine_eq_ok_iff.mp hline) hbefore, ?_⟩
        rwa [List.length_cons, Nat.add_comm before.length, ← Nat.add_assoc]
      · rintro ⟨_ | ⟨line₁, before⟩, line', after, mid', hsplit, hbefore, hfail⟩
        · cases hsplit
          cases hbefore
          rw [List.length_nil, Nat.add_zero, hline] at hfail
          exact nomatch hfail
        · cases hsplit
          obtain _ | ⟨heffect, hbefore⟩ := hbefore
          -- the effect of the first line is what the reader made of it
          have hmid := (readLine_eq_ok_iff (k := k)).mpr heffect
          rw [hline, Except.ok.injEq, List.reverse_inj] at hmid
          rw [hmid]
          refine ⟨before, line', after, mid', rfl, hbefore, ?_⟩
          rwa [Nat.add_assoc, Nat.add_comm 1]

/-- **A listing is read line by line, and a fault has the number of its line.** The lines make up
the text, each ended by its line feed. A listing is read exactly when its lines have effects one
after the other, each seen from the line alone, and the blocks are what these amount to. Otherwise
it has the fault of the first line that is not read after the lines before it; a fault about the
text of the line has the line's number. -/
theorem parseModule_lineByLine (text : String) :
    (IsLines (Text.terminatedLines text.toList) ∧
        (Text.terminatedLines text.toList).flatten = text.toList) ∧
      parseModule text = List.reverse <$> readLines [] 1 (Text.terminatedLines text.toList) ∧
      (∀ blocks blocks' k line,
        readLine blocks.reverse k line = .ok blocks'.reverse ↔ LineEffect line blocks blocks') ∧
      (∀ blocks, parseModule text = .ok blocks ↔
        LinesEffect (Text.terminatedLines text.toList) [] blocks) ∧
      (∀ fault, parseModule text = .error fault ↔
        ∃ before line after blocks,
          Text.terminatedLines text.toList = before ++ line :: after ∧
          LinesEffect before [] blocks ∧
          readLine blocks.reverse (before.length + 1) line = .error fault) ∧
      ∀ blocks k line n cause, readLine blocks k line = .error (.parse n cause) → n = k := by
  have hread := parseModule_eq_readLines text
  refine ⟨⟨isLines_terminatedLines _, flatten_terminatedLines _⟩, hread,
    fun _ _ _ _ => readLine_eq_ok_iff, fun blocks => ?_, fun fault => ?_, ?_⟩
  · rw [hread, ← readLines_eq_ok_iff (k := 1), List.reverse_nil]
    cases readLines [] 1 (Text.terminatedLines text.toList) with
    | error fault => simp [Functor.map, Except.map]
    | ok blocks' => simp [Functor.map, Except.map, List.reverse_eq_iff]
  · have herror := readLines_eq_error_iff (Text.terminatedLines text.toList) [] 1 fault
    simp only [Nat.add_comm 1, List.reverse_nil] at herror
    rw [hread, ← herror]
    cases readLines [] 1 (Text.terminatedLines text.toList) <;> simp [Functor.map, Except.map]
  · intro blocks k line n cause h
    rcases readLine_eq_error h with ⟨_, ⟨⟩⟩ | ⟨_, ⟨⟩⟩
    rfl

/-- The comma that the third line lacks is not taken from the fourth. -/
theorem parseModule_lineByLine_comma :
    let text := "; a block\nblock 8:\n  Add r4, r5 ; no third\n, r6\n"
    parseModule text = .error (.parse 3 (.expected ',' (some '\n'))) ∧
      ∃ before line after blocks,
        Text.terminatedLines text.toList = before ++ line :: after ∧
        LinesEffect before [] blocks ∧
        readLine blocks.reverse (before.length + 1) line =
          .error (.parse 3 (.expected ',' (some '\n'))) := by
  intro text
  obtain ⟨-, hread, -, -, herror, -⟩ := parseModule_lineByLine text
  have hfault : parseModule text = .error (.parse 3 (.expected ',' (some '\n'))) := by
    rw [hread]
    decide
  exact ⟨hfault, (herror _).mp hfault⟩

end Run

end Dynarec.Listing
