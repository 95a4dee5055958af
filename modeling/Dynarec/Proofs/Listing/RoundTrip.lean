/-
A printed block is read back as its copy.

The argument goes from the inside out. The operands of an instruction are read back one after the
other, so its line is read as the item it was printed from. Adding that item to the block being
read is the same as taking the instruction over from the printed block, constant and all; and a
text of such lines is cut into exactly these lines. Reading the whole text therefore performs, line
by line, the steps of copying the block.
-/
import Dynarec.Proofs.Listing.Copies
import Dynarec.Proofs.Listing.LineByLine
import Dynarec.Proofs.Listing.Tokens

set_option autoImplicit false

namespace Dynarec.Listing

/-! ## The line of an instruction -/

/-- The operands of a line as they are printed: a blank before each and a comma between them. -/
def operandChars (isFirst : Bool) : List String → List Char
  | [] => []
  | t :: ts => (if isFirst then [] else [',']) ++ (' ' :: t.toList) ++ operandChars false ts

theorem toList_intercalate_cons (t : String) (ts : List String) :
    (", ".intercalate (t :: ts)).toList = t.toList ++ operandChars false ts := by
  induction ts generalizing t with
  | nil => simp [operandChars]
  | cons u us ih => simpa [operandChars, List.intercalate] using ih u

theorem toList_instText (constants : List Word) (i : Inst) :
    (instText constants i).toList =
      i.op.name.toList ++ operandChars true (i.operands.filterMap (operandText constants)) := by
  unfold instText
  cases i.operands.filterMap (operandText constants) with
  | nil => simp [operandChars]
  | cons t ts => simp [← toList_intercalate_cons, operandChars]

theorem endsToken_operandChars (ts : List String) (more : List Char) :
    EndsToken (operandChars false ts ++ '\n' :: more) := by
  cases ts with
  | nil => exact ⟨'\n', by simp, more, rfl⟩
  | cons t ts => exact ⟨',', by simp, _, rfl⟩

theorem readMark_comma (cs : List Char) : readMark ',' (',' :: cs) = .ok cs := by
  have hskip : skipBlanks (',' :: cs) = ',' :: cs := by
    have hblank : Text.isBlank ',' = false := by decide
    simp [skipBlanks, hblank]
  simp [readMark, hskip]

theorem readOperands_cons {kind : OperandKind} (hkind : kind ≠ .unused) {isFirst : Bool}
    {kinds : List OperandKind} {cs cs₁ cs₂ rest : List Char} {v : Word} {vs : List Word}
    (hmark : (if isFirst then .ok cs else readMark ',' cs) = .ok cs₁)
    (hread : readOperand kind cs₁ = .ok (v, cs₂))
    (hrest : readOperands false kinds cs₂ = .ok (vs, rest)) :
    readOperands isFirst (kind :: kinds) cs = .ok (v :: vs, rest) := by
  have hstep : readOperands isFirst (kind :: kinds) cs =
      ((if isFirst then .ok cs else readMark ',' cs) >>= fun cs => do
        let p ← readOperand kind cs
        let q ← readOperands false kinds p.2
        return (p.1 :: q.1, q.2)) := by
    cases kind with
    | unused => exact absurd rfl hkind
    | _ => cases isFirst <;> rfl
  rw [hstep, hmark]
  simp only [bind, Except.bind, hread, hrest]
  rfl

theorem exists_operandText (constants : List Word) {kind : OperandKind} (hkind : kind ≠ .unused)
    (v : UInt8) : ∃ t, operandText constants (kind, v) = some t := by
  cases kind with
  | unused => exact absurd rfl hkind
  | const => cases h : constants[v.toNat]? <;> simp [operandText, h]
  | _ => exact ⟨_, rfl⟩

/-- **The operands of a line are read back.** The induction is on the fields; an unused one has no
text and takes none. -/
theorem readOperands_text {constants : List Word} (isFirst : Bool) (ps : List (OperandKind × UInt8))
    (hp : ∀ p ∈ ps, IsPrintable constants p) (more : List Char) :
    readOperands isFirst (ps.map Prod.fst)
        (operandChars isFirst (ps.filterMap (operandText constants)) ++ '\n' :: more) =
      .ok (ps.map (operandWord constants), '\n' :: more) := by
  induction ps generalizing isFirst with
  | nil => rfl
  | cons p ps ih =>
    have hrest := fun first => ih first fun q hq => hp q (List.mem_cons_of_mem p hq)
    obtain ⟨kind, v⟩ := p
    by_cases hkind : kind = .unused
    · subst hkind
      simp only [List.map_cons, List.filterMap_cons, operandText, readOperands, hrest, bind,
        Except.bind]
      rfl
    · obtain ⟨t, ht⟩ := exists_operandText constants hkind v
      have hends := endsToken_operandChars (ps.filterMap (operandText constants)) more
      have hread := readOperand_text ht (hp _ List.mem_cons_self) hends
      rw [List.map_cons, List.filterMap_cons, ht]
      refine readOperands_cons hkind ?_ hread (hrest false)
      -- The comma in front of every operand but the first is taken off before the operand.
      cases isFirst with
      | true => simp [operandChars]
      | false => simp [operandChars, readMark_comma]

/-! ## Items -/

/-- An opcode is known by its name, which is a name and no header. -/
theorem ofName?_name (op : Opcode) :
    isName op.name.toList = true ∧ op.name.toList ≠ "block".toList ∧
      Opcode.ofName? op.name = some op := by
  have hall : ∀ op ∈ Opcode.all, isName op.name.toList = true ∧
      op.name.toList ≠ "block".toList ∧ Opcode.ofName? op.name = some op := by decide +kernel
  exact hall op (List.mem_of_getElem? (Opcode.ofCode?_code op))

/-- An instruction of which every operand can be printed. -/
def InstPrintable (constants : List Word) (i : Inst) : Prop :=
  ∀ p ∈ i.operands, IsPrintable constants p

/-- The item that the line of an instruction stands for. -/
def itemOf (constants : List Word) (i : Inst) : Item :=
  .inst i.op (operandWord constants (i.op.signature.dest, i.dest))
    (operandWord constants (i.op.signature.src1, i.src1))
    (operandWord constants (i.op.signature.src2, i.src2))

/-- **The line of an instruction is read as its item.** -/
theorem readItem_text {constants : List Word} {i : Inst} (hi : InstPrintable constants i) :
    readItem ((instText constants i).toList ++ ['\n']) = .ok (itemOf constants i, ['\n']) := by
  obtain ⟨hname, hblock, hop⟩ := ofName?_name i.op
  have hends : EndsToken
      (operandChars true (i.operands.filterMap (operandText constants)) ++ ['\n']) := by
    cases i.operands.filterMap (operandText constants) with
    | nil => exact ⟨'\n', by simp, [], rfl⟩
    | cons t ts => exact ⟨' ', by simp, _, rfl⟩
  have hoperands := readOperands_text true i.operands hi []
  have hkinds : i.operands.map Prod.fst =
      [i.op.signature.dest, i.op.signature.src1, i.op.signature.src2] := rfl
  rw [hkinds] at hoperands
  rw [toList_instText, List.append_assoc]
  simp only [readItem, readName_name hname hends, bind, Except.bind, hblock, if_false,
    String.ofList_toList, hop, hoperands]
  rfl

/-! ## Adding an item is taking an instruction over -/

/-- The kind of a field. -/
def kindOf (op : Opcode) : Field → OperandKind
  | .dest => op.signature.dest
  | .src1 => op.signature.src1
  | .src2 => op.signature.src2

theorem operands_eq (i : Inst) :
    i.operands = [Field.dest, .src1, .src2].map fun f => (kindOf i.op f, i.field f) := rfl

theorem mem_operands (i : Inst) (f : Field) : (kindOf i.op f, i.field f) ∈ i.operands := by
  rw [operands_eq]
  apply List.mem_map_of_mem
  cases f <;> decide

/-- An opcode has at most one constant. -/
theorem kindOf_eq_const_iff (op : Opcode) (f : Field) :
    kindOf op f = .const ↔ op.constField? = some f := by
  have hall : ∀ op ∈ Opcode.all, ∀ f ∈ [Field.dest, .src1, .src2],
      (kindOf op f = .const ↔ op.constField? = some f) := by decide
  apply hall op (List.mem_of_getElem? (Opcode.ofCode?_code op)) f
  cases f <;> decide

theorem toUInt8_operandWord {constants : List Word} {kind : OperandKind} {v : UInt8}
    (hp : IsPrintable constants (kind, v)) (hkind : kind ≠ .const) :
    (operandWord constants (kind, v)).toUInt8 = v := by
  cases kind with
  | const => exact absurd rfl hkind
  | unused => simpa [operandWord] using (hp.1 rfl).symm
  | _ => simp [operandWord]

/-- The instruction of an item, before its constant is interned. -/
def rawInst (constants : List Word) (i : Inst) : Inst :=
  { op := i.op
    dest := (operandWord constants (kindOf i.op .dest, i.dest)).toUInt8
    src1 := (operandWord constants (kindOf i.op .src1, i.src1)).toUInt8
    src2 := (operandWord constants (kindOf i.op .src2, i.src2)).toUInt8 }

/-- The fields of an item are those of its instruction, its constant apart. -/
theorem field_rawInst {constants : List Word} {i : Inst} (hi : InstPrintable constants i)
    {f : Field} (hf : i.op.constField? ≠ some f) :
    (rawInst constants i).field f = i.field f := by
  have hkind : kindOf i.op f ≠ .const := fun h => hf ((kindOf_eq_const_iff i.op f).1 h)
  have hword := toUInt8_operandWord (hi _ (mem_operands i f)) hkind
  cases f <;> exact hword

theorem ext_fields {i j : Inst} (hop : i.op = j.op) (h : ∀ f, i.field f = j.field f) : i = j := by
  obtain ⟨op, dest, src1, src2⟩ := i
  obtain rfl := hop
  have hd := h .dest
  have h1 := h .src1
  have h2 := h .src2
  simp only [Inst.field] at hd h1 h2
  rw [hd, h1, h2]

/-- What stands in the constant's field before it is interned does not matter. -/
theorem pushWith_rawInst {constants : List Word} {i : Inst} (hi : InstPrintable constants i)
    (b : Block) (c : Word) :
    b.pushWith (rawInst constants i) (some c) = b.pushWith i (some c) := by
  have hset : ∀ k, (rawInst constants i).setConstantIndex k = i.setConstantIndex k := by
    intro k
    unfold Inst.setConstantIndex
    rw [show (rawInst constants i).op = i.op from rfl]
    split
    · next f hf =>
      congr 1
      apply ext_fields
      · cases f <;> rfl
      · intro g
        by_cases hg : g = f
        · subst hg
          cases g <;> rfl
        · have hraw := field_rawInst hi (f := g) (by rw [hf]; exact fun h => hg (Option.some.inj h).symm)
          revert hraw
          cases f <;> cases g <;> simp [Inst.field, Inst.setField] at hg ⊢
    · rfl
  simp only [Block.pushWith, hset]

theorem operandWord_const {p : Pool} {i : Inst} {k : UInt8} (hk : i.constantIndex = some k) :
    operandWord p.values (.const, k) = p.constant i := by
  simp [operandWord, Pool.constant, hk, List.getD_eq_getElem?_getD]

/-- The position of a printable constant is one of the pool. -/
theorem constantIndex_lt {constants : List Word} {i : Inst} (hi : InstPrintable constants i)
    (k : UInt8) (hk : i.constantIndex = some k) : k.toNat < constants.length := by
  obtain ⟨f, hf, rfl⟩ := Option.map_eq_some_iff.1 hk
  exact (hi _ (mem_operands i f)).2.2 ((kindOf_eq_const_iff i.op f).2 hf)

/-- **Adding the item of an instruction** to a block is taking the instruction over. -/
theorem pushItem_itemOf {source : Block} {i : Inst} (hi : InstPrintable source.pool.values i)
    (b : Block) :
    pushItem b i.op (operandWord source.pool.values (i.op.signature.dest, i.dest))
      (operandWord source.pool.values (i.op.signature.src1, i.src1))
      (operandWord source.pool.values (i.op.signature.src2, i.src2)) = b.append source i := by
  have hrange := constantIndex_lt hi
  rw [Block.append, Block.constantOf_eq hrange]
  unfold pushItem
  cases hf : i.op.constField? with
  | none =>
    -- Without a constant the words that are read are the fields themselves.
    have hraw : rawInst source.pool.values i = i :=
      ext_fields rfl fun f => field_rawInst hi (by simp [hf])
    have hnone : i.constantIndex = none := by simp [Inst.constantIndex, hf]
    rw [hnone]
    exact congrArg (fun j => Except.ok (b.push j)) hraw
  | some f =>
    have hkind := (kindOf_eq_const_iff i.op f).2 hf
    have hindex : i.constantIndex = some (i.field f) := by simp [Inst.constantIndex, hf]
    have hword : operandWord source.pool.values (kindOf i.op f, i.field f) =
        source.pool.constant i := by
      rw [hkind, operandWord_const hindex]
    rw [hindex]
    -- The word that is read at the place of the constant is the constant.
    have hpush := pushWith_rawInst hi b (source.pool.constant i)
    rw [← hword] at hpush ⊢
    cases f <;> exact hpush

/-! ## Lines -/

/-- A line of a block being read. -/
theorem readLine_text {source : Block} {i : Inst} (hi : InstPrintable source.pool.values i)
    (blocks : Module) (line : Nat) :
    readLine blocks line ((instText source.pool.values i).toList ++ ['\n']) =
      addItem blocks (itemOf source.pool.values i) := by
  obtain ⟨hname, -, -⟩ := ofName?_name i.op
  have hitem := readItem_text hi
  have hend : readLineEnd ['\n'] = .ok () := by decide
  have hskip : ∃ c cs, skipBlanks ((instText source.pool.values i).toList ++ ['\n']) = c :: cs ∧
      c ≠ '\n' := by
    rw [toList_instText]
    cases hcs : i.op.name.toList with
    | nil => simp [hcs, isName] at hname
    | cons c cs =>
      rw [hcs] at hname
      have hc := token_of_isName hname List.mem_cons_self
      exact ⟨c, _, skipBlanks_token hc _, (not_skipped_of_token hc).2.2⟩
  obtain ⟨c, cs, hskip, hc⟩ := hskip
  simp only [readLine, hskip, hc, if_false, hitem, atLine, Except.mapError, bind, Except.bind,
    hend]
  cases addItem blocks (itemOf source.pool.values i) <;> rfl

/-- The lines of a block under construction are taken over one by one. -/
theorem readLines_text {source : Block} (addr : Word) (is : List Inst) (b : Block) (line : Nat)
    (hi : ∀ i ∈ is, InstPrintable source.pool.values i) :
    readLines [(addr, b)] line
        (is.map fun i => (instText source.pool.values i).toList ++ ['\n']) =
      (b.appendAll source is).map fun b' => [(addr, b')] := by
  induction is generalizing b line with
  | nil => rfl
  | cons i is ih =>
    have hstep := pushItem_itemOf (hi i List.mem_cons_self) b
    rw [List.map_cons, readLines, readLine_text (hi i List.mem_cons_self)]
    simp only [itemOf, addItem, hstep, Block.appendAll, List.foldlM_cons]
    cases b.append source i with
    | error fault => rfl
    | ok b₁ => exact ih b₁ (line + 1) fun j hj => hi j (List.mem_cons_of_mem i hj)

/-- A text of lines without line feeds inside is cut into these lines. -/
theorem terminatedLines_flatMap {α : Type} (f : α → List Char) (xs : List α)
    (h : ∀ x ∈ xs, '\n' ∉ f x) :
    Text.terminatedLines (xs.flatMap fun x => f x ++ ['\n']) = xs.map fun x => f x ++ ['\n'] := by
  have hline : ∀ (l rest : List Char), '\n' ∉ l →
      Text.terminatedLines (l ++ '\n' :: rest) = (l ++ ['\n']) :: Text.terminatedLines rest := by
    intro l rest hl
    induction l with
    | nil =>
      show Text.terminatedStep '\n' (Text.terminatedLines rest) = _
      cases Text.terminatedLines rest <;> simp [Text.terminatedStep]
    | cons c l ih =>
      rw [List.mem_cons, not_or] at hl
      show Text.terminatedStep c (Text.terminatedLines (l ++ '\n' :: rest)) = _
      rw [ih hl.2]
      simp [Text.terminatedStep, Ne.symm hl.1]
  induction xs with
  | nil => rfl
  | cons x xs ih =>
    rw [List.flatMap_cons, List.append_assoc, List.singleton_append,
      hline _ _ (h x List.mem_cons_self), ih fun y hy => h y (List.mem_cons_of_mem x hy),
      List.map_cons]

theorem not_mem_of_token {t : List Char} (h : ∀ c ∈ t, isTokenChar c = true) : '\n' ∉ t :=
  fun hmem => (not_skipped_of_token (h _ hmem)).2.2 rfl

/-- A printed operand is a token. -/
theorem token_of_operandText {constants : List Word} {kind : OperandKind} {v : UInt8} {t : String}
    (ht : operandText constants (kind, v) = some t) (hp : IsPrintable constants (kind, v)) :
    ∀ c ∈ t.toList, isTokenChar c = true := by
  have hmarked : ∀ mark : String, isName mark.toList = true →
      ∀ c ∈ (mark ++ toString v.toNat).toList, isTokenChar c = true := by
    intro mark hmark c hc
    apply token_of_isName (isName_mark hmark v.toNat)
    simpa using hc
  intro c hc
  cases kind with
  | unused => simp [operandText] at ht
  | gpr =>
    obtain rfl : Slot.regName v = t := Option.some.inj ht
    exact token_of_isName (ofRegName?_regName v).1 hc
  | fpr =>
    obtain rfl : "f" ++ toString v.toNat = t := Option.some.inj ht
    exact hmarked "f" (by decide) c hc
  | vec4 =>
    obtain rfl : "f" ++ toString v.toNat = t := Option.some.inj ht
    exact hmarked "f" (by decide) c hc
  | vfpuCtrl =>
    obtain rfl : "vc" ++ toString v.toNat = t := Option.some.inj ht
    exact hmarked "vc" (by decide) c hc
  | imm =>
    obtain rfl : toString v.toNat = t := Option.some.inj ht
    rw [Nat.toString_eq_ofList_toDigits, String.toList_ofList] at hc
    simp [isTokenChar, Char.isAlphanum, isDigit_of_mem_toDigits hc]
  | const =>
    have hget := List.getElem?_eq_getElem (hp.2.2 rfl : v.toNat < constants.length)
    simp only [operandText, hget, Option.some.injEq] at ht
    subst ht
    simp [isTokenChar, isAlphanum_of_mem_hex hc]

theorem not_mem_operandChars {ts : List String} (isFirst : Bool)
    (h : ∀ t ∈ ts, '\n' ∉ t.toList) : '\n' ∉ operandChars isFirst ts := by
  induction ts generalizing isFirst with
  | nil => simp [operandChars]
  | cons t ts ih =>
    have hrest := ih false fun u hu => h u (List.mem_cons_of_mem t hu)
    have ht := h t List.mem_cons_self
    cases isFirst <;> simp [operandChars, ht, hrest]

theorem not_mem_instText {constants : List Word} {i : Inst} (hi : InstPrintable constants i) :
    '\n' ∉ (instText constants i).toList := by
  rw [toList_instText, List.mem_append, not_or]
  refine ⟨not_mem_of_token fun c hc => token_of_isName (ofName?_name i.op).1 hc, ?_⟩
  apply not_mem_operandChars
  intro t ht
  obtain ⟨⟨kind, v⟩, hp, ht⟩ := List.mem_filterMap.1 ht
  exact not_mem_of_token (token_of_operandText ht (hi _ hp))

/-! ## Whole listings -/

/-- **Reading a printed block copies it.** -/
theorem parseBlock_eq_copy {b : Block} (hi : ∀ i ∈ b.insts, InstPrintable b.pool.values i) :
    parseBlock (blockText b) = b.copy := by
  have htext : (blockText b).toList =
      b.insts.flatMap fun i => (instText b.pool.values i).toList ++ ['\n'] := by
    simp [blockText, List.flatMap_map]
  have hlines := terminatedLines_flatMap (fun i => (instText b.pool.values i).toList) b.insts
    fun i h => not_mem_instText (hi i h)
  rw [parseBlock, parseModule_eq_readLines, htext, hlines, Block.copy]
  cases hinsts : b.insts with
  | nil => rfl
  | cons i is =>
    -- The first instruction opens the block at address zero; the others are added to it.
    rw [hinsts] at hi
    have hstep := pushItem_itemOf (hi i List.mem_cons_self) {}
    rw [List.map_cons, readLines, readLine_text (hi i List.mem_cons_self)]
    simp only [itemOf, addItem, hstep, Block.appendAll, List.foldlM_cons]
    cases Block.append {} b i with
    | error fault => rfl
    | ok b₁ =>
      have hrest := readLines_text 0 is b₁ 2 fun j hj => hi j (List.mem_cons_of_mem i hj)
      simp only [bind, Except.bind, pure, Except.pure, hrest, Block.appendAll]
      cases List.foldlM (fun out i => out.append b i) b₁ is <;> rfl

/-! ## What the copy holds -/

theorem operandWord_congr {kind : OperandKind} (hkind : kind ≠ .const) (cs ds : List Word)
    (v : UInt8) : operandWord cs (kind, v) = operandWord ds (kind, v) := by
  cases kind with
  | const => exact absurd rfl hkind
  | _ => rfl

theorem field_setField (i : Inst) (f g : Field) (v : UInt8) :
    (i.setField f v).field g = if g = f then v else i.field g := by
  cases f <;> cases g <;> rfl

/-- An instruction taken over stands for the same words as before. -/
theorem operandWord_reposition {b : Block} {i : Inst} (hmem : i ∈ b.insts)
    (hi : InstPrintable b.pool.values i) :
    (b.pool.reposition b.constants.eraseDups i).op = i.op ∧
      (b.pool.reposition b.constants.eraseDups i).operands.map
          (operandWord b.constants.eraseDups) =
        i.operands.map (operandWord b.pool.values) := by
  have hother : ∀ f, i.op.constField? ≠ some f → kindOf i.op f ≠ .const :=
    fun f hf h => hf ((kindOf_eq_const_iff i.op f).1 h)
  cases hf : i.op.constField? with
  | none =>
    have hsame : b.pool.reposition b.constants.eraseDups i = i := by simp [Pool.reposition, hf]
    rw [hsame, operands_eq, List.map_map, List.map_map]
    refine ⟨rfl, List.map_congr_left ?_⟩
    intro f _
    exact operandWord_congr (hother f (by simp [hf])) _ _ _
  | some f =>
    have hindex : i.constantIndex = some (i.field f) := by simp [Inst.constantIndex, hf]
    have hlt := constantIndex_lt hi _ hindex
    have hconst := Pool.constant?_eq hindex hlt
    have hused : b.pool.constant i ∈ b.constants.eraseDups :=
      List.mem_eraseDups.2 (List.mem_filterMap.2 ⟨i, hmem, hconst⟩)
    have hposition := List.idxOf_lt_length_of_mem hused
    have hfits : b.constants.eraseDups.length ≤ 256 := (Block.drawn_taken b.insts).size_le
    have hmoved : b.pool.reposition b.constants.eraseDups i =
        i.setField f (UInt8.ofNat (b.constants.eraseDups.idxOf (b.pool.constant i))) := by
      simp [Pool.reposition, hf, hconst]
    have hop : (i.setField f (UInt8.ofNat
        (b.constants.eraseDups.idxOf (b.pool.constant i)))).op = i.op := by cases f <;> rfl
    rw [hmoved, operands_eq, operands_eq i, List.map_map, List.map_map, hop]
    refine ⟨rfl, List.map_congr_left ?_⟩
    intro g _
    simp only [Function.comp_apply, field_setField]
    by_cases hg : g = f
    · -- The constant itself: found at its new position, as it was at the old one.
      subst hg
      have hkind := (kindOf_eq_const_iff i.op g).2 hf
      have hnat := toNat_ofNat_of_lt (lt_of_lt_of_le hposition hfits)
      rw [if_pos rfl, hkind, operandWord_const hindex, operandWord, hnat,
        List.getD_eq_getElem?_getD, List.getElem?_eq_getElem hposition, Option.getD_some,
        List.getElem_idxOf]
    · rw [if_neg hg]
      apply operandWord_congr
      apply hother
      rw [hf]
      exact fun h => hg (Option.some.inj h).symm

/-- **Printing and reading.** A block whose positions are in range, whose unused fields are zero and
whose control registers have one of the sixteen numbers is read back from its listing as its copy.
The copy has the same opcodes and operands, its pool holds their constants in order of first use,
and it is the block itself if the pool was of that form already. -/
theorem parseBlock_blockText {b : Block}
    (hb : ∀ i ∈ b.insts, ∀ p ∈ i.operands, (p.1 = .const → p.2.toNat < b.pool.size) ∧
      (p.1 = .unused → p.2 = 0) ∧ (p.1 = .vfpuCtrl → p.2.toNat < 16)) :
    parseBlock (blockText b) = b.copy ∧ ∃ b', b.copy = .ok b' ∧
      b'.insts.map (fun i => (i.op, i.operands.map (operandWord b'.pool.values))) =
        b.insts.map (fun i => (i.op, i.operands.map (operandWord b.pool.values))) ∧
      b'.pool.values = b.constants.eraseDups ∧
      (b.pool.values = b.constants.eraseDups → b' = b) := by
  have hi : ∀ i ∈ b.insts, InstPrintable b.pool.values i := by
    intro i hi p hp
    obtain ⟨hconst, hunused, hcontrol⟩ := hb i hi p hp
    exact ⟨hunused, hcontrol, hconst⟩
  have hrange : b.InRange := fun i h => constantIndex_lt (hi i h)
  refine ⟨parseBlock_eq_copy hi, b.taken b.insts, Block.copy_eq_ok hrange, ?_, rfl,
    Block.taken_eq_self⟩
  show (b.insts.map (b.pool.reposition b.constants.eraseDups)).map _ = _
  rw [List.map_map]
  apply List.map_congr_left
  intro i h
  obtain ⟨hop, hwords⟩ := operandWord_reposition h (hi i h)
  exact congrArg₂ Prod.mk hop hwords

/-- A block with every kind of operand whose pool is out of order. -/
theorem parseBlock_blockText_mixed :
    let b : Block := ⟨[⟨.setConst, 240, 2, 0⟩, ⟨.addConst, 31, 210, 0⟩, ⟨.setCtrlVFPU, 15, 2, 0⟩,
      ⟨.vec4Shuffle, 172, 0, 255⟩, ⟨.vec4Scale, 4, 8, 175⟩, ⟨.exitToConst, 0, 0, 0⟩],
      ⟨[0xffffffff, 7, 0x10]⟩⟩
    let b' : Block := ⟨[⟨.setConst, 240, 0, 0⟩, ⟨.addConst, 31, 210, 1⟩, ⟨.setCtrlVFPU, 15, 0, 0⟩,
      ⟨.vec4Shuffle, 172, 0, 255⟩, ⟨.vec4Scale, 4, 8, 175⟩, ⟨.exitToConst, 1, 0, 0⟩],
      ⟨[0x10, 0xffffffff]⟩⟩
    (∀ i ∈ b.insts, ∀ p ∈ i.operands, (p.1 = .const → p.2.toNat < b.pool.size) ∧
      (p.1 = .unused → p.2 = 0) ∧ (p.1 = .vfpuCtrl → p.2.toNat < 16)) ∧
    b.copy = .ok b' ∧ parseBlock (blockText b) = .ok b' ∧ parseBlock (blockText b') = .ok b' := by
  intro b b'
  have hb : ∀ i ∈ b.insts, ∀ p ∈ i.operands, (p.1 = .const → p.2.toNat < b.pool.size) ∧
      (p.1 = .unused → p.2 = 0) ∧ (p.1 = .vfpuCtrl → p.2.toNat < 16) := by decide
  have hb' : ∀ i ∈ b'.insts, ∀ p ∈ i.operands, (p.1 = .const → p.2.toNat < b'.pool.size) ∧
      (p.1 = .unused → p.2 = 0) ∧ (p.1 = .vfpuCtrl → p.2.toNat < 16) := by decide
  have hcopy : b.copy = .ok b' := by decide
  have hordered : b'.pool.values = b'.constants.eraseDups := by decide
  obtain ⟨hread, -⟩ := parseBlock_blockText hb
  obtain ⟨hread', c, hc, -, -, hsame⟩ := parseBlock_blockText hb'
  rw [hcopy] at hread
  rw [hc, hsame hordered] at hread'
  exact ⟨hb, hcopy, hread, hread'⟩

end Dynarec.Listing
