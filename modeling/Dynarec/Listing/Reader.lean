/-
Reading the lines of a listing.

After blanks, and a comment from `;` to the end of the line, a line of a listing is empty, or a
block header `block N:`, or an instruction. Nothing of an item lies on another line, so each line
can be read on its own against the blocks built so far, and a fault of a line carries that line's
number. The line keeps its line feed while it is read because a message may have to say that the
line ended where an operand was expected.

The readers below take the rest of a line and give back what they read and what remains.
-/
import Dynarec.Block
import Dynarec.Single.Decimal
import Dynarec.Text.Alphabetic
import Dynarec.Text.Blank
import Dynarec.Text.Lines
import Dynarec.Text.Numeric

set_option autoImplicit false

namespace Dynarec.Listing

open Dynarec.Text (isAlphabetic isBlank isNumeric)

/-- A reader of part of a line. -/
abbrev LineReader (α : Type) := List Char → Except ParseCause (α × List Char)

/-! ## Marks, names and numbers -/

/-- The rest of a line after blanks and a comment; the line feed stays. -/
def skipBlanks : List Char → List Char
  | [] => []
  | c :: cs =>
    if c = ';' then cs.dropWhile (· ≠ '\n')
    else if c ≠ '\n' ∧ isBlank c then skipBlanks cs
    else c :: cs

/-- A certain mark, after blanks. -/
def readMark (mark : Char) (cs : List Char) : Except ParseCause (List Char) :=
  match skipBlanks cs with
  | [] => .error (.expected mark none)
  | c :: rest => if c = mark then .ok rest else .error (.expected mark (some c))

/-- Only blanks and a comment remain. -/
def readLineEnd (cs : List Char) : Except ParseCause Unit :=
  match skipBlanks cs with
  | [] => .ok ()
  | c :: _ => if c = '\n' then .ok () else .error (.trailing c)

/-- A character that may continue a name. -/
def isNameChar (c : Char) : Bool := isAlphabetic c || isNumeric c || c == '_'

/-- A name: an alphabetic character and the name characters after it. -/
def readName : LineReader (List Char) := fun cs =>
  let cs := skipBlanks cs
  match cs with
  | [] => .error (.notName none)
  | c :: _ =>
    if isAlphabetic c then .ok (cs.takeWhile isNameChar, cs.dropWhile isNameChar)
    else .error (.notName (some c))

/-- A character that may stand in a number. -/
def isNumberChar (c : Char) : Bool := c.isAlphanum || c == '-' || c == '.' || c == '+'

/-- The number of words. -/
def wordLimit : Nat := twoTo 32

/-- The word a number stands for: base sixteen after `0x`, a single when it has a point or names
an infinity or a NaN, otherwise base ten; a negative number is at least `-2^31`. -/
def numberValue? (token : List Char) : Option Word :=
  match token with
  | '0' :: 'x' :: ds | '0' :: 'X' :: ds =>
    (Text.unsignedBelow? 16 wordLimit ds).map UInt32.ofNat
  | _ =>
    if token.contains '.' || Text.occursIn "inf".toList token
        || Text.occursIn "nan".toList token then
      Single.ofText? token
    else
      match token with
      | '-' :: ds => (Text.unsignedBelow? 10 (twoTo 31 + 1) ds).map fun n => -(UInt32.ofNat n)
      | _ => (Text.unsignedBelow? 10 wordLimit token).map UInt32.ofNat

/-- A number, after blanks. -/
def readNumber : LineReader Word := fun cs =>
  let cs := skipBlanks cs
  let token := cs.takeWhile isNumberChar
  if token.isEmpty then .error .noNumber
  else
    match numberValue? token with
    | some v => .ok (v, cs.dropWhile isNumberChar)
    | none => .error (.badNumber (String.ofList token))

/-! ## Operands -/

/-- A register written as a mark and a number below `limit`. -/
def readIndexed (mark : String) (limit : Nat) : LineReader Word := fun cs => do
  let (name, rest) ← readName cs
  let value? :=
    match mark.toList.isPrefixOf? name with
    | some ds => Text.unsignedBelow? 10 limit ds
    | none => none
  match value? with
  | some v => return (UInt32.ofNat v, rest)
  | none => throw (.badIndexed mark (String.ofList name))

/-- An operand of the given kind; a constant is given by its value. -/
def readOperand : OperandKind → LineReader Word
  | .gpr, cs => do
    let (name, rest) ← readName cs
    match Slot.ofRegName? name with
    | some r => return (r.toUInt32, rest)
    | none => throw (.unknownRegister (String.ofList name))
  | .fpr, cs | .vec4, cs => readIndexed "f" 256 cs
  | .vfpuCtrl, cs => readIndexed "vc" 16 cs
  | .imm, cs => do
    let (v, rest) ← readNumber cs
    if 255 < v then throw (.wideImmediate v)
    return (v, rest)
  | .const, cs => readNumber cs
  | .unused, cs => .ok (0, cs)

/-- The operands of the given kinds, separated by commas; an unused field reads nothing. -/
def readOperands (isFirst : Bool) : List OperandKind → LineReader (List Word)
  | [], cs => .ok ([], cs)
  | .unused :: kinds, cs => do
    let (vs, rest) ← readOperands isFirst kinds cs
    return (0 :: vs, rest)
  | kind :: kinds, cs => do
    let cs ← if isFirst then pure cs else readMark ',' cs
    let (v, cs) ← readOperand kind cs
    let (vs, rest) ← readOperands false kinds cs
    return (v :: vs, rest)

/-! ## Lines -/

/-- What a line that is not empty says. -/
inductive Item where
  /-- A new block starts at an address. -/
  | header (addr : Word)
  /-- An instruction with its operands; the constant operand is given by its value. -/
  | inst (op : Opcode) (dest src1 src2 : Word)
  deriving DecidableEq, Repr

/-- The item at the start of a line. -/
def readItem : LineReader Item := fun cs => do
  let (name, cs) ← readName cs
  if name = "block".toList then
    let (addr, cs) ← readNumber cs
    let rest ← readMark ':' cs
    return (.header addr, rest)
  else
    match Opcode.ofName? (String.ofList name) with
    | none => throw (.unknownOpcode (String.ofList name))
    | some op =>
      let s := op.signature
      let (operands, rest) ← readOperands true [s.dest, s.src1, s.src2] cs
      match operands with
      | [d, s1, s2] => return (.inst op d s1 s2, rest)
      | _ => return (.inst op 0 0 0, rest)

/-- Blocks with their addresses, in the order of the text. -/
abbrev Module := List (Word × Block)

/-- Append an instruction line to a block, interning its constant. -/
def pushItem (b : Block) (op : Opcode) (dest src1 src2 : Word) : Except Fault Block :=
  let i : Inst :=
    { op := op, dest := dest.toUInt8, src1 := src1.toUInt8, src2 := src2.toUInt8 }
  match op.constField? with
  | none => .ok (b.push i)
  | some .dest => b.pushWith i (some dest)
  | some .src1 => b.pushWith i (some src1)
  | some .src2 => b.pushWith i (some src2)

/-- The blocks after one more item. The block being filled is at the head; an instruction before
any header opens a block at address zero. -/
def addItem (open? : Module) : Item → Except Fault Module
  | .header addr => .ok ((addr, {}) :: open?)
  | .inst op dest src1 src2 =>
    match open? with
    | [] => do return [(0, ← pushItem {} op dest src1 src2)]
    | (addr, b) :: rest => do return (addr, ← pushItem b op dest src1 src2) :: rest

/-- A parse cause with the number of its line. -/
def atLine {α : Type} (line : Nat) (r : Except ParseCause α) : Except Fault α :=
  r.mapError (.parse line)

/-- The blocks after one more line, the newest block at the head. A full pool is noticed before
text after the instruction. -/
def readLine (blocks : Module) (line : Nat) (cs : List Char) : Except Fault Module :=
  match skipBlanks cs with
  | [] => .ok blocks
  | c :: _ =>
    if c = '\n' then .ok blocks
    else do
      let (item, rest) ← atLine line (readItem cs)
      let blocks ← addItem blocks item
      atLine line (readLineEnd rest)
      return blocks

/-- The blocks after the given lines, the first of which has number `line`. -/
def readLines (blocks : Module) (line : Nat) : List (List Char) → Except Fault Module
  | [] => .ok blocks
  | cs :: rest => do
    let blocks ← readLine blocks line cs
    readLines blocks (line + 1) rest

end Dynarec.Listing
