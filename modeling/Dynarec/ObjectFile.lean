/-
Compiled blocks as a relocatable object file, for tools that disassemble.

The file is a 64-bit little-endian ELF file with four named sections: the code, the symbols, the
names of the symbols and the names of the sections. Each block is one global hidden function at a
multiple of sixteen bytes. There are no relocations, because blocks reach the guest state and the
interpreter through registers and absolute addresses. A zero byte ends a name, so a name that has
one cannot be written.

The file is the header, the four sections in this order, and the section headers:

  | part            | starts at a multiple of | record size |
  |-----------------|-------------------------|-------------|
  | header          | 0                       | 64          |
  | code            | 1, and it is at 64      |             |
  | symbols         | 8                       | 24          |
  | symbol names    | 1                       |             |
  | section names   | 1                       |             |
  | section headers | 8                       | 64          |

This is `ObjectWriter`; names of blocks are `block_symbol_name`.
-/
import Dynarec.Fault
import Dynarec.ObjectFile.NameTable
import Dynarec.Padding
import Dynarec.Target
import Dynarec.Text.Hex

set_option autoImplicit false

namespace Dynarec

/-- Named functions for a target. -/
structure ObjectFile where
  target : Target
  functions : List (String × List UInt8) := []
  deriving DecidableEq, Repr

namespace ObjectFile

/-- The name of the block at an address. -/
def blockName (addr : Word) : String := "block_" ++ Text.hexPadded 8 addr.toNat

/-- The file with one more function. -/
def addFunction (o : ObjectFile) (name : String) (code : List UInt8) : ObjectFile :=
  { o with functions := o.functions ++ [(name, code)] }

/-- The file with the code of one more block. -/
def addBlock (o : ObjectFile) (addr : Word) (code : List UInt8) : ObjectFile :=
  o.addFunction (blockName addr) code

/-! ## Code and symbols -/

/-- A function in the code section. -/
structure Symbol where
  name : String
  address : Nat
  size : Nat
  deriving DecidableEq, Repr

/-- The unit at which functions start. -/
def functionUnit : Nat := 16

/-- Functions laid out behind `text`: the code section and their symbols. -/
def layOut (text : List UInt8) : List (String × List UInt8) → List UInt8 × List Symbol
  | [] => (text, [])
  | (name, code) :: rest =>
    let padded := padTo (alignUp functionUnit text.length) text
    let (whole, symbols) := layOut (padded ++ code) rest
    (whole, { name := name, address := padded.length, size := code.length } :: symbols)

/-- The bytes of the code section. -/
def text (o : ObjectFile) : List UInt8 := (layOut [] o.functions).1

/-- The symbols, in order. -/
def symbols (o : ObjectFile) : List Symbol := (layOut [] o.functions).2

/-! ## Records -/

/-- A number in `width` bytes, lowest first. -/
def number (width n : Nat) : List UInt8 :=
  match width with
  | 0 => []
  | w + 1 => UInt8.ofNat n :: number w (n / 256)

/-- The number of a target's instruction set. -/
def machineNumber : Target → Nat
  | .aarch64 => 0xb7
  | .amd64 => 0x3e

/-- The size of the header and of a section header. -/
def headerSize : Nat := 64

/-- The size of a symbol. -/
def symbolSize : Nat := 24

/-- The header of a file whose section headers are at an offset. -/
def header (target : Target) (sectionHeaders : Nat) : List UInt8 :=
  [0x7f, 0x45, 0x4c, 0x46, 2, 1, 1, 0] ++ number 8 0
    ++ number 2 1 ++ number 2 (machineNumber target) ++ number 4 1
    ++ number 8 0 ++ number 8 0 ++ number 8 sectionHeaders ++ number 4 0
    ++ number 2 headerSize ++ number 2 0 ++ number 2 0
    ++ number 2 headerSize ++ number 2 5 ++ number 2 4

/-- A symbol as a global hidden function of the first section. -/
def symbolRecord (names : NameTable) (s : Symbol) : List UInt8 :=
  number 4 (names.offset s.name.toUTF8.toList) ++ [0x12, 2] ++ number 2 1
    ++ number 8 s.address ++ number 8 s.size

/-- What a section header says. -/
structure SectionHeader where
  /-- Where its name starts in the section names. -/
  name : Nat
  kind : Nat
  flags : Nat := 0
  offset : Nat
  size : Nat
  link : Nat := 0
  info : Nat := 0
  alignment : Nat := 1
  entrySize : Nat := 0

/-- A section header. -/
def SectionHeader.record (h : SectionHeader) : List UInt8 :=
  number 4 h.name ++ number 4 h.kind ++ number 8 h.flags ++ number 8 0 ++ number 8 h.offset
    ++ number 8 h.size ++ number 4 h.link ++ number 4 h.info ++ number 8 h.alignment
    ++ number 8 h.entrySize

/-- The section names: code at 1, section names at 7, symbol names at 17, symbols at 25. -/
def sectionNames : List UInt8 :=
  "\x00.text\x00.shstrtab\x00.strtab\x00.symtab\x00".toUTF8.toList

/-! ## The file -/

/-- The name of a symbol can be told from what follows it: it has no zero byte. -/
def Symbol.hasReadableName (s : Symbol) : Bool := !s.name.toUTF8.toList.contains 0

/-- The bytes of the file. -/
def bytes (o : ObjectFile) : List UInt8 :=
  let names := NameTable.ofNames (o.symbols.map fun s => s.name.toUTF8.toList)
  let symbolBytes :=
    List.replicate symbolSize 0 ++ o.symbols.flatMap (symbolRecord names)
  let symbolsAt := alignUp 8 (headerSize + o.text.length)
  let namesAt := symbolsAt + symbolBytes.length
  let sectionNamesAt := namesAt + names.bytes.length
  let headersAt := alignUp 8 (sectionNamesAt + sectionNames.length)
  let sections : List SectionHeader :=
    [{ name := 0, kind := 0, offset := 0, size := 0, alignment := 0 },
     { name := 1, kind := 1, flags := 6, offset := headerSize, size := o.text.length,
       alignment := if o.functions.isEmpty then 1 else functionUnit },
     { name := 0x19, kind := 2, offset := symbolsAt, size := symbolBytes.length, link := 3,
       info := 1, alignment := 8, entrySize := symbolSize },
     { name := 0x11, kind := 3, offset := namesAt, size := names.bytes.length },
     { name := 7, kind := 3, offset := sectionNamesAt, size := sectionNames.length }]
  let body := padTo symbolsAt (header o.target headersAt ++ o.text)
    ++ symbolBytes ++ names.bytes ++ sectionNames
  padTo headersAt body ++ sections.flatMap SectionHeader.record

/-- The bytes of the file, unless a name cannot be told from what follows it. -/
def encode (o : ObjectFile) : Except Fault (List UInt8) :=
  if o.symbols.all Symbol.hasReadableName then .ok o.bytes else violate .zeroInName

end ObjectFile

end Dynarec
