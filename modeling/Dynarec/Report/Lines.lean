/-
The lines of a report about one block: its listing, its code, and what executing it did.

This is `write_code` and `write_outcome`.
-/
import Dynarec.Codegen.Compiled
import Dynarec.Guest.State
import Dynarec.Listing.Printer
import Dynarec.Target

set_option autoImplicit false

namespace Dynarec.Report

open Dynarec.Guest (Machine Memory State)
open Dynarec.Text (hex hex8 hexByte hexPadded)

/-- A line below a heading. -/
def indented (line : String) : String := "  " ++ line

/-! ## Listings -/

/-- The listing of an optimised block under its size before and after. -/
def listingLines (addr : Word) (before : Nat) (b : Block) : List String :=
  s!"block {hex8 addr.toNat}: {before} -> {b.size} instructions"
    :: b.insts.map fun i => indented (Listing.instText b.pool.values i)

/-! ## Code -/

/-- The words of code whose instructions are words. -/
def codeWords : List UInt8 → List Word
  | a :: b :: c :: d :: rest => Word.ofBytes a b c d :: codeWords rest
  | _ => []

/-- The units of code that are printed apart. -/
def codeUnits (target : Target) (code : List UInt8) : List String :=
  match target with
  | .aarch64 => (codeWords code).map fun w => hexPadded 8 w.toNat
  | .amd64 => code.map hexByte

/-- Pieces of the given length; the last one may be shorter. -/
def pieces {α : Type} (length : Nat) (l : List α) : List (List α) :=
  (List.range ((l.length + (length - 1)) / length)).map fun k => (l.drop (k * length)).take length

/-- The code, sixteen bytes to a line. -/
def hexLines (target : Target) (code : List UInt8) : List String :=
  (pieces 16 code).map fun line => indented (" ".intercalate (codeUnits target line))

/-- The summary of a compiled block. -/
def codeSummary (addr : Word) (c : Codegen.Compiled) : String :=
  s!"code {hex8 addr.toNat}: {c.code.length} bytes, {c.nativeOps} native, "
    ++ s!"{c.helperOps} fallback, {c.spills} spills"

/-! ## Outcomes -/

/-- A line for a value that is not zero. -/
def valueLine? (name : String) (value : Word) : Option String :=
  if value = 0 then none else some (indented s!"{name} = {hex8 value.toNat}")

/-- The integer slots that an outcome shows. -/
def shownSlots : List UInt8 :=
  (List.range Slot.integerCount).map UInt8.ofNat
    ++ [UInt8.ofNat Slot.lo, UInt8.ofNat Slot.hi]

/-- The registers that are not zero. -/
def registerLines (s : State) : List String :=
  shownSlots.filterMap (fun r => valueLine? (Slot.regName r) (s.reg r))
    ++ (List.range Slot.floatCount).filterMap
        fun f => valueLine? s!"f{f}" (s.slot (Slot.floatBase + f))

/-- The pending system call. -/
def syscallLines (s : State) : List String :=
  if s.syscall = 0 then [] else [indented s!"syscall = {hex s.syscall.toNat}"]

/-- The memory words that are not zero; bytes after the last whole word are left out. -/
def memoryLines (m : Memory) : List String :=
  (List.range (m.size / 4)).filterMap fun i =>
    let at_ := 4 * i
    valueLine? s!"[{hex8 at_}]"
      (Word.ofBytes (m.byteAt at_) (m.byteAt (at_ + 1)) (m.byteAt (at_ + 2)) (m.byteAt (at_ + 3)))

/-- How a block was left. -/
def exitLine (addr : Word) : Option Word → String
  | some target => s!"exit {hex8 addr.toNat} -> {hex8 target.toNat}"
  | none => s!"fallthrough {hex8 addr.toNat}"

/-- What executing a block did. -/
def outcomeLines (addr : Word) (exit : Option Word) (m : Machine) : List String :=
  exitLine addr exit :: registerLines m.state ++ syscallLines m.state ++ memoryLines m.memory

end Dynarec.Report
