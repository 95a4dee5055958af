/-
Reports on modules.

A report goes through the blocks of a module in order. Each block is optimised and then, as the
options say, listed, compiled, interpreted and entered, each execution on a fresh machine. The
first failure ends the report. At the end the compiled blocks are written to an object file, if
that is asked for, and the statistics follow.

This is `run_module`.
-/
import Dynarec.Cache.Run
import Dynarec.ObjectFile
import Dynarec.Report.Destination
import Dynarec.Report.Lines
import Dynarec.Report.Options

set_option autoImplicit false

namespace Dynarec

open Dynarec.Guest (Machine)

/-- What is known about the blocks of a module. -/
structure Report where
  /-- The lines so far. -/
  lines : List String := []
  /-- The compiled blocks. -/
  object : ObjectFile
  totals : Statistics := {}

namespace Report

/-! ## One block -/

/-- The machine that a block is executed on. -/
def freshMachine (o : Options) (addr : Word) : Except Fault Machine := do
  return { state := { pc := addr }, memory := ← Guest.Memory.create o.memorySize }

/-- The size of the code buffer for a block that is entered. -/
def runBufferSize : Nat := 256 * 1024

/-- Compile and enter a block on its own. -/
def enter (p : Platform) (o : Options) (s : Settings) (addr : Word) (b : Block) :
    Except Fault (Option Word × Machine) := do
  let catalog : Catalog := AddressMap.insert {} addr (← b.copy)
  let cache ← Cache.create p catalog { s with codeSize := runBufferSize }
  let (entry, cache) := cache.compile addr
  let (exit, m) := cache.execute (← entry) (← freshMachine o addr)
  return (← exit, m)

/-- The report after compiling an optimised block, and what the block adds to the statistics. -/
def addCode (p : Platform) (r : Report) (o : Options) (s : Settings) (addr : Word) (b : Block)
    (stats : Statistics) : Except Fault (Report × Statistics) := do
  let c ← Codegen.compile p s b
  let shown :=
    (if o.compile || o.hex then [codeSummary addr c] else [])
      ++ (if o.hex then hexLines o.target c.code else [])
  return ({ r with lines := r.lines ++ shown, object := r.object.addBlock addr c.code },
    (c.record stats).block addr b.size c.code.length)

/-- The lines of the executions of a block. -/
def executions (p : Platform) (o : Options) (s : Settings) (addr : Word)
    (source optimized : Block) : Except Fault (List String) := do
  let interpreted ←
    if o.interpret then do
      let (exit, m) := Guest.runBlock optimized (← freshMachine o addr)
      pure (outcomeLines addr (← exit) m)
    else pure []
  let entered ←
    if o.run then do
      let (exit, m) ← enter p o s addr source
      pure (outcomeLines addr exit m)
    else pure []
  return interpreted ++ entered

/-- The report with one more block. -/
def addBlock (p : Platform) (o : Options) (s : Settings) (r : Report) (addr : Word)
    (source : Block) : Except Fault Report := do
  let (b, stats) ← s.pipeline.run s.constantCap source {}
  let listed := if o.listing then listingLines addr source.size b else []
  let r := { r with lines := r.lines ++ listed }
  let (r, stats) ← if o.wantsCode then addCode p r o s addr b stats else pure (r, stats)
  let executed ← executions p o s addr source b
  return { r with lines := r.lines ++ executed, totals := r.totals.merge stats }

/-! ## The whole module -/

/-- The report on a module. Settings that cannot be served are noticed before the text is read. -/
def ofText (p : Platform) (o : Options) (text : String) : Except Fault Report := do
  let s ← o.settings
  let blocks ← Listing.parseModule text
  blocks.foldlM (fun r (addr, b) => addBlock p o s r addr b) { object := { target := o.target } }

/-- The line about the object file, unless it cannot be written. -/
def writtenLines (r : Report) (o : Options) (refused : String → Option WriteCause) :
    Except Fault (List String) :=
  match o.objectPath with
  | none => .ok []
  | some path =>
    match refused path with
    | some cause => .error (.object path cause)
    | none => .ok [s!"wrote {r.object.functions.length} blocks to {path}"]

/-- The text of a report; `refused` says which paths cannot be written to. -/
def text (r : Report) (o : Options) (refused : String → Option WriteCause) :
    Except Fault String := do
  let written ← r.writtenLines o refused
  let summary := if o.statistics then r.totals.summary else ""
  return String.join ((r.lines ++ written).map (· ++ "\n")) ++ summary

end Report

end Dynarec
