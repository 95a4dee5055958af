/-
The cache of compiled blocks.

Asking for the block at an address gives the cached entry if there is one. Otherwise the block is
fetched from the catalog, optimised and compiled, which changes nothing, and placed in the code
buffer; then the work is added to the totals. A block that is refused before it is written leaves
everything as it was. Where the buffer is mapped once, its protection may not be changed back after
the block has been written: the buffer has then been used, and there is no entry for it.

This is `Jit` over a `MapFrontend`: `new`, `lookup`, `code_bytes`, `clear` and `compile`.
-/
import Dynarec.Catalog
import Dynarec.CodeBuffer
import Dynarec.Codegen

set_option autoImplicit false

namespace Dynarec

/-- A compiled block. -/
structure Entry where
  addr : Word
  /-- Where its code is. -/
  extent : Extent
  /-- The optimised block that the code was made from. -/
  block : Block
  nativeOps : Nat
  helperOps : Nat
  deriving DecidableEq, Repr

/-- Blocks, how to compile them, and those compiled so far. -/
structure Cache where
  platform : Platform
  catalog : Catalog
  settings : Settings
  buffer : CodeBuffer
  entries : AddressMap Entry := {}
  /-- The work of every compilation so far. -/
  totals : Statistics := {}

namespace Cache

/-- A cache without entries. -/
def create (p : Platform) (catalog : Catalog) (settings : Settings) : Except Fault Cache := do
  return { platform := p, catalog := catalog, settings := settings,
           buffer := ← CodeBuffer.create p.system settings.codeSize }

/-- The entry at an address. -/
def lookup (c : Cache) (addr : Word) : Option Entry := c.entries.get? addr

/-- The code of an entry. -/
def codeOf (c : Cache) (e : Entry) : Except Fault (List UInt8) := c.buffer.read e.extent

/-- The cache without entries, its buffer free again; the totals stay. -/
def clear (c : Cache) : Cache := { c with entries := {}, buffer := c.buffer.reset }

/-- The block at an address, optimised and compiled, and the statistics of optimising it. -/
def prepare (c : Cache) (addr : Word) :
    Except Fault (Block × Statistics × Codegen.Compiled) := do
  let source ← c.catalog.fetch addr
  let (block, stats) ← c.settings.pipeline.run c.settings.constantCap source {}
  return (block, stats, ← Codegen.compile c.platform c.settings block)

/-- Compile and place a block that is not in the cache: its entry, and the cache afterwards. -/
def compileNew (c : Cache) (addr : Word) : Except Fault Entry × Cache :=
  match c.prepare addr with
  | .error f => (.error f, c)
  | .ok (block, stats, compiled) =>
    match c.buffer.append c.platform.system compiled.code with
    | (.error f, buffer) => (.error f, { c with buffer := buffer })
    | (.ok extent, buffer) =>
      let stats := (compiled.record stats).block addr block.size compiled.code.length
      let entry : Entry :=
        { addr := addr, extent := extent, block := block,
          nativeOps := compiled.nativeOps, helperOps := compiled.helperOps }
      (.ok entry,
        { c with
          buffer := buffer
          entries := c.entries.insert addr entry
          totals := c.totals.merge stats })

/-- The entry at an address, compiled if need be, and the cache afterwards. -/
def compile (c : Cache) (addr : Word) : Except Fault Entry × Cache :=
  match c.lookup addr with
  | some entry => (.ok entry, c)
  | none => c.compileNew addr

end Cache

end Dynarec
