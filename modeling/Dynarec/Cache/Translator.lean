/-
Compiling blocks from any frontend.

A frontend produces the block at an address and may change while it does so. A translator owns a
frontend, a code buffer, the entries compiled so far and the totals, and works on them step by
step (`Jit::compile`): what a step has changed stays changed when a later one fails. So whether a
failure is harmless depends on the order of the steps.

A cache is a translator whose frontend is a catalog (`compile_ofCache`).
-/
import Dynarec.Cache

set_option autoImplicit false

namespace Dynarec

/-- A source of blocks with a state of type `σ`: the block at an address, and the state
afterwards. -/
structure Frontend (σ : Type) where
  translate : Word → σ → Except Fault Block × σ

/-- A catalog as a frontend; nothing changes. -/
def Catalog.frontend : Frontend Catalog where
  translate addr catalog := (catalog.fetch addr, catalog)

/-- What a translator owns. -/
structure Translator (σ : Type) where
  platform : Platform
  source : σ
  settings : Settings
  buffer : CodeBuffer
  entries : AddressMap Entry := {}
  totals : Statistics := {}

namespace Translator

variable {σ : Type}

/-- A translator without entries. -/
def create (p : Platform) (source : σ) (settings : Settings) : Except Fault (Translator σ) := do
  return { platform := p, source := source, settings := settings,
           buffer := ← CodeBuffer.create p.system settings.codeSize }

/-- A step that may fail; what it changed stays changed. -/
abbrev Action (σ : Type) := ExceptT Fault (StateM (Translator σ))

/-- The outcome of something that changes nothing. -/
def outcome {α : Type} (r : Except Fault α) : Action σ α := ExceptT.mk (pure r)

/-- Have the frontend produce the block at an address. -/
def fetch (f : Frontend σ) (addr : Word) : Action σ Block := do
  let t ← get
  let (r, source) := f.translate addr t.source
  set { t with source := source }
  outcome r

/-- Put code into the buffer. -/
def place (code : List UInt8) : Action σ Extent := do
  let t ← get
  let (r, buffer) := t.buffer.append t.platform.system code
  set { t with buffer := buffer }
  outcome r

/-- The entry at an address. -/
def lookup (t : Translator σ) (addr : Word) : Option Entry := t.entries.get? addr

/-- The entries in ascending order of address. -/
def blocks (t : Translator σ) : List Entry := t.entries.values

/-- The code of an entry. -/
def codeOf (t : Translator σ) (e : Entry) : Except Fault (List UInt8) := t.buffer.read e.extent

/-- The translator without entries, its buffer free again; the totals stay. -/
def clear (t : Translator σ) : Translator σ := { t with entries := {}, buffer := t.buffer.reset }

/-- Optimise, compile and place a block that has no entry. -/
def compileNew (f : Frontend σ) (addr : Word) : Action σ Entry := do
  let source ← fetch f addr
  let { platform, settings, .. } ← get
  let (block, stats) ← outcome (settings.pipeline.run settings.constantCap source {})
  let compiled ← outcome (Codegen.compile platform settings block)
  let extent ← place compiled.code
  let stats := (compiled.record stats).block addr block.size compiled.code.length
  modify fun t => { t with totals := t.totals.merge stats }
  let entry : Entry :=
    { addr := addr, extent := extent, block := block,
      nativeOps := compiled.nativeOps, helperOps := compiled.helperOps }
  modify fun t => { t with entries := t.entries.insert addr entry }
  return entry

/-- The entry at an address, compiled if need be. -/
def compile (f : Frontend σ) (addr : Word) : Action σ Entry := do
  match (← get).lookup addr with
  | some entry => return entry
  | none => compileNew f addr

/-! ## Sessions -/

/-- What a translator is asked. -/
inductive Request where
  | compile (addr : Word)
  | lookup (addr : Word)
  | blocks
  | clear
  deriving DecidableEq, Repr

/-- What a translator answers. -/
inductive Answer where
  | compiled (r : Except Fault Entry)
  | found (entry : Option Entry)
  | listed (entries : List Entry)
  | cleared

/-- Serve one request. -/
def serve (f : Frontend σ) (t : Translator σ) : Request → Answer × Translator σ
  | .compile addr =>
    let (r, t) := (compile f addr).run.run t
    (.compiled r, t)
  | .lookup addr => (.found (t.lookup addr), t)
  | .blocks => (.listed t.blocks, t)
  | .clear => (.cleared, t.clear)

/-- The translator after some requests. -/
def after (f : Frontend σ) (t : Translator σ) (requests : List Request) : Translator σ :=
  requests.foldl (fun t r => (serve f t r).2) t

/-! ## Caches -/

/-- A cache as a translator. -/
def ofCache (c : Cache) : Translator Catalog :=
  { platform := c.platform, source := c.catalog, settings := c.settings, buffer := c.buffer,
    entries := c.entries, totals := c.totals }

end Translator

end Dynarec
