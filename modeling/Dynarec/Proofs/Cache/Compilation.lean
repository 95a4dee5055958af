/-
Caches hold what they were asked to compile.

Every entry of a cache is made from the block that the catalog has at its address, by the pipeline
of the settings (`Cache.Faithful`). Asking for a block fails only if it cannot be fetched, optimised
or compiled, if the buffer is full, or if a change of protection is refused. The buffer is never
full if it has room for the code of all blocks of the catalog at once, each padded to a multiple of
sixteen bytes (`Roomy.exists_compile`), because no block is compiled twice. And the changes of
protection do not depend on the code, so two buffers that are mapped alike are refused together
(`append_congr`).
-/
import Mathlib.Algebra.GroupWithZero.Nat
import Mathlib.Algebra.Order.BigOperators.Group.List
import Mathlib.Algebra.Order.Group.Nat
import Dynarec.Cache
import Dynarec.Proofs.Guest.Code

set_option autoImplicit false

namespace Dynarec

/-! ## Address maps -/

namespace AddressMap

variable {α : Type}

theorem find?_insertEntry (a b : Word) (v : α) (entries : List (Word × α)) :
    ((insertEntry a v entries).find? fun e => e.1 == b).map (·.2)
      = if b = a then some v else (entries.find? fun e => e.1 == b).map (·.2) := by
  induction entries with
  | nil =>
    by_cases h : b = a
    · simp [insertEntry, h]
    · simp [insertEntry, h, Ne.symm h]
  | cons p rest ih =>
    obtain ⟨k, w⟩ := p
    unfold insertEntry
    split
    · by_cases h : b = a
      · simp [h]
      · simp [List.find?_cons, h, Ne.symm h]
    · split
      · rename_i hak
        subst hak
        by_cases h : b = a
        · simp [h]
        · simp [h, Ne.symm h]
      · -- an entry in front of the new one is at another address
        rename_i hak
        by_cases hbk : k = b
        · subst hbk
          simp [Ne.symm hak]
        · simp only [List.find?_cons, beq_eq_false_iff_ne.mpr hbk]
          exact ih

/-- The value just inserted is found, and every other one as before. -/
theorem get?_insert (m : AddressMap α) (a b : Word) (v : α) :
    (m.insert a v).get? b = if b = a then some v else m.get? b :=
  find?_insertEntry a b v m.entries

theorem mem_entries_of_get? {m : AddressMap α} {a : Word} {v : α} (h : m.get? a = some v) :
    (a, v) ∈ m.entries := by
  obtain ⟨⟨k, w⟩, hfind, hv⟩ := Option.map_eq_some_iff.mp h
  have hk := List.find?_some hfind
  rw [beq_iff_eq] at hk
  cases hk
  cases hv
  exact List.mem_of_find?_eq_some hfind

theorem mem_values_of_get? {m : AddressMap α} {a : Word} {v : α} (h : m.get? a = some v) :
    v ∈ m.values :=
  List.mem_map.mpr ⟨(a, v), mem_entries_of_get? h, rfl⟩

theorem mem_addresses_of_get? {m : AddressMap α} {a : Word} {v : α} (h : m.get? a = some v) :
    a ∈ m.addresses :=
  List.mem_map.mpr ⟨(a, v), mem_entries_of_get? h, rfl⟩

end AddressMap

/-! ## Placing code -/

theorem le_alignUp {u : Nat} (hu : 0 < u) (n : Nat) : n ≤ alignUp u n := by
  unfold alignUp
  have hdiv := Nat.div_add_mod (n + (u - 1)) u
  have hmod := Nat.mod_lt (n + (u - 1)) hu
  rw [Nat.mul_comm] at hdiv
  omega

/-- What starts at a multiple of the unit ends, rounded up, after its own length rounded up. -/
theorem alignUp_add {u : Nat} (hu : 0 < u) (n k : Nat) :
    alignUp u (alignUp u n + k) = alignUp u n + alignUp u k := by
  unfold alignUp
  rw [Nat.add_assoc, Nat.add_comm ((n + (u - 1)) / u * u), Nat.add_mul_div_right _ _ hu,
    Nat.add_mul, Nat.add_comm]

namespace CodeBuffer

variable {sys : System} {b b' : CodeBuffer} {code : List UInt8} {extent : Extent}

/-- The buffers are of one size and the same has been put into them. -/
structure SameCode (b b' : CodeBuffer) : Prop where
  capacity : b'.capacity = b.capacity
  contents : b'.contents = b.contents
  used : b'.used = b.used

/-- The buffers are mapped in the same way, and as many changes of protection have been asked for.
-/
structure SameMapping (b b' : CodeBuffer) : Prop where
  mapping : b'.mapping = b.mapping
  changes : b'.changes = b.changes

/-- A change of protection was asked for and refused; a buffer that is mapped twice needs none. -/
structure Refused (sys : System) (b : CodeBuffer) (f : Fault) : Prop where
  once : b.mapping ≠ .twice
  reason : ∃ n text, sys.protect n = .error text ∧ f = .codeBuffer (.refused text)

/-- **Changing the protection** leaves the code alone, and fails only if the system refuses. -/
theorem setWritable_cases (sys : System) (writable : Bool) (b : CodeBuffer) :
    ∃ r b', b.setWritable sys writable = (r, b') ∧ SameCode b b' ∧
      (b'.mapping = .twice ↔ b.mapping = .twice) ∧ ∀ f, r = .error f → Refused sys b f := by
  unfold setWritable
  split
  · exact ⟨_, b, rfl, ⟨rfl, rfl, rfl⟩, Iff.rfl, nofun⟩
  · next current hmapping =>
    have honce : b.mapping ≠ .twice := by rw [hmapping]; exact nofun
    split
    · exact ⟨_, b, rfl, ⟨rfl, rfl, rfl⟩, Iff.rfl, nofun⟩
    · split
      · exact ⟨_, _, rfl, ⟨rfl, rfl, rfl⟩, iff_of_false nofun honce, nofun⟩
      · next text hprotect =>
        refine ⟨_, _, rfl, ⟨rfl, rfl, rfl⟩, Iff.rfl, fun f hf => ?_⟩
        cases hf
        exact ⟨honce, _, text, hprotect, rfl⟩

/-- What adding a block can come to. -/
inductive Added (sys : System) (b : CodeBuffer) (code : List UInt8) :
    Except Fault Extent × CodeBuffer → Prop
  /-- There is no place for it. -/
  | full (f : Fault) : Added sys b code (.error f, b)
  /-- A change of protection is refused, and the block has been written or not. -/
  | refused {f : Fault} {b' : CodeBuffer} (hrefused : Refused sys b f)
      (hcode : SameCode b b' ∨ ∃ e, b.place code.length = .ok e ∧ SameCode (b.write e code) b') :
      Added sys b code (.error f, b')
  | placed {e : Extent} {b' : CodeBuffer} (hplace : b.place code.length = .ok e)
      (hcode : SameCode (b.write e code) b') : Added sys b code (.ok e, b')

theorem added_append (sys : System) (b : CodeBuffer) (code : List UInt8) :
    Added sys b code (b.append sys code) := by
  unfold append
  split
  · next f _ => exact .full f
  · next e hplace =>
    obtain ⟨r₁, b₁, h₁, hcode₁, htwice₁, hrefused₁⟩ := setWritable_cases sys true b
    obtain ⟨r₂, b₂, h₂, hcode₂, -, hrefused₂⟩ := setWritable_cases sys false (b₁.write e code)
    have hcode : SameCode (b.write e code) b₂ :=
      ⟨hcode₂.capacity.trans hcode₁.capacity,
        hcode₂.contents.trans (congrArg (overwrite · e.offset code) hcode₁.contents), hcode₂.used⟩
    rw [h₁]
    cases r₁ with
    | error f => exact .refused (hrefused₁ f rfl) (Or.inl hcode₁)
    | ok _ =>
      dsimp only
      rw [h₂]
      cases r₂ with
      | error f =>
        have hrefused := hrefused₂ f rfl
        exact .refused ⟨fun h => hrefused.once (htwice₁.mpr h), hrefused.reason⟩
          (Or.inr ⟨e, hplace, hcode⟩)
      | ok _ => exact .placed hplace hcode

/-- What changing the protection answers does not depend on the code. -/
theorem setWritable_congr {b₀ b₁ : CodeBuffer} (h : SameMapping b₀ b₁) (sys : System)
    (writable : Bool) :
    (b₁.setWritable sys writable).1 = (b₀.setWritable sys writable).1 ∧
      SameMapping (b₀.setWritable sys writable).2 (b₁.setWritable sys writable).2 := by
  unfold setWritable
  rw [h.mapping, h.changes]
  split
  · exact ⟨rfl, h⟩
  · next current hmapping =>
    split
    · exact ⟨rfl, h⟩
    · split
      · exact ⟨rfl, rfl, rfl⟩
      · exact ⟨rfl, rfl, rfl⟩

theorem setWritable_ok_congr {b₀ b₁ b₀' : CodeBuffer} {writable : Bool} (h : SameMapping b₀ b₁)
    (hset : b₀.setWritable sys writable = (.ok (), b₀')) :
    ∃ b₁', b₁.setWritable sys writable = (.ok (), b₁') ∧ SameMapping b₀' b₁' := by
  obtain ⟨hanswer, hsame⟩ := setWritable_congr h sys writable
  rw [hset] at hanswer hsame
  exact ⟨(b₁.setWritable sys writable).2, Prod.ext hanswer rfl, hsame⟩

/-- A block that is added finds a place, and the protection is changed before and after. -/
theorem append_eq_ok (h : b.append sys code = (.ok extent, b')) :
    b.place code.length = .ok extent ∧ ∃ d, b.setWritable sys true = (.ok (), d) ∧
      (d.write extent code).setWritable sys false = (.ok (), b') := by
  unfold append at h
  split at h
  · cases h
  · next e hplace =>
    split at h
    · cases h
    · next d hopen =>
      split at h
      · cases h
      · next d' hclose =>
        cases h
        exact ⟨hplace, d, hopen, hclose⟩

/-- **Buffers that are mapped alike are refused together.** If a block has been added to one of
them, then one that fits can be added to the other. -/
theorem append_congr {b₀ b₁ b₀' : CodeBuffer} {code₀ : List UInt8} (h : SameMapping b₀ b₁)
    (happend : b₀.append sys code₀ = (.ok extent, b₀'))
    (hfits : b₁.nextOffset + code.length ≤ b₁.capacity) :
    ∃ e b₁', b₁.append sys code = (.ok e, b₁') ∧ SameMapping b₀' b₁' := by
  obtain ⟨-, d₀, hopen, hclose⟩ := append_eq_ok happend
  have hplace : b₁.place code.length = .ok { offset := b₁.nextOffset, length := code.length } :=
    if_neg (Nat.not_lt.mpr hfits)
  obtain ⟨d₁, hopen₁, hsame⟩ := setWritable_ok_congr h hopen
  have hwritten : SameMapping (d₀.write extent code₀)
      (d₁.write { offset := b₁.nextOffset, length := code.length } code) :=
    ⟨hsame.mapping, hsame.changes⟩
  obtain ⟨b₁', hclose₁, hsame'⟩ := setWritable_ok_congr hwritten hclose
  refine ⟨{ offset := b₁.nextOffset, length := code.length }, b₁', ?_, hsame'⟩
  unfold append
  rw [hplace]
  dsimp only
  rw [hopen₁]
  dsimp only
  rw [hclose₁]

/-- A buffer that is mapped twice takes what fits. -/
theorem append_twice (sys : System) (htwice : b.mapping = .twice)
    (hfits : b.nextOffset + code.length ≤ b.capacity) :
    ∃ e b', b.append sys code = (.ok e, b') ∧ b'.mapping = .twice := by
  have hplace : b.place code.length = .ok { offset := b.nextOffset, length := code.length } :=
    if_neg (Nat.not_lt.mpr hfits)
  have hset : ∀ (writable : Bool) (d : CodeBuffer), d.mapping = .twice →
      d.setWritable sys writable = (.ok (), d) := by
    intro writable d hd
    unfold setWritable
    rw [hd]
  unfold append
  rw [hplace]
  dsimp only
  rw [hset true b htwice]
  dsimp only
  rw [hset false (b.write _ code) htwice]
  exact ⟨_, _, rfl, htwice⟩

theorem append_spec (h : b.append sys code = (.ok extent, b')) :
    b'.capacity = b.capacity ∧ b'.nextOffset = b.nextOffset + alignUp blockUnit code.length := by
  have hadded := added_append sys b code
  rw [h] at hadded
  cases hadded with
  | placed hplace hcode =>
    unfold place at hplace
    dsimp only at hplace
    split at hplace
    · cases hplace
    · cases hplace
      refine ⟨hcode.capacity, ?_⟩
      rw [nextOffset, hcode.used]
      exact alignUp_add (by decide) b.used code.length

theorem lt_of_asDouble {n k : Nat} (h : asDouble n = .ok k) : n < doubleWords := by
  unfold asDouble at h
  split at h
  · next hlt => exact hlt
  · cases h

theorem create_spec {size : Nat} (h : create sys size = .ok b) :
    size ≤ b.capacity ∧ b.used = 0 ∧ b.capacity < doubleWords ∧
      (sys.mapTwice b.capacity = .ok () → b.mapping = .twice) := by
  unfold create at h
  split at h
  · cases h
  · obtain ⟨_, hsum, h⟩ := bind_eq_ok.mp h
    have hpage : 0 < sys.pageSize := Nat.two_pow_pos _
    have hle : size ≤ alignUp sys.pageSize size := le_alignUp hpage size
    have hlt : alignUp sys.pageSize size < doubleWords := by
      obtain ⟨_, hsum, -⟩ := bind_eq_ok.mp hsum
      have hsum := lt_of_asDouble hsum
      have hround : alignUp sys.pageSize size ≤ size + (sys.pageSize - 1) := Nat.div_mul_le_self _ _
      omega
    simp only at h
    split at h
    · cases h
      exact ⟨hle, rfl, hlt, fun _ => rfl⟩
    · next hmap =>
      split at h
      · cases h
        exact ⟨hle, rfl, hlt, fun h => by cases hmap.symm.trans h⟩
      · cases h

end CodeBuffer

/-! ## What a cache holds -/

/-- The block that the pipeline makes of the one at an address. -/
def Catalog.Makes (catalog : Catalog) (s : Settings) (a : Word) (b : Block) : Prop :=
  ∃ source stats, catalog.fetch a = .ok source ∧
    s.pipeline.run s.constantCap source {} = .ok (b, stats)

/-- The cache works on a catalog with given settings, and each entry is made from the block at its
address. -/
structure Cache.Faithful (p : Platform) (catalog : Catalog) (s : Settings) (c : Cache) : Prop where
  host : c.platform = p
  source : c.catalog = catalog
  choice : c.settings = s
  made : ∀ a e, c.lookup a = some e → catalog.Makes s a e.block

namespace Cache

variable {p : Platform} {catalog : Catalog} {s : Settings} {c c' : Cache} {a : Word} {e : Entry}

theorem faithful_create (h : create p catalog s = .ok c) : c.Faithful p catalog s := by
  obtain ⟨b, -, h⟩ := bind_eq_ok.mp h
  cases pure_eq_ok.mp h
  exact ⟨rfl, rfl, rfl, fun _ _ h => by cases h⟩

theorem lookup_create (h : create p catalog s = .ok c) (a : Word) : c.lookup a = none := by
  obtain ⟨b, -, h⟩ := bind_eq_ok.mp h
  cases pure_eq_ok.mp h
  rfl

/-- Asking for a block either finds its entry or adds one. -/
theorem compile_cases (h : c.compile a = (.ok e, c')) :
    (c.lookup a = some e ∧ c' = c) ∨
    (c.lookup a = none ∧ ∃ source stats compiled extent,
      c.catalog.fetch a = .ok source ∧
      c.settings.pipeline.run c.settings.constantCap source {} = .ok (e.block, stats) ∧
      Codegen.compile c.platform c.settings e.block = .ok compiled ∧
      c.buffer.append c.platform.system compiled.code = (.ok extent, c'.buffer) ∧
      c'.platform = c.platform ∧ c'.catalog = c.catalog ∧ c'.settings = c.settings ∧
      ∀ k, c'.lookup k = if k = a then some e else c.lookup k) := by
  unfold compile at h
  split at h
  · next entry hentry =>
    cases h
    exact Or.inl ⟨hentry, rfl⟩
  · next hnone =>
    unfold compileNew at h
    split at h
    · cases h
    · next block stats compiled hprepare =>
      obtain ⟨source, hsource, hprepare⟩ := bind_eq_ok.mp hprepare
      obtain ⟨⟨_, _⟩, hblock, hprepare⟩ := bind_eq_ok.mp hprepare
      obtain ⟨_, hcompiled, hprepare⟩ := bind_eq_ok.mp hprepare
      cases pure_eq_ok.mp hprepare
      split at h
      · cases h
      · next extent buffer happend =>
        cases h
        exact Or.inr ⟨hnone, source, stats, compiled, extent, hsource, hblock, hcompiled, happend,
          rfl, rfl, rfl, fun k => c.entries.get?_insert a k _⟩

/-- **What is compiled is made from the block at the address.** -/
theorem Faithful.compile (hc : c.Faithful p catalog s) (h : c.compile a = (.ok e, c')) :
    catalog.Makes s a e.block ∧ c'.Faithful p catalog s := by
  obtain ⟨hentry, rfl⟩ | ⟨-, source, stats, compiled, extent, hsource, hblock, -, -, hplatform,
    hcatalog, hsettings, hlookup⟩ := compile_cases h
  · exact ⟨hc.made a e hentry, hc⟩
  · rw [hc.source] at hsource
    rw [hc.choice] at hblock
    have hmade : catalog.Makes s a e.block := ⟨source, stats, hsource, hblock⟩
    refine ⟨hmade, hplatform.trans hc.host, hcatalog.trans hc.source, hsettings.trans hc.choice,
      fun k entry hentry => ?_⟩
    rw [hlookup] at hentry
    split at hentry
    · next hk =>
      cases hentry
      rw [hk]
      exact hmade
    · exact hc.made k entry hentry

/-- A block that is prepared and added to the buffer goes into the cache. -/
theorem compile_of_append {source block : Block} {stats : Statistics} {compiled : Codegen.Compiled}
    {extent : Extent} {buffer : CodeBuffer} (hnone : c.lookup a = none)
    (hsource : c.catalog.fetch a = .ok source)
    (hblock : c.settings.pipeline.run c.settings.constantCap source {} = .ok (block, stats))
    (hcompiled : Codegen.compile c.platform c.settings block = .ok compiled)
    (happend : c.buffer.append c.platform.system compiled.code = (.ok extent, buffer)) :
    ∃ e c', c.compile a = (.ok e, c') ∧ c'.platform = c.platform ∧ c'.buffer = buffer ∧
      ∀ k, c'.lookup k = if k = a then some e else c.lookup k := by
  have hprepare : c.prepare a = .ok (block, stats, compiled) :=
    bind_eq_ok.mpr ⟨source, hsource, bind_eq_ok.mpr ⟨_, hblock, bind_eq_ok.mpr
      ⟨compiled, hcompiled, rfl⟩⟩⟩
  rw [compile, hnone]
  dsimp only
  rw [compileNew, hprepare]
  dsimp only
  rw [happend]
  exact ⟨_, _, rfl, rfl, rfl, fun k => c.entries.get?_insert a k _⟩

/-- A block that does not compile changes nothing. -/
theorem compile_of_error {source block : Block} {stats : Statistics} {f : Fault}
    (hnone : c.lookup a = none) (hsource : c.catalog.fetch a = .ok source)
    (hblock : c.settings.pipeline.run c.settings.constantCap source {} = .ok (block, stats))
    (hcompile : Codegen.compile c.platform c.settings block = .error f) :
    c.compile a = (.error f, c) := by
  have hprepare : c.prepare a = .error f := by
    simp only [prepare, hsource, hblock, hcompile, bind, Except.bind]
  rw [compile, hnone]
  dsimp only
  rw [compileNew, hprepare]

end Cache

/-! ## Room for code -/

/-- What the block at an address is compiled to. -/
def Catalog.compiledAt (p : Platform) (catalog : Catalog) (s : Settings) (a : Word) :
    Except Fault Codegen.Compiled := do
  let source ← catalog.fetch a
  let (block, _) ← s.pipeline.run s.constantCap source {}
  Codegen.compile p s block

/-- The bytes that its code takes up in a buffer, with the gap after it; none if it does not
compile. -/
def Catalog.bytesAt (p : Platform) (catalog : Catalog) (s : Settings) (a : Word) : Nat :=
  match catalog.compiledAt p s a with
  | .ok compiled => alignUp CodeBuffer.blockUnit compiled.code.length
  | .error _ => 0

/-- The bytes that the code of all blocks takes up. -/
def Catalog.codeBytes (p : Platform) (catalog : Catalog) (s : Settings) : Nat :=
  (catalog.addresses.map (catalog.bytesAt p s)).sum

/-- A sum grows at least by what one of its terms grows. -/
theorem sum_map_add_le {l : List Word} {f g : Word → Nat} {k : Word} {d : Nat}
    (hle : ∀ x, f x ≤ g x) (hk : k ∈ l) (hd : f k + d ≤ g k) :
    (l.map f).sum + d ≤ (l.map g).sum := by
  induction l with
  | nil => exact absurd hk List.not_mem_nil
  | cons x l ih =>
    rw [List.map_cons, List.map_cons, List.sum_cons, List.sum_cons]
    rcases List.mem_cons.mp hk with rfl | hk
    · have hrest : (l.map f).sum ≤ (l.map g).sum := List.sum_le_sum fun y _ => hle y
      omega
    · have hx := hle x
      have hrest := ih hk
      omega

namespace Cache

variable {p : Platform} {catalog : Catalog} {s : Settings} {c c' c₀ c₁ c₀' : Cache} {a : Word}
  {e e₀ : Entry} {source block : Block} {stats : Statistics} {compiled : Codegen.Compiled}

/-- The bytes that the blocks compiled so far take up. -/
def bytesPlaced (c : Cache) : Nat :=
  (c.catalog.addresses.map fun a =>
    if (c.lookup a).isSome then c.catalog.bytesAt c.platform c.settings a else 0).sum

/-- The next block goes no further than the blocks compiled so far reach, and the buffer has room
for all of them. -/
structure Roomy (c : Cache) : Prop where
  placed : c.buffer.nextOffset ≤ c.bytesPlaced
  room : c.catalog.codeBytes c.platform c.settings ≤ c.buffer.capacity

theorem roomy_create (h : create p catalog s = .ok c) (hroom : catalog.codeBytes p s ≤ s.codeSize) :
    c.Roomy := by
  obtain ⟨b, hb, h⟩ := bind_eq_ok.mp h
  cases pure_eq_ok.mp h
  obtain ⟨hcapacity, hused, -⟩ := CodeBuffer.create_spec hb
  refine ⟨?_, Nat.le_trans hroom hcapacity⟩
  show alignUp CodeBuffer.blockUnit b.used ≤ _
  rw [hused]
  exact Nat.zero_le _

theorem bytesAt_eq (hsource : catalog.fetch a = .ok source)
    (hblock : s.pipeline.run s.constantCap source {} = .ok (block, stats))
    (hcompiled : Codegen.compile p s block = .ok compiled) :
    catalog.bytesAt p s a = alignUp CodeBuffer.blockUnit compiled.code.length := by
  have hat : catalog.compiledAt p s a = .ok compiled :=
    bind_eq_ok.mpr ⟨source, hsource, bind_eq_ok.mpr ⟨_, hblock, hcompiled⟩⟩
  unfold Catalog.bytesAt
  rw [hat]

theorem mem_addresses_of_fetch (h : catalog.fetch a = .ok source) : a ∈ catalog.addresses := by
  unfold Catalog.fetch at h
  split at h
  · next b hb => exact AddressMap.mem_addresses_of_get? hb
  · cases h

/-- Compiling a block leaves the buffer with room for the others. -/
theorem Roomy.compile (hc : c.Roomy) (h : c.compile a = (.ok e, c')) : c'.Roomy := by
  obtain ⟨-, rfl⟩ | ⟨hnone, source, stats, compiled, extent, hsource, hblock, hcompiled, happend,
    hplatform, hcatalog, hsettings, hlookup⟩ := compile_cases h
  · exact hc
  · obtain ⟨hcapacity, hnext⟩ := CodeBuffer.append_spec happend
    refine ⟨?_, by rw [hplatform, hcatalog, hsettings, hcapacity]; exact hc.room⟩
    rw [hnext, ← bytesAt_eq hsource hblock hcompiled]
    refine Nat.le_trans (Nat.add_le_add_right hc.placed _) ?_
    unfold bytesPlaced
    rw [hplatform, hcatalog, hsettings]
    -- the sum over the catalog gains the bytes of this block, which did not count before
    refine sum_map_add_le (fun k => ?_) (mem_addresses_of_fetch hsource) ?_
    · rw [hlookup]
      by_cases hk : k = a
      · rw [if_pos hk, hk, hnone]
        exact Nat.zero_le _
      · rw [if_neg hk]
    · rw [hlookup, if_pos rfl, hnone]
      exact Nat.le_of_eq (Nat.zero_add _)

/-- **There is room for a block that is not in the cache.** -/
theorem Roomy.fits (hc : c.Roomy) (hnone : c.lookup a = none)
    (hsource : c.catalog.fetch a = .ok source)
    (hblock : c.settings.pipeline.run c.settings.constantCap source {} = .ok (block, stats))
    (hcompiled : Codegen.compile c.platform c.settings block = .ok compiled) :
    c.buffer.nextOffset + compiled.code.length ≤ c.buffer.capacity := by
  have hsum : c.bytesPlaced + alignUp CodeBuffer.blockUnit compiled.code.length
      ≤ c.catalog.codeBytes c.platform c.settings := by
    -- the block is not among those placed so far
    refine sum_map_add_le (fun k => ?_) (mem_addresses_of_fetch hsource) ?_
    · split
      · exact Nat.le_refl _
      · exact Nat.zero_le _
    · rw [hnone, bytesAt_eq hsource hblock hcompiled]
      exact Nat.le_of_eq (Nat.zero_add _)
  have hlength := le_alignUp (u := CodeBuffer.blockUnit) (by decide) compiled.code.length
  have hplaced := hc.placed
  have hroom := hc.room
  omega

/-- **A block that can be compiled goes into the cache**, if its buffer is mapped twice. -/
theorem Roomy.exists_compile (hc : c.Roomy) (htwice : c.buffer.mapping = .twice)
    (hsource : c.catalog.fetch a = .ok source)
    (hblock : c.settings.pipeline.run c.settings.constantCap source {} = .ok (block, stats))
    (hcompiled : Codegen.compile c.platform c.settings block = .ok compiled) :
    ∃ e c', c.compile a = (.ok e, c') ∧ c'.buffer.mapping = .twice := by
  cases hlookup : c.lookup a with
  | some e => exact ⟨e, c, by rw [Cache.compile, hlookup], htwice⟩
  | none =>
    obtain ⟨extent, buffer, happend, hbuffer⟩ := CodeBuffer.append_twice c.platform.system htwice
      (hc.fits hlookup hsource hblock hcompiled)
    obtain ⟨e, c', hcompile, -, rfl, -⟩ :=
      compile_of_append hlookup hsource hblock hcompiled happend
    exact ⟨e, c', hcompile, hbuffer⟩

/-! ## Two caches side by side -/

/-- The caches have entries at the same addresses, and the system was asked the same for both. -/
structure InStep (c₀ c₁ : Cache) : Prop where
  platform : c₁.platform = c₀.platform
  buffers : CodeBuffer.SameMapping c₀.buffer c₁.buffer
  known : ∀ a, (c₁.lookup a).isSome = (c₀.lookup a).isSome

theorem inStep_create {s₀ s₁ : Settings} (h₀ : create p catalog s₀ = .ok c₀)
    (h₁ : create p catalog s₁ = .ok c₁) (hsize : s₁.codeSize = s₀.codeSize) : InStep c₀ c₁ := by
  obtain ⟨b₀, hb₀, h₀⟩ := bind_eq_ok.mp h₀
  obtain ⟨b₁, hb₁, h₁⟩ := bind_eq_ok.mp h₁
  cases pure_eq_ok.mp h₀
  cases pure_eq_ok.mp h₁
  rw [hsize] at hb₁
  cases hb₀.symm.trans hb₁
  exact ⟨rfl, ⟨rfl, rfl⟩, fun _ => rfl⟩

/-- **A block goes into both caches.** If asking for it succeeds in one cache, then it succeeds in
the other, where it can be prepared and there is room for it. -/
theorem InStep.exists_compile (h : InStep c₀ c₁) (h₀ : c₀.compile a = (.ok e₀, c₀'))
    (hroom : c₁.Roomy) (hsource : c₁.catalog.fetch a = .ok source)
    (hblock : c₁.settings.pipeline.run c₁.settings.constantCap source {} = .ok (block, stats))
    (hcompiled : Codegen.compile c₁.platform c₁.settings block = .ok compiled) :
    ∃ e₁ c₁', c₁.compile a = (.ok e₁, c₁') ∧ InStep c₀' c₁' := by
  have hknown := h.known a
  obtain ⟨hentry, rfl⟩ | ⟨hnone, _, _, _, _, -, -, -, happend, hplatform, -, -, hlookup⟩ :=
    compile_cases h₀
  · rw [hentry, Option.isSome_some, Option.isSome_iff_exists] at hknown
    obtain ⟨e₁, he₁⟩ := hknown
    exact ⟨e₁, c₁, by rw [compile, he₁], h⟩
  · rw [hnone, Option.isSome_none, Option.isSome_eq_false_iff, Option.isNone_iff_eq_none] at hknown
    obtain ⟨extent, buffer, happend₁, hbuffers⟩ := CodeBuffer.append_congr h.buffers happend
      (hroom.fits hknown hsource hblock hcompiled)
    rw [← h.platform] at happend₁
    obtain ⟨e₁, c₁', hcompile, hplatform₁, rfl, hlookup₁⟩ :=
      compile_of_append hknown hsource hblock hcompiled happend₁
    refine ⟨e₁, c₁', hcompile, hplatform₁.trans (h.platform.trans hplatform.symm), hbuffers,
      fun k => ?_⟩
    rw [hlookup, hlookup₁]
    split
    · rfl
    · exact h.known k

end Cache

end Dynarec
