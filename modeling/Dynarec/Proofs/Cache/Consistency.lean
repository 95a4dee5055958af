/-
Entries, buffer and totals stay in step.

A translator is asked to compile, to look up, to list and to clear, in any order. What holds after
every such session is collected in `Consistent`: code starts at multiples of sixteen, no two entries
overlap, none reaches beyond what is used, and the bytes of an entry are the code that was made for
it when it was compiled, which is told by the place of that request in the session (`Origin`).

Three facts carry the induction. Asking for a block does one of three things (`compile_cases`): it
finds an entry and changes nothing, it fails, or it adds an entry whose code comes behind all
others. Code that is written leaves the bytes before it alone (`holds_write`), so an entry keeps its
code also where a change of protection is refused and the block that was written has no entry. And
clearing leaves no entry whose bytes could be overwritten.
-/
import Dynarec.Cache.Translator
import Dynarec.Proofs.Cache.Compilation
import Dynarec.Proofs.Cache.OptimizedRuns
import Mathlib.Data.List.Induction

set_option autoImplicit false

namespace Dynarec

/-! ## Entries in order -/

namespace AddressMap

variable {α : Type}

theorem mem_insertEntry {a : Word} {v : α} {l : List (Word × α)} {p : Word × α}
    (h : p ∈ insertEntry a v l) : p = (a, v) ∨ p ∈ l := by
  induction l with
  | nil => exact Or.inl (List.mem_singleton.mp h)
  | cons q rest ih =>
    obtain ⟨k, w⟩ := q
    unfold insertEntry at h
    split at h
    · exact List.mem_cons.mp h
    · split at h
      · exact (List.mem_cons.mp h).imp_right (List.mem_cons_of_mem _)
      · rcases List.mem_cons.mp h with h | h
        · exact Or.inr (h ▸ List.mem_cons_self)
        · exact (ih h).imp_right (List.mem_cons_of_mem _)

/-- Inserting keeps the addresses ascending. -/
theorem sorted_insertEntry (a : Word) (v : α) {l : List (Word × α)}
    (h : l.Pairwise fun p q => p.1 < q.1) : (insertEntry a v l).Pairwise fun p q => p.1 < q.1 := by
  induction l with
  | nil => exact List.pairwise_singleton _ _
  | cons q rest ih =>
    obtain ⟨k, w⟩ := q
    obtain ⟨hk, hrest⟩ := List.pairwise_cons.mp h
    unfold insertEntry
    split
    · next hlt =>
      refine List.pairwise_cons.mpr ⟨fun p hp => ?_, h⟩
      rcases List.mem_cons.mp hp with rfl | hp
      · exact hlt
      · exact UInt32.lt_trans hlt (hk p hp)
    · next hlt =>
      split
      · next heq =>
        subst heq
        exact List.pairwise_cons.mpr ⟨hk, hrest⟩
      · next hne =>
        -- the new address is behind `k`, and so is all that was
        refine List.pairwise_cons.mpr ⟨fun p hp => ?_, ih hrest⟩
        rcases mem_insertEntry hp with rfl | hp
        · exact UInt32.lt_of_le_of_ne (UInt32.not_lt.mp hlt) (Ne.symm hne)
        · exact hk p hp

/-- With ascending addresses an entry is found at its address. -/
theorem get?_of_mem {m : AddressMap α} (hm : m.entries.Pairwise fun p q => p.1 < q.1) {a : Word}
    {v : α} (h : (a, v) ∈ m.entries) : m.get? a = some v := by
  obtain ⟨l⟩ := m
  induction l with
  | nil => exact absurd h List.not_mem_nil
  | cons q rest ih =>
    obtain ⟨k, w⟩ := q
    obtain ⟨hk, hrest⟩ := List.pairwise_cons.mp hm
    rcases List.mem_cons.mp h with h | h
    · cases h
      simp [get?]
    · have hne : k ≠ a := UInt32.ne_of_lt (hk _ h)
      have hrest := ih hrest h
      simpa [get?, List.find?_cons, hne] using hrest

end AddressMap

/-! ## Code in a buffer -/

namespace CodeBuffer

variable {sys : System} {b b' : CodeBuffer} {e : Extent} {code : List UInt8}

/-- The bytes at an extent, which lies in the used part, are the given code. -/
structure Holds (b : CodeBuffer) (e : Extent) (code : List UInt8) : Prop where
  inside : e.stop ≤ b.used
  written : e.stop ≤ b.contents.length
  bytes : (b.contents.drop e.offset).take e.length = code

/-- Sizes of the buffer are double words and no block goes past its end. -/
structure Sound (b : CodeBuffer) : Prop where
  capacity_lt : b.capacity < doubleWords
  used_le : b.used ≤ b.capacity

theorem Holds.read_eq (h : b.Holds e code) (hb : b.Sound) : b.read e = .ok code := by
  have hstop : asDouble e.stop = .ok e.stop :=
    if_pos (Nat.lt_of_le_of_lt (Nat.le_trans h.inside hb.used_le) hb.capacity_lt)
  rw [read, hstop]
  show (if b.used < e.stop then _ else _) = _
  rw [if_neg (Nat.not_lt.mpr h.inside), h.bytes]
  rfl

theorem sound_reset (hb : b.Sound) : b.reset.Sound := ⟨hb.capacity_lt, Nat.zero_le _⟩

theorem length_take_padTo (n : Nat) (bytes : List UInt8) :
    ((padTo n bytes).take n).length = n := by
  simp only [padTo, List.length_take, List.length_append, List.length_replicate]
  omega

/-- The bytes in front of what is overwritten stay. -/
theorem take_overwrite {bytes : List UInt8} {offset n : Nat} (hoffset : n ≤ offset)
    (hwritten : n ≤ bytes.length) (code : List UInt8) :
    (overwrite bytes offset code).take n = bytes.take n := by
  have hlength := length_take_padTo offset bytes
  rw [overwrite, List.append_assoc, List.take_append_of_le_length (by omega), List.take_take,
    Nat.min_eq_left hoffset, padTo, List.take_append_of_le_length hwritten]

/-- The bytes that were written are there. -/
theorem drop_overwrite (bytes : List UInt8) (offset : Nat) (code : List UInt8) :
    ((overwrite bytes offset code).drop offset).take code.length = code := by
  rw [overwrite, List.append_assoc, List.drop_append_of_le_length (by rw [length_take_padTo]),
    List.drop_of_length_le (by rw [length_take_padTo]), List.nil_append, List.take_left]

theorem Holds.congr (h : b.Holds e code) (hsame : SameCode b b') : b'.Holds e code :=
  ⟨hsame.used ▸ h.inside, hsame.contents ▸ h.written, hsame.contents ▸ h.bytes⟩

theorem Sound.congr (h : b.Sound) (hsame : SameCode b b') : b'.Sound :=
  ⟨hsame.capacity ▸ h.capacity_lt, by rw [hsame.used, hsame.capacity]; exact h.used_le⟩

/-- **Code that is written is there, and what was there before still is.** -/
theorem holds_write (hb : b.Sound) (h : b.place code.length = .ok e) :
    blockUnit ∣ e.offset ∧ b.used ≤ e.offset ∧ (b.write e code).Sound ∧
      (b.write e code).Holds e code ∧
      ∀ e₀ code₀, b.Holds e₀ code₀ → (b.write e code).Holds e₀ code₀ := by
  unfold place at h
  dsimp only at h
  split at h
  · cases h
  · next hroom =>
    cases h
    have hnext : b.used ≤ b.nextOffset := le_alignUp (by decide) b.used
    refine ⟨Nat.dvd_mul_left _ _, hnext, ⟨hb.capacity_lt, Nat.not_lt.mp hroom⟩,
      ⟨Nat.le_refl _, ?_, drop_overwrite _ _ _⟩, fun e₀ code₀ h₀ => ⟨?_, ?_, ?_⟩⟩
    · show b.nextOffset + code.length ≤ (overwrite b.contents b.nextOffset code).length
      simp only [overwrite, List.length_append, length_take_padTo]
      omega
    -- what was there ends before the new code, so its bytes are among those that stay
    · exact Nat.le_trans h₀.inside (Nat.le_trans hnext (Nat.le_add_right _ _))
    · have hlength := congrArg List.length
        (take_overwrite (Nat.le_trans h₀.inside hnext) h₀.written code)
      rw [List.length_take, List.length_take] at hlength
      have hwritten := h₀.written
      show e₀.stop ≤ (overwrite b.contents b.nextOffset code).length
      omega
    · show ((overwrite b.contents b.nextOffset code).drop e₀.offset).take e₀.length = code₀
      rw [List.take_drop, ← Extent.stop, take_overwrite (Nat.le_trans h₀.inside hnext) h₀.written,
        Extent.stop, ← List.take_drop]
      exact h₀.bytes

/-- **Code that is added is there, and what was there before still is.** -/
theorem holds_append (hb : b.Sound) (h : b.append sys code = (.ok e, b')) :
    blockUnit ∣ e.offset ∧ b.used ≤ e.offset ∧ b'.Sound ∧ b'.Holds e code ∧
      ∀ e₀ code₀, b.Holds e₀ code₀ → b'.Holds e₀ code₀ := by
  have hadded := added_append sys b code
  rw [h] at hadded
  cases hadded with
  | placed hplace hcode =>
    obtain ⟨haligned, hbehind, hsound, hholds, hkept⟩ := holds_write hb hplace
    exact ⟨haligned, hbehind, hsound.congr hcode, hholds.congr hcode,
      fun e₀ code₀ h₀ => (hkept e₀ code₀ h₀).congr hcode⟩

/-- Where code is not added, what was there before still is; and the buffer is as it was, unless a
change of protection was refused. -/
theorem holds_append_error {f : Fault} (hb : b.Sound) (h : b.append sys code = (.error f, b')) :
    (b' = b ∨ Refused sys b f) ∧ b'.Sound ∧ ∀ e₀ code₀, b.Holds e₀ code₀ → b'.Holds e₀ code₀ := by
  have hadded := added_append sys b code
  rw [h] at hadded
  cases hadded with
  | full => exact ⟨Or.inl rfl, hb, fun _ _ h₀ => h₀⟩
  | refused hrefused hcode =>
    refine ⟨Or.inr hrefused, ?_⟩
    obtain hcode | ⟨e, hplace, hcode⟩ := hcode
    · exact ⟨hb.congr hcode, fun _ _ h₀ => h₀.congr hcode⟩
    · obtain ⟨-, -, hsound, -, hkept⟩ := holds_write hb hplace
      exact ⟨hsound.congr hcode, fun e₀ code₀ h₀ => (hkept e₀ code₀ h₀).congr hcode⟩

theorem sound_create {size : Nat} (h : create sys size = .ok b) : b.Sound := by
  obtain ⟨-, hused, hlt, -⟩ := create_spec h
  exact ⟨hlt, by rw [hused]; exact Nat.zero_le _⟩

end CodeBuffer

namespace Translator

variable {σ : Type} {f : Frontend σ} {p : Platform} {t t' : Translator σ} {a : Word} {e : Entry}

/-! ## One compilation -/

/-- From the block that the frontend has at an address, `code` is made, and `e` is the entry for
it. -/
def Makes (f : Frontend σ) (p : Platform) (settings : Settings) (source : σ) (a : Word) (e : Entry)
    (code : List UInt8) : Prop :=
  ∃ block source' stats compiled, f.translate a source = (.ok block, source') ∧
    settings.pipeline.run settings.constantCap block {} = .ok (e.block, stats) ∧
    Codegen.compile p settings e.block = .ok compiled ∧ compiled.code = code ∧
    e.addr = a ∧ e.nativeOps = compiled.nativeOps ∧ e.helperOps = compiled.helperOps

section Steps

variable {α β : Type}

theorem run_get (t : Translator σ) : (get : Action σ (Translator σ)).run.run t = (.ok t, t) := rfl

theorem run_outcome (r : Except Fault α) (t : Translator σ) :
    (outcome r : Action σ α).run.run t = (r, t) := rfl

theorem run_fetch (f : Frontend σ) (a : Word) (t : Translator σ) :
    (fetch f a).run.run t =
      ((f.translate a t.source).1, { t with source := (f.translate a t.source).2 }) := rfl

theorem run_place (code : List UInt8) (t : Translator σ) :
    (place code : Action σ Extent).run.run t =
      ((t.buffer.append t.platform.system code).1,
        { t with buffer := (t.buffer.append t.platform.system code).2 }) := rfl

end Steps

theorem run_compile (f : Frontend σ) (a : Word) (t : Translator σ) :
    (compile f a).run.run t =
      match t.lookup a with
      | some e => (.ok e, t)
      | none => (compileNew f a).run.run t := by
  unfold compile
  rw [run_bind]
  show (match t.lookup a with | some e => _ | none => _ : Action σ Entry).run.run t = _
  cases t.lookup a <;> rfl

/-- The block that the frontend has produced, optimised and compiled. -/
def prepared (t : Translator σ) (source : Block) :
    Except Fault (Block × Statistics × Codegen.Compiled) := do
  let (block, stats) ← t.settings.pipeline.run t.settings.constantCap source {}
  return (block, stats, ← Codegen.compile t.platform t.settings block)

/-- The steps that follow once the frontend has produced a block, taken as one. -/
def finish (t : Translator σ) (a : Word) (source : Block) : Except Fault Entry × Translator σ :=
  match t.prepared source with
  | .error fault => (.error fault, t)
  | .ok (block, stats, compiled) =>
    match t.buffer.append t.platform.system compiled.code with
    | (.error fault, buffer) => (.error fault, { t with buffer := buffer })
    | (.ok extent, buffer) =>
      let stats := (compiled.record stats).block a block.size compiled.code.length
      let entry : Entry :=
        { addr := a, extent := extent, block := block,
          nativeOps := compiled.nativeOps, helperOps := compiled.helperOps }
      (.ok entry,
        { t with
          buffer := buffer
          entries := t.entries.insert a entry
          totals := t.totals.merge stats })

/-- No step that can fail changes more than the frontend and the buffer. -/
theorem run_compileNew (f : Frontend σ) (a : Word) (t : Translator σ) :
    (compileNew f a).run.run t =
      match f.translate a t.source with
      | (.error fault, source) => (.error fault, { t with source := source })
      | (.ok block, source) => finish { t with source := source } a block := by
  rw [compileNew, run_bind, run_fetch]
  rcases f.translate a t.source with ⟨_ | block, source⟩
  · rfl
  · simp only [run_bind, run_get, run_outcome, finish, prepared]
    cases t.settings.pipeline.run t.settings.constantCap block {} with
    | error fault => rfl
    | ok r =>
      simp only [bind, Except.bind]
      cases Codegen.compile t.platform t.settings r.1 with
      | error fault => rfl
      | ok compiled =>
        simp only [run_place, pure, Except.pure]
        rcases t.buffer.append t.platform.system compiled.code with ⟨_ | _, _⟩ <;> rfl

/-- **What asking for a block does.** -/
theorem compile_cases (f : Frontend σ) (t : Translator σ) (a : Word) :
    (∃ e, t.lookup a = some e ∧ (compile f a).run.run t = (.ok e, t)) ∨
    (t.lookup a = none ∧ ∃ fault source buffer,
      (compile f a).run.run t = (.error fault, { t with source := source, buffer := buffer }) ∧
      (buffer = t.buffer ∨ ∃ code,
        t.buffer.append t.platform.system code = (.error fault, buffer))) ∨
    (t.lookup a = none ∧ ∃ e t' code, (compile f a).run.run t = (.ok e, t') ∧
      Makes f t.platform t.settings t.source a e code ∧
      t.buffer.append t.platform.system code = (.ok e.extent, t'.buffer) ∧
      t'.platform = t.platform ∧ t'.settings = t.settings ∧
      t'.entries = t.entries.insert a e) := by
  rw [run_compile]
  cases t.lookup a with
  | some e => exact Or.inl ⟨e, rfl, rfl⟩
  | none =>
    right
    simp only [true_and]
    rw [run_compileNew]
    rcases hsource : f.translate a t.source with ⟨fault | block, source⟩
    · exact Or.inl ⟨fault, source, t.buffer, rfl, Or.inl rfl⟩
    · simp only [finish]
      cases hprepared : prepared { t with source := source } block with
      | error fault => exact Or.inl ⟨fault, source, t.buffer, rfl, Or.inl rfl⟩
      | ok r =>
        obtain ⟨⟨optimized, stats⟩, hrun, h⟩ := bind_eq_ok.mp hprepared
        obtain ⟨compiled, hcompiled, h⟩ := bind_eq_ok.mp h
        cases pure_eq_ok.mp h
        simp only
        rcases happend : t.buffer.append t.platform.system compiled.code with
          ⟨fault | extent, buffer⟩
        · exact Or.inl ⟨fault, source, buffer, rfl, Or.inr ⟨compiled.code, happend⟩⟩
        · exact Or.inr ⟨_, _, compiled.code, rfl, ⟨block, source, stats, compiled, hsource, hrun,
            hcompiled, rfl, rfl, rfl, rfl⟩, happend, rfl, rfl, rfl⟩

/-- A cache is a translator whose frontend is its catalog: it finds the same entry, or fails in the
same way, and goes on as the same translator. -/
theorem compile_ofCache (c : Cache) (a : Word) :
    (compile Catalog.frontend a).run.run (ofCache c)
      = ((c.compile a).1, ofCache (c.compile a).2) := by
  have hsource : Catalog.frontend.translate a (ofCache c).source = (c.catalog.fetch a, c.catalog) :=
    rfl
  have hlookup : (ofCache c).lookup a = c.lookup a := rfl
  rw [run_compile, run_compileNew, hsource, hlookup, Cache.compile, Cache.compileNew]
  cases c.lookup a with
  | some e => rfl
  | none =>
    cases hfetch : c.catalog.fetch a with
    | error fault =>
      have hprepare : c.prepare a = .error fault := by
        rw [Cache.prepare, hfetch]
        rfl
      rw [hprepare]
      rfl
    | ok source =>
      have hprepare : c.prepare a = (ofCache c).prepared source := by
        rw [Cache.prepare, hfetch]
        rfl
      rw [hprepare]
      show finish (ofCache c) a source = _
      rw [finish]
      rcases (ofCache c).prepared source with fault | ⟨block, stats, compiled⟩
      · rfl
      · have happend : (ofCache c).buffer.append (ofCache c).platform.system compiled.code =
            c.buffer.append c.platform.system compiled.code := rfl
        dsimp only
        rw [happend]
        rcases c.buffer.append c.platform.system compiled.code with ⟨_ | _, _⟩ <;> rfl

/-! ## Sessions -/

/-- The entry was made by a request for its address after which nothing was cleared, with the
given code. -/
def Origin (f : Frontend σ) (p : Platform) (settings : Settings) (t₀ : Translator σ)
    (requests : List Request) (a : Word) (e : Entry) (code : List UInt8) : Prop :=
  ∃ earlier later, requests = earlier ++ .compile a :: later ∧ Request.clear ∉ later ∧
    Makes f p settings (after f t₀ earlier).source a e code

/-- What holds after a session. -/
structure Consistent (f : Frontend σ) (p : Platform) (settings : Settings) (t₀ : Translator σ)
    (requests : List Request) (t : Translator σ) : Prop where
  platform_eq : t.platform = p
  settings_eq : t.settings = settings
  sound : t.buffer.Sound
  sorted : t.entries.entries.Pairwise fun p q => p.1 < q.1
  /-- Code starts at a multiple of sixteen and is the code that was made. -/
  held : ∀ a e, t.lookup a = some e → CodeBuffer.blockUnit ∣ e.extent.offset ∧
    ∃ code, t.buffer.Holds e.extent code ∧ Origin f p settings t₀ requests a e code
  /-- Code of different entries does not overlap. -/
  apart : ∀ a a' e e', t.lookup a = some e → t.lookup a' = some e' → a ≠ a' →
    e.extent.stop ≤ e'.extent.offset ∨ e'.extent.stop ≤ e.extent.offset

section Sessions

variable {settings : Settings} {t₀ : Translator σ} {requests : List Request} {code : List UInt8}

theorem after_concat (r : Request) :
    after f t₀ (requests ++ [r]) = (serve f (after f t₀ requests) r).2 := by
  rw [after, List.foldl_append]
  rfl

theorem after_compile (a : Word) (requests : List Request) :
    after f t (.compile a :: requests) = after f ((compile f a).run.run t).2 requests := rfl

theorem after_lookup (a : Word) (requests : List Request) :
    after f t (.lookup a :: requests) = after f t requests := rfl

theorem Origin.concat (h : Origin f p settings t₀ requests a e code) {r : Request}
    (hr : r ≠ .clear) :
    Origin f p settings t₀ (requests ++ [r]) a e code := by
  obtain ⟨earlier, later, rfl, hlater, hmakes⟩ := h
  refine ⟨earlier, later ++ [r], ?_, ?_, hmakes⟩
  · rw [List.append_assoc, List.cons_append]
  · rw [List.mem_append, List.mem_singleton, not_or]
    exact ⟨hlater, Ne.symm hr⟩

theorem consistent_create {source : σ} (h : create p source settings = .ok t) :
    Consistent f p settings t₀ [] t := by
  obtain ⟨b, hb, h⟩ := bind_eq_ok.mp h
  cases pure_eq_ok.mp h
  exact ⟨rfl, rfl, CodeBuffer.sound_create hb, .nil, nofun, nofun⟩

/-- A request that leaves the entries alone, and the buffer with all that it holds. -/
theorem Consistent.unchanged (ht : Consistent f p settings t₀ requests t) {r : Request}
    (hr : r ≠ .clear) (hplatform : t'.platform = t.platform) (hsettings : t'.settings = t.settings)
    (hsound : t'.buffer.Sound) (hkept : ∀ e code, t.buffer.Holds e code → t'.buffer.Holds e code)
    (hentries : t'.entries = t.entries) : Consistent f p settings t₀ (requests ++ [r]) t' := by
  have hlookup : ∀ a, t'.lookup a = t.lookup a := fun a => by rw [lookup, hentries, ← lookup]
  refine ⟨hplatform.trans ht.platform_eq, hsettings.trans ht.settings_eq, hsound,
    hentries ▸ ht.sorted, fun a e he => ?_, fun a a' e e' he he' => ?_⟩
  · rw [hlookup] at he
    obtain ⟨haligned, code, hholds, horigin⟩ := ht.held a e he
    exact ⟨haligned, code, hkept _ _ hholds, horigin.concat hr⟩
  · rw [hlookup] at he he'
    exact ht.apart a a' e e' he he'

/-- A request that adds an entry, whose code comes behind that of all others. -/
theorem Consistent.insert (ht : Consistent f p settings t₀ requests t)
    (hsource : t.source = (after f t₀ requests).source)
    (hmakes : Makes f t.platform t.settings t.source a e code)
    (happend : t.buffer.append t.platform.system code = (.ok e.extent, t'.buffer))
    (hplatform : t'.platform = t.platform) (hsettings : t'.settings = t.settings)
    (hentries : t'.entries = t.entries.insert a e) :
    Consistent f p settings t₀ (requests ++ [.compile a]) t' := by
  obtain ⟨haligned, hbehind, hsound, hholds, hkept⟩ := CodeBuffer.holds_append ht.sound happend
  have hlookup : ∀ k, t'.lookup k = if k = a then some e else t.lookup k := fun k => by
    rw [lookup, hentries, AddressMap.get?_insert, ← lookup]
  have horigin : Origin f p settings t₀ (requests ++ [.compile a]) a e code :=
    ⟨requests, [], rfl, List.not_mem_nil, hsource ▸ ht.platform_eq ▸ ht.settings_eq ▸ hmakes⟩
  -- an old entry ends where the buffer was used up to, before the new one
  have hbefore : ∀ k e₀, t.lookup k = some e₀ → e₀.extent.stop ≤ e.extent.offset := by
    intro k e₀ he₀
    obtain ⟨-, code₀, hholds₀, -⟩ := ht.held k e₀ he₀
    exact Nat.le_trans hholds₀.inside hbehind
  refine ⟨hplatform.trans ht.platform_eq, hsettings.trans ht.settings_eq, hsound, ?_,
    fun k e₀ he₀ => ?_, fun k k' e₀ e₁ he₀ he₁ hne => ?_⟩
  · rw [hentries]
    exact AddressMap.sorted_insertEntry a e ht.sorted
  · rw [hlookup] at he₀
    split at he₀
    · next hk =>
      subst hk
      cases he₀
      exact ⟨haligned, code, hholds, horigin⟩
    · obtain ⟨haligned₀, code₀, hholds₀, horigin₀⟩ := ht.held k e₀ he₀
      exact ⟨haligned₀, code₀, hkept _ _ hholds₀, horigin₀.concat (by nofun)⟩
  · rw [hlookup] at he₀ he₁
    split at he₀
    · next hk =>
      cases he₀
      rw [if_neg fun hk' => hne (hk.trans hk'.symm)] at he₁
      exact Or.inr (hbefore k' e₁ he₁)
    · split at he₁
      · cases he₁
        exact Or.inl (hbefore k e₀ he₀)
      · exact ht.apart k k' e₀ e₁ he₀ he₁ hne

/-- **One request.** -/
theorem Consistent.serve (ht : Consistent f p settings t₀ requests (after f t₀ requests))
    (r : Request) :
    Consistent f p settings t₀ (requests ++ [r]) (after f t₀ (requests ++ [r])) := by
  rw [after_concat]
  generalize hafter : after f t₀ requests = t at ht
  cases r with
  | lookup a => exact ht.unchanged (by nofun) rfl rfl ht.sound (fun _ _ h => h) rfl
  | blocks => exact ht.unchanged (by nofun) rfl rfl ht.sound (fun _ _ h => h) rfl
  | clear =>
    -- no entry is left, so nothing is said about bytes that will be overwritten
    exact ⟨ht.platform_eq, ht.settings_eq, CodeBuffer.sound_reset ht.sound, .nil, nofun, nofun⟩
  | compile a =>
    show Consistent f p settings t₀ (requests ++ [.compile a]) ((compile f a).run.run t).2
    obtain ⟨e, -, hrun⟩ | ⟨-, fault, source, buffer, hrun, hbuffer⟩ | ⟨-, e, t', code, hrun, hmakes,
      happend, hplatform, hsettings, hentries⟩ := compile_cases f t a
    · rw [hrun]
      exact ht.unchanged (by nofun) rfl rfl ht.sound (fun _ _ h => h) rfl
    · rw [hrun]
      obtain rfl | ⟨code, happend⟩ := hbuffer
      · exact ht.unchanged (by nofun) rfl rfl ht.sound (fun _ _ h => h) rfl
      · obtain ⟨-, hsound, hkept⟩ := CodeBuffer.holds_append_error ht.sound happend
        exact ht.unchanged (by nofun) rfl rfl hsound hkept rfl
    · rw [hrun]
      exact ht.insert (by rw [hafter]) hmakes happend hplatform hsettings hentries

/-- **Any session.** -/
theorem consistent_after {source : σ} (h : create p source settings = .ok t₀)
    (requests : List Request) : Consistent f p settings t₀ requests (after f t₀ requests) := by
  induction requests using List.reverseRecOn with
  | nil => exact consistent_create h
  | append_singleton requests r ih => exact ih.serve r

/-- The entries that are listed are those that are found, in ascending order. -/
theorem Consistent.blocks (ht : Consistent f p settings t₀ requests t) :
    (t.blocks.Pairwise fun e e' => e.addr < e'.addr) ∧
      ∀ e, e ∈ t.blocks ↔ t.lookup e.addr = some e := by
  have haddr : ∀ p ∈ t.entries.entries, p.2.addr = p.1 := by
    intro p hp
    obtain ⟨-, code, -, -, -, -, -, _, _, _, _, -, -, -, -, haddr, -⟩ :=
      ht.held p.1 p.2 (AddressMap.get?_of_mem ht.sorted hp)
    exact haddr
  refine ⟨?_, fun e => ⟨fun he => ?_, fun he => AddressMap.mem_values_of_get? he⟩⟩
  · rw [Translator.blocks, AddressMap.values, List.pairwise_map]
    exact ht.sorted.imp_of_mem fun hp hq hlt => by rwa [haddr _ hp, haddr _ hq]
  · obtain ⟨p, hp, rfl⟩ := List.mem_map.mp he
    rw [haddr p hp]
    exact AddressMap.get?_of_mem ht.sorted hp

/-- **Entries and buffer stay in step over any session,** whatever the frontend and the settings.
The code of an entry starts at a multiple of sixteen, ends where the buffer is used at the latest,
does not overlap that of another entry, and is what was made for the address when it was asked for;
the buffer is not used beyond its capacity. The entries listed are those found. Asking again for a
block that has an entry gives this entry and changes nothing; asking in vain leaves entries and
totals as they were, and the buffer unless a change of its protection was refused. A cache is such a
translator. -/
theorem session_consistent {source : σ} (h : create p source settings = .ok t₀)
    (requests : List Request) :
    (∀ a e, (after f t₀ requests).lookup a = some e →
      CodeBuffer.blockUnit ∣ e.extent.offset ∧
        e.extent.stop ≤ (after f t₀ requests).buffer.used ∧
        ∃ code, (after f t₀ requests).codeOf e = .ok code ∧
          Origin f p settings t₀ requests a e code) ∧
      (∀ a a' e e', (after f t₀ requests).lookup a = some e →
        (after f t₀ requests).lookup a' = some e' → a ≠ a' →
        e.extent.stop ≤ e'.extent.offset ∨ e'.extent.stop ≤ e.extent.offset) ∧
      (after f t₀ requests).buffer.used ≤ (after f t₀ requests).buffer.capacity ∧
      (((after f t₀ requests).blocks.Pairwise fun e e' => e.addr < e'.addr) ∧
        ∀ e, e ∈ (after f t₀ requests).blocks ↔ (after f t₀ requests).lookup e.addr = some e) ∧
      (∀ a e, (after f t₀ requests).lookup a = some e →
        (compile f a).run.run (after f t₀ requests) = (.ok e, after f t₀ requests)) ∧
      (∀ a fault t', (compile f a).run.run (after f t₀ requests) = (.error fault, t') →
        t'.entries = (after f t₀ requests).entries ∧ t'.totals = (after f t₀ requests).totals ∧
          (t'.buffer = (after f t₀ requests).buffer ∨
            (after f t₀ requests).buffer.Refused p.system fault)) ∧
      ∀ (c : Cache) (a : Word), (compile Catalog.frontend a).run.run (ofCache c) =
        ((c.compile a).1, ofCache (c.compile a).2) := by
  have ht := consistent_after (f := f) h requests
  -- from here on only the invariant matters, not the session that led to it
  generalize after f t₀ requests = t at ht
  refine ⟨fun a e he => ?_, ht.apart, ht.sound.used_le, ht.blocks, fun a e he => ?_,
    fun a fault t' hrun => ?_, compile_ofCache⟩
  · obtain ⟨haligned, code, hholds, horigin⟩ := ht.held a e he
    exact ⟨haligned, hholds.inside, code, hholds.read_eq ht.sound, horigin⟩
  · rw [run_compile, he]
  · obtain ⟨e, -, hok⟩ | ⟨-, fault', source, buffer, herror, hbuffer⟩ | ⟨-, e, t'', code, hok, -⟩ :=
      compile_cases f t a
    · cases hok.symm.trans hrun
    · cases herror.symm.trans hrun
      refine ⟨rfl, rfl, ?_⟩
      obtain rfl | ⟨code, happend⟩ := hbuffer
      · exact Or.inl rfl
      · exact ht.platform_eq ▸ (CodeBuffer.holds_append_error ht.sound happend).1
    · cases hok.symm.trans hrun

end Sessions

/-- A session on the catalog with the loop: after a block that does not exist, the loop is compiled,
looked up and asked for again. -/
theorem session_consistent_spin :
    ∃ t₀ e code, create spinHost spin spinSettings.plain = .ok t₀ ∧
      let t := after Catalog.frontend t₀
        [.compile 0x2000, .compile 0x1000, .lookup 0x1000, .compile 0x1000]
      t.lookup 0x1000 = some e ∧ CodeBuffer.blockUnit ∣ e.extent.offset ∧
        e.extent.stop ≤ t.buffer.used ∧ t.codeOf e = .ok code ∧
        (compile Catalog.frontend 0x1000).run.run t = (.ok e, t) := by
  obtain ⟨b, hb, htwice⟩ : ∃ b, CodeBuffer.create spinHost.system 4096 = .ok b ∧
      b.mapping = .twice := ⟨_, rfl, rfl⟩
  let c₀ : Cache :=
    { platform := spinHost, catalog := spin, settings := spinSettings.plain, buffer := b }
  have hcreate : Cache.create spinHost spin spinSettings.plain = .ok c₀ :=
    bind_eq_ok.mpr ⟨b, hb, rfl⟩
  have hstart : create spinHost spin spinSettings.plain = .ok (ofCache c₀) :=
    bind_eq_ok.mpr ⟨b, hb, rfl⟩
  -- the block at the second address is compiled
  have hrun := spinning_of_spinning
  obtain ⟨⟨compiled, hcompiled⟩, hroom⟩ := codeBytes_spin spinSettings.plain rfl hrun (Or.inl rfl)
  have hfetch : spin.fetch 0x1000 = .ok spinning := by rfl
  obtain ⟨e, c₁, hcompile, -⟩ : ∃ e c₁, c₀.compile 0x1000 = (.ok e, c₁) ∧
      c₁.buffer.mapping = .twice :=
    (Cache.roomy_create hcreate hroom).exists_compile htwice hfetch hrun hcompiled
  have hlookup : c₁.lookup 0x1000 = some e := by
    obtain ⟨hentry, -⟩ | ⟨-, _, _, _, _, -, -, -, -, -, -, -, hlookup⟩ :=
      Cache.compile_cases hcompile
    · cases hentry
    · rw [hlookup, if_pos rfl]
  have hfirst : (compile Catalog.frontend 0x2000).run.run (ofCache c₀) =
      (.error (.unknownBlock 0x2000), ofCache c₀) := by
    rw [compile_ofCache]
    rfl
  have hsecond : (compile Catalog.frontend 0x1000).run.run (ofCache c₀) = (.ok e, ofCache c₁) := by
    rw [compile_ofCache, hcompile]
  have hagain : (compile Catalog.frontend 0x1000).run.run (ofCache c₁) = (.ok e, ofCache c₁) := by
    rw [compile_ofCache, Cache.compile, hlookup]
  have hafter : after Catalog.frontend (ofCache c₀)
      [.compile 0x2000, .compile 0x1000, .lookup 0x1000, .compile 0x1000] = ofCache c₁ := by
    rw [after_compile, hfirst, after_compile, hsecond, after_lookup, after_compile, hagain]
    rfl
  obtain ⟨hentries, -, -, -, hcached, -⟩ := session_consistent (f := Catalog.frontend) hstart
    [.compile 0x2000, .compile 0x1000, .lookup 0x1000, .compile 0x1000]
  rw [hafter] at hentries hcached
  obtain ⟨haligned, hinside, code, hcode, -⟩ := hentries 0x1000 e hlookup
  refine ⟨ofCache c₀, e, code, hstart, ?_⟩
  rw [hafter]
  exact ⟨hlookup, haligned, hinside, hcode, hcached 0x1000 e hlookup⟩

end Translator

end Dynarec
