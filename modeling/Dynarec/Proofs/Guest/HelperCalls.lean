/-
The interpreter call is the interpreter.

Three things meet in the call that compiled code makes. The packed word: its five fields do not
overlap and fill the double word, so packing loses nothing and no word has two meanings
(`toNat_pack`). The machine: an instruction is executed as it is anywhere else, and the answer says
which of its three outcomes it had (`Answers`). The place where a fault waits: a call that answers
either leaves a fault there, whatever was there before, or leaves the place alone (`call_cases`), so
calls that do not fault can come between a fault and its taking (`Quietly`).
-/
import Dynarec.Guest.Helper
import Dynarec.Proofs.Guest.Accesses
import Mathlib.Algebra.Group.Nat.Defs

set_option autoImplicit false

namespace Dynarec

/-! ## Opcode bytes -/

theorem Opcode.nodup_all : Opcode.all.Nodup := by decide

theorem Opcode.code_of_ofCode? {b : UInt8} {op : Opcode} (h : Opcode.ofCode? b = some op) :
    op.code = b := by
  have hlt : op.code.toNat < Opcode.all.length := by
    cases op <;> decide
  exact UInt8.toNat_inj.mp
    ((List.getElem?_inj hlt Opcode.nodup_all).mp ((Opcode.ofCode?_code op).trans h.symm))

theorem Opcode.ofCode?_eq_none_iff {b : UInt8} :
    Opcode.ofCode? b = none ↔ ∀ op : Opcode, op.code ≠ b := by
  constructor
  · rintro h op rfl
    exact Option.some_ne_none op ((Opcode.ofCode?_code op).symm.trans h)
  · intro h
    cases hop : Opcode.ofCode? b with
    | none => rfl
    | some op => exact absurd (Opcode.code_of_ofCode? hop) (h op)

namespace Helper

open Guest (Machine Memory State step)

variable {i : Inst} {k : Word} {w : UInt64}

/-! ## Packed instructions -/

/-- A field above all the bits of a double word adds to it. -/
theorem toNat_or_shiftLeft {x y s : UInt64} (n : Nat) (hs : s.toNat = n) (hn : n < 64)
    (hx : x.toNat < 2 ^ n) (hy : y.toNat * 2 ^ n < 2 ^ 64) :
    (x ||| (y <<< s)).toNat = x.toNat + y.toNat * 2 ^ n := by
  have hshift : (y <<< s).toNat = y.toNat * 2 ^ n := by
    rw [UInt64.toNat_shiftLeft, hs, Nat.mod_eq_of_lt hn, Nat.shiftLeft_eq, Nat.mod_eq_of_lt hy]
  rw [UInt64.toNat_or, hshift, Nat.or_comm, Nat.mul_comm, ← Nat.two_pow_add_eq_or_of_lt hx,
    Nat.add_comm]

/-- **The fields of a packed word** lie one above the other. -/
theorem toNat_pack (i : Inst) (k : Word) :
    (pack i k).toNat = i.op.code.toNat + i.dest.toNat * 2 ^ 8 + i.src1.toNat * 2 ^ 16
      + i.src2.toNat * 2 ^ 24 + k.toNat * 2 ^ 32 := by
  have hcode := i.op.code.toNat_lt
  have hdest := i.dest.toNat_lt
  have hsrc1 := i.src1.toNat_lt
  have hsrc2 := i.src2.toNat_lt
  have hk := k.toNat_lt
  simp only [← UInt8.toNat_toUInt64, ← UInt32.toNat_toUInt64] at *
  have h8 : (i.op.code.toUInt64 ||| (i.dest.toUInt64 <<< 8)).toNat = _ :=
    toNat_or_shiftLeft 8 rfl (by decide) (by omega) (by omega)
  have h16 : (i.op.code.toUInt64 ||| (i.dest.toUInt64 <<< 8) ||| (i.src1.toUInt64 <<< 16)).toNat =
      _ := toNat_or_shiftLeft 16 rfl (by decide) (by rw [h8]; omega) (by omega)
  have h24 : (i.op.code.toUInt64 ||| (i.dest.toUInt64 <<< 8) ||| (i.src1.toUInt64 <<< 16)
      ||| (i.src2.toUInt64 <<< 24)).toNat = _ :=
    toNat_or_shiftLeft 24 rfl (by decide) (by rw [h16, h8]; omega) (by omega)
  rw [pack, toNat_or_shiftLeft 32 rfl (by decide) (by rw [h24, h16, h8]; omega) (by omega), h24,
    h16, h8]

theorem toNat_byte (w : UInt64) {s : UInt64} (n : Nat) (hs : s.toNat = n) (hn : n < 64) :
    ((w >>> s).toUInt8).toNat = w.toNat / 2 ^ n % 2 ^ 8 := by
  rw [UInt64.toNat_toUInt8, UInt64.toNat_shiftRight, hs, Nat.mod_eq_of_lt hn,
    Nat.shiftRight_eq_div_pow]

theorem toNat_high (w : UInt64) : ((w >>> 32).toUInt32).toNat = w.toNat / 2 ^ 32 := by
  have hw := w.toNat_lt
  have hshift : (w >>> 32).toNat = w.toNat / 2 ^ 32 :=
    (UInt64.toNat_shiftRight w 32).trans (Nat.shiftRight_eq_div_pow w.toNat 32)
  rw [UInt64.toNat_toUInt32, hshift]
  omega

/-- **Nothing is lost in packing.** -/
theorem unpack?_pack (i : Inst) (k : Word) : unpack? (pack i k) = some (i, k) := by
  have hpack := toNat_pack i k
  have hop := i.op.code.toNat_lt
  have hdest := i.dest.toNat_lt
  have hsrc1 := i.src1.toNat_lt
  have hsrc2 := i.src2.toNat_lt
  have hcode : (pack i k).toUInt8 = i.op.code := by
    rw [← UInt8.toNat_inj, UInt64.toNat_toUInt8, hpack]
    omega
  have h8 : (pack i k >>> 8).toUInt8 = i.dest := by
    rw [← UInt8.toNat_inj, toNat_byte _ 8 rfl (by decide), hpack]
    omega
  have h16 : (pack i k >>> 16).toUInt8 = i.src1 := by
    rw [← UInt8.toNat_inj, toNat_byte _ 16 rfl (by decide), hpack]
    omega
  have h24 : (pack i k >>> 24).toUInt8 = i.src2 := by
    rw [← UInt8.toNat_inj, toNat_byte _ 24 rfl (by decide), hpack]
    omega
  have h32 : (pack i k >>> 32).toUInt32 = k := by
    rw [← UInt32.toNat_inj, toNat_high, hpack]
    omega
  rw [unpack?, hcode, h8, h16, h24, h32, Opcode.ofCode?_code]
  rfl

/-- **No word has two meanings.** -/
theorem pack_of_unpack? (h : unpack? w = some (i, k)) : pack i k = w := by
  obtain ⟨op, hop, heq⟩ := Option.map_eq_some_iff.mp h
  have hcode := congrArg UInt8.toNat (Opcode.code_of_ofCode? hop)
  cases heq
  have hw := w.toNat_lt
  rw [UInt64.toNat_toUInt8] at hcode
  rw [← UInt64.toNat_inj, toNat_pack, hcode, toNat_byte w 8 rfl (by decide),
    toNat_byte w 16 rfl (by decide), toNat_byte w 24 rfl (by decide), toNat_high]
  omega

theorem unpack?_eq_none_iff : unpack? w = none ↔ ∀ op : Opcode, op.code ≠ w.toUInt8 :=
  Option.map_eq_none_iff.trans Opcode.ofCode?_eq_none_iff

/-! ## One call -/

theorem Verdict.code_eq_two_iff {v : Verdict} : v.code = 2 ↔ v = .fault := by
  cases v <;> decide

/-- What a call makes of an outcome of the interpreter, with `pending` waiting before: the number
that it answers and the context that it leaves. A fault replaces the one that waits. -/
inductive Answers (pending : Option Fault) :
    Except Fault (Option Word) × Machine → Nat × Context → Prop
  | proceed (m : Machine) :
    Answers pending (.ok none, m) (0, { machine := m, pending := pending })
  | exit (target : Word) (m : Machine) :
    Answers pending (.ok (some target), m)
      (1, { machine := { m with state := { m.state with pc := target } }, pending := pending })
  | fault (addr size : Word) (m : Machine) :
    Answers pending (.error (.memory addr size), m)
      (2, { machine := m, pending := some (.memory addr size) })

section Call

variable {m : Machine} {around : Surroundings} {pending : Option Fault}

theorem call_pack (c : Context) (i : Inst) (k : Word) :
    c.call .complete (pack i k) = c.execute i k := by
  rw [Context.call, unpack?_pack]

theorem call_badByte (c : Context) (around : Surroundings)
    (h : ∀ op : Opcode, op.code ≠ w.toUInt8) :
    c.call around w = .ok (c.raise (.unsupported (.badOpcodeByte w.toUInt8))) := by
  rw [Context.call, unpack?_eq_none_iff.mpr h]

theorem call_outside (c : Context) (h : around ≠ .complete) (i : Inst) (k : Word) :
    c.call around (pack i k) = .ok (c.raise (.unsupported (.helperOutside i.op))) := by
  rw [Context.call, unpack?_pack]
  cases around with
  | complete => exact absurd rfl h
  | noMemory | noState => rfl

/-- **An instruction is executed as it is anywhere else.** The only fault it can have is an access
that leaves the memory, so there is an answer. -/
theorem answers_execute (hop : i.op ≠ .nop)
    (hslots : ∀ s ∈ i.readSlots ++ i.writeSlots, s < Slot.count) :
    ∃ v c', ({ machine := m, pending := pending } : Context).execute i k = .ok (v, c') ∧
      Answers pending (step i k m) (v.code, c') := by
  rw [Context.execute]
  cases hrefused : m.memory.refused? (Guest.accesses i k m.state) with
  | none =>
    obtain ⟨t, m', hstep⟩ := Guest.step_admitted hop hslots hrefused
    rw [hstep]
    cases t with
    | none => exact ⟨_, _, rfl, .proceed m'⟩
    | some target => exact ⟨_, _, rfl, .exit target m'⟩
  | some a =>
    obtain ⟨m', hstep, -⟩ := Guest.step_refused hop hslots hrefused
    rw [hstep]
    exact ⟨_, _, rfl, .fault a.1 (UInt32.ofNat a.2) m'⟩

/-- **The place where a fault waits.** A call leaves a fault there, whatever was there before, or it
leaves the place alone, or it does not answer. -/
theorem call_cases (m : Machine) (around : Surroundings) (w : UInt64) :
    (∃ f m', ∀ pending, ({ machine := m, pending := pending } : Context).call around w =
      .ok (.fault, { machine := m', pending := some f })) ∨
    (∃ v m', v ≠ .fault ∧
      ∀ pending, ({ machine := m, pending := pending } : Context).call around w =
      .ok (v, { machine := m', pending := pending })) ∨
    ∃ f, ∀ pending, ({ machine := m, pending := pending } : Context).call around w = .error f := by
  cases hw : unpack? w with
  | none =>
    refine Or.inl ⟨.unsupported (.badOpcodeByte w.toUInt8), m, fun pending => ?_⟩
    rw [call_badByte _ _ (unpack?_eq_none_iff.mp hw)]
    rfl
  | some p =>
    obtain ⟨i, k⟩ := p
    rw [← pack_of_unpack? hw]
    by_cases haround : around = .complete
    · subst haround
      simp only [call_pack, Context.execute]
      rcases hstep : step i k m with ⟨t | t, m'⟩
      · by_cases habort : t.isAbort
        · exact Or.inr (Or.inr ⟨t, fun _ => if_pos habort⟩)
        · exact Or.inl ⟨t, m', fun _ => if_neg habort⟩
      · cases t with
        | none => exact Or.inr (Or.inl ⟨.proceed, m', by decide, fun _ => rfl⟩)
        | some target => exact Or.inr (Or.inl ⟨.exit, _, by decide, fun _ => rfl⟩)
    · refine Or.inl ⟨.unsupported (.helperOutside i.op), m, fun pending => ?_⟩
      rw [call_outside _ haround]
      rfl

end Call

/-! ## Sequences of calls -/

/-- Calls that do not fault lead from one context to the other. Each may find a machine of its own,
since the block goes on between them. -/
inductive Quietly (c : Context) : Context → Prop
  | nil : Quietly c c
  | call {d e : Context} {v : Verdict} (h : Quietly c d) (m : Machine) (around : Surroundings)
    (w : UInt64) (hcall : { d with machine := m }.call around w = .ok (v, e)) (hcode : v.code ≠ 2) :
    Quietly c e

section

variable {c c' : Context} {around : Surroundings} {v : Verdict}

/-- A call that does not fault leaves the waiting fault alone. -/
theorem pending_call (h : c.call around w = .ok (v, c')) (hcode : v.code ≠ 2) :
    c'.pending = c.pending := by
  obtain ⟨f, m', hcall⟩ | ⟨v', m', -, hcall⟩ | ⟨f, hcall⟩ := call_cases c.machine around w
  · cases h.symm.trans (hcall c.pending)
    exact absurd rfl hcode
  · cases h.symm.trans (hcall c.pending)
    rfl
  · cases h.symm.trans (hcall c.pending)

/-- A call that faults leaves its fault. -/
theorem exists_pending_of_code (h : c.call around w = .ok (v, c')) (hcode : v.code = 2) :
    ∃ f, c'.pending = some f := by
  obtain ⟨f, m', hcall⟩ | ⟨v', m', hv, hcall⟩ | ⟨f, hcall⟩ := call_cases c.machine around w
  · cases h.symm.trans (hcall c.pending)
    exact ⟨f, rfl⟩
  · cases h.symm.trans (hcall c.pending)
    exact absurd (Verdict.code_eq_two_iff.mp hcode) hv
  · cases h.symm.trans (hcall c.pending)

end

theorem Quietly.pending_eq {c d : Context} (h : Quietly c d) : d.pending = c.pending := by
  induction h with
  | nil => rfl
  | call _ m around w hcall hcode ih => exact (pending_call hcall hcode).trans ih

/-! ## The call and the interpreter -/

/-- **The call is the interpreter.** Packing loses nothing and no word has two meanings; a packed
instruction is executed on the machine as it is anywhere else, and the call answers with a number
that says which of the three outcomes it had; a call that cannot be served faults and leaves the
machine alone. Whatever calls came before, the fault of a call is the one taken next, once. -/
theorem call_interprets :
    (∀ i k, unpack? (pack i k) = some (i, k)) ∧
    (∀ w, (unpack? w = none ↔ ∀ op : Opcode, op.code ≠ w.toUInt8) ∧
      ∀ i k, unpack? w = some (i, k) → pack i k = w) ∧
    (∀ (c : Context) (i : Inst) (k : Word), i.op ≠ .nop →
      (∀ s ∈ i.readSlots ++ i.writeSlots, s < Slot.count) →
      ∃ v c', c.call .complete (pack i k) = .ok (v, c') ∧
        Answers c.pending (step i k c.machine) (v.code, c')) ∧
    (∀ (c : Context) (around : Surroundings) (w : UInt64), (∀ op : Opcode, op.code ≠ w.toUInt8) →
      ∃ v, c.call around w = .ok (v, { c with
        pending := some (.unsupported (.badOpcodeByte w.toUInt8)) }) ∧ v.code = 2) ∧
    (∀ (c : Context) (around : Surroundings), around ≠ .complete → ∀ (i : Inst) (k : Word),
      ∃ v, c.call around (pack i k) = .ok (v, { c with
        pending := some (.unsupported (.helperOutside i.op)) }) ∧ v.code = 2) ∧
    ∀ (c c' : Context) (around : Surroundings) (w : UInt64) (v : Verdict),
      c.call around w = .ok (v, c') → v.code = 2 →
        ∃ f, c'.pending = some f ∧
          ∀ d, Quietly c' d → d.takeFault.1 = some f ∧
            ∀ e, Quietly d.takeFault.2 e → e.takeFault.1 = none := by
  refine ⟨unpack?_pack, fun w => ⟨unpack?_eq_none_iff, fun _ _ => pack_of_unpack?⟩,
    fun c i k hop hslots => ?executed, fun c around w hw => ?badByte,
    fun c around haround i k => ?outside, fun c c' around w v hcall hcode => ?taken⟩
  case executed =>
    rw [call_pack]
    exact answers_execute hop hslots
  case badByte =>
    exact ⟨.fault, call_badByte c around hw, rfl⟩
  case outside =>
    exact ⟨.fault, call_outside c haround i k, rfl⟩
  case taken =>
    obtain ⟨f, hf⟩ := exists_pending_of_code hcall hcode
    exact ⟨f, hf, fun d hd => ⟨hd.pending_eq.trans hf, fun e he => he.pending_eq⟩⟩

/-- A load outside the memory, then an addition, then the fault of the load is taken. -/
theorem call_interprets_load :
    let load : Inst := { op := .load32, dest := 1, src1 := 0 }
    let add : Inst := { op := .add, dest := 1, src1 := 2, src2 := 3 }
    let c : Context := { machine := { state := {}, memory := Memory.zeroed 16 } }
    (load.op ≠ .nop ∧ ∀ s ∈ load.readSlots ++ load.writeSlots, s < Slot.count) ∧
      (∃ faulted added, c.call .complete (pack load 0x100) = .ok (.fault, faulted) ∧
        Answers none (step load 0x100 c.machine) (2, faulted) ∧
        faulted.call .complete (pack add 0) = .ok (.proceed, added) ∧ Quietly faulted added ∧
        added.takeFault.1 = some (.memory 0x100 4) ∧ added.takeFault.2.takeFault.1 = none) ∧
      (∀ op : Opcode, op.code ≠ (0xff : UInt64).toUInt8) ∧
      ∃ v c', c.call .noState 0xff = .ok (v, c') ∧ v.code = 2 := by
  intro load add c
  have hslots : ∀ s ∈ load.readSlots ++ load.writeSlots, s < Slot.count := by decide
  have hbyte : ∀ op : Opcode, op.code ≠ (0xff : UInt64).toUInt8 := by
    intro op
    cases op <;> decide
  obtain ⟨-, -, hexecuted, hbad, -, htaken⟩ := call_interprets
  obtain ⟨v, faulted, hload, hanswers⟩ := hexecuted c load 0x100 (by decide) hslots
  have hstep : step load 0x100 c.machine = (.error (.memory 0x100 4), c.machine) := by rfl
  obtain ⟨m', hadd⟩ : ∃ m', step add 0 c.machine = (.ok none, m') := ⟨_, rfl⟩
  have hsecond :
      ({ c with pending := some (.memory 0x100 4) } : Context).call .complete (pack add 0)
      = .ok (.proceed, { machine := m', pending := some (.memory 0x100 4) }) := by
    rw [call_pack, Context.execute, hadd]
  have hfaulted : v = .fault ∧ faulted = { c with pending := some (.memory 0x100 4) } := by
    rw [hstep] at hanswers
    generalize hcode : v.code = code at hanswers
    cases hanswers
    exact ⟨Verdict.code_eq_two_iff.mp hcode, rfl⟩
  obtain ⟨rfl, rfl⟩ := hfaulted
  have hquiet : Quietly { c with pending := some (.memory 0x100 4) } _ :=
    .call .nil c.machine .complete (pack add 0) hsecond (by decide)
  obtain ⟨f, hf, hafter⟩ := htaken c _ .complete (pack load 0x100) .fault hload rfl
  cases hf
  obtain ⟨v, hv, hvcode⟩ := hbad c .noState 0xff hbyte
  exact ⟨⟨by decide, hslots⟩, ⟨_, _, hload, hanswers, hsecond, hquiet, (hafter _ hquiet).1,
    (hafter _ hquiet).2 _ .nil⟩, hbyte, v, _, hv, hvcode⟩

end Helper

end Dynarec
