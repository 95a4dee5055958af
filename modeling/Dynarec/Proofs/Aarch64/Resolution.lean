/-
Branches are resolved exactly, in any order.

A session lays down words and branches and resolves the notes that it was handed out, each of them
once and whenever it likes. Three facts about the notes that are open carry the whole argument
(`Session.Sound`): there are as many as the assembler counts, each is about a word of the code, and
no two are about the same word. The first makes the count right, the second lets a resolution find
its word, and the third is why a resolution disturbs no other.

The place that a branch is to go to is a double word that is read as signed. So a number from `2^63`
on stands for a place in front of the code, and one that is close enough below `2^64` is in reach
(`resolves_behind_zero`).
-/
import Dynarec.Proofs.Aarch64.Branches
import Dynarec.Proofs.Guest.Bytes
import Dynarec.Proofs.Guest.Code

set_option autoImplicit false

namespace Dynarec.Aarch64

/-! ## Sessions -/

/-- What is done to code under construction. -/
inductive Command where
  | word (w : Word)
  | branch (op : BranchOp)
  /-- Make a branch go to the next word. -/
  | resolve (b : Branch)
  | resolveTo (b : Branch) (target : UInt64)
  | jumpTo (target : UInt64)
  deriving DecidableEq, Repr

/-- The place that a double word stands for. -/
def signedPlace (target : UInt64) : Int := target.toInt64.toInt

/-- Code under construction and the notes that are open. -/
structure Session where
  code : Assembler := {}
  notes : List Branch := []
  deriving DecidableEq, Repr

namespace Session

/-- Resolve an open note. There are no others: a note is given up when it is resolved. -/
def settle (s : Session) (b : Branch) (target : Int) : Except Fault Session :=
  if b ∈ s.notes then do
    let code ← s.code.resolveTo b target
    return { code, notes := s.notes.erase b }
  else .error .outOfBounds

/-- Carry out a command. -/
def step (s : Session) : Command → Except Fault Session
  | .word w => .ok { s with code := s.code.pushWord w }
  | .branch op => do
    let (b, code) ← s.code.branch op
    return { code, notes := b :: s.notes }
  | .resolve b => s.settle b s.code.position
  | .resolveTo b target => s.settle b (signedPlace target)
  | .jumpTo target => do
    let code ← s.code.jumpTo (signedPlace target)
    return { s with code }

/-- Carry out commands. -/
def run (s : Session) (cs : List Command) : Except Fault Session := cs.foldlM step s

end Session

namespace Command

/-- The command lays down a branch. -/
def branches : Command → Bool
  | .branch _ | .jumpTo _ => true
  | .word _ | .resolve _ | .resolveTo _ _ => false

/-- The command resolves a branch. -/
def resolves : Command → Bool
  | .resolve _ | .resolveTo _ _ | .jumpTo _ => true
  | .word _ | .branch _ => false

end Command

/-! ## One resolution -/

/-- The distance is a signed number of the width of the kind's field. -/
def BranchKind.InReach (k : BranchKind) (distance : Int) : Prop :=
  -(2 ^ (k.width - 1)) ≤ distance ∧ distance < 2 ^ (k.width - 1)

instance (k : BranchKind) (distance : Int) : Decidable (k.InReach distance) :=
  inferInstanceAs (Decidable (_ ∧ _))

/-- A branch has got its distance: in its word only the field of the distance has changed, which
reads back as the distance, all other words are as before, and one branch less is open. -/
structure Assembler.Settled (a a' : Assembler) (b : Branch) (distance : Int) : Prop where
  size : a'.words.size = a.words.size
  other : ∀ p, p ≠ b.site → a'.words[p]? = a.words[p]?
  word : ∃ w w', a.words[b.site]? = some w ∧ a'.words[b.site]? = some w' ∧
    w' &&& ~~~b.kind.fieldMask = w &&& ~~~b.kind.fieldMask ∧ b.kind.distance w' = distance
  pending : a'.pending + 1 = a.pending

namespace BranchKind

variable {k : BranchKind} {d : Int}

theorem reaches_iff : k.reaches d = true ↔ k.InReach d := by
  have hlimit : ((twoTo (k.width - 1) : Nat) : Int) = 2 ^ (k.width - 1) := by cases k <;> rfl
  rw [reaches, decide_eq_true_iff, hlimit]
  rfl

/-- Nothing but the field changes. -/
theorem rest_patch (w : Word) (d : Int) :
    k.patch w d &&& ~~~k.fieldMask = w &&& ~~~k.fieldMask := by
  have hfield : k.fieldMask &&& ~~~k.fieldMask = 0 :=
    UInt32.eq_of_toBitVec_eq (BitVec.and_not_self _)
  rw [patch, Word.and_or_distrib_right, UInt32.and_assoc, UInt32.and_self, UInt32.and_assoc, hfield,
    UInt32.and_zero, UInt32.or_zero]

/-- A distance in reach is far from leaving its double word. -/
theorem not_overflow (h : k.InReach d) : ¬ d < -(twoTo 63 : Int) := by
  have hlimit : ((twoTo 63 : Nat) : Int) = 9223372036854775808 := by decide
  have hwidth : (2 : Int) ^ (k.width - 1) ≤ 33554432 := by cases k <;> decide
  rw [hlimit]
  have hlo := h.1
  omega

end BranchKind

namespace Assembler

variable {a a' : Assembler} {b : Branch} {target : Int}

/-- **A distance in reach is filled in.** -/
theorem settled_resolveTo (hsite : b.site < a.words.size) (hpending : a.pending ≠ 0)
    (h : b.kind.InReach (target - b.site)) :
    ∃ a', a.resolveTo b target = .ok a' ∧ a.Settled a' b (target - b.site) := by
  have hreaches : b.kind.reaches (target - b.site) = true := BranchKind.reaches_iff.mpr h
  refine ⟨{ words := a.words.set b.site (b.kind.patch a.words[b.site] (target - b.site)),
            pending := a.pending - 1 }, ?_, Array.size_set hsite, fun p hp => ?_, ?_,
    Nat.sub_add_cancel (Nat.pos_of_ne_zero hpending)⟩
  · unfold resolveTo
    simp only
    rw [if_neg (BranchKind.not_overflow h), hreaches, dif_pos hsite, if_neg hpending]
    rfl
  · exact Array.getElem?_set_ne hsite (Ne.symm hp)
  · exact ⟨_, _, Array.getElem?_eq_getElem hsite, Array.getElem?_set_self hsite,
      BranchKind.rest_patch _ _, BranchKind.distance_patch hreaches _⟩

/-- **A distance out of reach is a broken rule.** -/
theorem resolveTo_out_of_reach (h : ¬ b.kind.InReach (target - b.site)) :
    ∃ f, a.resolveTo b target = .error f ∧ f.isAbort = true := by
  have hreaches : b.kind.reaches (target - b.site) = false :=
    Bool.eq_false_iff.mpr fun hr => h (BranchKind.reaches_iff.mp hr)
  unfold resolveTo
  simp only
  split
  · exact ⟨_, rfl, rfl⟩
  · rw [hreaches]
    exact ⟨_, rfl, rfl⟩

/-- A branch is laid down behind the code and opens a note. -/
theorem branch_eq_ok {op : BranchOp} {b : Branch} (h : a.branch op = .ok (b, a')) :
    b = ⟨op.kind, a.words.size⟩ ∧ a'.words = a.words.push op.encode ∧
      a'.pending = a.pending + 1 := by
  obtain ⟨a₁, hpush, h⟩ := bind_eq_ok.mp h
  obtain ⟨_, -, hpush⟩ := bind_eq_ok.mp hpush
  cases hpush
  cases h
  exact ⟨rfl, rfl, rfl⟩

/-- A jump is laid down with its distance. -/
theorem jumpTo_of_inReach (h : BranchKind.InReach .jump (target - a.words.size)) :
    ∃ w a', a.jumpTo target = .ok a' ∧ a'.words = a.words.push w ∧ a'.pending = a.pending ∧
      w &&& ~~~BranchKind.fieldMask .jump = BranchOp.encode .jump ∧
      BranchKind.distance .jump w = target - a.words.size := by
  have hreaches := BranchKind.reaches_iff.mpr h
  have hsite : a.words.size < (a.words.push (BranchOp.encode .jump)).size := by
    rw [Array.size_push]
    exact Nat.lt_succ_self _
  refine ⟨BranchKind.patch .jump (BranchOp.encode .jump) (target - a.words.size), ⟨_, a.pending⟩,
    ?_, rfl, rfl, (BranchKind.rest_patch _ _).trans (by decide), BranchKind.distance_patch hreaches _⟩
  -- the word that gets its distance is the last one
  change resolveTo ⟨a.words.push (BranchOp.encode .jump), a.pending + 1⟩ ⟨.jump, a.words.size⟩
    target = _
  unfold resolveTo
  simp only
  rw [if_neg (BranchKind.not_overflow h), hreaches, dif_pos hsite, Array.set_push,
    dif_neg (Nat.lt_irrefl _), Array.getElem_push_eq]
  rfl

theorem jumpTo_out_of_reach (h : ¬ BranchKind.InReach .jump (target - a.words.size)) :
    ∃ f, a.jumpTo target = .error f ∧ f.isAbort = true :=
  resolveTo_out_of_reach (b := ⟨.jump, a.words.size⟩) h

end Assembler

/-! ## Whole sessions -/

namespace Session

variable {s s' s'' : Session} {c : Command} {cs : List Command} {b : Branch} {target : Int}

/-- The words that open notes are about. -/
def sites (s : Session) : List Nat := s.notes.map Branch.site

/-- What holds of the open notes at any time. -/
structure Sound (s : Session) : Prop where
  count : s.code.pending = s.notes.length
  site_lt : ∀ b ∈ s.notes, b.site < s.code.words.size
  apart : s.sites.Nodup

/-- One session goes on from another: the code has grown, and of the words that were there only
those of open notes may have changed. No note about one of the others has been opened. -/
structure Continues (s s' : Session) : Prop where
  grown : s.code.words.size ≤ s'.code.words.size
  kept : ∀ p < s.code.words.size, p ∉ s.sites →
    p ∉ s'.sites ∧ s'.code.words[p]? = s.code.words[p]?

theorem Continues.refl (s : Session) : s.Continues s := ⟨Nat.le_refl _, fun _ _ hp => ⟨hp, rfl⟩⟩

theorem Continues.trans (h : s.Continues s') (h' : s'.Continues s'') : s.Continues s'' := by
  refine ⟨h.grown.trans h'.grown, fun p hp hopen => ?_⟩
  obtain ⟨hopen', hword⟩ := h.kept p hp hopen
  obtain ⟨hopen'', hword'⟩ := h'.kept p (hp.trans_le h.grown) hopen'
  exact ⟨hopen'', hword'.trans hword⟩

/-- **An open note is resolved, or its place is out of reach.** -/
theorem settle_of_inReach (hs : s.Sound) (hb : b ∈ s.notes) (h : b.kind.InReach (target - b.site)) :
    ∃ s', s.settle b target = .ok s' ∧ s.code.Settled s'.code b (target - b.site) ∧
      s'.notes = s.notes.erase b := by
  have hpending : s.code.pending ≠ 0 := by
    rw [hs.count]
    exact Nat.ne_of_gt (List.length_pos_of_mem hb)
  obtain ⟨a', ha', hsettled⟩ := Assembler.settled_resolveTo (hs.site_lt b hb) hpending h
  refine ⟨⟨a', s.notes.erase b⟩, ?_, hsettled, rfl⟩
  rw [settle, if_pos hb, ha']
  rfl

theorem settle_out_of_reach (hb : b ∈ s.notes) (h : ¬ b.kind.InReach (target - b.site)) :
    ∃ f, s.settle b target = .error f ∧ f.isAbort = true := by
  obtain ⟨f, hf, habort⟩ := Assembler.resolveTo_out_of_reach (a := s.code) h
  refine ⟨f, ?_, habort⟩
  rw [settle, if_pos hb, hf]
  rfl

theorem settle_eq_ok (hs : s.Sound) (h : s.settle b target = .ok s') :
    b ∈ s.notes ∧ s.code.Settled s'.code b (target - b.site) ∧ s'.notes = s.notes.erase b := by
  by_cases hb : b ∈ s.notes
  · by_cases hreach : b.kind.InReach (target - b.site)
    · obtain ⟨t, ht, hsettled⟩ := settle_of_inReach hs hb hreach
      cases h.symm.trans ht
      exact ⟨hb, hsettled⟩
    · obtain ⟨f, hf, -⟩ := settle_out_of_reach hb hreach
      cases h.symm.trans hf
  · rw [settle, if_neg hb] at h
    cases h

/-- The note is gone: no other is about its word. -/
theorem site_notMem_of_settle (hs : s.Sound) (h : s.settle b target = .ok s') :
    b.site ∉ s'.sites := by
  obtain ⟨hb, -, hnotes⟩ := settle_eq_ok hs h
  have hperm : s.sites.Perm (b.site :: s'.sites) := by
    rw [sites, sites, hnotes]
    exact (List.perm_cons_erase hb).map Branch.site
  exact (List.nodup_cons.mp (hperm.nodup_iff.mp hs.apart)).1

/-! ### What steps keep -/

/-- A word is laid down, and a note about it may be opened. -/
theorem sound_push (hs : s.Sound) {code : Assembler} {w : Word} (opened : List Branch)
    (hopened : (opened.map Branch.site).Sublist [s.code.words.size])
    (hwords : code.words = s.code.words.push w)
    (hpending : code.pending = s.code.pending + opened.length) :
    Sound ⟨code, opened ++ s.notes⟩ ∧ s.Continues ⟨code, opened ++ s.notes⟩ := by
  have hsize : code.words.size = s.code.words.size + 1 := by rw [hwords, Array.size_push]
  have hsites : sites ⟨code, opened ++ s.notes⟩ = opened.map Branch.site ++ s.sites :=
    List.map_append
  have hnew : ∀ p ∈ opened.map Branch.site, p = s.code.words.size := fun p hp =>
    List.mem_singleton.mp (hopened.subset hp)
  have hold : ∀ p ∈ s.sites, p < s.code.words.size := by
    intro p hp
    obtain ⟨b, hb, rfl⟩ := List.mem_map.mp hp
    exact hs.site_lt b hb
  refine ⟨⟨?_, fun b hb => ?_, ?_⟩, ⟨hsize ▸ Nat.le_succ _, fun p hp hopen => ⟨?_, ?_⟩⟩⟩
  · rw [hpending, hs.count, List.length_append, Nat.add_comm]
  · show b.site < code.words.size
    rcases List.mem_append.mp hb with hb | hb
    · have hsite := hnew b.site (List.mem_map_of_mem hb)
      omega
    · have hlt := hs.site_lt b hb
      omega
  · rw [hsites]
    refine List.nodup_append.mpr ⟨hopened.nodup (List.nodup_singleton _), hs.apart, ?_⟩
    intro p hp q hq heq
    have hlt := hold q hq
    have hsite := hnew p hp
    omega
  · rw [hsites, List.mem_append]
    rintro (hmem | hmem)
    · have hsite := hnew p hmem
      omega
    · exact hopen hmem
  · rw [hwords, Array.getElem?_push_lt hp, Array.getElem?_eq_getElem hp]

theorem sound_settle (hs : s.Sound) (h : s.settle b target = .ok s') :
    s'.Sound ∧ s.Continues s' ∧ s'.notes.length + 1 = s.notes.length := by
  obtain ⟨hb, hsettled, hnotes⟩ := settle_eq_ok hs h
  have hsublist : s'.notes.Sublist s.notes := hnotes ▸ List.erase_sublist
  have hlength : s'.notes.length + 1 = s.notes.length := by
    rw [hnotes, List.length_erase_of_mem hb]
    exact Nat.sub_add_cancel (List.length_pos_of_mem hb)
  refine ⟨⟨?_, fun b' hb' => ?_, ?_⟩, ⟨hsettled.size.ge, fun p _ hopen => ⟨fun hmem => ?_, ?_⟩⟩,
    hlength⟩
  · have hpending := hsettled.pending
    have hcount := hs.count
    omega
  · rw [hsettled.size]
    exact hs.site_lt b' (hsublist.subset hb')
  · exact (hsublist.map Branch.site).nodup hs.apart
  · exact hopen ((hsublist.map Branch.site).subset hmem)
  · refine hsettled.other p fun hsite => hopen ?_
    rw [hsite]
    exact List.mem_map_of_mem hb

/-- **A step keeps the notes right**, leaves the words alone that no open note is about, and opens
and closes as many notes as its command says. -/
theorem step_sound (hs : s.Sound) (h : s.step c = .ok s') :
    s'.Sound ∧ s.Continues s' ∧ s'.notes.length + (if c.resolves then 1 else 0) =
      s.notes.length + (if c.branches then 1 else 0) := by
  cases c with
  | word w =>
    cases h
    obtain ⟨hsound, hcont⟩ := sound_push hs [] (List.nil_sublist _)
      (show (s.code.pushWord w).words = _ from rfl) rfl
    exact ⟨hsound, hcont, rfl⟩
  | branch op =>
    obtain ⟨⟨b, code⟩, hbranch, h⟩ := bind_eq_ok.mp h
    obtain ⟨rfl, hwords, hpending⟩ := Assembler.branch_eq_ok hbranch
    cases h
    obtain ⟨hsound, hcont⟩ := sound_push hs [⟨op.kind, s.code.words.size⟩] (List.Sublist.refl _)
      hwords hpending
    exact ⟨hsound, hcont, rfl⟩
  | resolve b => exact sound_settle hs h
  | resolveTo b target => exact sound_settle hs h
  | jumpTo target =>
    by_cases hreach : BranchKind.InReach .jump (signedPlace target - s.code.words.size)
    · obtain ⟨w, a', ha', hwords, hpending, -⟩ := Assembler.jumpTo_of_inReach hreach
      rw [step, ha'] at h
      cases h
      obtain ⟨hsound, hcont⟩ := sound_push hs [] (List.nil_sublist _) hwords hpending
      exact ⟨hsound, hcont, rfl⟩
    · obtain ⟨f, hf, -⟩ := Assembler.jumpTo_out_of_reach hreach
      rw [step, hf] at h
      cases h

/-- **So does a run.** -/
theorem run_sound (hs : s.Sound) (h : s.run cs = .ok s') :
    s'.Sound ∧ s.Continues s' ∧ s'.notes.length + cs.countP Command.resolves =
      s.notes.length + cs.countP Command.branches := by
  induction cs generalizing s with
  | nil =>
    cases h
    exact ⟨hs, .refl _, rfl⟩
  | cons c cs ih =>
    obtain ⟨t, ht, h⟩ := bind_eq_ok.mp (List.foldlM_cons.symm.trans h)
    obtain ⟨htsound, htcont, hstep⟩ := step_sound hs ht
    obtain ⟨hsound, hcont, hrun⟩ := ih htsound h
    refine ⟨hsound, htcont.trans hcont, ?_⟩
    rw [List.countP_cons, List.countP_cons]
    omega

theorem sound_empty : Sound {} := ⟨rfl, fun _ hb => (List.not_mem_nil hb).elim, List.nodup_nil⟩

/-! ### The main result -/

/-- The branch that a command resolves, and the place that it is to go to. -/
def goal? (s : Session) : Command → Option (Branch × Int)
  | .resolve b => some (b, s.code.position)
  | .resolveTo b target => some (b, signedPlace target)
  | .word _ | .branch _ | .jumpTo _ => none

theorem step_of_goal? (h : s.goal? c = some (b, target)) : s.step c = s.settle b target := by
  cases c with
  | resolve b' | resolveTo b' target' =>
    cases h
    rfl
  | word w | branch op | jumpTo target' => cases h

/-- **Branches are resolved exactly.** After any commands: -/
theorem resolved_exactly (h : run {} cs = .ok s) :
    -- the assembler counts the branches that are laid down and not resolved
    s.code.pending = s.notes.length ∧
    s.code.pending + cs.countP Command.resolves = cs.countP Command.branches ∧
    -- an open note whose place is in reach is resolved in its word's field, for good
    (∀ c b target, s.goal? c = some (b, target) → b ∈ s.notes →
      b.kind.InReach (target - b.site) →
      ∃ s', s.step c = .ok s' ∧ s.code.Settled s'.code b (target - b.site) ∧
        s'.notes = s.notes.erase b ∧
        ∀ cs' s'', s'.run cs' = .ok s'' →
          s''.code.words[b.site]? = s'.code.words[b.site]?) ∧
    -- and one whose place is out of reach is a broken rule
    (∀ c b target, s.goal? c = some (b, target) → b ∈ s.notes →
      ¬ b.kind.InReach (target - b.site) → ∃ f, s.step c = .error f ∧ f.isAbort = true) ∧
    -- a jump has its distance from the start, or is out of reach
    (∀ target, BranchKind.InReach .jump (signedPlace target - s.code.words.size) →
      ∃ w s', s.step (.jumpTo target) = .ok s' ∧ s'.code.words = s.code.words.push w ∧
        w &&& ~~~BranchKind.fieldMask .jump = BranchOp.encode .jump ∧
        BranchKind.distance .jump w = signedPlace target - s.code.words.size ∧
        s'.code.pending = s.code.pending ∧ s'.notes = s.notes) ∧
    (∀ target, ¬ BranchKind.InReach .jump (signedPlace target - s.code.words.size) →
      ∃ f, s.step (.jumpTo target) = .error f ∧ f.isAbort = true) ∧
    -- words that no open note is about stay as they are
    (∀ p < s.code.words.size, p ∉ s.notes.map Branch.site → ∀ cs' s', s.run cs' = .ok s' →
      s'.code.words[p]? = s.code.words[p]?) ∧
    -- and the code can be taken when no note is open
    (s.code.pending = 0 → s.code.finish = .ok (s.code.words.toList.flatMap Word.littleEndian)) ∧
    (s.code.pending ≠ 0 → ∃ f, s.code.finish = .error f ∧ f.isAbort = true) := by
  obtain ⟨hs, -, hcount⟩ := run_sound sound_empty h
  refine ⟨hs.count, ?_, ?_, ?_, ?_, ?_, ?_, ?_, ?_⟩
  · rw [hs.count, hcount]
    exact Nat.zero_add _
  · intro c b target hgoal hb hreach
    obtain ⟨s', hs', hsettled, hnotes⟩ := settle_of_inReach hs hb hreach
    refine ⟨s', (step_of_goal? hgoal).trans hs', hsettled, hnotes, fun cs' s'' hrun => ?_⟩
    obtain ⟨-, hcont, -⟩ := run_sound (sound_settle hs hs').1 hrun
    have hsite : b.site < s'.code.words.size := hsettled.size ▸ hs.site_lt b hb
    exact (hcont.kept b.site hsite (site_notMem_of_settle hs hs')).2
  · intro c b target hgoal hb hreach
    rw [step_of_goal? hgoal]
    exact settle_out_of_reach hb hreach
  · intro target hreach
    obtain ⟨w, a', ha', hwords, hpending, hrest, hdistance⟩ := Assembler.jumpTo_of_inReach hreach
    refine ⟨w, ⟨a', s.notes⟩, ?_, hwords, hrest, hdistance, hpending, rfl⟩
    rw [step, ha']
    rfl
  · intro target hreach
    obtain ⟨f, hf, habort⟩ := Assembler.jumpTo_out_of_reach hreach
    refine ⟨f, ?_, habort⟩
    rw [step, hf]
    rfl
  · intro p hp hopen cs' s' hrun
    exact ((run_sound hs hrun).2.1.kept p hp hopen).2
  · exact fun hpending => if_pos hpending
  · intro hpending
    exact ⟨_, if_neg hpending, rfl⟩

/-- Two branches that cross: the second one is resolved first, and backwards. -/
theorem resolved_exactly_crossing :
    let cs : List Command := [.branch (.cbz false 3), .word 0xd503201f, .branch .call,
      .resolveTo ⟨.call, 2⟩ 1, .word 0xd503201f]
    let s : Session := ⟨⟨#[0x34000003, 0xd503201f, 0x97ffffff, 0xd503201f], 1⟩, [⟨.cbz, 0⟩]⟩
    run {} cs = .ok s ∧
      ∃ s', s.step (.resolve ⟨.cbz, 0⟩) = .ok s' ∧ s.code.Settled s'.code ⟨.cbz, 0⟩ 4 := by
  intro cs s
  have hrun : run {} cs = .ok s := by decide
  obtain ⟨-, -, hreach, -⟩ := resolved_exactly hrun
  obtain ⟨s', hs', hsettled, -⟩ :=
    hreach (.resolve ⟨.cbz, 0⟩) ⟨.cbz, 0⟩ 4 rfl (by decide) (by decide)
  exact ⟨hrun, s', hs', hsettled⟩

/-- A number that is out of reach as it stands can be in reach: the highest double word is the place
in front of the code. -/
theorem resolves_behind_zero :
    ¬ ∀ (cs : List Command) (s : Session) (b : Branch) (target : UInt64), run {} cs = .ok s →
      b ∈ s.notes → ¬ b.kind.InReach (target.toNat - b.site) →
      ∃ f, s.step (.resolveTo b target) = .error f ∧ f.isAbort = true := by
  intro h
  obtain ⟨f, hf, -⟩ := h [.branch .jump] ⟨⟨#[0x14000000], 1⟩, [⟨.jump, 0⟩]⟩ ⟨.jump, 0⟩
    0xffffffffffffffff (by decide) (by decide) (by decide)
  have hok : step ⟨⟨#[0x14000000], 1⟩, [⟨.jump, 0⟩]⟩ (.resolveTo ⟨.jump, 0⟩ 0xffffffffffffffff)
      = .ok ⟨⟨#[0x17ffffff], 0⟩, []⟩ := by decide
  cases hok.symm.trans hf

end Session

end Dynarec.Aarch64
