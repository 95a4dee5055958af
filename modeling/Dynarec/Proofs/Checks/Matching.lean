/-
What check lines ask of a report.

The meaning of a check line is stated on the numbered lines of the report: from which line to which
it moves the cursor (`Moves`), and from which lines the pattern of a `CHECK-NOT` has to be absent.
The latter are meant to be the lines that the next match passes over (`Passes` up to the next check
line that advances). The matcher keeps such patterns until the next search instead, and a match of
the line at the cursor is none. So a pattern can be carried past matches, and is then also looked
for behind them (`validate_ok_iff`). It is never looked for in fewer lines than it should be.
-/
import Dynarec.Checks.Match
import Dynarec.Proofs.Guest.Code
import Mathlib.Data.List.TakeWhile

set_option autoImplicit false

namespace Dynarec.Checks

variable {lines : List Line} {output p : String} {ps : List String} {d : Directive}
  {ds : List Directive} {c : Cursor} {i j k k' lo hi : Nat}

/-! ## The meaning of check lines -/

/-- There is a line with this number and it contains the pattern. -/
def HasAt (lines : List Line) (p : String) (i : Nat) : Prop :=
  ∃ line, lines[i]? = some line ∧ p.toList <:+: line

/-- There is a line with this number and it is blank. -/
def BlankAt (lines : List Line) (i : Nat) : Prop :=
  ∃ line, lines[i]? = some line ∧ ∀ c ∈ line, Text.isBlank c = true

/-- No line from `lo` to before `hi` contains the pattern. -/
def Lacks (lines : List Line) (p : String) (lo hi : Nat) : Prop :=
  ∀ i, lo ≤ i → i < hi → ¬HasAt lines p i

/-- Of the lines from `k` on, `j` is the first that contains the pattern. -/
def FirstAt (lines : List Line) (p : String) (k j : Nat) : Prop :=
  k ≤ j ∧ Lacks lines p k j ∧ HasAt lines p j

/-- The check line holds with the cursor before line `k` and leaves it before line `k'`. What has
to be absent is not looked at. -/
def Moves (lines : List Line) (k k' : Nat) : Directive → Prop
  | .check p | .label p => ∃ j, FirstAt lines p k j ∧ k' = j + 1
  | .next p => HasAt lines p k ∧ k' = k + 1
  | .empty => (BlankAt lines k ∧ k' = k + 1) ∨ (lines.length ≤ k ∧ k' = k)
  | .same p => (∃ i, k = i + 1 ∧ HasAt lines p i) ∧ k' = k
  | .absent _ | .comment _ => k' = k

/-- The check line matches a line at or after the cursor. -/
def Directive.searches : Directive → Bool
  | .check _ | .label _ => true
  | _ => false

/-- The check line matches a line and moves the cursor past it. -/
def Directive.advances : Directive → Bool
  | .check _ | .label _ | .next _ | .empty => true
  | _ => false

/-- The lines from `lo` to before `hi` are those that the first of the check lines with `ends`
passes over: from the cursor as it finds it to the line that it matches. If there is no such check
line, they are those that remain. -/
inductive Passes (ends : Directive → Bool) (lines : List Line) :
    Nat → List Directive → Nat → Nat → Prop
  | finish (k : Nat) : Passes ends lines k [] k lines.length
  | stop {k k' : Nat} {d : Directive} {ds : List Directive} (hd : ends d = true)
      (hmove : Moves lines k k' d) : Passes ends lines k (d :: ds) k (k' - 1)
  | onward {k k' lo hi : Nat} {d : Directive} {ds : List Directive} (hd : ends d = false)
      (hmove : Moves lines k k' d) (hrest : Passes ends lines k' ds lo hi) :
      Passes ends lines k (d :: ds) lo hi

/-- Where a pattern has to be absent: `region k ds lo hi` names the lines from `lo` to before `hi`
for a `CHECK-NOT` with the cursor before line `k` and the check lines `ds` behind it. -/
abbrev Region := Nat → List Directive → Nat → Nat → Prop

/-- With the cursor before line `k` the check lines hold one after the other, and the pattern of
each `CHECK-NOT` is absent from its region. -/
def Obeys (lines : List Line) (region : Region) : Nat → List Directive → Prop
  | _, [] => True
  | k, d :: ds => ∃ k', Moves lines k k' d ∧
      (∀ p, d = .absent p → ∀ lo hi, region k' ds lo hi → Lacks lines p lo hi) ∧
      Obeys lines region k' ds

/-- **What is asked of a report**: the check lines hold one after the other from its start, and no
line that the next match passes over contains the pattern of a `CHECK-NOT`. -/
def Satisfied (output : String) (ds : List Directive) : Prop :=
  let lines := Text.lines output.toList
  Obeys lines (Passes Directive.advances lines) 0 ds

/-- The next match is one of the line at the cursor. -/
def carries : List Directive → Bool
  | [] => false
  | d :: ds => if d.advances then !d.searches else carries ds

/-- The pattern of a `CHECK-NOT` in front of a match of the line at the cursor is absent from the
lines that the next search, behind that match, passes over. -/
def CarriedAbsent (output : String) (ds : List Directive) : Prop :=
  let lines := Text.lines output.toList
  Obeys lines (fun k ds lo hi => carries ds = true ∧ Passes Directive.searches lines k ds lo hi) 0
    ds

/-! ## Moves and regions -/

theorem FirstAt.unique {j' : Nat} (h : FirstAt lines p k j) (h' : FirstAt lines p k j') :
    j = j' := by
  obtain ⟨hle, hlacks, hhas⟩ := h
  obtain ⟨hle', hlacks', hhas'⟩ := h'
  rcases Nat.lt_trichotomy j j' with hlt | heq | hlt
  · exact absurd hhas (hlacks' j hle hlt)
  · exact heq
  · exact absurd hhas' (hlacks j' hle' hlt)

theorem BlankAt.lt_length (h : BlankAt lines k) : k < lines.length := by
  obtain ⟨line, hline, -⟩ := h
  exact (List.getElem?_eq_some_iff.mp hline).1

theorem Moves.unique {k₁ k₂ : Nat} (h₁ : Moves lines k k₁ d) (h₂ : Moves lines k k₂ d) :
    k₁ = k₂ := by
  cases d with
  | check p | label p =>
    obtain ⟨j₁, hj₁, rfl⟩ := h₁
    obtain ⟨j₂, hj₂, rfl⟩ := h₂
    rw [hj₁.unique hj₂]
  | next p => rw [h₁.2, h₂.2]
  | empty =>
    rcases h₁ with ⟨hblank, rfl⟩ | ⟨hend, rfl⟩ <;> rcases h₂ with ⟨hblank', rfl⟩ | ⟨hend', rfl⟩
    · rfl
    · exact absurd hblank.lt_length (Nat.not_lt.mpr hend')
    · exact absurd hblank'.lt_length (Nat.not_lt.mpr hend)
    · rfl
  | same p => rw [h₁.2, h₂.2]
  | absent p | comment text => rw [show k₁ = k from h₁, show k₂ = k from h₂]

theorem passes_nil_iff {ends : Directive → Bool} :
    Passes ends lines k [] lo hi ↔ lo = k ∧ hi = lines.length := by
  constructor
  · rintro ⟨⟩
    exact ⟨rfl, rfl⟩
  · rintro ⟨rfl, rfl⟩
    exact .finish lo

theorem passes_cons_iff {ends : Directive → Bool} (hmove : Moves lines k k' d) :
    Passes ends lines k (d :: ds) lo hi ↔
      if ends d then lo = k ∧ hi = k' - 1 else Passes ends lines k' ds lo hi := by
  constructor
  · rintro (_ | ⟨hd, hmove'⟩ | ⟨hd, hmove', hrest⟩)
    · rw [if_pos hd, hmove'.unique hmove]
      exact ⟨rfl, rfl⟩
    · rw [if_neg (by rw [hd]; decide), ← hmove'.unique hmove]
      exact hrest
  · cases hd : ends d with
    | true =>
      rw [if_pos rfl]
      rintro ⟨rfl, rfl⟩
      exact .stop hd hmove
    | false =>
      rw [if_neg (by decide)]
      exact .onward hd hmove

/-- Where the check lines hold there is a region, so a `CHECK-NOT` always says something. -/
theorem Obeys.exists_passes {region : Region} (h : Obeys lines region k ds)
    (ends : Directive → Bool) : ∃ lo hi, Passes ends lines k ds lo hi := by
  induction ds generalizing k with
  | nil => exact ⟨k, lines.length, .finish k⟩
  | cons d ds ih =>
    obtain ⟨k', hmove, -, hrest⟩ := h
    cases hd : ends d with
    | true => exact ⟨k, k' - 1, .stop hd hmove⟩
    | false =>
      obtain ⟨lo, hi, hpass⟩ := ih hrest
      exact ⟨lo, hi, .onward hd hmove hpass⟩

theorem Directive.advances_of_searches (h : d.searches = true) : d.advances = true := by
  cases d with
  | check p | label p => rfl
  | next p | same p | absent p | empty | comment text => cases h

/-- A match of the line at the cursor passes over nothing. -/
theorem Moves.le_succ (hmove : Moves lines k k' d) (h : d.searches = false) : k' ≤ k + 1 := by
  cases d with
  | check p | label p => cases h
  | next p => exact Nat.le_of_eq hmove.2
  | empty =>
    rcases hmove with ⟨-, rfl⟩ | ⟨-, rfl⟩
    · exact Nat.le_refl _
    · exact Nat.le_succ k'
  | same p =>
    rw [hmove.2]
    exact Nat.le_succ k
  | absent p | comment text =>
    rw [show k' = k from hmove]
    exact Nat.le_succ k

/-- In front of a match of the line at the cursor there is nothing to be absent from. -/
theorem Passes.le_of_carries (h : Passes Directive.advances lines k ds lo hi)
    (hcarries : carries ds = true) : hi ≤ lo := by
  induction h with
  | finish k => cases hcarries
  | @stop k k' d ds hd hmove =>
    rw [carries, if_pos hd, Bool.not_eq_true'] at hcarries
    exact Nat.sub_le_of_le_add (hmove.le_succ hcarries)
  | @onward k k' lo hi d ds hd hmove hrest ih =>
    rw [carries, if_neg (by rw [hd]; decide)] at hcarries
    exact ih hcarries

/-- Where the next match is a search, it does not matter which of the two ends the region. -/
theorem passes_iff_of_not_carries (hcarries : carries ds = false) :
    Passes Directive.searches lines k ds lo hi ↔ Passes Directive.advances lines k ds lo hi := by
  induction ds generalizing k with
  | nil => rw [passes_nil_iff, passes_nil_iff]
  | cons d ds ih =>
    by_cases hmove : ∃ k', Moves lines k k' d
    · obtain ⟨k', hmove⟩ := hmove
      rw [passes_cons_iff hmove, passes_cons_iff hmove]
      cases hadv : d.advances with
      | true =>
        rw [carries, if_pos hadv, Bool.not_eq_false'] at hcarries
        rw [if_pos hcarries, if_pos rfl]
      | false =>
        have hsearch : ¬d.searches = true := fun h =>
          Bool.false_ne_true (hadv.symm.trans (Directive.advances_of_searches h))
        rw [carries, if_neg (by rw [hadv]; decide)] at hcarries
        rw [if_neg hsearch, if_neg (by decide)]
        exact ih hcarries
    · constructor
      · rintro (_ | ⟨-, hmove'⟩ | ⟨-, hmove', -⟩) <;> exact absurd ⟨_, hmove'⟩ hmove
      · rintro (_ | ⟨-, hmove'⟩ | ⟨-, hmove', -⟩) <;> exact absurd ⟨_, hmove'⟩ hmove

/-- A pattern absent from what the next search passes over is absent from what the next match
passes over; the converse is the condition on carried patterns. -/
theorem lacks_region_iff :
    (∀ lo hi, Passes Directive.searches lines k ds lo hi → Lacks lines p lo hi) ↔
      (∀ lo hi, Passes Directive.advances lines k ds lo hi → Lacks lines p lo hi) ∧
        ∀ lo hi, carries ds = true ∧ Passes Directive.searches lines k ds lo hi →
          Lacks lines p lo hi := by
  cases hcarries : carries ds with
  | true =>
    constructor
    · intro h
      refine ⟨fun lo hi hpass i hlo hhi => ?_, fun lo hi hpass => h lo hi hpass.2⟩
      exact absurd (hpass.le_of_carries hcarries) (by omega)
    · exact fun h lo hi hpass => h.2 lo hi ⟨rfl, hpass⟩
  | false =>
    constructor
    · exact fun h => ⟨fun lo hi hpass => h lo hi ((passes_iff_of_not_carries hcarries).mpr hpass),
        fun _ _ hpass => absurd hpass.1 Bool.false_ne_true⟩
    · exact fun h lo hi hpass => h.1 lo hi ((passes_iff_of_not_carries hcarries).mp hpass)

/-- Regions can be taken together. -/
theorem obeys_and_iff {r r₁ r₂ : Region}
    (hr : ∀ k ds p, (∀ lo hi, r k ds lo hi → Lacks lines p lo hi) ↔
      (∀ lo hi, r₁ k ds lo hi → Lacks lines p lo hi) ∧
        ∀ lo hi, r₂ k ds lo hi → Lacks lines p lo hi) :
    Obeys lines r k ds ↔ Obeys lines r₁ k ds ∧ Obeys lines r₂ k ds := by
  induction ds generalizing k with
  | nil => exact (and_self_iff).symm
  | cons d ds ih =>
    constructor
    · rintro ⟨k', hmove, habsent, hrest⟩
      obtain ⟨hrest₁, hrest₂⟩ := ih.mp hrest
      exact ⟨⟨k', hmove, fun p hp => ((hr k' ds p).mp (habsent p hp)).1, hrest₁⟩,
        ⟨k', hmove, fun p hp => ((hr k' ds p).mp (habsent p hp)).2, hrest₂⟩⟩
    · rintro ⟨⟨k', hmove, habsent₁, hrest₁⟩, ⟨k₂, hmove₂, habsent₂, hrest₂⟩⟩
      cases hmove.unique hmove₂
      exact ⟨k', hmove, fun p hp => (hr k' ds p).mpr ⟨habsent₁ p hp, habsent₂ p hp⟩,
        ih.mpr ⟨hrest₁, hrest₂⟩⟩

/-! ## Patterns in lines -/

theorem occursIn_iff {pattern text : List Char} :
    Text.occursIn pattern text = true ↔ pattern <:+: text := by
  induction text with
  | nil => rw [Text.occursIn, List.isEmpty_iff, List.infix_nil]
  | cons c cs ih =>
    rw [Text.occursIn, Bool.or_eq_true, List.isPrefixOf_iff_prefix, ih, List.infix_cons_iff]

theorem has_iff {line : Line} : has p line = true ↔ p.toList <:+: line := occursIn_iff

theorem not_has_iff {line : Line} : has p line = false ↔ ¬p.toList <:+: line := by
  rw [← has_iff, Bool.not_eq_true]

/-- What lies between two lines, taken from the lines at the first. -/
theorem mem_take_drop_iff {line : Line} {n : Nat} :
    line ∈ (lines.drop k).take n ↔ ∃ i, k ≤ i ∧ i < k + n ∧ lines[i]? = some line := by
  rw [List.mem_iff_getElem?]
  constructor
  · rintro ⟨i, hi⟩
    rw [List.getElem?_take, List.getElem?_drop] at hi
    split at hi
    · next hlt => exact ⟨k + i, Nat.le_add_right k i, Nat.add_lt_add_left hlt k, hi⟩
    · cases hi
  · rintro ⟨i, hle, hlt, hi⟩
    refine ⟨i - k, ?_⟩
    rw [List.getElem?_take, if_pos (by omega), List.getElem?_drop, Nat.add_sub_of_le hle, hi]

theorem lacks_iff {n : Nat} :
    Lacks lines p k (k + n) ↔ ∀ line ∈ (lines.drop k).take n, has p line = false := by
  simp only [mem_take_drop_iff, not_has_iff, Lacks, HasAt]
  constructor
  · rintro h line ⟨i, hle, hlt, hi⟩ hhas
    exact h i hle hlt ⟨line, hi, hhas⟩
  · rintro h i hle hlt ⟨line, hi, hhas⟩
    exact h line ⟨i, hle, hlt, hi⟩ hhas

theorem lacks_end_iff :
    Lacks lines p k lines.length ↔ ∀ line ∈ lines.drop k, has p line = false := by
  have hall : (lines.drop k).take lines.length = lines.drop k :=
    List.take_of_length_le (List.length_drop.trans_le (Nat.sub_le lines.length k))
  rw [← hall, ← lacks_iff]
  constructor
  · rintro h i hle - ⟨line, hline, hhas⟩
    exact h i hle (List.getElem?_eq_some_iff.mp hline).1 ⟨line, hline, hhas⟩
  · exact fun h i hle hlt => h i hle (Nat.lt_add_left k hlt)

theorem checkAbsent_eq_ok_iff {between : List Line} :
    checkAbsent between ps = .ok () ↔ ∀ p ∈ ps, ∀ line ∈ between, has p line = false := by
  induction ps with
  | nil => exact iff_of_true rfl fun p hp => absurd hp List.not_mem_nil
  | cons p ps ih =>
    rw [checkAbsent, List.forall_mem_cons]
    cases hfind : between.find? (has p) with
    | none =>
      rw [List.find?_eq_none] at hfind
      exact ih.trans (iff_and_self.mpr fun _ line hline => Bool.not_eq_true _ ▸ hfind line hline)
    | some line =>
      refine iff_of_false (fun h => ?_) fun h => ?_
      · cases h
      · exact Bool.false_ne_true
          ((h.1 line (List.mem_of_find?_eq_some hfind)).symm.trans (List.find?_some hfind))

/-! ## The matcher -/

/-- The cursor before line `k` with the patterns collected so far. -/
def cursorAt (lines : List Line) (k : Nat) (ps : List String) : Cursor :=
  { previous := if k = 0 then none else lines[k - 1]?, rest := lines.drop k, forbidden := ps }

/-- The patterns collected after a check line. -/
def Directive.collect (ps : List String) : Directive → List String
  | .check _ | .label _ => []
  | .absent p => ps ++ [p]
  | _ => ps

theorem cursorAt_succ {line : Line} {rest : List Line} (h : lines.drop k = line :: rest) :
    cursorAt lines (k + 1) ps = { previous := some line, rest := rest, forbidden := ps } := by
  have hline : lines[k]? = some line := by rw [← List.head?_drop, h, List.head?_cons]
  have hrest : lines.drop (k + 1) = rest := by rw [← List.tail_drop, h, List.tail_cons]
  rw [cursorAt, if_neg (Nat.succ_ne_zero k), Nat.add_sub_cancel, hline, hrest]

theorem hasAt_iff {line : Line} {rest : List Line} (h : lines.drop k = line :: rest) :
    HasAt lines p k ↔ has p line = true := by
  rw [HasAt, ← List.head?_drop, h, List.head?_cons, has_iff]
  simp

/-- A search passes over the lines in front of the first that contains the pattern. -/
theorem firstAt_of_dropWhile {line : Line} {rest : List Line}
    (h : (lines.drop k).dropWhile (!has p ·) = line :: rest) :
    ∃ n, (lines.drop k).takeWhile (!has p ·) = (lines.drop k).take n ∧
      lines.drop (k + n) = line :: rest ∧ FirstAt lines p k (k + n) := by
  have htake := @List.takeWhile_eq_take_findIdx_not _ (lines.drop k) (!has p ·)
  have hdrop := @List.dropWhile_eq_drop_findIdx_not _ (lines.drop k) (!has p ·)
  generalize (lines.drop k).findIdx (fun l => !!has p l) = n at htake hdrop
  rw [h, List.drop_drop] at hdrop
  refine ⟨n, htake, hdrop.symm, Nat.le_add_right k n, lacks_iff.mpr fun l hl => ?_,
    (hasAt_iff hdrop.symm).mpr ?_⟩
  · rw [← htake] at hl
    simpa using List.mem_takeWhile_imp hl
  · have hhead := List.head?_dropWhile_not (!has p ·) (lines.drop k)
    rw [h] at hhead
    simpa using hhead

theorem not_firstAt_of_dropWhile (h : (lines.drop k).dropWhile (!has p ·) = []) :
    ¬FirstAt lines p k j := by
  rintro ⟨hle, -, line, hline, hhas⟩
  rw [List.dropWhile_eq_nil_iff] at h
  have hmem : line ∈ lines.drop k := by
    rw [List.mem_iff_getElem?]
    exact ⟨j - k, by rw [List.getElem?_drop, Nat.add_sub_of_le hle, hline]⟩
  have hnot := h line hmem
  rw [has_iff.mpr hhas] at hnot
  cases hnot

theorem search_eq_ok_iff :
    (cursorAt lines k ps).search p output = .ok c ↔
      ∃ j, FirstAt lines p k j ∧ (∀ q ∈ ps, Lacks lines q k j) ∧ c = cursorAt lines (j + 1) [] := by
  have hrest : (cursorAt lines k ps).rest = lines.drop k := rfl
  rw [Cursor.search, hrest]
  cases hdrop : (lines.drop k).dropWhile (!has p ·) with
  | nil =>
    refine iff_of_false (fun h => ?_) ?_
    · cases h
    · rintro ⟨j, hj, -⟩
      exact not_firstAt_of_dropWhile hdrop hj
  | cons line rest =>
    obtain ⟨n, htake, hline, hfirst⟩ := firstAt_of_dropWhile hdrop
    have habsent : checkAbsent ((lines.drop k).take n) ps = .ok () ↔
        ∀ q ∈ ps, Lacks lines q k (k + n) :=
      checkAbsent_eq_ok_iff.trans (forall₂_congr fun q _ => lacks_iff.symm)
    have hforbidden : (cursorAt lines k ps).forbidden = ps := rfl
    dsimp only
    rw [htake, hforbidden, ← cursorAt_succ hline, bind_eq_ok]
    constructor
    · rintro ⟨u, hcheck, hc⟩
      exact ⟨k + n, hfirst, habsent.mp hcheck, (Except.ok.inj hc).symm⟩
    · rintro ⟨j, hj, hlacks, rfl⟩
      cases hj.unique hfirst
      exact ⟨(), habsent.mpr hlacks, rfl⟩

theorem blankAt_iff {line : Line} {rest : List Line} (h : lines.drop k = line :: rest) :
    BlankAt lines k ↔ line.all Text.isBlank = true := by
  rw [BlankAt, ← List.head?_drop, h, List.head?_cons, List.all_eq_true]
  simp

theorem matchNext_eq_ok_iff :
    (cursorAt lines k ps).matchNext p = .ok c ↔
      HasAt lines p k ∧ c = cursorAt lines (k + 1) ps := by
  have hrest : (cursorAt lines k ps).rest = lines.drop k := rfl
  rw [Cursor.matchNext, hrest]
  cases hdrop : lines.drop k with
  | nil =>
    refine iff_of_false (fun h => ?_) ?_
    · cases h
    · rintro ⟨⟨line, hline, -⟩, -⟩
      rw [← List.head?_drop, hdrop] at hline
      cases hline
  | cons line rest =>
    rw [hasAt_iff hdrop, cursorAt_succ hdrop]
    dsimp only
    split
    · next hhas =>
      exact ⟨fun h => ⟨hhas, (Except.ok.inj h).symm⟩, fun h => congrArg Except.ok h.2.symm⟩
    · next hhas =>
      refine iff_of_false (fun h => ?_) fun h => hhas h.1
      cases h

theorem matchSame_eq_ok_iff :
    (cursorAt lines k ps).matchSame p = .ok c ↔
      (∃ i, k = i + 1 ∧ HasAt lines p i) ∧ c = cursorAt lines k ps := by
  have hprevious : (cursorAt lines k ps).previous = if k = 0 then none else lines[k - 1]? := rfl
  rw [Cursor.matchSame, hprevious]
  cases k with
  | zero =>
    refine iff_of_false (fun h => ?_) ?_
    · cases h
    · rintro ⟨⟨i, hi, -⟩, -⟩
      cases hi
  | succ i =>
    have hhas : (∃ i', i + 1 = i' + 1 ∧ HasAt lines p i') ↔ HasAt lines p i := by simp
    rw [hhas, if_neg (Nat.succ_ne_zero i), Nat.add_sub_cancel, HasAt]
    cases hline : lines[i]? with
    | none =>
      refine iff_of_false (fun h => ?_) ?_
      · cases h
      · rintro ⟨⟨line, hline', -⟩, -⟩
        cases hline'
    | some line =>
      rw [show (∃ l, some line = some l ∧ p.toList <:+: l) ↔ has p line = true by simp [has_iff]]
      dsimp only
      split
      · next h =>
        exact ⟨fun hc => ⟨h, (Except.ok.inj hc).symm⟩, fun hc => congrArg Except.ok hc.2.symm⟩
      · next h =>
        refine iff_of_false (fun hc => ?_) fun hc => h hc.1
        cases hc

theorem matchEmpty_eq_ok_iff :
    (cursorAt lines k ps).matchEmpty = .ok c ↔
      (BlankAt lines k ∧ c = cursorAt lines (k + 1) ps) ∨
        (lines.length ≤ k ∧ c = cursorAt lines k ps) := by
  have hrest : (cursorAt lines k ps).rest = lines.drop k := rfl
  rw [Cursor.matchEmpty, hrest]
  cases hdrop : lines.drop k with
  | nil =>
    have hle := List.drop_eq_nil_iff.mp hdrop
    constructor
    · exact fun h => Or.inr ⟨hle, (Except.ok.inj h).symm⟩
    · rintro (⟨hblank, -⟩ | ⟨-, rfl⟩)
      · exact absurd hblank.lt_length (Nat.not_lt.mpr hle)
      · rfl
  | cons line rest =>
    have hlt : ¬lines.length ≤ k := fun hle =>
      List.cons_ne_nil line rest (hdrop.symm.trans (List.drop_eq_nil_iff.mpr hle))
    rw [blankAt_iff hdrop, cursorAt_succ hdrop]
    dsimp only
    cases hblank : line.all Text.isBlank with
    | true =>
      constructor
      · exact fun h => Or.inl ⟨rfl, (Except.ok.inj h).symm⟩
      · rintro (⟨-, rfl⟩ | ⟨hle, -⟩)
        · rfl
        · exact absurd hle hlt
    | false =>
      refine iff_of_false (fun h => ?_) ?_
      · cases h
      · rintro (⟨h, -⟩ | ⟨hle, -⟩)
        · cases h
        · exact hlt hle

/-- **One check line.** -/
theorem step_eq_ok_iff :
    (cursorAt lines k ps).step output d = .ok c ↔
      ∃ k', Moves lines k k' d ∧
        (d.searches = true → ∀ q ∈ ps, Lacks lines q k (k' - 1)) ∧
        c = cursorAt lines k' (d.collect ps) := by
  cases d with
  | check p | label p =>
    rw [show (cursorAt lines k ps).step output _ = (cursorAt lines k ps).search p output from rfl,
      search_eq_ok_iff]
    constructor
    · rintro ⟨j, hj, hlacks, hc⟩
      exact ⟨j + 1, ⟨j, hj, rfl⟩, fun _ => hlacks, hc⟩
    · rintro ⟨k', ⟨j, hj, rfl⟩, hlacks, hc⟩
      exact ⟨j, hj, hlacks rfl, hc⟩
  | next p =>
    refine matchNext_eq_ok_iff.trans ⟨?_, ?_⟩
    · rintro ⟨hhas, hc⟩
      exact ⟨k + 1, ⟨hhas, rfl⟩, fun h => (by cases h), hc⟩
    · rintro ⟨k', ⟨hhas, rfl⟩, -, hc⟩
      exact ⟨hhas, hc⟩
  | same p =>
    refine matchSame_eq_ok_iff.trans ⟨?_, ?_⟩
    · rintro ⟨hhas, hc⟩
      exact ⟨k, ⟨hhas, rfl⟩, fun h => (by cases h), hc⟩
    · rintro ⟨k', ⟨hhas, rfl⟩, -, hc⟩
      exact ⟨hhas, hc⟩
  | empty =>
    refine matchEmpty_eq_ok_iff.trans ⟨?_, ?_⟩
    · rintro (⟨hblank, hc⟩ | ⟨hend, hc⟩)
      · exact ⟨k + 1, Or.inl ⟨hblank, rfl⟩, fun h => (by cases h), hc⟩
      · exact ⟨k, Or.inr ⟨hend, rfl⟩, fun h => (by cases h), hc⟩
    · rintro ⟨k', ⟨hblank, rfl⟩ | ⟨hend, rfl⟩, -, hc⟩
      · exact Or.inl ⟨hblank, hc⟩
      · exact Or.inr ⟨hend, hc⟩
  | absent p | comment text =>
    constructor
    · intro h
      exact ⟨k, rfl, fun h => (by cases h), (Except.ok.inj h).symm⟩
    · rintro ⟨k', rfl, -, rfl⟩
      rfl

/-- What becomes of the collected patterns at a check line: a search tests them against the lines
that it passes over and drops them, any other check line hands them on. -/
theorem collected_iff (hmove : Moves lines k k' d) :
    ((d.searches = true → ∀ q ∈ ps, Lacks lines q k (k' - 1)) ∧
        ∀ q ∈ d.collect ps, ∀ lo hi, Passes Directive.searches lines k' ds lo hi →
          Lacks lines q lo hi) ↔
      (∀ p, d = .absent p → ∀ lo hi, Passes Directive.searches lines k' ds lo hi →
        Lacks lines p lo hi) ∧
        ∀ q ∈ ps, ∀ lo hi, Passes Directive.searches lines k (d :: ds) lo hi →
          Lacks lines q lo hi := by
  simp only [passes_cons_iff hmove]
  cases d with
  | check p | label p =>
    simp [Directive.searches, Directive.collect]
  | absent p =>
    simp only [Directive.searches, Directive.collect, List.mem_append, List.mem_singleton,
      Directive.absent.injEq]
    constructor
    · rintro ⟨-, h⟩
      exact ⟨fun _ heq => h _ (Or.inr heq.symm), fun q hq => h q (Or.inl hq)⟩
    · rintro ⟨hnew, hold⟩
      refine ⟨fun h => (by cases h), fun q hq => ?_⟩
      rcases hq with hq | rfl
      · exact hold q hq
      · exact hnew q rfl
  | next p | same p | empty | comment text =>
    simp [Directive.searches, Directive.collect]

/-- **The rest of a run** succeeds if the check lines still to come hold, and if the patterns
collected so far are absent from what the next search passes over. -/
theorem run_eq_ok_iff (lines : List Line) (output : String) (k : Nat) (ps : List String)
    (ds : List Directive) :
    (do
      let c ← ds.foldlM (fun (c : Cursor) d => c.step output d) (cursorAt lines k ps)
      checkAbsent c.rest c.forbidden) = .ok () ↔
      Obeys lines (Passes Directive.searches lines) k ds ∧
        ∀ q ∈ ps, ∀ lo hi, Passes Directive.searches lines k ds lo hi → Lacks lines q lo hi := by
  induction ds generalizing k ps with
  | nil =>
    rw [List.foldlM_nil, pure_bind]
    simp only [passes_nil_iff, Obeys, true_and, and_imp, forall_eq_apply_imp_iff, forall_eq]
    exact checkAbsent_eq_ok_iff.trans (forall₂_congr fun q _ => lacks_end_iff.symm)
  | cons d ds ih =>
    rw [List.foldlM_cons, bind_assoc, bind_eq_ok]
    simp only [step_eq_ok_iff]
    constructor
    · rintro ⟨c, ⟨k', hmove, hsearched, rfl⟩, hrest⟩
      obtain ⟨hobeys, hlacks⟩ := (ih k' (d.collect ps)).mp hrest
      obtain ⟨habsent, hlacks⟩ := (collected_iff hmove).mp ⟨hsearched, hlacks⟩
      exact ⟨⟨k', hmove, habsent, hobeys⟩, hlacks⟩
    · rintro ⟨⟨k', hmove, habsent, hobeys⟩, hlacks⟩
      obtain ⟨hsearched, hlacks⟩ := (collected_iff hmove).mpr ⟨habsent, hlacks⟩
      exact ⟨_, ⟨k', hmove, hsearched, rfl⟩, (ih k' (d.collect ps)).mpr ⟨hobeys, hlacks⟩⟩

/-! ## The whole report -/

/-- **When a report is accepted.** The check lines hold one after the other; no line that the next
match passes over contains the pattern of a `CHECK-NOT`; and if the next match is one of the line
at the cursor, no line that the next search behind it passes over contains the pattern either. -/
theorem validate_ok_iff (output : String) (ds : List Directive) :
    validate output ds = .ok () ↔ Satisfied output ds ∧ CarriedAbsent output ds := by
  have hrun := run_eq_ok_iff (Text.lines output.toList) output 0 [] ds
  rw [and_iff_left (fun q hq => absurd hq List.not_mem_nil)] at hrun
  exact hrun.trans (obeys_and_iff fun _ _ _ => lacks_region_iff)

/-- The line at the cursor is matched and nothing is passed over, so the pattern in front of it has
no line to be absent from. It is carried on all the same, and found behind the match. -/
theorem carried_pattern_found :
    Satisfied "A\nX\nB\n" [.absent "X", .next "A", .check "B"] ∧
      validate "A\nX\nB\n" [.absent "X", .next "A", .check "B"] =
        .error (.forbidden "X" "X") := by
  have hlines : Text.lines "A\nX\nB\n".toList = [['A'], ['X'], ['B']] := by decide
  refine ⟨?_, by decide⟩
  rw [Satisfied, hlines]
  have hA : HasAt [['A'], ['X'], ['B']] "A" 0 := ⟨['A'], rfl, has_iff.mp (by decide)⟩
  have hB : FirstAt [['A'], ['X'], ['B']] "B" 1 2 := by
    refine ⟨by decide, fun i hlo hhi => ?_, ['B'], rfl, has_iff.mp (by decide)⟩
    obtain rfl : i = 1 := by omega
    rintro ⟨line, hline, hhas⟩
    cases hline
    exact not_has_iff.mp (by decide) hhas
  refine ⟨0, rfl, fun q _ lo hi hpass => ?_, 1, ⟨hA, rfl⟩, fun _ h => (by cases h), 3, ⟨2, hB, rfl⟩,
    fun _ h => (by cases h), trivial⟩
  -- The next match is that of the first line: it passes over no line.
  have hnone := hpass.le_of_carries rfl
  exact fun i hlo hhi => absurd hnone (by omega)

end Dynarec.Checks
