/-
Matching a report against check lines.

The check lines are taken in order while a cursor moves through the lines of the report. Patterns
that must be absent are collected until the next check that searches. That check tests them
against the lines it passes over and drops them; what is left of them at the end is tested against
the lines that remain. A check of the line at the cursor passes over nothing, so it neither tests
nor drops them.

This is `validate_output`, with `check_forbidden` for the patterns that must be absent.
-/
import Dynarec.Checks.Directive
import Dynarec.Checks.Failure

set_option autoImplicit false

namespace Dynarec.Checks

/-- A line of a report. -/
abbrev Line := List Char

/-- The line has the pattern somewhere. -/
def has (pattern : String) (line : Line) : Bool := Text.occursIn pattern.toList line

/-- How far a report has been matched. -/
structure Cursor where
  /-- The line before the cursor. -/
  previous : Option Line := none
  /-- The lines from the cursor on. -/
  rest : List Line
  /-- The patterns collected since the last search. -/
  forbidden : List String := []
  deriving DecidableEq, Repr

/-- None of the patterns occurs in the lines; of several that do, the first pattern counts and of
its lines the first. -/
def checkAbsent (lines : List Line) : List String → Except Failure Unit
  | [] => .ok ()
  | pattern :: patterns =>
    match lines.find? (has pattern) with
    | some line => .error (.forbidden pattern (String.ofList line))
    | none => checkAbsent lines patterns

namespace Cursor

/-- Move past the first line with the pattern. -/
def search (c : Cursor) (pattern output : String) : Except Failure Cursor :=
  match c.rest.dropWhile (!has pattern ·) with
  | [] => .error (.notFound pattern output)
  | line :: rest => do
    checkAbsent (c.rest.takeWhile (!has pattern ·)) c.forbidden
    return { previous := some line, rest := rest }

/-- Move past the line at the cursor, which must have the pattern. -/
def matchNext (c : Cursor) (pattern : String) : Except Failure Cursor :=
  match c.rest with
  | [] => .error (.noMoreLines pattern)
  | line :: rest =>
    if has pattern line then .ok { c with previous := some line, rest := rest }
    else .error (.nextDiffers pattern (String.ofList line))

/-- The line before the cursor must have the pattern. -/
def matchSame (c : Cursor) (pattern : String) : Except Failure Cursor :=
  match c.previous with
  | none => .error (.noPrevious pattern)
  | some line =>
    if has pattern line then .ok c else .error (.sameDiffers pattern (String.ofList line))

/-- Move past the line at the cursor, which must be blank; at the end there is nothing to do. -/
def matchEmpty (c : Cursor) : Except Failure Cursor :=
  match c.rest with
  | [] => .ok c
  | line :: rest =>
    if line.all Text.isBlank then .ok { c with previous := some line, rest := rest }
    else .error (.notEmpty (String.ofList line))

/-- The cursor after one more check line; `output` is the whole report. -/
def step (output : String) (c : Cursor) : Directive → Except Failure Cursor
  | .check pattern | .label pattern => c.search pattern output
  | .next pattern => c.matchNext pattern
  | .same pattern => c.matchSame pattern
  | .absent pattern => .ok { c with forbidden := c.forbidden ++ [pattern] }
  | .empty => c.matchEmpty
  | .comment _ => .ok c

end Cursor

/-- The report satisfies the check lines. -/
def validate (output : String) (directives : List Directive) : Except Failure Unit := do
  let c ← directives.foldlM (fun (c : Cursor) d => c.step output d)
    { rest := Text.lines output.toList }
  checkAbsent c.rest c.forbidden

end Dynarec.Checks
