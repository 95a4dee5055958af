/-
Check files: a listing together with what a report on it should say.

A line that starts with a directive, after blanks, is taken out of the listing; every other line
stays. A run line names a command and its arguments, without the placeholder for the file itself.
A check line has a pattern, with the blanks around it removed.

Reading a check file is `TestSpec::parse`.
-/
import Dynarec.Text.Blank
import Dynarec.Text.Lines

set_option autoImplicit false

namespace Dynarec.Checks

/-- What a check line asks of the report. The cursor stands before the first line that no earlier
check has matched. -/
inductive Directive where
  /-- A line at or after the cursor has the pattern. -/
  | check (pattern : String)
  /-- The same, at the start of a part of the report. -/
  | label (pattern : String)
  /-- The line at the cursor has the pattern. -/
  | next (pattern : String)
  /-- The line before the cursor has the pattern. -/
  | same (pattern : String)
  /-- No line that the next check passes over has the pattern. -/
  | absent (pattern : String)
  /-- The line at the cursor is blank, or there is none. -/
  | empty
  /-- Nothing. -/
  | comment (text : String)
  deriving DecidableEq, Repr

/-- A command line. -/
structure RunLine where
  command : String
  args : List String
  deriving DecidableEq, Repr

/-- A check file. -/
structure CheckFile where
  runs : List RunLine := []
  directives : List Directive := []
  /-- The lines of the listing. -/
  listing : List (List Char) := []
  deriving DecidableEq, Repr

/-! ## Reading -/

/-- What one line is. -/
inductive LineKind where
  /-- A run line, by the text after its mark. -/
  | run (text : List Char)
  | directive (d : Directive)
  | listing
  deriving DecidableEq, Repr

/-- The marks of check lines with a pattern. -/
def patternMarks : List (String × (String → Directive)) :=
  [("; CHECK-LABEL:", .label), ("; CHECK-NEXT:", .next), ("; CHECK-SAME:", .same),
   ("; CHECK-NOT:", .absent), ("; CHECK:", .check), ("; COM:", .comment)]

/-- The check line that a trimmed line is. -/
def directiveOf? (line : List Char) : Option Directive :=
  if "; CHECK-EMPTY".toList.isPrefixOf line then some .empty
  else patternMarks.findSome? fun (mark, make) =>
    (mark.toList.isPrefixOf? line).map fun rest => make (String.ofList (Text.trim rest))

/-- What a line is. -/
def classify (line : List Char) : LineKind :=
  let trimmed := Text.trim line
  match "; RUN:".toList.isPrefixOf? trimmed with
  | some rest => .run rest
  | none =>
    match directiveOf? trimmed with
    | some d => .directive d
    | none => .listing

/-- The command of a run line, unless it has none. -/
def runLineOf? (text : List Char) : Option RunLine :=
  match ((Text.words text).map String.ofList).filter (· ≠ "%s") with
  | [] => none
  | command :: args => some { command := command, args := args }

namespace CheckFile

/-- The file with one more line. -/
def addLine (f : CheckFile) (line : List Char) : CheckFile :=
  match classify line with
  | .run text => { f with runs := f.runs ++ (runLineOf? text).toList }
  | .directive d => { f with directives := f.directives ++ [d] }
  | .listing => { f with listing := f.listing ++ [line] }

/-- The file that a text is. -/
def ofText (text : String) : CheckFile := (Text.lines text.toList).foldl addLine {}

/-- The listing as a text. -/
def listingText (f : CheckFile) : String := "\n".intercalate (f.listing.map String.ofList)

end CheckFile

end Dynarec.Checks
