/-
Running check files: a report is made for each run line and must satisfy every check line.

This is `TestRunner`: `run_test` and `execute_command`.
-/
import Dynarec.Checks.Match
import Dynarec.Report

set_option autoImplicit false

namespace Dynarec.Checks

/-- The command that run lines name. -/
def commandName : String := "irjit"

/-- The report that a run line asks for. -/
def reportText (p : Platform) (refused : String → Option WriteCause) (listing : String)
    (r : RunLine) : Except Failure String := do
  if r.command ≠ commandName then throw (.unknownCommand r.command)
  let text : Except Fault String := do
    let o ← Report.Options.ofArgs p.host r.args
    (← Report.ofText p o listing).text o refused
  text.mapError .fault

namespace CheckFile

/-- Read a check file, which must have a run line. -/
def read (text : String) : Except Failure CheckFile :=
  let f := ofText text
  if f.runs.isEmpty then .error .noRun else .ok f

/-- The check lines hold for every run line; `refused` says which paths cannot be written to. -/
def run (p : Platform) (f : CheckFile) (refused : String → Option WriteCause) :
    Except Failure Unit :=
  f.runs.forM fun r => do validate (← reportText p refused f.listingText r) f.directives

end CheckFile

end Dynarec.Checks
