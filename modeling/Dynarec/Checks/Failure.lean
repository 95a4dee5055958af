/-
Why a check file does not hold.
-/
import Dynarec.Fault

set_option autoImplicit false

namespace Dynarec.Checks

/-- Why a check file does not hold. -/
inductive Failure where
  /-- The file has no run line. -/
  | noRun
  | unknownCommand (command : String)
  /-- The report itself failed. -/
  | fault (cause : Fault)
  /-- No line at or after the cursor has the pattern. -/
  | notFound (pattern output : String)
  /-- The report ends before the line that should have the pattern. -/
  | noMoreLines (pattern : String)
  | nextDiffers (pattern line : String)
  /-- Nothing was matched before a check of the same line. -/
  | noPrevious (pattern : String)
  | sameDiffers (pattern line : String)
  | notEmpty (line : String)
  | forbidden (pattern line : String)
  deriving DecidableEq, Repr

/-- The wording of a failure; only a fault may have none. -/
def Failure.message : Failure → Option String
  | .noRun => some "no RUN directive"
  | .unknownCommand command => some s!"unknown RUN command '{command}'"
  | .fault cause => cause.message
  | .notFound pattern output => some s!"CHECK: pattern '{pattern}' not found in output:\n{output}"
  | .noMoreLines pattern => some s!"CHECK-NEXT: no more lines, expected '{pattern}'"
  | .nextDiffers pattern line => some s!"CHECK-NEXT: expected '{pattern}' but got '{line}'"
  | .noPrevious pattern => some s!"CHECK-SAME: no previous match for '{pattern}'"
  | .sameDiffers pattern line => some s!"CHECK-SAME: expected '{pattern}' on '{line}'"
  | .notEmpty line => some s!"CHECK-EMPTY: expected empty line but got '{line}'"
  | .forbidden pattern line => some s!"CHECK-NOT: '{pattern}' found in '{line}'"

end Dynarec.Checks
