/-
The command: read a listing, print the report, and write the object file if one is asked for.
-/
import Dynarec.Amd64.Process
import Dynarec.Report
import Dynarec.Report.CommandLine

set_option autoImplicit false

namespace Dynarec

/-- Print why the command failed. -/
def fail (reason : String) : IO UInt32 := do
  IO.eprintln s!"error: {reason}"
  return 1

/-- Write the object file of a report. -/
def writeObject (r : Report) (path : String) : IO Unit :=
  match r.object.encode with
  | .ok bytes => IO.FS.writeBinFile path (ByteArray.mk bytes.toArray)
  | .error f => throw (IO.userError (f.message.getD "internal error"))

/-- The process that reports. It has no machine code that could call the interpreter. -/
def thisProcess : Platform := Amd64.process 0

/-- Make and print the report that a command line asks for. -/
def report (c : Report.CommandLine) : IO UInt32 := do
  let text ← IO.FS.readFile c.file
  match Report.ofText thisProcess c.options text with
  | .error f => fail (f.message.getD "internal error")
  | .ok r =>
    if let some path := c.options.objectPath then writeObject r path
    match r.text c.options fun _ => none with
    | .error f => fail (f.message.getD "internal error")
    | .ok out =>
      IO.print out
      return 0

end Dynarec

/-- The command. -/
def main (args : List String) : IO UInt32 := do
  match Dynarec.Report.CommandLine.ofArgs Dynarec.thisProcess.host args with
  | .error e => Dynarec.fail e.message
  | .ok c =>
    try Dynarec.report c
    catch e => Dynarec.fail (toString e)
