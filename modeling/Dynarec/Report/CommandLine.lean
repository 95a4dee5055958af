/-
The command line: the flags of a report, the memory size, and the file with the listing.

This is `Cli`.
-/
import Dynarec.Report.Options
import Dynarec.Text.Digits

set_option autoImplicit false

namespace Dynarec.Report

/-- A file and what to report about it. -/
structure CommandLine where
  file : String
  options : Options
  deriving DecidableEq, Repr

/-- Why a command line cannot be followed. -/
inductive UsageError where
  | noFile
  | extraArgument (arg : String)
  /-- The memory size is no number. -/
  | badSize (value : String)
  | fault (cause : Fault)
  deriving DecidableEq, Repr

/-- The wording of a usage error. -/
def UsageError.message : UsageError → String
  | .noFile => "no file given"
  | .extraArgument arg => s!"unexpected argument '{arg}'"
  | .badSize value => s!"invalid memory size '{value}'"
  | .fault cause => cause.message.getD "internal error"

namespace CommandLine

/-- An argument that is a flag. -/
def isFlag (arg : String) : Bool := "--".toList.isPrefixOf arg.toList

/-- The flag for the memory size. -/
def sizeFlag : String := "--memory-size"

/-- The flag takes a value. -/
def takesValue (flag : String) : Bool := flag == sizeFlag || (Options.valued? flag).isSome

/-- Give each flag that takes a value its value, if there is one. -/
def pairUp : List String → List (String × Option String)
  | [] => []
  | arg :: rest =>
    match Options.cut arg with
    | (flag, some value) => (flag, some value) :: pairUp rest
    | (flag, none) =>
      if takesValue flag then
        match rest with
        | [] => [(flag, none)]
        | value :: rest => (flag, some value) :: pairUp rest
      else (flag, none) :: pairUp rest

/-- Follow one argument with its value. -/
def step (file : Option String) (o : Options) (flag : String) (value : Option String) :
    Except UsageError (Option String × Options) :=
  if !isFlag flag then
    match file with
    | none => .ok (some flag, o)
    | some _ => .error (.extraArgument flag)
  else if flag == sizeFlag then
    match (value.getD "").toList |> Text.unsigned? 10 with
    | some n => .ok (file, { o with memorySize := n })
    | none => .error (.badSize (value.getD ""))
  else
    match Options.valued? flag with
    | none => .ok (file, o.switch flag)
    | some set =>
      match value with
      | none => .error (.fault (.unsupported (.missingValue flag)))
      | some value => ((set value o).mapError .fault).map fun o => (file, o)

/-- The command line that a list of arguments gives to a process on a host. -/
def ofArgs (host : Target) (args : List String) : Except UsageError CommandLine := do
  let (file?, o) ← (pairUp args).foldlM (fun (file, o) (flag, value) => step file o flag value)
    ((none : Option String), ({ target := host } : Options))
  match file? with
  | some file => return { file := file, options := o }
  | none => throw .noFile

end CommandLine

end Dynarec.Report
