/-
What a report is asked for.

Options are given as flags. A flag that takes a value has it after an equals sign or as the next
argument, whatever that looks like; a flag that takes none ignores what stands after an equals
sign. Arguments that are no flag are passed over. When a flag is repeated the last one counts.

This is `DriverOptions`: `from_args`, `jit_options` and `wants_code`.
-/
import Dynarec.Settings

set_option autoImplicit false

namespace Dynarec.Report

open Dynarec.Optimize (Pipeline)

/-- What to do with each block of a module. -/
structure Options where
  target : Target
  /-- Passes to run instead of the usual ones, separated by commas. -/
  passes : Option String := none
  /-- Run no passes, even if some are given. -/
  unoptimized : Bool := false
  /-- Print the optimised block. -/
  listing : Bool := false
  /-- Compile and print a summary of the code. -/
  compile : Bool := false
  /-- Compile and print the summary and the code. -/
  hex : Bool := false
  /-- Interpret the optimised block. -/
  interpret : Bool := false
  /-- Compile and enter the block. -/
  run : Bool := false
  /-- Print the statistics of all blocks at the end. -/
  statistics : Bool := false
  /-- Compile and write the code to an object file. -/
  objectPath : Option String := none
  /-- The size of the memory that a block is executed with. -/
  memorySize : Nat := 0x10000
  deriving DecidableEq, Repr

namespace Options

/-- Set the value of a flag that takes one; `none` for any other flag. -/
def valued? (flag : String) : Option (String → Options → Except Fault Options) :=
  match flag with
  | "--target" => some fun value o =>
    match Target.ofName? value with
    | some t => .ok { o with target := t }
    | none => .error (.unsupported (.unknownTarget value))
  | "--passes" => some fun value o => .ok { o with passes := some value }
  | "--emit-obj" => some fun value o => .ok { o with objectPath := some value }
  | _ => none

/-- Turn on what a flag without a value stands for. -/
def switch (o : Options) (flag : String) : Options :=
  match flag with
  | "--no-opt" => { o with unoptimized := true }
  | "--print-ir" => { o with listing := true }
  | "--compile" => { o with compile := true }
  | "--hex" => { o with hex := true }
  | "--interpret" => { o with interpret := true }
  | "--run" => { o with run := true }
  | "--stats" => { o with statistics := true }
  | _ => o

/-- An argument cut at its first equals sign. -/
def cut (arg : String) : String × Option String :=
  let cs := arg.toList
  match cs.dropWhile (· ≠ '=') with
  | [] => (arg, none)
  | _ :: value => (String.ofList (cs.takeWhile (· ≠ '=')), some (String.ofList value))

/-- The options after the given arguments. -/
def readArgs (o : Options) : List String → Except Fault Options
  | [] => .ok o
  | arg :: rest =>
    let (flag, inline?) := cut arg
    match valued? flag with
    | none => readArgs (o.switch flag) rest
    | some set =>
      match inline? with
      | some value => do readArgs (← set value o) rest
      | none =>
        match rest with
        | [] => .error (.unsupported (.missingValue flag))
        | value :: rest => do readArgs (← set value o) rest

/-- The options that a list of arguments gives to a process on a host. -/
def ofArgs (host : Target) (args : List String) : Except Fault Options :=
  readArgs { target := host } args

/-- The passes that the options choose. -/
def pipeline (o : Options) : Except Fault Pipeline :=
  if o.unoptimized then .ok {}
  else
    match o.passes with
    | some names => Pipeline.ofNames names
    | none => .ok (Pipeline.standard o.target)

/-- How the options say to optimise and compile. -/
def settings (o : Options) : Except Fault Settings := do
  return { Settings.standard o.target with pipeline := ← o.pipeline }

/-- Code is needed. -/
def wantsCode (o : Options) : Bool := o.compile || o.hex || o.objectPath.isSome

end Options

end Dynarec.Report
