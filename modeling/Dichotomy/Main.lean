import Dichotomy.CommandLine.Run
import Dichotomy.Formula.Search

/-!
# The command

Reads the arguments, the file they name and the standard input, runs, and prints.
-/

open Dichotomy

/-- The bytes of the file at a path, or why they cannot be had.  A directory can be opened but not
    read, so only a fault of opening names the path. -/
def bytesOfFile (path : String) : IO (Except Fault (List Nat)) := do
  try
    return .ok ((← IO.FS.readBinFile path).toList.map UInt8.toNat)
  catch
    | .noFileOrDirectory .. => return .error (.missingFile path)
    | .inappropriateType none .. => return .error (.directory path)
    | .inappropriateType (some _) .. => return .error (.throughFile path)
    | .invalidArgument .. => return .error (.longPath path)
    | other => throw other

/-- The bytes of the standard input. -/
def bytesOfStandardInput : IO (Except Fault (List Nat)) := do
  return .ok ((← (← IO.getStdin).readBinToEnd).toList.map UInt8.toNat)

/-- Runs the command with the arguments of the process. -/
def main (arguments : List String) : IO UInt32 := do
  let path := match Settings.ofArguments arguments with
    | .ok settings => settings.path
    | .error _ => ""
  let standardInput ← if path = "-" then bytesOfStandardInput else pure (.ok [])
  let bytes ← if path = "" || path = "-" then pure (.ok []) else bytesOfFile path
  match runCommand Formula.splitSolver ⟨fun _ => bytes, standardInput⟩ arguments with
  | .ok ending =>
    IO.print ending.console.output
    IO.eprint ending.console.errors
    return ending.code.toUInt32
  | .error fault =>
    IO.eprintln fault.message
    return 1
