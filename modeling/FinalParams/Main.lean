import FinalParams.CommandLine.Program

/-! The program as an executable.

The parser of dumps comes with cppcheck and is not at hand here, so a dump file that exists is
answered like any dump without that parser. -/

namespace FinalParams

inductive Attempt where
  | readable
  | missing
  | tooLong
  deriving DecidableEq

/-- The number of the system's error for a path that is too long. -/
def tooLongError : UInt32 := 36

def attempt (path : String) : IO Attempt := do
  try
    let file ← IO.FS.Handle.mk path .read
    discard (file.read 1)
    return .readable
  catch
    | .invalidArgument _ code _ => return if code = tooLongError then .tooLong else .missing
    | _ => return .missing

/-- The disk without a parser on which the files were tried with these results. -/
def plainDisk (tried : List (String × Attempt)) : Disk where
  parserPresent := false
  isTooLong path := tried.contains (path, .tooLong)
  read path := if tried.contains (path, .readable) then some (.ok {}) else none

end FinalParams

open FinalParams in
def main (arguments : List String) : IO UInt32 := do
  let tried ← match CommandLine.parse arguments with
    | .ok settings => settings.dumpFiles.mapM fun path => return (path, ← attempt path)
    | .error _ => pure []
  let (outcome, _) := CommandLine.run (plainDisk tried) Registry.default {} arguments
  IO.print outcome.stdout
  IO.eprint outcome.stderr
  match outcome.result with
  | .ok status => return status.toUInt32
  | .error failure =>
    IO.eprintln failure.text
    return 1
