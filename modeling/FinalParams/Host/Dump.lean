import FinalParams.Config.Basic
import FinalParams.Diagnostic.Suppression
import FinalParams.Host.Failure
import FinalParams.Host.Path

/-! Dump files.

The text of a dump is read by a parser that comes with cppcheck, so here a disk is given by what
that parser makes of each file. -/

namespace FinalParams

/-- A parsed dump: one configuration for each choice of preprocessor symbols, and the suppression
comments of the source. -/
structure Dump where
  configurations : List Config := []
  suppressions : List SuppressionRecord := []
  deriving Inhabited, Repr

structure Disk where
  parserPresent : Bool := true
  /-- Whether a path that holds no null character is too long to be looked up. -/
  isTooLong : String → Bool := fun _ => false
  /-- What reading a file gives, or nothing where there is no such file. -/
  read : String → Option (Except Fault Dump)

/-- The file is looked for first, then the parser, and then the file is read. -/
def Disk.load (disk : Disk) (path : String) : Except Failure Dump :=
  if !path.toList.contains '\x00' && disk.isTooLong path then
    .error (.nameTooLong (Path.ofText path).text)
  else match disk.read path with
  | none => .error (.load { path, reason := "no such dump file", code := .dumpNotFound })
  | some result =>
    if disk.parserPresent then
      match result with
      | .ok dump => .ok dump
      | .error fault =>
        if fault.kind.isUnreadable then
          .error (.load { path, reason := "cannot parse dump: " ++ fault.text,
                          cause := some (.fault fault.kind) })
        else .error (.parser fault)
    else
      .error (.load { path, code := .parserMissing, cause := some .parserMissing,
                      reason := "cannot import cppcheckdata (put cppcheck's addons directory "
                        ++ "on PYTHONPATH)" })

/-- The source file that a dump belongs to: `main.c` for `main.c.dump`. -/
def sourcePath (dumpFile : String) : String :=
  let cs := dumpFile.toList
  let ending := ".dump".toList
  if ending.isSuffixOf cs then String.ofList (cs.take (cs.length - ending.length)) else dumpFile

end FinalParams
