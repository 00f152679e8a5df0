import FinalParams.Host.Session

/-! Checking dump files and writing the findings. -/

namespace FinalParams

/-- How a check ended. -/
inductive ExitStatus where
  | clean
  | violations
  | incomplete
  deriving DecidableEq, Repr

def ExitStatus.code : ExitStatus → Nat
  | clean => 0
  | violations => 1
  | incomplete => 2

structure AddonRequest where
  dumpFiles : List String
  checkers : Option (List String) := none
  output : String := "json"
  suppress : List String := []
  options : Option Options := none
  deriving Repr

namespace Addon

/-- The rules that suppress these ids everywhere. -/
def globalRules (ids : List String) : Suppressions :=
  ids.foldl (fun rules errorId => Suppressions.add rules { errorId := .text errorId }) []

def checkFiles (disk : Disk) (checkers : Option (List String)) (report : Report) :
    List String → Session Report
  | [] => return report
  | file :: rest =>
    match disk.load file with
    | .error failure => throw failure
    | .ok dump => do
      Session.write .info ("loaded " ++ file)
      let next ← Session.checkDump dump checkers (.text (sourcePath file))
      let joined ← Session.join report next
      checkFiles disk checkers joined rest

/-- A checker that failed makes the findings incomplete, and this comes before violations. -/
def status (report : Report) : ExitStatus :=
  if report.failures ≠ [] then .incomplete
  else if report.errorCount ≠ 0 then .violations
  else .clean

/-- The output, which ends in a line end unless it is empty. -/
def written (report : Report) (output : String) : String :=
  let text := report.format output
  if text = "" then "" else text ++ "\n"

def session (disk : Disk) (request : AddonRequest) : Session (ExitStatus × String) := do
  let report ← checkFiles disk request.checkers {} request.dumpFiles
  if report.failures ≠ [] then
    Session.write .error ("checker(s) failed: " ++ ", ".intercalate report.failures)
  return (status report, written report request.output)

end Addon

/-- Checks every dump of a request.  The result is the status and the output, or the failure that
ended the check before anything was written; the host is the state in which it ended. -/
def runAddon (disk : Disk) (registry : Registry) (clock : Clock) (request : AddonRequest) :
    Except Failure (ExitStatus × String) × Host :=
  let host :=
    Host.start registry (some (Addon.globalRules request.suppress)) request.options clock
  match (Addon.session disk request).run host with
  | .ok result h => (.ok result, h)
  | .error failure h => (.error failure, h)

end FinalParams
