import FinalParams.CommandLine.Settings
import FinalParams.Host.Addon

/-! The program as it is run from a shell or by cppcheck. -/

namespace FinalParams
namespace CommandLine

def helpText : String :=
  "\n".intercalate [
    "usage: effectively_final [-h] [--cli] [--output \x7bjson,gcc,summary\x7d]",
    "                         [--checkers [NAME ...]] [--plain-only]",
    "                         [--suppress [ERROR_ID ...]] [--list-checkers] [-v]",
    "                         [DUMP_FILE ...]",
    "",
    "Report assignments to function parameters not declared const.",
    "",
    "positional arguments:",
    "  DUMP_FILE             file(s) written by 'cppcheck --dump'",
    "",
    "options:",
    "  -h, --help            show this help message and exit",
    "  --cli                 addon mode, as passed by cppcheck (JSON output)",
    "  --output \x7bjson,gcc,summary\x7d",
    "                        output format (default: gcc)",
    "  --checkers [NAME ...]",
    "                        run only these checkers",
    "  --plain-only          report plain '=' only, not compound assignment or",
    "                        ++/--",
    "  --suppress [ERROR_ID ...]",
    "                        error ids to suppress everywhere",
    "  --list-checkers       print the available checkers and exit",
    "  -v, --verbose         more logging (-v, -vv)",
    ""]

/-- The options that the settings stand for. -/
def Settings.options (s : Settings) : Options :=
  if s.plainOnly then [("compound_assignments", .bool false), ("updates", .bool false)] else []

def Settings.request (s : Settings) : AddonRequest :=
  { dumpFiles := s.dumpFiles
    checkers := s.checkers
    output := if s.cli then "json" else s.output.getD "gcc"
    suppress := s.suppress.getD []
    options := some s.options }

structure Outcome where
  result : Except Failure Nat
  stdout : String := ""
  stderr : String := ""

def usageLine (e : UsageError) : String := "effectively_final: error: " ++ e.message ++ "\n"

def usageStatus : Nat := 2

/-- Checks the dump files of the settings.  A failure with a code ends in an exit status. -/
def check (disk : Disk) (registry : Registry) (clock : Clock) (s : Settings) : Outcome × Clock :=
  let shown (lines : List Log.Line) : String := Log.shown (Log.levelFor s.verbose) lines
  match runAddon disk registry clock s.request with
  | (.ok (status, stdout), host) =>
    ({ result := .ok status.code, stdout, stderr := shown host.log }, host.clock)
  | (.error failure, host) =>
    if failure.isCoded then
      ({ result := .ok ExitStatus.incomplete.code
         stderr := shown (host.log ++ [⟨.error, .host, failure.text⟩]) }, host.clock)
    else ({ result := .error failure, stderr := shown host.log }, host.clock)

def run (disk : Disk) (registry : Registry) (clock : Clock) (arguments : List String) :
    Outcome × Clock :=
  match parse arguments with
  | .error .help => ({ result := .ok 0, stdout := helpText }, clock)
  | .error (.usage e) => ({ result := .ok usageStatus, stderr := usageLine e }, clock)
  | .ok s =>
    if s.listCheckers then ({ result := .ok 0, stdout := Registry.listing registry }, clock)
    else if s.dumpFiles = [] then
      ({ result := .ok usageStatus, stderr := usageLine .noDumpFiles }, clock)
    else check disk registry clock s

end CommandLine
end FinalParams
