import FinalParams.Datum.Json
import FinalParams.Loc

/-! Findings as they leave the checkers, in the two forms in which they are written. -/

namespace FinalParams

/-- The severities that cppcheck knows. -/
inductive Severity where
  | error
  | warning
  | style
  | performance
  | portability
  | information
  deriving DecidableEq, Inhabited, Repr

namespace Severity

def all : List Severity := [error, warning, style, performance, portability, information]

def text : Severity → String
  | error => "error"
  | warning => "warning"
  | style => "style"
  | performance => "performance"
  | portability => "portability"
  | information => "information"

def ofText? (s : String) : Option Severity := all.find? (·.text == s)

/-- The severity that a value names. -/
def ofDatum? : Datum → Option Severity
  | .text s => ofText? s
  | _ => none

/-- What is said of a value that names no severity. -/
def unknown (d : Datum) : String := d.quoted ++ " is not a valid DiagnosticSeverity"

theorem ofText?_text (s : Severity) : ofText? s.text = some s := by cases s <;> decide

end Severity

/-- A finding.  Whoever reports one is trusted with its id and its message, and so any value may
stand for them. -/
structure Diagnostic where
  /-- The name by which findings of this sort are suppressed. -/
  errorId : Datum
  message : Datum
  severity : Severity
  loc : Loc
  checker : String := ""
  addon : Datum := .text "effectively-final"
  deriving DecidableEq, Repr

namespace Diagnostic

/-- `file:line[:column]: severity: message [errorId]` -/
def gccLine (d : Diagnostic) : String :=
  d.loc.text ++ ": " ++ d.severity.text ++ ": " ++ d.message.shown
    ++ " [" ++ d.errorId.shown ++ "]"

/-- The object that cppcheck reads from an addon, member by member. -/
def members (d : Diagnostic) : List (String × Datum) :=
  [("file", d.loc.file), ("linenr", d.loc.line), ("column", d.loc.column),
    ("severity", .text d.severity.text), ("message", d.message), ("addon", d.addon),
    ("errorId", d.errorId), ("extra", .text "")]

/-- The object on a line of its own. -/
def jsonLine (d : Diagnostic) : String := (Datum.record d.members).json

end Diagnostic

/-- The finding that reports one call of a collecting sink: it belongs to no checker. -/
def Diagnostic.collected (errorId : Datum) (severity : Severity) (message : Datum)
    (loc : Loc) : Diagnostic :=
  { errorId, message, severity, loc }

end FinalParams
