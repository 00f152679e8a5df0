import FinalParams.Host.Checker

/-! Checkers that follow a script, for trying out the host without a rule of their own. -/

namespace FinalParams

inductive Step where
  | create
  | configure
  | collect
  | diagnose
  | report
  deriving DecidableEq, Repr

/-- A finding of a script.  Where its severity is null it has that of the checker. -/
structure ScriptedFinding where
  errorId : Datum
  message : Datum := .text ""
  loc : Loc := {}
  severity : Datum := .null
  deriving Repr

structure Script where
  name : String := "checker"
  description : Datum := .text ""
  errorIds : List String := []
  severity : Severity := .warning
  /-- The step that fails, and what it says. -/
  failAt : Option Step := none
  failure : String := "boom"
  /-- A tree to leave for the other checkers. -/
  tree : Option Node := none
  /-- Whether to report the tree that another checker has left. -/
  probes : Bool := false
  findings : List ScriptedFinding := []

namespace Script

def failIn (s : Script) (step : Step) : Action Unit :=
  if s.failAt = some step then throw (.crash s.failure) else return

/-- What is said of a tree that was left.  Only a compilation unit has a path. -/
def probeMessage : Option Node → Except Misfit String
  | none => .ok "none"
  | some (.file path _ _) => .ok ("unit " ++ path.shown)
  | some n => .error (.lacking n.typeName "path")

def probe (s : Script) : Action Unit := do
  match probeMessage (← Action.getAnalysis Action.unitAnalysis) with
  | .error e => throw (.misfit e)
  | .ok message =>
    let loc : Loc := { file := (← get).context.path }
    Action.emit { errorId := .text "probe", message := .text message, loc
                  severity := s.severity, checker := s.name }

/-- The severity of a finding, unless what stands for it is none. -/
def severityOf (s : Script) (f : ScriptedFinding) : Except Failure Severity :=
  match f.severity with
  | .null => .ok s.severity
  | d =>
    match Severity.ofDatum? d with
    | some severity => .ok severity
    | none => .error (.notASeverity d)

def emit (s : Script) (f : ScriptedFinding) : Action Unit :=
  match s.severityOf f with
  | .error failure => throw failure
  | .ok severity =>
    Action.emit { errorId := f.errorId, message := f.message, loc := f.loc, severity
                  checker := s.name }

def collect (s : Script) : Action Unit := do
  s.failIn .collect
  match s.tree with
  | some n => Action.setAnalysis Action.unitAnalysis n
  | none => return

/-- A failing diagnosis has its findings already. -/
def diagnose (s : Script) : Action Unit := do
  if s.probes then s.probe
  s.findings.forM s.emit
  s.failIn .diagnose

def checker (s : Script) : Checker where
  name := s.name
  description := s.description
  errorIds := s.errorIds.eraseDups
  severity := s.severity
  sort := "Scripted"
  create := if s.failAt = some .create then .error (.crash s.failure) else .ok ()
  configure := s.failIn .configure
  collect := s.collect
  diagnose := s.diagnose
  report := do
    s.failIn .report
    Action.unsuppressed

end Script
end FinalParams
