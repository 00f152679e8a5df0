import FinalParams.Config.Basic
import FinalParams.Diagnostic.Suppression
import FinalParams.Host.Failure
import FinalParams.Log
import FinalParams.Options

/-
Checkers.

A checker goes through four steps: it reads its options, collects evidence, turns it into findings
and reports those that no suppression covers.  Each step may use and change two things: the state
of the checker itself, and the context that all checkers of one run share.  A step that fails keeps
what it changed before.
-/

namespace FinalParams

/-- The state of a checker while it works on one configuration. -/
structure Instance where
  found : List Diagnostic := []
  mutations : Mutations := {}
  unit : Option Node := none
  deriving Inhabited

/-- What the checkers of one run share.  One of them may keep in `analyses` what others can use. -/
structure Context where
  config : Config := {}
  path : Datum := .text ""
  suppressions : Suppressions := []
  analyses : Table Node := []
  options : Options := []
  deriving Inhabited

/-- Everything that a step works on. -/
structure Bench where
  inst : Instance := {}
  context : Context := {}
  log : List Log.Line := []
  deriving Inhabited

/-- A step, which may fail. -/
abbrev Action (α : Type) := EStateM Failure Bench α

structure Checker where
  name : String := "checker"
  description : Datum := .text ""
  errorIds : List String := []
  severity : Severity := .warning
  /-- What sort of checker this is, as it presents itself. -/
  sort : String
  /-- Whether an instance can be made at all. -/
  create : Except Failure Unit := .ok ()
  configure : Action Unit := pure ()
  collect : Action Unit
  diagnose : Action Unit
  report : Action (List Diagnostic)

namespace Checker

def present (c : Checker) : String := c.sort ++ "(name=" ++ Text.quoted c.name ++ ")"

/-- The four steps in order. -/
def work (c : Checker) : Action (List Diagnostic) := do
  c.configure
  c.collect
  c.diagnose
  c.report

end Checker

namespace Action

/-- The names under which analyses are kept. -/
def unitAnalysis : String := "compilation_unit"

/-- Adds a finding. -/
def emit (d : Diagnostic) : Action Unit :=
  modify fun b => { b with inst := { b.inst with found := b.inst.found ++ [d] } }

def note (origin : Log.Origin) (message : String) : Action Unit :=
  modify fun b => { b with log := b.log ++ [⟨.debug, origin, message⟩] }

def setAnalysis (name : String) (n : Node) : Action Unit :=
  modify fun b =>
    { b with context := { b.context with analyses := Table.set b.context.analyses name n } }

/-- The analysis of a name.  An empty one counts as missing. -/
def getAnalysis (name : String) : Action (Option Node) := do
  match Table.get? (← get).context.analyses name with
  | some (.stray (.datum .null)) => return none
  | found => return found

/-- The findings that no suppression covers. -/
def unsuppressed : Action (List Diagnostic) := do
  let b ← get
  match Suppressions.sift b.context.suppressions b.inst.found with
  | .error e => throw (.misfit e)
  | .ok kept => return kept

end Action
end FinalParams
