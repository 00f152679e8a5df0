import FinalParams.Host.Checker
import FinalParams.Lowering.Unit

/-! The checker for the one rule: a parameter that is not declared constant is not assigned.

It works on the tree of the configuration, which it shares with the other checkers.  If another
one has left a tree already, that one is checked. -/

namespace FinalParams
namespace ParameterChecker

def name : String := "effectively-final"

def errorId : String := "effectivelyFinal"

/-- The finding that reports a violation. -/
def finding (v : Violation) : Diagnostic :=
  { errorId := .text errorId, message := .text v.message, severity := .error
    loc := v.loc.reported (.text ""), checker := name }

def configure : Action Unit :=
  modify fun b =>
    { b with inst := { b.inst with mutations := Mutations.ofOptions b.context.options } }

/-- What is noted about a tree that was made. -/
def loweringNote (c : Config) (tree : Node) : String :=
  let path := match tree with
    | .file path _ _ => path
    | _ => .null
  let shown := if path.truthy then path.shown else "<cfg>"
  s!"lowered {shown}: {tree.children.length} top-level unit(s) from "
    ++ s!"{c.callableScopes.length} callable scope(s)"

def collect : Action Unit := do
  let unit ← Action.getAnalysis Action.unitAnalysis
  match unit with
  | some tree => modify fun b => { b with inst := { b.inst with unit := some tree } }
  | none =>
    let context := (← get).context
    match context.config.compilationUnit context.path with
    | .error e => throw (.lowering e)
    | .ok tree =>
      Action.note .lowering (loweringNote context.config tree)
      Action.setAnalysis Action.unitAnalysis tree
      modify fun b => { b with inst := { b.inst with unit := some tree } }

/-- What is noted about a compilation unit that was searched. -/
def scanNote? (tree : Node) (count : Nat) : Option String :=
  match tree with
  | .file path _ _ =>
    let shown := if path.truthy then path.shown else "<unit>"
    some s!"{shown}: {count} violation(s)"
  | _ => none

/-- The violations before an error are reported, too. -/
def diagnose : Action Unit := do
  let inst := (← get).inst
  match inst.unit with
  | none => return
  | some tree =>
    let outcome := tree.scan inst.mutations none
    modify fun b =>
      { b with inst := { b.inst with found := b.inst.found ++ outcome.violations.map finding } }
    match outcome.error with
    | some e => throw (.scan e)
    | none =>
      match scanNote? tree outcome.violations.length with
      | some message => Action.note .scan message
      | none => return

end ParameterChecker

def parameterChecker : Checker where
  name := ParameterChecker.name
  description := .text "Assignment to a parameter not declared const"
  errorIds := [ParameterChecker.errorId]
  severity := .error
  sort := "EffectivelyFinalChecker"
  configure := ParameterChecker.configure
  collect := ParameterChecker.collect
  diagnose := ParameterChecker.diagnose
  report := Action.unsuppressed

end FinalParams
