import FinalParams.Host.Dump
import FinalParams.Host.Handover
import FinalParams.Host.Registry
import FinalParams.Host.Report

/-
Running checkers over configurations.

A checker that fails does not stop the others.  Its failure becomes a finding of its own, and what
it had found before is dropped.  Only a checker of which no instance can be made ends the run.

The checkers of one run share a context, and all runs of a session share the suppressions and the
options.
-/

namespace FinalParams

/-- The readings of a clock still to come, in ticks.  The last one repeats. -/
structure Clock where
  readings : List Int := []
  last : Int := 0
  deriving Repr

def Clock.read (c : Clock) : Int × Clock :=
  match c.readings with
  | [] => (c.last, c)
  | t :: rest => (t, ⟨rest, t⟩)

structure Host where
  registry : Registry
  suppressions : Handover Suppression
  options : Handover (String × Datum)
  clock : Clock := {}
  log : List Log.Line := []

abbrev Session (α : Type) := EStateM Failure Host α

namespace Session

def write (level : Log.Level) (message : String) : Session Unit :=
  modify fun h => { h with log := h.log ++ [⟨level, .host, message⟩] }

/-- The time that the clock shows, unless it counts too many ticks for a number. -/
def readClock : Session Int := do
  let ticks ← modifyGet fun h => let (t, clock) := h.clock.read; (t, { h with clock })
  if Binary64.isBeyond ticks then throw (.number .tooLarge) else return ticks

def select (checkers : Option (List String)) : Session (List Checker) := do
  let registry := (← get).registry
  match checkers with
  | none => return Registry.checkers registry
  | some names =>
    let found ← names.mapM fun name => do
      match Table.get? registry name with
      | some c => return some c
      | none =>
        write .warning ("no checker named " ++ Text.quoted name ++ "; skipped")
        return none
    return found.filterMap id

/-- The finding that stands for a checker that failed. -/
def internalError (c : Checker) (path : Datum) (failure : Failure) : Diagnostic :=
  { errorId := .text Report.internalErrorId
    message := .text ("Checker '" ++ c.name ++ "' failed: " ++ failure.text)
    severity := .information
    loc := { file := path }
    checker := c.name }

/-- What a fresh instance of a checker finds, and the context and the log that it leaves. -/
def attempt (c : Checker) (context : Context) : List Diagnostic × Context × List Log.Line :=
  match c.work.run { context } with
  | .ok ds b => (ds, b.context, b.log)
  | .error failure b =>
    ([internalError c b.context.path failure], b.context,
      b.log ++ [⟨.warning, .host, "checker " ++ c.name ++ " raised " ++ failure.text⟩])

/-- Runs one checker.  What it changes in the suppressions and the options stays changed. -/
def runOne (c : Checker) (context : Context) : Session (List Diagnostic × Context) :=
  match c.create with
  | .error failure => throw failure
  | .ok () => do
    let (ds, context, lines) := attempt c context
    modify fun h =>
      { h with
        suppressions := h.suppressions.setWorking context.suppressions
        options := h.options.setWorking context.options
        log := h.log ++ lines }
    return (ds, context)

def runEach (report : Report) (context : Context) : List Checker → Session Report
  | [] => return report
  | c :: rest => do
    let started ← readClock
    let (ds, context) ← runOne c context
    let ended ← readClock
    runEach (report.record c.name (.between started ended) ds) context rest

def checkConfig (config : Config) (checkers : Option (List String)) (path : Datum) :
    Session Report := do
  let h ← get
  let context : Context :=
    { config, path, suppressions := h.suppressions.working, options := h.options.working }
  let selected ← select checkers
  runEach {} context selected

/-- Adds the suppressions of a dump.  A line that is no number ends the import. -/
def loadSuppressions (records : List SuppressionRecord) : Session Unit := do
  let (rules, failure) := Suppressions.load (← get).suppressions.working records
  modify fun h => { h with suppressions := h.suppressions.setWorking rules }
  match failure with
  | some e => throw (.number e)
  | none => return

/-- The report `a` with what `b` has to add, if every finding can be looked up. -/
def join (a b : Report) : Session Report :=
  match a.mergeUntil b with
  | (merged, none) => return merged
  | (_, some e) => throw (.misfit e)

/-- Runs over the configurations of a dump, one after the other, and puts the reports together. -/
def runConfigurations (checkers : Option (List String)) (path : Datum) (report : Report) :
    List Config → Session Report
  | [] => return report
  | config :: rest => do
    let shown := if path.truthy then path.shown else "<dump>"
    write .info (shown ++ ": configuration " ++ config.name.quoted)
    let next ← checkConfig config checkers path
    let joined ← join report next
    runConfigurations checkers path joined rest

def checkDump (dump : Dump) (checkers : Option (List String)) (path : Datum) : Session Report := do
  loadSuppressions dump.suppressions
  runConfigurations checkers path {} dump.configurations

end Session

/-- A host for a caller who hands over suppressions and options. -/
def Host.start (registry : Registry) (suppressions : Option Suppressions) (options : Option Options)
    (clock : Clock) : Host :=
  { registry, clock, suppressions := .ofGiven suppressions, options := .ofGiven options }

end FinalParams
