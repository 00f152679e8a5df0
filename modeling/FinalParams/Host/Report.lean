import FinalParams.Diagnostic.Basic
import FinalParams.Host.Elapsed
import FinalParams.Table
import FinalParams.Text.Order

/-
The findings of one or several runs.

They are kept twice: all in the order in which they came, and for each checker.  Each configuration
of a dump repeats the code outside of its conditional blocks, so when reports are put together a
finding is dropped if one with the same id, message and place is there already, and the times of a
checker are added up.
-/

namespace FinalParams

namespace Diagnostic

/-- Two findings that say the same. -/
def repeats (a b : Diagnostic) : Bool :=
  a.errorId.agrees b.errorId && a.message.agrees b.message && a.loc.agrees b.loc

/-- Looks up what a finding says, part by part. -/
def lookUp (d : Diagnostic) : Except Misfit Unit := do
  discard d.errorId.key?
  discard d.message.key?
  d.loc.lookUp

/-- Why a finding cannot be looked up among others. -/
def misfit? (d : Diagnostic) : Option Misfit :=
  match d.lookUp with
  | .error e => some e
  | .ok () => none

end Diagnostic

structure Report where
  diagnostics : List Diagnostic := []
  byChecker : Table (List Diagnostic) := []
  /-- The time that each checker took. -/
  elapsed : Table Elapsed := []
  checkers : List String := []
  deriving Repr

namespace Report

/-- The id of the finding that stands for a checker that failed. -/
def internalErrorId : String := "checkerInternalError"

def errorCount (r : Report) : Nat :=
  (r.diagnostics.filter fun d => d.severity == .error).length

def findingsOf (r : Report) (checker : String) : List Diagnostic :=
  (Table.get? r.byChecker checker).getD []

def elapsedOf (r : Report) (checker : String) : Elapsed :=
  (Table.get? r.elapsed checker).getD .zero

/-- The checkers that failed, each once, in the order of their names. -/
def failures (r : Report) : List String :=
  let failed := r.diagnostics.filter fun d => d.errorId.isText internalErrorId
  sortTexts (failed.map (·.checker)).eraseDups

/-- The findings of a checker that finished, or the one that says that it did not. -/
def record (r : Report) (checker : String) (elapsed : Elapsed) (ds : List Diagnostic) : Report :=
  { diagnostics := r.diagnostics ++ ds
    byChecker := Table.set r.byChecker checker ds
    elapsed := Table.set r.elapsed checker elapsed
    checkers := r.checkers ++ [checker] }

/-- A finding of a checker, unless it repeats one that is there. -/
def addFinding (r : Report) (checker : String) (d : Diagnostic) : Report :=
  if r.diagnostics.any (·.repeats d) then r
  else
    { r with
      diagnostics := r.diagnostics ++ [d]
      byChecker := Table.set r.byChecker checker (r.findingsOf checker ++ [d]) }

def addChecker (r : Report) (checker : String) : Report :=
  if checker ∈ r.checkers then r else { r with checkers := r.checkers ++ [checker] }

def addElapsed (r : Report) (checker : String) (elapsed : Elapsed) : Report :=
  { r with elapsed := Table.set r.elapsed checker ((r.elapsedOf checker).add elapsed) }

def contributions (r : Report) : List (String × Diagnostic) :=
  r.byChecker.flatMap fun (checker, ds) => ds.map fun d => (checker, d)

def addCheckers (r : Report) (checkers : List String) : Report := checkers.foldl addChecker r

def addFindings (r : Report) (ds : List (String × Diagnostic)) : Report :=
  ds.foldl (fun r (checker, d) => r.addFinding checker d) r

def merge (a b : Report) : Report :=
  let filled := (a.addCheckers b.checkers).addFindings b.contributions
  b.elapsed.foldl (fun r (checker, elapsed) => r.addElapsed checker elapsed) filled

/-- The report `a` with what `b` has to add, up to the first finding that cannot be looked up, and
why it cannot. -/
def mergeUntil (a b : Report) : Report × Option Misfit :=
  match a.diagnostics.findSome? (·.misfit?) with
  | some e => (a, some e)
  | none =>
    match b.contributions.findSome? (·.2.misfit?) with
    | some e =>
      let before := b.contributions.takeWhile (·.2.misfit?.isNone)
      ((a.addCheckers b.checkers).addFindings before, some e)
    | none => (a.merge b, none)

theorem mergeUntil_eq {a b : Report} (ha : ∀ d ∈ a.diagnostics, d.misfit? = none)
    (hb : ∀ c ∈ b.contributions, c.2.misfit? = none) : a.mergeUntil b = (a.merge b, none) := by
  have ha' : a.diagnostics.findSome? (·.misfit?) = none := by
    rw [List.findSome?_eq_none_iff]; exact ha
  have hb' : b.contributions.findSome? (·.2.misfit?) = none := by
    rw [List.findSome?_eq_none_iff]; exact hb
  simp [mergeUntil, ha', hb']

/-! ## Output -/

def jsonLines (r : Report) : String := "\n".intercalate (r.diagnostics.map (·.jsonLine))

def gccLines (r : Report) : String := "\n".intercalate (r.diagnostics.map (·.gccLine))

def summary (r : Report) : String :=
  let total := s!"{r.diagnostics.length} diagnostic(s), {r.errorCount} error(s)"
  let each := r.checkers.map fun checker =>
    s!"  {checker}: {(r.findingsOf checker).length} finding(s) in "
      ++ (r.elapsedOf checker).text 1 ++ " ms"
  "\n".intercalate (total :: each)

/-- The report in one of the output formats.  A name that is none of them means the short lines. -/
def format (r : Report) (output : String) : String :=
  if output = "summary" then r.summary
  else if output = "json" then r.jsonLines
  else r.gccLines

end Report
end FinalParams
