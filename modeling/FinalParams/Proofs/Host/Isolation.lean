import FinalParams.Proofs.Host.Crash

/-!
# Failing checkers and the others

On one configuration every selected checker has its turn, whichever of them fail and in which of
their steps: one that finishes adds what it reports, and one that fails adds a single finding that
says so.  `checkConfig_isolates` says this, and that a run has one other end only: it stops at the
first checker of which no instance can be made.
-/

namespace FinalParams

open Diagnostic

/-- What a checker adds to a report: the findings that it reports, or, if it fails in one of its
steps, a single one in its name. -/
inductive Turn.Adds (t : Turn) : List Diagnostic → Prop where
  | reported {ds : List Diagnostic} {b : Bench}
      (h : t.checker.work.run { context := t.context } = .ok ds b) : t.Adds ds
  | failed {failure : Failure} (h : t.Fails failure) {d : Diagnostic}
      (errorId : d.errorId = .text Report.internalErrorId)
      (message : d.message = .text ("Checker '" ++ t.checker.name ++ "' failed: " ++ failure.text))
      (severity : d.severity = .information) (checker : d.checker = t.checker.name) : t.Adds [d]

theorem Turn.adds_findings (t : Turn) : t.Adds t.findings := by
  cases hrun : t.checker.work.run { context := t.context } with
  | ok ds b =>
    have hfindings : t.findings = ds := by rw [Turn.findings, Session.attempt, hrun]
    rw [hfindings]
    exact .reported hrun
  | error failure b =>
    have hfails : t.Fails failure := ⟨b, hrun⟩
    obtain ⟨path, hfindings⟩ := hfails.findings
    rw [hfindings]
    exact .failed hfails rfl rfl rfl rfl

/-- On one configuration the checkers have their turns in the order of the selection, and each adds
to the report what it reports or the finding for its failure.  The run returns exactly if instances
of all of them can be made, and else it ends at the first one of which none can be. -/
theorem checkConfig_isolates {h : Host} (hclock : h.clock.Readable) (config : Config)
    (names : Option (List String)) (path : Datum) :
    ∃ pieces, List.Forall₂ Turn.Adds (Turn.inOrder (Turn.start path h.settings config)
        (h.registry.selected names)) pieces
      ∧ ∃ h', match (h.registry.selected names).findSome? Checker.flaw? with
        | some failure => (Session.checkConfig config names path).run h = .error failure h'
        | none => ∃ report, (Session.checkConfig config names path).run h = .ok report h'
          ∧ report.diagnostics = pieces.flatten
          ∧ report.checkers = (h.registry.selected names).map (·.name)
          ∧ (report.checkers.Nodup → report.byChecker = report.checkers.zip pieces) := by
  obtain ⟨ts, hts⟩ : ∃ ts, ts = Turn.inOrder (Turn.start path h.settings config)
      (h.registry.selected names) := ⟨_, rfl⟩
  have hnames : ts.map (·.checker.name) = (h.registry.selected names).map (·.name) := by
    rw [Turn.names_eq, hts, Turn.inOrder_checkers]
  rw [← hts]
  refine ⟨ts.map Turn.findings, ?_, ?_⟩
  · rw [List.forall₂_map_right_iff, List.forall₂_same]
    exact fun t _ => t.adds_findings
  · obtain ⟨h', hrun⟩ := Session.checkConfig_run hclock config names path
    refine ⟨h', ?_⟩
    cases hflaw : (h.registry.selected names).findSome? Checker.flaw? with
    | some failure =>
      rw [hflaw] at hrun
      exact hrun
    | none =>
      rw [hflaw] at hrun
      obtain ⟨report, hrun⟩ := hrun
      obtain ⟨hrecorded, -⟩ := Session.checkConfig_returned hrun
      rw [← hts] at hrecorded
      have hcheckers : report.checkers = ts.map (·.checker.name) := hrecorded.checkers
      refine ⟨report, hrun, ?_, hcheckers.trans hnames, ?_⟩
      · rw [hrecorded.diagnostics]
        rfl
      · intro hnodup
        rw [hcheckers] at hnodup ⊢
        rw [hrecorded.byChecker, List.zip_map']
        exact Turn.filed_eq hnodup

/-! ## Two failures and a report between them -/

/-- A checker that fails in its last step. -/
def speechless : Checker :=
  Script.checker
    { name := "speechless", failAt := some .report, findings := [{ errorId := .text "x" }] }

def troubledHost : Host :=
  Host.start (Registry.ofList [breaking, insisting "insisting" .error, speechless]) none none {}

theorem checkConfig_isolates_troubled :
    troubledHost.clock.Readable
      ∧ ∃ pieces, List.Forall₂ Turn.Adds (Turn.inOrder
          (Turn.start (.text "a.c") troubledHost.settings {}) (troubledHost.registry.selected none))
          pieces
        ∧ ∃ h', match (troubledHost.registry.selected none).findSome? Checker.flaw? with
          | some failure =>
            (Session.checkConfig {} none (.text "a.c")).run troubledHost = .error failure h'
          | none => ∃ report,
            (Session.checkConfig {} none (.text "a.c")).run troubledHost = .ok report h'
              ∧ report.diagnostics = pieces.flatten
              ∧ report.checkers = (troubledHost.registry.selected none).map (·.name)
              ∧ (report.checkers.Nodup → report.byChecker = report.checkers.zip pieces) := by
  have hclock : troubledHost.clock.Readable := ⟨rfl, fun t ht => absurd ht List.not_mem_nil⟩
  exact ⟨hclock, checkConfig_isolates hclock {} none (.text "a.c")⟩

/-! ## A checker of which no instance can be made -/

def unmakable : Checker := Script.checker { name := "unmakable", failAt := some .create }

def unmakableHost : Host :=
  Host.start (Registry.ofList [unmakable, insisting "insisting" .error]) none none {}

/-- The run ends without a report, although the other checker has something to report. -/
theorem unmakable_stops_others :
    (∃ h', (Session.checkConfig {} none (.text "a.c")).run unmakableHost
        = .error (.crash "boom") h')
      ∧ (Turn.mk (insisting "insisting" .error)
          (Turn.start (.text "a.c") unmakableHost.settings {})).findings
        = [insistence "insisting" .error] := by
  refine ⟨?_, insisting_findings _ _ rfl⟩
  have hclock : unmakableHost.clock.Readable := ⟨rfl, fun t ht => absurd ht List.not_mem_nil⟩
  exact Session.checkConfig_run hclock {} none (.text "a.c")

end FinalParams
