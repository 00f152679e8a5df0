import FinalParams.Proofs.Host.ExitStatus

/-!
# A failing checker shows

A checker that fails leaves one finding, which no rule is asked about.  Reports drop findings that
repeat earlier ones, but what stands in for a dropped one has the same id.  So a run that returns
and in which some checker failed ends as incomplete, whatever else it found.
-/

namespace FinalParams

open Diagnostic

namespace Turn

/-- The checker fails in one of its steps. -/
def Fails (t : Turn) (failure : Failure) : Prop :=
  ∃ b, t.checker.work.run { context := t.context } = .error failure b

/-- What a checker had found before it failed is dropped. -/
theorem Fails.findings {t : Turn} {failure : Failure} (h : t.Fails failure) :
    ∃ path, t.findings = [Session.internalError t.checker path failure] := by
  obtain ⟨b, hrun⟩ := h
  exact ⟨b.context.path, by rw [Turn.findings, Session.attempt, hrun]⟩

end Turn

namespace Session

/-- Whatever repeats the finding for a failure has its id and its message. -/
theorem eq_of_repeats_internalError {c : Checker} {path : Datum} {failure : Failure}
    {d : Diagnostic} (h : d.repeats (internalError c path failure) = true) :
    d.errorId = .text Report.internalErrorId
      ∧ d.message = .text ("Checker '" ++ c.name ++ "' failed: " ++ failure.text) := by
  rw [repeats, Bool.and_eq_true, Bool.and_eq_true] at h
  exact ⟨Datum.agrees_text_iff.mp h.1.1, Datum.agrees_text_iff.mp h.1.2⟩

end Session

namespace Addon

theorem status_of_internalError {report : Report} {d : Diagnostic} (hd : d ∈ report.diagnostics)
    (hid : d.errorId = .text Report.internalErrorId) : status report = .incomplete := by
  have hfailures : report.failures ≠ [] := by
    intro hnil
    have hnone := Report.failures_eq_nil_iff.mp hnil d hd
    rw [hid] at hnone
    exact absurd hnone (by simp [Datum.isText])
  rw [status, if_pos hfailures]

end Addon

/-- Where no checker is selected twice, a run that returns and in which a checker failed ends as
incomplete, and its report holds a finding that says what this checker said. -/
theorem runAddon_incomplete {disk : Disk} {cs : List Checker} {clock : Clock}
    {request : AddonRequest} {dumps : List (String × Dump)}
    (honce : ∀ names ∈ request.checkers, names.Nodup)
    (hfiles : request.dumpFiles = dumps.map (·.1)) (hloads : ∀ p ∈ dumps, disk.load p.1 = .ok p.2)
    {ts : List Turn} (hts : ts ∈ request.turns (Registry.ofList cs) dumps)
    {t : Turn} (ht : t ∈ ts) {failure : Failure} (hfails : t.Fails failure)
    {status : ExitStatus} {output : String}
    (hrun : (runAddon disk (Registry.ofList cs) clock request).1 = .ok (status, output)) :
    status = .incomplete
      ∧ ∃ report, Addon.report? disk (Registry.ofList cs) clock request = .ok report
        ∧ output = Addon.written report request.output
        ∧ ∃ d ∈ report.diagnostics, d.errorId = .text Report.internalErrorId
          ∧ d.message = .text ("Checker '" ++ t.checker.name ++ "' failed: " ++ failure.text) := by
  rw [Addon.runAddon_eq] at hrun
  cases hreport : Addon.report? disk (Registry.ofList cs) clock request with
  | error escaped =>
    rw [hreport] at hrun
    contradiction
  | ok report =>
    rw [hreport] at hrun
    obtain ⟨rfl, rfl⟩ := Prod.mk.inj (Except.ok.inj hrun)
    obtain ⟨path, hfindings⟩ := hfails.findings
    have hfound : Session.internalError t.checker path failure ∈ t.findings := by
      rw [hfindings]
      exact List.mem_singleton.mpr rfl
    have harrives := Turn.mem_arrivals_of_nodup
      ((Registry.named_ofList cs).nodup_selected honce) hts ht hfound
    -- The finding is held, or it was dropped for one that says the same.
    obtain ⟨d, hd, hid, hmessage⟩ : ∃ d ∈ report.diagnostics,
        d.errorId = .text Report.internalErrorId
          ∧ d.message = .text ("Checker '" ++ t.checker.name ++ "' failed: " ++ failure.text) := by
      rcases exists_isFirst harrives with hfirst | ⟨e, hfirst, hrepeats⟩
      · exact ⟨_, (Addon.report?_returned hfiles hloads hreport _).mpr hfirst, rfl, rfl⟩
      · exact ⟨e, (Addon.report?_returned hfiles hloads hreport _).mpr hfirst,
          Session.eq_of_repeats_internalError hrepeats⟩
    exact ⟨Addon.status_of_internalError hd hid, report, rfl, rfl, d, hd, hid, hmessage⟩

/-! ## A failure beside an error, on two configurations, with everything suppressed -/

/-- A checker that fails after it found something. -/
def breaking : Checker :=
  Script.checker
    { name := "breaking", failAt := some .diagnose, findings := [{ errorId := .text "x" }] }

def breakingRegistry : Registry := Registry.ofList [breaking, insisting "insisting" .error]

def breakingDump : Dump := { configurations := [{}, {}] }

def breakingDisk : Disk where
  read := fun path => if path = "a.c.dump" then some (.ok breakingDump) else none

def breakingRequest : AddonRequest :=
  { dumpFiles := ["a.c.dump"], suppress := ["*"]
    checkers := some ["insisting", "breaking", "absent"] }

def breakingContext : Context :=
  Turn.start (.text "a.c") { suppressions := [{ errorId := .text "*" }] } {}

theorem breaking_turns :
    breakingRequest.turns breakingRegistry [("a.c.dump", breakingDump)]
      = [[⟨insisting "insisting" .error, breakingContext⟩, ⟨breaking, breakingContext⟩],
         [⟨insisting "insisting" .error, breakingContext⟩, ⟨breaking, breakingContext⟩]] := rfl

theorem breaking_fails : (Turn.mk breaking breakingContext).Fails (.crash "boom") := ⟨_, rfl⟩

theorem breaking_known :
    Turn.Known (breakingRequest.turns breakingRegistry [("a.c.dump", breakingDump)]) := by
  have hboth : ∀ t ∈ [Turn.mk (insisting "insisting" .error) breakingContext,
      Turn.mk breaking breakingContext], ∀ d ∈ t.findings, d.misfit? = none := by
    intro t ht d hd
    rcases List.mem_cons.mp ht with rfl | ht
    · have hnone : (Turn.mk (insisting "insisting" .error) breakingContext).findings = [] := rfl
      rw [hnone] at hd
      exact absurd hd List.not_mem_nil
    · obtain rfl := List.mem_singleton.mp ht
      have hone : (Turn.mk breaking breakingContext).findings
          = [Session.internalError breaking (.text "a.c") (.crash "boom")] := rfl
      obtain rfl := List.mem_singleton.mp (hone ▸ hd)
      rfl
  rw [breaking_turns]
  intro ts hts
  rcases List.mem_cons.mp hts with rfl | hts
  · exact hboth
  · obtain rfl := List.mem_singleton.mp hts
    exact hboth

theorem breaking_served :
    Served breakingDisk breakingRegistry {} breakingRequest [("a.c.dump", breakingDump)] where
  files := rfl
  loads := by
    intro p hp
    obtain rfl := List.mem_singleton.mp hp
    rfl
  records := by
    intro p hp r hr
    obtain rfl := List.mem_singleton.mp hp
    exact absurd hr List.not_mem_nil
  clock := ⟨rfl, fun t ht => absurd ht List.not_mem_nil⟩
  creates := by
    intro c hc
    have hselected : breakingRegistry.selected breakingRequest.checkers
        = [insisting "insisting" .error, breaking] := rfl
    rcases List.mem_cons.mp (hselected ▸ hc) with rfl | hc
    · rfl
    · obtain rfl := List.mem_singleton.mp hc
      rfl

/-- The run returns, and it ends as incomplete. -/
theorem runAddon_incomplete_breaking :
    (∀ names ∈ breakingRequest.checkers, names.Nodup)
      ∧ breakingRequest.dumpFiles = [("a.c.dump", breakingDump)].map (·.1)
      ∧ (∀ p ∈ [("a.c.dump", breakingDump)], breakingDisk.load p.1 = .ok p.2)
      ∧ (∃ ts ∈ breakingRequest.turns breakingRegistry [("a.c.dump", breakingDump)],
          Turn.mk breaking breakingContext ∈ ts)
      ∧ (Turn.mk breaking breakingContext).Fails (.crash "boom")
      ∧ ∃ status output,
        (runAddon breakingDisk breakingRegistry {} breakingRequest).1 = .ok (status, output)
          ∧ status = .incomplete
          ∧ ∃ report, Addon.report? breakingDisk breakingRegistry {} breakingRequest = .ok report
            ∧ output = Addon.written report breakingRequest.output
            ∧ ∃ d ∈ report.diagnostics, d.errorId = .text Report.internalErrorId
              ∧ d.message = .text "Checker 'breaking' failed: boom" := by
  have honce : ∀ names ∈ breakingRequest.checkers, names.Nodup := by
    intro names hnames
    obtain rfl : ["insisting", "breaking", "absent"] = names := Option.some.inj hnames
    decide
  obtain ⟨report, hreport, -⟩ := Addon.report?_ok breaking_served breaking_known
  have hrun : (runAddon breakingDisk breakingRegistry {} breakingRequest).1
      = .ok (Addon.status report, Addon.written report breakingRequest.output) := by
    rw [Addon.runAddon_eq, hreport]
    rfl
  have hts : [Turn.mk (insisting "insisting" .error) breakingContext,
      Turn.mk breaking breakingContext]
        ∈ breakingRequest.turns breakingRegistry [("a.c.dump", breakingDump)] :=
    List.mem_cons_self ..
  have ht : Turn.mk breaking breakingContext ∈ [Turn.mk (insisting "insisting" .error)
      breakingContext, Turn.mk breaking breakingContext] :=
    List.mem_cons_of_mem _ (List.mem_singleton.mpr rfl)
  exact ⟨honce, rfl, breaking_served.loads, ⟨_, hts, ht⟩, breaking_fails, _, _, hrun,
    runAddon_incomplete honce rfl breaking_served.loads hts ht breaking_fails hrun⟩

end FinalParams
