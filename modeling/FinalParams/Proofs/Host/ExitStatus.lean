import FinalParams.Host.Scripted
import FinalParams.Proofs.Host.Trace
import Mathlib.Tactic.ByContra

/-!
# The exit status of a run

A run in which no checker fails ends with violations exactly if one of its errors repeats no finding
that came before it, of whatever severity.  `runAddon_status` says this, and that no run without
errors ends with violations.  An error that repeats a warning is dropped, so it can be masked.
-/

namespace FinalParams

open Diagnostic

namespace Turn

/-- The checker finishes.  What it reports can be looked up, and none of it stands for a failure. -/
def Finishes (t : Turn) : Prop :=
  ∃ ds b, t.checker.work.run { context := t.context } = .ok ds b
    ∧ ∀ d ∈ ds, d.errorId.isText Report.internalErrorId = false ∧ d.misfit? = none

theorem Finishes.findings {t : Turn} (h : t.Finishes) :
    ∀ d ∈ t.findings, d.errorId.isText Report.internalErrorId = false ∧ d.misfit? = none := by
  obtain ⟨ds, b, hrun, hds⟩ := h
  have hfindings : t.findings = ds := by rw [Turn.findings, Session.attempt, hrun]
  rw [hfindings]
  exact hds

/-- Some checker reports an error. -/
def HasError (tss : List (List Turn)) : Prop :=
  ∃ ts ∈ tss, ∃ t ∈ ts, ∃ d ∈ t.findings, d.severity = .error

/-- Every error repeats a finding that came before it. -/
def Masked (tss : List (List Turn)) : Prop :=
  ∀ d, IsFirst (arrivals tss) d → d.severity ≠ .error

/-- Findings that repeat each other are all errors or none. -/
def Consistent (tss : List (List Turn)) : Prop :=
  ∀ ts ∈ tss, ∀ t ∈ ts, ∀ d ∈ t.findings, ∀ us ∈ tss, ∀ u ∈ us, ∀ e ∈ u.findings,
    d.repeats e = true → (d.severity = .error ↔ e.severity = .error)

theorem hasError_of_not_masked {tss : List (List Turn)} (h : ¬ Masked tss) : HasError tss := by
  by_contra hno
  apply h
  intro d hd hs
  obtain ⟨ts, hts, t, ht, hdt⟩ := mem_arrivals hd.mem
  exact hno ⟨ts, hts, t, ht, d, hdt, hs⟩

end Turn

namespace Turn

theorem not_masked {cs : List Checker} {s : Settings} {dumps : List (String × Dump)}
    (hcs : (cs.map (·.name)).Nodup) (hc : Consistent (ofDumps cs s dumps))
    (he : HasError (ofDumps cs s dumps)) : ¬ Masked (ofDumps cs s dumps) := by
  obtain ⟨ts, hts, t, ht, d, hd, hs⟩ := he
  have harrives := mem_arrivals_of_nodup hcs hts ht hd
  intro hmasked
  rcases exists_isFirst harrives with hf | ⟨e, hfe, hed⟩
  · exact hmasked d hf hs
  · obtain ⟨us, hus, u, hu, heu⟩ := mem_arrivals hfe.mem
    exact hmasked e hfe ((hc us hus u hu e heu ts hts t ht d hd hed).mpr hs)

end Turn

namespace Addon

theorem status_of_unfailing {report : Report}
    (h : ∀ d ∈ report.diagnostics, d.errorId.isText Report.internalErrorId = false) :
    (status report = .violations ↔ ∃ d ∈ report.diagnostics, d.severity = .error)
      ∧ (status report = .clean ↔ ∀ d ∈ report.diagnostics, d.severity ≠ .error) := by
  have hfailures := Report.failures_eq_nil_iff.mpr h
  have hcount := Report.errorCount_eq_zero_iff (r := report)
  unfold status
  rw [if_neg (fun hne => hne hfailures)]
  by_cases hc : report.errorCount = 0
  · rw [if_neg (fun hne => hne hc)]
    have hall := hcount.mp hc
    refine ⟨?_, iff_of_true rfl hall⟩
    refine iff_of_false (by decide) ?_
    rintro ⟨d, hd, hs⟩
    exact hall d hd hs
  · rw [if_pos hc]
    have hnot := fun hall => hc (hcount.mpr hall)
    refine ⟨iff_of_true rfl ?_, iff_of_false (by decide) hnot⟩
    by_contra hno
    exact hnot fun d hd hs => hno ⟨d, hd, hs⟩

/-- In a run in which every checker finishes the errors that are not masked decide the status. -/
theorem status_of_turns {disk : Disk} {registry : Registry} {clock : Clock}
    {request : AddonRequest} {dumps : List (String × Dump)}
    (h : Served disk registry clock request dumps)
    (hfinish : ∀ ts ∈ request.turns registry dumps, ∀ t ∈ ts, t.Finishes) :
    ∃ status output, (runAddon disk registry clock request).1 = .ok (status, output)
      ∧ (status = .violations ↔ ¬ Turn.Masked (request.turns registry dumps))
      ∧ (status = .clean ↔ Turn.Masked (request.turns registry dumps)) := by
  have hknown : Turn.Known (request.turns registry dumps) := fun ts hts t ht d hd =>
    ((hfinish ts hts t ht).findings d hd).2
  obtain ⟨report, hreport, hmem⟩ := report?_ok h hknown
  have hunfailing : ∀ d ∈ report.diagnostics,
      d.errorId.isText Report.internalErrorId = false := by
    intro d hd
    obtain ⟨ts, hts, t, ht, hdt⟩ := Turn.mem_arrivals ((hmem d).mp hd).mem
    exact ((hfinish ts hts t ht).findings d hdt).1
  obtain ⟨hviolations, hclean⟩ := status_of_unfailing hunfailing
  refine ⟨_, _, by rw [runAddon_eq, hreport]; rfl, ?_, ?_⟩
  · rw [hviolations, Turn.Masked]
    simp only [hmem, not_forall, not_not, exists_prop]
  · rw [hclean, Turn.Masked]
    simp only [hmem]

end Addon

/-- A run in which every checker finishes has one of two statuses.  It ends with violations exactly
if some error repeats no finding before it.  Without errors it is clean, and with an error it ends
with violations wherever no checker is selected twice and no error repeats a finding that is none. -/
theorem runAddon_status {disk : Disk} {registry : Registry} {clock : Clock}
    {request : AddonRequest} {dumps : List (String × Dump)}
    (h : Served disk registry clock request dumps)
    (hfinish : ∀ ts ∈ request.turns registry dumps, ∀ t ∈ ts, t.Finishes) :
    ∃ status output, (runAddon disk registry clock request).1 = .ok (status, output)
      ∧ (status = .violations ↔ ¬ Turn.Masked (request.turns registry dumps))
      ∧ (status = .clean ↔ Turn.Masked (request.turns registry dumps))
      ∧ (¬ Turn.HasError (request.turns registry dumps) → status = .clean)
      ∧ (((registry.selected request.checkers).map (·.name)).Nodup →
          Turn.Consistent (request.turns registry dumps) →
          Turn.HasError (request.turns registry dumps) → status = .violations) := by
  obtain ⟨status, output, hrun, hviolations, hclean⟩ := Addon.status_of_turns h hfinish
  refine ⟨status, output, hrun, hviolations, hclean, ?_, ?_⟩
  · intro hno
    rw [hclean]
    by_contra hmasked
    exact hno (Turn.hasError_of_not_masked hmasked)
  · intro hnames hc he
    rw [hviolations]
    exact Turn.not_masked hnames hc he

/-! ## An error that is masked -/

/-- A checker that reports one finding, always the same one but for its severity. -/
def insisting (name : String) (severity : Severity) : Checker :=
  Script.checker { name, severity, findings := [{ errorId := .text "x", message := .text "m" }] }

/-- What an insisting checker reports. -/
def insistence (name : String) (severity : Severity) : Diagnostic :=
  { errorId := .text "x", message := .text "m", severity, loc := {}, checker := name }

theorem insisting_work (name : String) (severity : Severity) {context : Context}
    (hs : context.suppressions = []) :
    (insisting name severity).work.run { context }
      = .ok [insistence name severity]
          { context, inst := { found := [insistence name severity] } } := by
  obtain ⟨config, path, rules, analyses, options⟩ := context
  obtain rfl : rules = [] := hs
  rfl

/-! A warning and then the same finding as an error, on a dump with one empty configuration. -/

def maskingDump : Dump := { configurations := [{}] }

def maskingDisk : Disk where
  read := fun path => if path = "a.c.dump" then some (.ok maskingDump) else none

def maskingRegistry : Registry :=
  Registry.ofList [insisting "first" .warning, insisting "second" .error]

def maskingRequest : AddonRequest := { dumpFiles := ["a.c.dump"] }

theorem masking_served :
    Served maskingDisk maskingRegistry {} maskingRequest [("a.c.dump", maskingDump)] where
  files := rfl
  loads := by
    intro p hp
    obtain rfl := List.mem_singleton.mp hp
    rfl
  records := by
    intro p hp r hr
    obtain rfl := List.mem_singleton.mp hp
    exact absurd hr List.not_mem_nil
  clock := ⟨rfl, fun t ht => absurd ht List.not_mem_nil⟩
  creates := by
    intro c hc
    have hselected : maskingRegistry.selected none
        = [insisting "first" .warning, insisting "second" .error] := rfl
    rcases List.mem_cons.mp (hselected ▸ hc) with rfl | hc
    · rfl
    · obtain rfl := List.mem_singleton.mp hc
      rfl

theorem masking_turns :
    ∃ context, context.suppressions = [] ∧
      maskingRequest.turns maskingRegistry [("a.c.dump", maskingDump)]
        = [[⟨insisting "first" .warning, context⟩, ⟨insisting "second" .error, context⟩]] :=
  ⟨Turn.start (.text (sourcePath "a.c.dump")) {} {}, rfl, rfl⟩

theorem insisting_finishes (name : String) (severity : Severity) {context : Context}
    (hs : context.suppressions = []) : (Turn.mk (insisting name severity) context).Finishes := by
  refine ⟨_, _, insisting_work name severity hs, ?_⟩
  intro d hd
  obtain rfl := List.mem_singleton.mp hd
  exact ⟨rfl, rfl⟩

theorem insisting_findings (name : String) (severity : Severity) {context : Context}
    (hs : context.suppressions = []) :
    (Turn.mk (insisting name severity) context).findings = [insistence name severity] := by
  rw [Turn.findings, Session.attempt, insisting_work name severity hs]

theorem masking_finishes :
    ∀ ts ∈ maskingRequest.turns maskingRegistry [("a.c.dump", maskingDump)],
      ∀ t ∈ ts, t.Finishes := by
  obtain ⟨context, hs, hturns⟩ := masking_turns
  rw [hturns]
  intro ts hts t ht
  obtain rfl := List.mem_singleton.mp hts
  rcases List.mem_cons.mp ht with rfl | ht
  · exact insisting_finishes "first" .warning hs
  · obtain rfl := List.mem_singleton.mp ht
    exact insisting_finishes "second" .error hs

theorem masking_masked :
    Turn.Masked (maskingRequest.turns maskingRegistry [("a.c.dump", maskingDump)]) := by
  obtain ⟨context, hs, hturns⟩ := masking_turns
  have harrivals : Turn.arrivals (maskingRequest.turns maskingRegistry [("a.c.dump", maskingDump)])
      = [insistence "first" .warning, insistence "second" .error] := by
    rw [hturns]
    show (Turn.mk (insisting "first" .warning) context).findings
      ++ ((Turn.mk (insisting "second" .error) context).findings ++ []) ++ [] = _
    rw [insisting_findings _ _ hs, insisting_findings _ _ hs]
    rfl
  intro d hd
  rw [harrivals, isFirst_cons, isFirst_cons] at hd
  rcases hd with rfl | ⟨rfl | ⟨hd, -⟩, hrepeats⟩
  · decide
  · exact absurd hrepeats (by decide)
  · exact absurd hd.mem List.not_mem_nil

theorem masking_hasError :
    Turn.HasError (maskingRequest.turns maskingRegistry [("a.c.dump", maskingDump)]) := by
  obtain ⟨context, hs, hturns⟩ := masking_turns
  rw [hturns]
  refine ⟨_, List.mem_singleton.mpr rfl, _, List.mem_cons_of_mem _ (List.mem_singleton.mpr rfl),
    insistence "second" .error, ?_, rfl⟩
  rw [insisting_findings _ _ hs]
  exact List.mem_singleton.mpr rfl

theorem runAddon_status_masking :
    Served maskingDisk maskingRegistry {} maskingRequest [("a.c.dump", maskingDump)]
      ∧ (∀ ts ∈ maskingRequest.turns maskingRegistry [("a.c.dump", maskingDump)],
          ∀ t ∈ ts, t.Finishes)
      ∧ ∃ status output,
        (runAddon maskingDisk maskingRegistry {} maskingRequest).1 = .ok (status, output)
          ∧ (status = .violations
              ↔ ¬ Turn.Masked (maskingRequest.turns maskingRegistry [("a.c.dump", maskingDump)]))
          ∧ (status = .clean
              ↔ Turn.Masked (maskingRequest.turns maskingRegistry [("a.c.dump", maskingDump)]))
          ∧ (¬ Turn.HasError (maskingRequest.turns maskingRegistry [("a.c.dump", maskingDump)])
              → status = .clean)
          ∧ (((maskingRegistry.selected maskingRequest.checkers).map (·.name)).Nodup →
              Turn.Consistent (maskingRequest.turns maskingRegistry [("a.c.dump", maskingDump)]) →
              Turn.HasError (maskingRequest.turns maskingRegistry [("a.c.dump", maskingDump)]) →
              status = .violations) :=
  ⟨masking_served, masking_finishes, runAddon_status masking_served masking_finishes⟩

/-- Every checker finishes, one of them reports an error, and the run is clean all the same. -/
theorem masking_clean :
    Served maskingDisk maskingRegistry {} maskingRequest [("a.c.dump", maskingDump)]
      ∧ (∀ ts ∈ maskingRequest.turns maskingRegistry [("a.c.dump", maskingDump)],
          ∀ t ∈ ts, t.Finishes)
      ∧ Turn.HasError (maskingRequest.turns maskingRegistry [("a.c.dump", maskingDump)])
      ∧ ∃ output,
        (runAddon maskingDisk maskingRegistry {} maskingRequest).1 = .ok (.clean, output) := by
  refine ⟨masking_served, masking_finishes, masking_hasError, ?_⟩
  obtain ⟨status, output, hrun, -, hclean⟩ := Addon.status_of_turns masking_served masking_finishes
  obtain rfl := hclean.mpr masking_masked
  exact ⟨output, hrun⟩

end FinalParams
