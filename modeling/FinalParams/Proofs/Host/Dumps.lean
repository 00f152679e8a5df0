import FinalParams.Proofs.Host.ParameterChecker

/-!
# Several dumps in one run

The rules of a run grow from dump to dump, so a rule that comes with one dump also counts for those
that come after it.  `reports_iff` says what a run over several dumps reports.  A run never reports
more than the runs over each dump alone.  That it reports as much, in whatever order the dumps come,
is the case exactly if no dump covers what another one would report alone.
-/

namespace FinalParams

open Diagnostic

/-- The settings after the rules of these dumps were added. -/
def Settings.loadAll (s : Settings) (dumps : List (String × Dump)) : Settings :=
  dumps.foldl (fun s p => s.load p.2.suppressions) s

/-- The request, for the files of these dumps. -/
def AddonRequest.on (request : AddonRequest) (dumps : List (String × Dump)) : AddonRequest :=
  { request with dumpFiles := dumps.map (·.1) }

/-- The checker for parameters is selected and no other one.  The dumps can be read, they name all
files by texts, and the lines in their records are numbers. -/
structure Checkable (disk : Disk) (registry : Registry) (clock : Clock) (request : AddonRequest)
    (dumps : List (String × Dump)) : Prop where
  selected : registry.selected request.checkers = [parameterChecker]
  loads : ∀ p ∈ dumps, disk.load p.1 = .ok p.2
  files : ∀ p ∈ dumps, ∀ c ∈ p.2.configurations, c.FilesNamed
  records : ∀ p ∈ dumps, ∀ r ∈ p.2.suppressions, ∀ result, Suppression.ofRecord? r = some result →
    ∃ rule, result = .ok rule ∧ rule.FileNamed
  clock : clock.Readable

/-- Something with this id, message and place is reported. -/
def Addon.Reports (disk : Disk) (registry : Registry) (clock : Clock) (request : AddonRequest)
    (said : Datum × Datum × Loc) : Prop :=
  ∃ report, report? disk registry clock request = .ok report
    ∧ ∃ d ∈ report.diagnostics, d.said = said

namespace AddonRequest

/-- What the checker makes of a configuration of this file, before any rule is tried. -/
def findings? (request : AddonRequest) (file : String) (config : Config) :
    Except Failure (List Diagnostic) :=
  ParameterChecker.findings? (Mutations.ofOptions request.settings.options)
    (.text (sourcePath file)) config

/-- The finding says why the checker stopped on a configuration of the dump. -/
def Fails (request : AddonRequest) (p : String × Dump) (d : Diagnostic) : Prop :=
  ∃ c ∈ p.2.configurations, ∃ failure, request.findings? p.1 c = .error failure
    ∧ d = Session.internalError parameterChecker (.text (sourcePath p.1)) failure

/-- The finding is one on a configuration of the dump, and neither the rules of the request nor
those of the dump cover it. -/
def Keeps (request : AddonRequest) (p : String × Dump) (d : Diagnostic) : Prop :=
  (∃ c ∈ p.2.configurations, ∃ ds, request.findings? p.1 c = .ok ds ∧ d ∈ ds)
    ∧ Suppressions.suppresses (Addon.globalRules request.suppress) d = false
    ∧ p.2.covers d = false

/-- No dump covers what the run over another one keeps. -/
def Apart (request : AddonRequest) (dumps : List (String × Dump)) : Prop :=
  ∀ p ∈ dumps, ∀ d, request.Keeps p d → ∀ q ∈ dumps, q.2.covers d = false

end AddonRequest

namespace Checkable

variable {disk : Disk} {registry : Registry} {clock : Clock} {request : AddonRequest}
  {dumps ps : List (String × Dump)}

theorem subset (h : Checkable disk registry clock request dumps) (hps : ∀ p ∈ ps, p ∈ dumps) :
    Checkable disk registry clock request ps where
  selected := h.selected
  loads := fun p hp => h.loads p (hps p hp)
  files := fun p hp => h.files p (hps p hp)
  records := fun p hp => h.records p (hps p hp)
  clock := h.clock

theorem perm (h : Checkable disk registry clock request dumps) (hp : ps.Perm dumps) :
    Checkable disk registry clock request ps := h.subset fun _ hm => hp.mem_iff.mp hm

theorem single (h : Checkable disk registry clock request dumps) {p : String × Dump}
    (hp : p ∈ dumps) : Checkable disk registry clock request [p] := by
  apply h.subset
  intro q hq
  rw [List.mem_singleton.mp hq]
  exact hp

theorem readable_records (h : Checkable disk registry clock request dumps) :
    ∀ p ∈ dumps, ∀ r ∈ p.2.suppressions, ∀ e, Suppression.ofRecord? r ≠ some (.error e) := by
  intro p hp r hr e he
  obtain ⟨rule, hrule, -⟩ := h.records p hp r hr _ he
  cases hrule

theorem served (h : Checkable disk registry clock request dumps) :
    Served disk registry clock (request.on dumps) dumps where
  files := rfl
  loads := h.loads
  records := h.readable_records
  clock := h.clock
  creates := by
    intro c hc
    have hselected : registry.selected (request.on dumps).checkers = [parameterChecker] :=
      h.selected
    rw [hselected, List.mem_singleton] at hc
    rw [hc]
    rfl

end Checkable

/-! ## The rules of several dumps -/

namespace Settings

theorem loadAll_options (s : Settings) (dumps : List (String × Dump)) :
    (s.loadAll dumps).options = s.options := by
  induction dumps generalizing s with
  | nil => rfl
  | cons p rest ih => exact ih _

theorem suppresses_loadAll {dumps : List (String × Dump)}
    (h : ∀ p ∈ dumps, ∀ r ∈ p.2.suppressions, ∀ e, Suppression.ofRecord? r ≠ some (.error e))
    (s : Settings) (d : Diagnostic) :
    Suppressions.suppresses (s.loadAll dumps).suppressions d
      = (Suppressions.suppresses s.suppressions d || dumps.any (·.2.covers d)) := by
  induction dumps generalizing s with
  | nil => exact (Bool.or_false _).symm
  | cons p rest ih =>
    have hp := Suppressions.suppresses_load (h p (List.mem_cons_self ..)) s.suppressions d
    have hrest := ih (fun q hq => h q (List.mem_cons_of_mem _ hq)) (s.load p.2.suppressions)
    rw [List.any_cons, ← Bool.or_assoc]
    refine hrest.trans ?_
    congr 1

theorem fileNamed_loadAll {dumps : List (String × Dump)}
    (h : ∀ p ∈ dumps, ∀ r ∈ p.2.suppressions, ∀ rule, Suppression.ofRecord? r = some (.ok rule) →
      rule.FileNamed)
    {s : Settings} (hs : ∀ rule ∈ s.suppressions, rule.FileNamed) :
    ∀ rule ∈ (s.loadAll dumps).suppressions, rule.FileNamed := by
  induction dumps generalizing s with
  | nil => exact hs
  | cons p rest ih =>
    exact ih (fun q hq => h q (List.mem_cons_of_mem _ hq))
      (Suppressions.fileNamed_load (h p (List.mem_cons_self ..)) hs)

end Settings

/-! ## The turns of several dumps -/

namespace Turn

theorem ofConfigurations_parameterChecker (path : Datum) (s : Settings) (configs : List Config) :
    ofConfigurations [parameterChecker] path s configs
        = configs.map (fun c => [⟨parameterChecker, start path s c⟩])
      ∧ settingsAfter [parameterChecker] path s configs = s := by
  induction configs with
  | nil => exact ⟨rfl, rfl⟩
  | cons config rest ih =>
    have hafter : (contextAfter (start path s config) [parameterChecker]).settings = s :=
      ParameterChecker.turn_after path s config
    rw [ofConfigurations, settingsAfter, List.foldl_cons, hafter, ih.1]
    exact ⟨rfl, ih.2⟩

/-- On every configuration the checker reports under the rules of all dumps up to this one. -/
theorem mem_arrivals_ofDumps {dumps : List (String × Dump)} {s : Settings} {d : Diagnostic} :
    d ∈ arrivals (ofDumps [parameterChecker] s dumps)
      ↔ ∃ before p after, dumps = before ++ p :: after ∧ ∃ c ∈ p.2.configurations,
          d ∈ (Turn.mk parameterChecker
            (start (.text (sourcePath p.1)) (s.loadAll (before ++ [p])) c)).findings := by
  induction dumps generalizing s with
  | nil =>
    constructor
    · exact fun hd => absurd hd List.not_mem_nil
    · rintro ⟨before, p, after, he, -⟩
      cases before <;> cases he
  | cons p rest ih =>
    obtain ⟨hturns, hafter⟩ := ofConfigurations_parameterChecker (.text (sourcePath p.1))
      (s.load p.2.suppressions) p.2.configurations
    rw [ofDumps]
    simp only [hturns, hafter]
    rw [arrivals_append, List.mem_append, ih, arrivals_single, List.mem_flatMap]
    constructor
    · rintro (h | ⟨before, q, after, rfl, h⟩)
      · exact ⟨[], p, rest, rfl, h⟩
      · exact ⟨p :: before, q, after, rfl, h⟩
    · rintro ⟨before, q, after, he, h⟩
      cases before with
      | nil =>
        obtain ⟨rfl, rfl⟩ := List.cons.inj he
        exact .inl h
      | cons p' before =>
        obtain ⟨rfl, rfl⟩ := List.cons.inj he
        exact .inr ⟨before, q, after, rfl, h⟩

end Turn

/-! ## What is reported -/

theorem AddonRequest.Apart.perm {request : AddonRequest} {dumps ps : List (String × Dump)}
    (h : request.Apart dumps) (hp : ps.Perm dumps) : request.Apart ps := by
  intro p hpm d hd q hq
  exact h p (hp.mem_iff.mp hpm) d hd q (hp.mem_iff.mp hq)

theorem Addon.reports_iff_of_ok {disk : Disk} {registry : Registry} {clock : Clock}
    {request : AddonRequest} {report : Report}
    (h : report? disk registry clock request = .ok report) {said : Datum × Datum × Loc} :
    Reports disk registry clock request said ↔ ∃ d ∈ report.diagnostics, d.said = said := by
  constructor
  · rintro ⟨report', h', hd⟩
    rw [h] at h'
    rw [Except.ok.inj h']
    exact hd
  · exact fun hd => ⟨report, h, hd⟩

/-- Reports that say the same have the same status, if all errors have the one id. -/
theorem Addon.status_congr {a b : Report}
    (h : ∀ said, (∃ d ∈ a.diagnostics, d.said = said) ↔ ∃ d ∈ b.diagnostics, d.said = said)
    (ha : ∀ d ∈ a.diagnostics, d.severity = .error ↔ d.errorId = .text ParameterChecker.errorId)
    (hb : ∀ d ∈ b.diagnostics, d.severity = .error ↔ d.errorId = .text ParameterChecker.errorId) :
    status a = status b := by
  have hids : ∀ errorId, (∃ d ∈ a.diagnostics, d.errorId = errorId)
      ↔ ∃ d ∈ b.diagnostics, d.errorId = errorId := by
    intro errorId
    constructor
    · rintro ⟨d, hd, rfl⟩
      obtain ⟨e, he, hsaid⟩ := (h d.said).mp ⟨d, hd, rfl⟩
      exact ⟨e, he, (Prod.mk.inj hsaid).1⟩
    · rintro ⟨d, hd, rfl⟩
      obtain ⟨e, he, hsaid⟩ := (h d.said).mpr ⟨d, hd, rfl⟩
      exact ⟨e, he, (Prod.mk.inj hsaid).1⟩
  have hfailures : a.failures = [] ↔ b.failures = [] := by
    have hiff : ∀ r : Report, r.failures = []
        ↔ ¬ ∃ d ∈ r.diagnostics, d.errorId = .text Report.internalErrorId := by
      intro r
      rw [Report.failures_eq_nil_iff]
      simp only [← Bool.not_eq_true, Datum.isText_iff, not_exists, not_and]
    rw [hiff, hiff, hids]
  have hcount : a.errorCount = 0 ↔ b.errorCount = 0 := by
    have hiff : ∀ r : Report, (∀ d ∈ r.diagnostics, d.severity = .error
          ↔ d.errorId = .text ParameterChecker.errorId) →
        (r.errorCount = 0 ↔ ¬ ∃ d ∈ r.diagnostics, d.errorId = .text ParameterChecker.errorId) := by
      intro r hr
      rw [Report.errorCount_eq_zero_iff]
      simp only [not_exists, not_and]
      exact forall₂_congr fun d hd => not_congr (hr d hd)
    rw [hiff a ha, hiff b hb, hids]
  unfold status
  simp only [ne_eq, hfailures, hcount]

namespace Checkable

variable {disk : Disk} {registry : Registry} {clock : Clock} {request : AddonRequest}
  {dumps ps : List (String × Dump)}

/-- What the checker reports on a dump under these settings. -/
theorem mem_turn_findings {p : String × Dump} (hfiles : ∀ c ∈ p.2.configurations, c.FilesNamed)
    {s : Settings} (hrules : ∀ rule ∈ s.suppressions, rule.FileNamed)
    (hoptions : s.options = request.settings.options) {d : Diagnostic} :
    (∃ c ∈ p.2.configurations, d ∈ (Turn.mk parameterChecker
        (Turn.start (.text (sourcePath p.1)) s c)).findings)
      ↔ request.Fails p d
        ∨ (∃ c ∈ p.2.configurations, ∃ ds, request.findings? p.1 c = .ok ds ∧ d ∈ ds)
          ∧ Suppressions.suppresses s.suppressions d = false := by
  have hturn : ∀ c ∈ p.2.configurations, d ∈ (Turn.mk parameterChecker
        (Turn.start (.text (sourcePath p.1)) s c)).findings
      ↔ (∃ failure, request.findings? p.1 c = .error failure
          ∧ d = Session.internalError parameterChecker (.text (sourcePath p.1)) failure)
        ∨ (∃ ds, request.findings? p.1 c = .ok ds ∧ d ∈ ds)
          ∧ Suppressions.suppresses s.suppressions d = false := by
    intro c hc
    rw [ParameterChecker.turn_findings (hfiles c hc) hrules, hoptions]
    unfold AddonRequest.findings?
    cases ParameterChecker.findings? (Mutations.ofOptions request.settings.options)
        (.text (sourcePath p.1)) c with
    | error failure => simp
    | ok ds => simp [Suppressions.mem_keep]
  constructor
  · rintro ⟨c, hc, hd⟩
    rcases (hturn c hc).mp hd with hf | ⟨hk, hs⟩
    · exact .inl ⟨c, hc, hf⟩
    · exact .inr ⟨⟨c, hc, hk⟩, hs⟩
  · rintro (⟨c, hc, hf⟩ | ⟨⟨c, hc, hk⟩, hs⟩)
    · exact ⟨c, hc, (hturn c hc).mpr (.inl hf)⟩
    · exact ⟨c, hc, (hturn c hc).mpr (.inr ⟨hk, hs⟩)⟩

/-- On a dump the checker reports its failures, and what it keeps and no dump before covers. -/
theorem mem_arrivals (h : Checkable disk registry clock request dumps) {d : Diagnostic} :
    d ∈ Turn.arrivals ((request.on dumps).turns registry dumps)
      ↔ ∃ before p after, dumps = before ++ p :: after
          ∧ (request.Fails p d ∨ request.Keeps p d ∧ ∀ q ∈ before, q.2.covers d = false) := by
  have hturns : (request.on dumps).turns registry dumps
      = Turn.ofDumps [parameterChecker] request.settings dumps := by
    rw [← h.selected]
    rfl
  rw [hturns, Turn.mem_arrivals_ofDumps]
  refine exists_congr fun before => exists_congr fun p => exists_congr fun after =>
    and_congr_right fun hsplit => ?_
  have hupto : Checkable disk registry clock request (before ++ [p]) := by
    apply h.subset
    intro q hq
    rw [hsplit, List.append_cons]
    exact List.mem_append_left _ hq
  have hrules : ∀ rule ∈ (request.settings.loadAll (before ++ [p])).suppressions,
      rule.FileNamed := by
    refine Settings.fileNamed_loadAll ?_ (Addon.globalRules_fileNamed request.suppress)
    intro q hq r hr rule hrule
    obtain ⟨rule', hrule', hnamed⟩ := hupto.records q hq r hr _ hrule
    rw [Except.ok.inj hrule']
    exact hnamed
  have hsuppressed : Suppressions.suppresses
        (request.settings.loadAll (before ++ [p])).suppressions d = false
      ↔ Suppressions.suppresses (Addon.globalRules request.suppress) d = false
        ∧ p.2.covers d = false ∧ ∀ q ∈ before, q.2.covers d = false := by
    rw [Settings.suppresses_loadAll hupto.readable_records, Bool.or_eq_false_iff,
      List.any_eq_false, List.forall_mem_append]
    simp only [Bool.not_eq_true, List.mem_singleton, forall_eq, and_comm]
    rfl
  rw [mem_turn_findings (hupto.files p (List.mem_append_right _ (List.mem_singleton.mpr rfl)))
    hrules (Settings.loadAll_options _ _), hsuppressed]
  unfold AddonRequest.Keeps
  simp only [and_assoc]

theorem plain_of_fails {p : String × Dump} {d : Diagnostic} (hd : request.Fails p d) :
    d.Plain ∧ d.errorId = .text Report.internalErrorId ∧ d.severity ≠ .error := by
  obtain ⟨c, -, failure, -, rfl⟩ := hd
  exact ⟨ParameterChecker.plain_internalError _ failure, rfl, fun he => nomatch he⟩

theorem plain_of_keeps (h : Checkable disk registry clock request dumps) {p : String × Dump}
    (hp : p ∈ dumps) {d : Diagnostic} (hd : request.Keeps p d) :
    d.Plain ∧ d.errorId = .text ParameterChecker.errorId ∧ d.severity = .error := by
  obtain ⟨⟨c, hc, ds, hds, hmem⟩, -⟩ := hd
  exact ParameterChecker.plain_of_findings (h.files p hp c hc) hds hmem

/-- All findings of a run are plain, and the errors among them are those with the one id. -/
theorem plain_of_arrival (h : Checkable disk registry clock request dumps) {d : Diagnostic}
    (hd : d ∈ Turn.arrivals ((request.on dumps).turns registry dumps)) :
    d.Plain ∧ (d.severity = .error ↔ d.errorId = .text ParameterChecker.errorId) := by
  obtain ⟨before, p, after, rfl, hf | ⟨hk, -⟩⟩ := h.mem_arrivals.mp hd
  · obtain ⟨hplain, hid, hs⟩ := plain_of_fails hf
    rw [hid]
    exact ⟨hplain, iff_of_false hs (by decide)⟩
  · obtain ⟨hplain, hid, hs⟩ :=
      h.plain_of_keeps (List.mem_append_right _ (List.mem_cons_self ..)) hk
    exact ⟨hplain, iff_of_true hs hid⟩

/-- The report of a run holds the first of each kind of its findings. -/
theorem report_ok (h : Checkable disk registry clock request dumps) :
    ∃ report, Addon.report? disk registry clock (request.on dumps) = .ok report
      ∧ ∀ d, d ∈ report.diagnostics
        ↔ IsFirst (Turn.arrivals ((request.on dumps).turns registry dumps)) d := by
  have hnames : ((registry.selected (request.on dumps).checkers).map (·.name)).Nodup := by
    have hselected : registry.selected (request.on dumps).checkers = [parameterChecker] :=
      h.selected
    rw [hselected]
    exact List.pairwise_singleton _ _
  apply Addon.report?_ok h.served
  intro ts hts t ht d hd
  exact (h.plain_of_arrival (Turn.mem_arrivals_of_nodup hnames hts ht hd)).1.misfit?

/-- A run reports what it says on some dump under the rules of the dumps up to this one. -/
theorem reports_iff (h : Checkable disk registry clock request dumps)
    {said : Datum × Datum × Loc} :
    Addon.Reports disk registry clock (request.on dumps) said
      ↔ ∃ before p after, dumps = before ++ p :: after ∧ ∃ d, d.said = said
          ∧ (request.Fails p d ∨ request.Keeps p d ∧ ∀ q ∈ before, q.2.covers d = false) := by
  obtain ⟨report, hreport, hmem⟩ := h.report_ok
  rw [Addon.reports_iff_of_ok hreport]
  simp only [hmem]
  rw [exists_isFirst_said fun d hd => (h.plain_of_arrival hd).1]
  simp only [h.mem_arrivals]
  constructor
  · rintro ⟨d, ⟨before, p, after, he, hd⟩, hs⟩
    exact ⟨before, p, after, he, d, hs, hd⟩
  · rintro ⟨before, p, after, he, d, hs, hd⟩
    exact ⟨d, ⟨before, p, after, he, hd⟩, hs⟩

theorem reports_single_iff (h : Checkable disk registry clock request dumps) {p : String × Dump}
    (hp : p ∈ dumps) {said : Datum × Datum × Loc} :
    Addon.Reports disk registry clock (request.on [p]) said
      ↔ ∃ d, d.said = said ∧ (request.Fails p d ∨ request.Keeps p d) := by
  rw [(h.single hp).reports_iff]
  constructor
  · rintro ⟨before, q, after, he, d, hs, hd⟩
    have hq : q = p := by
      have hmem : q ∈ before ++ q :: after := List.mem_append_right _ (List.mem_cons_self ..)
      rw [← he] at hmem
      exact List.mem_singleton.mp hmem
    rw [hq] at hd
    exact ⟨d, hs, hd.imp_right And.left⟩
  · rintro ⟨d, hs, hd⟩
    exact ⟨[], p, [], rfl, d, hs, hd.imp_right fun hk => ⟨hk, fun q hq => nomatch hq⟩⟩

/-- A run over several dumps reports no more than the runs over each alone. -/
theorem exists_of_reports (h : Checkable disk registry clock request dumps)
    {said : Datum × Datum × Loc}
    (hs : Addon.Reports disk registry clock (request.on dumps) said) :
    ∃ p ∈ dumps, Addon.Reports disk registry clock (request.on [p]) said := by
  obtain ⟨before, p, after, he, d, hs, hd⟩ := h.reports_iff.mp hs
  have hp : p ∈ dumps := by
    rw [he]
    exact List.mem_append_right _ (List.mem_cons_self ..)
  exact ⟨p, hp, (h.reports_single_iff hp).mpr ⟨d, hs, hd.imp_right And.left⟩⟩

/-- Where no dump covers what another one keeps a run over all of them reports as much as the runs
over each alone. -/
theorem reports_of_apart (h : Checkable disk registry clock request dumps)
    (hapart : request.Apart dumps) {p : String × Dump} (hp : p ∈ dumps)
    {said : Datum × Datum × Loc}
    (hs : Addon.Reports disk registry clock (request.on [p]) said) :
    Addon.Reports disk registry clock (request.on dumps) said := by
  obtain ⟨d, hs, hd⟩ := (h.reports_single_iff hp).mp hs
  obtain ⟨before, after, he⟩ := List.append_of_mem hp
  refine h.reports_iff.mpr ⟨before, p, after, he, d, hs, hd.imp_right fun hk => ⟨hk, ?_⟩⟩
  intro q hq
  refine hapart p hp d hk q ?_
  rw [he]
  exact List.mem_append_left _ hq

/-- Where a dump covers what another one keeps the second one loses it if it comes later. -/
theorem apart_of_reports (h : Checkable disk registry clock request dumps)
    (hall : ∀ ps : List (String × Dump), ps.Perm dumps → ∀ p ∈ dumps, ∀ said,
      Addon.Reports disk registry clock (request.on [p]) said →
        Addon.Reports disk registry clock (request.on ps) said) : request.Apart dumps := by
  intro p hp d hk q hq
  rw [Bool.eq_false_iff]
  intro hcovers
  -- An order in which the dumps that cover `d` come first.  There the dump that reports the
  -- triple of `d` does not cover it itself, so that `q` has been read by then.
  obtain ⟨ps, hperm, hsorted⟩ := exists_perm_front (fun q : String × Dump => q.2.covers d) dumps
  have hreports := hall ps hperm p hp d.said
    ((h.reports_single_iff hp).mpr ⟨d, rfl, .inr hk⟩)
  obtain ⟨before, p', after, he, d', hsaid, hd'⟩ := (h.perm hperm).reports_iff.mp hreports
  obtain ⟨hid, hrest⟩ := Prod.mk.inj hsaid
  have hloc := (Prod.mk.inj hrest).2
  rcases hd' with hf | ⟨hk', hbefore⟩
  · have hfails := (plain_of_fails hf).2.1
    rw [hid, (h.plain_of_keeps hp hk).2.1] at hfails
    exact absurd hfails (by decide)
  · have hown : p'.2.covers d = false := by
      rw [← Dump.covers_of_eq hid hloc]
      exact hk'.2.2
    have hqs : q ∈ ps := hperm.mem_iff.mpr hq
    rw [he] at hqs hsorted
    rcases List.mem_append.mp hqs with hq | hq
    · have hno := hbefore q hq
      rw [Dump.covers_of_eq hid hloc, hcovers] at hno
      exact absurd hno (by decide)
    · have hp'c : p'.2.covers d = true := by
        rcases List.mem_cons.mp hq with rfl | hq
        · exact hcovers
        · exact (List.pairwise_cons.mp (List.pairwise_append.mp hsorted).2.1).1 q hq hcovers
      rw [hp'c] at hown
      exact absurd hown (by decide)

theorem status_congr (h : Checkable disk registry clock request dumps)
    (h' : Checkable disk registry clock request ps)
    (hsame : ∀ said, Addon.Reports disk registry clock (request.on ps) said
      ↔ Addon.Reports disk registry clock (request.on dumps) said) :
    (runAddon disk registry clock (request.on ps)).1.map (·.1)
      = (runAddon disk registry clock (request.on dumps)).1.map (·.1) := by
  obtain ⟨a, ha, hmem⟩ := h.report_ok
  obtain ⟨b, hb, hmem'⟩ := h'.report_ok
  have hstatus : Addon.status b = Addon.status a := by
    apply Addon.status_congr
    · intro said
      rw [← Addon.reports_iff_of_ok hb, ← Addon.reports_iff_of_ok ha]
      exact hsame said
    · exact fun d hd => (h'.plain_of_arrival ((hmem' d).mp hd).mem).2
    · exact fun d hd => (h.plain_of_arrival ((hmem d).mp hd).mem).2
  rw [Addon.runAddon_eq, Addon.runAddon_eq, ha, hb]
  simp only [Except.map, hstatus]

end Checkable

/-- A run over several dumps reports no more than the runs over each of them alone.  It reports as
much in every order of the dumps exactly if no dump covers what another one would report alone, and
then the order makes no difference for the status. -/
theorem runAddon_apart_iff {disk : Disk} {registry : Registry} {clock : Clock}
    {request : AddonRequest} {dumps : List (String × Dump)}
    (h : Checkable disk registry clock request dumps) :
    (∀ said, Addon.Reports disk registry clock (request.on dumps) said →
        ∃ p ∈ dumps, Addon.Reports disk registry clock (request.on [p]) said)
      ∧ ((∀ ps : List (String × Dump), ps.Perm dumps → ∀ said,
          Addon.Reports disk registry clock (request.on ps) said
            ↔ ∃ p ∈ dumps, Addon.Reports disk registry clock (request.on [p]) said)
        ↔ request.Apart dumps)
      ∧ (request.Apart dumps → ∃ status, ∀ ps : List (String × Dump), ps.Perm dumps →
          (runAddon disk registry clock (request.on ps)).1.map (·.1) = .ok status) := by
  have hunion : request.Apart dumps → ∀ ps : List (String × Dump), ps.Perm dumps → ∀ said,
      Addon.Reports disk registry clock (request.on ps) said
        ↔ ∃ p ∈ dumps, Addon.Reports disk registry clock (request.on [p]) said := by
    intro hapart ps hperm said
    constructor
    · intro hs
      obtain ⟨p, hp, hps⟩ := (h.perm hperm).exists_of_reports hs
      exact ⟨p, hperm.mem_iff.mp hp, hps⟩
    · rintro ⟨p, hp, hs⟩
      exact (h.perm hperm).reports_of_apart (hapart.perm hperm) (hperm.mem_iff.mpr hp) hs
  refine ⟨fun said => h.exists_of_reports, ⟨?_, hunion⟩, ?_⟩
  · intro hall
    apply h.apart_of_reports
    intro ps hperm p hp said hs
    exact (hall ps hperm said).mpr ⟨p, hp, hs⟩
  · intro hapart
    obtain ⟨report, hreport, -⟩ := h.report_ok
    refine ⟨Addon.status report, ?_⟩
    intro ps hperm
    rw [h.status_congr (h.perm hperm) fun said =>
      (hunion hapart ps hperm said).trans (hunion hapart dumps (.refl _) said).symm,
      Addon.runAddon_eq, hreport]
    rfl

/-! ## A comment that reaches into another dump -/

/-- `f(n) { ++n }` in the file `lib/a.c`, with the step on line 3. -/
def steppingConfig : Config where
  tokens := #[
    { spelling := .text "\x7b", file := .text "lib/a.c", line := .int 2, scope := some 0,
      next := some 1 },
    { spelling := .text "++", file := .text "lib/a.c", line := .int 3, scope := some 0,
      op1 := some 2, next := some 2 },
    { spelling := .text "n", varId := .int 1, isName := true, file := .text "lib/a.c",
      line := .int 3, scope := some 0, parent := some 1, next := some 3 },
    { spelling := .text "\x7d", file := .text "lib/a.c", line := .int 4, scope := some 0 }]
  scopes := #[
    { kind := .text "Function", function := some 0, bodyStart := some 0, bodyEnd := some 3 }]
  functions := #[{ name := .text "f", arguments := some (.listed [some 0]) }]
  vars := #[{ isArgument := true, nameToken := some 2 }]
  tokenList := [0, 1, 2, 3]
  scopeList := [0]
  functionList := [0]

/-- The dump of `a.c`, in which a comment suppresses the finding on a line. -/
def commentDump (line : Int) : String × Dump :=
  ("a.c.dump", { suppressions := [{ errorId := .text ParameterChecker.errorId,
                                    fileName := .text "a.c", lineNumber := .int line }] })

/-- The dump of `lib/a.c`. -/
def steppingDump : String × Dump := ("lib/a.c.dump", { configurations := [steppingConfig] })

def pairedDumps (line : Int) : List (String × Dump) := [commentDump line, steppingDump]

def pairedDisk (line : Int) : Disk where
  read := fun path => (Table.get? (pairedDumps line) path).map .ok

/-- The finding on the step. -/
def steppingFinding : Diagnostic where
  errorId := .text ParameterChecker.errorId
  message := .text "EFFECTIVELY_FINAL: Assignment to param `n` in `++n`"
  severity := .error
  loc := { file := .text "lib/a.c", line := .int 3 }
  checker := ParameterChecker.name

theorem steppingConfig_filesNamed : steppingConfig.FilesNamed := by
  intro t
  match t with
  | 0 | 1 | 2 | 3 => exact ⟨_, rfl⟩
  | _ + 4 => exact ⟨_, rfl⟩

theorem steppingConfig_findings :
    AddonRequest.findings? { dumpFiles := [] } "lib/a.c.dump" steppingConfig
      = .ok [steppingFinding] := by
  decide +kernel

theorem paired_checkable (line : Int) :
    Checkable (pairedDisk line) Registry.default {} { dumpFiles := [] } (pairedDumps line) where
  selected := rfl
  loads := by
    intro p hp
    rcases List.mem_cons.mp hp with rfl | hp
    · show (pairedDisk line).load "a.c.dump" = _
      rfl
    · obtain rfl := List.mem_singleton.mp hp
      rfl
  files := by
    intro p hp c hc
    rcases List.mem_cons.mp hp with rfl | hp
    · exact absurd hc List.not_mem_nil
    · obtain rfl := List.mem_singleton.mp hp
      obtain rfl := List.mem_singleton.mp hc
      exact steppingConfig_filesNamed
  records := by
    intro p hp r hr result hresult
    rcases List.mem_cons.mp hp with rfl | hp
    · obtain rfl := List.mem_singleton.mp hr
      have hrule : result = .ok ⟨.text ParameterChecker.errorId, .text "a.c", .int line⟩ := by
        rw [← Option.some.inj hresult, Datum.toIntIfAny_int]
        rfl
      exact ⟨_, hrule, "a.c", rfl⟩
    · obtain rfl := List.mem_singleton.mp hp
      exact absurd hr List.not_mem_nil
  clock := ⟨rfl, fun t ht => absurd ht List.not_mem_nil⟩

theorem steppingDump_keeps {d : Diagnostic} :
    AddonRequest.Keeps { dumpFiles := [] } steppingDump d ↔ d = steppingFinding := by
  constructor
  · rintro ⟨⟨c, hc, ds, hds, hd⟩, -⟩
    obtain rfl := List.mem_singleton.mp hc
    rw [show steppingDump.1 = "lib/a.c.dump" from rfl, steppingConfig_findings] at hds
    obtain rfl := Except.ok.inj hds
    exact List.mem_singleton.mp hd
  · rintro rfl
    exact ⟨⟨_, List.mem_singleton.mpr rfl, _, steppingConfig_findings, List.mem_singleton.mpr rfl⟩,
      rfl, rfl⟩

theorem commentDump_keeps (line : Int) (d : Diagnostic) :
    ¬ AddonRequest.Keeps { dumpFiles := [] } (commentDump line) d := by
  rintro ⟨⟨c, hc, -⟩, -⟩
  exact absurd hc List.not_mem_nil

/-- The run over `lib/a.c` alone reports the step.  After `a.c` it does not, if the comment there is
on the line with the same number. -/
theorem comment_suppresses_elsewhere :
    Addon.Reports (pairedDisk 3) Registry.default {}
        (AddonRequest.on { dumpFiles := [] } [steppingDump]) steppingFinding.said
      ∧ ¬ Addon.Reports (pairedDisk 3) Registry.default {}
        (AddonRequest.on { dumpFiles := [] } (pairedDumps 3)) steppingFinding.said := by
  have h := paired_checkable 3
  have hcovers : (commentDump 3).2.covers steppingFinding = true := by decide
  refine ⟨?_, ?_⟩
  · rw [h.reports_single_iff (List.mem_cons_of_mem _ (List.mem_singleton.mpr rfl))]
    exact ⟨_, rfl, .inr (steppingDump_keeps.mpr rfl)⟩
  · rw [h.reports_iff]
    rintro ⟨before, p, after, he, d, hsaid, hd⟩
    obtain ⟨hid, hrest⟩ := Prod.mk.inj hsaid
    cases before with
    | nil =>
      obtain ⟨rfl, -⟩ := List.cons.inj he
      rcases hd with ⟨c, hc, -⟩ | ⟨hk, -⟩
      · exact absurd hc List.not_mem_nil
      · exact commentDump_keeps 3 d hk
    | cons q before =>
      obtain ⟨rfl, he⟩ := List.cons.inj he
      rcases hd with hf | ⟨-, hbefore⟩
      · have hfails := (Checkable.plain_of_fails hf).2.1
        rw [hid] at hfails
        exact absurd hfails (by decide)
      · have hno := hbefore _ (List.mem_cons_self ..)
        rw [Dump.covers_of_eq hid (Prod.mk.inj hrest).2, hcovers] at hno
        exact absurd hno (by decide)

/-- A comment on another line does not matter. -/
theorem runAddon_apart_iff_pairedDumps :
    AddonRequest.Apart { dumpFiles := [] } (pairedDumps 4)
      ∧ (∀ ps : List (String × Dump), ps.Perm (pairedDumps 4) → ∀ said,
          Addon.Reports (pairedDisk 4) Registry.default {}
              (AddonRequest.on { dumpFiles := [] } ps) said
            ↔ ∃ p ∈ pairedDumps 4, Addon.Reports (pairedDisk 4) Registry.default {}
                (AddonRequest.on { dumpFiles := [] } [p]) said)
      ∧ ¬ AddonRequest.Apart { dumpFiles := [] } (pairedDumps 3) := by
  have hapart : AddonRequest.Apart { dumpFiles := [] } (pairedDumps 4) := by
    intro p hp d hd q hq
    rcases List.mem_cons.mp hp with rfl | hp
    · exact absurd hd (commentDump_keeps 4 d)
    · obtain rfl := List.mem_singleton.mp hp
      rw [steppingDump_keeps.mp hd]
      rcases List.mem_cons.mp hq with rfl | hq
      · decide
      · obtain rfl := List.mem_singleton.mp hq
        rfl
  refine ⟨hapart, (runAddon_apart_iff (paired_checkable 4)).2.1.mpr hapart, ?_⟩
  intro hno
  have hcovers := hno steppingDump (List.mem_cons_of_mem _ (List.mem_singleton.mpr rfl)) _
    (steppingDump_keeps.mpr rfl) (commentDump 3) (List.mem_cons_self ..)
  exact absurd hcovers (by decide)

end FinalParams
