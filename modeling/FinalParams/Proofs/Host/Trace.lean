import FinalParams.Proofs.Host.Returned

/-!
# Which runs return

A run goes through as long as its files can be read, instances of its checkers can be made and their
findings can be looked up.  `checkFiles_run` says that otherwise the first file that cannot be read
ends it, and `report?_ok` what the report of a run holds that goes through.
-/

namespace FinalParams

open Diagnostic

/-- Why no instance of the checker can be made. -/
def Checker.flaw? (c : Checker) : Option Failure :=
  match c.create with
  | .ok () => none
  | .error failure => some failure

theorem Checker.flaw?_eq_none_iff {c : Checker} : c.flaw? = none ↔ c.create = .ok () := by
  unfold Checker.flaw?
  cases c.create <;> simp

/-- Why the line of a record cannot be read. -/
def SuppressionRecord.lineError? (r : SuppressionRecord) : Option IntegerError :=
  match Suppression.ofRecord? r with
  | some (.error e) => some e
  | _ => none

/-- Why the suppressions of a dump cannot be imported. -/
def Dump.lineError? (dump : Dump) : Option IntegerError :=
  dump.suppressions.findSome? SuppressionRecord.lineError?

theorem Suppressions.load_snd (rules : Suppressions) (records : List SuppressionRecord) :
    (load rules records).2 = records.findSome? SuppressionRecord.lineError? := by
  induction records generalizing rules with
  | nil => rfl
  | cons r rest ih =>
    rw [load, List.findSome?_cons, SuppressionRecord.lineError?]
    cases Suppression.ofRecord? r with
    | none => exact ih rules
    | some result =>
      cases result with
      | ok rule => exact ih (add rules rule)
      | error e => rfl

namespace Disk

/-- Why a run ends at a file. -/
def obstacle? (disk : Disk) (file : String) : Option Failure :=
  match disk.load file with
  | .error failure => some failure
  | .ok dump => dump.lineError?.map .number

/-- The dumps among these files. -/
def dumps (disk : Disk) (files : List String) : List (String × Dump) :=
  files.filterMap fun file =>
    match disk.load file with
    | .ok dump => some (file, dump)
    | .error _ => none

theorem dumps_of_load {disk : Disk} {dumps : List (String × Dump)}
    (h : ∀ p ∈ dumps, disk.load p.1 = .ok p.2) : disk.dumps (dumps.map (·.1)) = dumps := by
  induction dumps with
  | nil => rfl
  | cons p rest ih =>
    have hrest := ih fun q hq => h q (List.mem_cons_of_mem _ hq)
    rw [Disk.dumps] at hrest ⊢
    rw [List.map_cons, List.filterMap_cons, hrest, h p (List.mem_cons_self ..)]

end Disk

namespace Session

variable {h : Host}

theorem readClock_ok (hclock : h.clock.Readable) :
    ∃ t h', readClock.run h = .ok t h' := by
  have hget : ∀ f : Host → Int × Host, (modifyGet f : Session Int).run h = .ok (f h).1 (f h).2 :=
    fun f => rfl
  refine ⟨h.clock.read.1, { h with clock := h.clock.read.2 }, ?_⟩
  rw [readClock, run_bind_of_ok (hget _)]
  simp only [hclock.read.1]
  rfl

/-- Only a checker of which no instance can be made ends the run over a configuration. -/
theorem runEach_run (hclock : h.clock.Readable) (cs : List Checker) (context : Context)
    (report : Report) :
    ∃ h', match cs.findSome? Checker.flaw? with
      | some failure => (runEach report context cs).run h = .error failure h'
      | none => ∃ report', (runEach report context cs).run h = .ok report' h' := by
  induction cs generalizing context h report with
  | nil => exact ⟨h, report, rfl⟩
  | cons c rest ih =>
    obtain ⟨started, h₁, hstart⟩ := readClock_ok hclock
    have hh₁ := readClock_returned hstart
    rw [List.findSome?_cons, Checker.flaw?, runEach, run_bind_of_ok hstart]
    cases hc : c.create with
    | error failure =>
      refine ⟨h₁, run_bind_of_error ?_⟩
      rw [runOne, hc]
      rfl
    | ok =>
      obtain ⟨h₂, hone, hh₂⟩ := runOne_run (h := h₁) hc context
      obtain ⟨ended, h₃, hend⟩ := readClock_ok (hh₂.clock (hh₁.clock hclock))
      have hh₃ := readClock_returned hend
      rw [run_bind_of_ok hone]
      simp only [run_bind_of_ok hend]
      exact ih (hh₃.clock (hh₂.clock (hh₁.clock hclock))) _ _

theorem checkConfig_run (hclock : h.clock.Readable) (config : Config)
    (names : Option (List String)) (path : Datum) :
    ∃ h', match (h.registry.selected names).findSome? Checker.flaw? with
      | some failure => (checkConfig config names path).run h = .error failure h'
      | none => ∃ report, (checkConfig config names path).run h = .ok report h' := by
  have hget : (get : Session Host).run h = .ok h h := rfl
  obtain ⟨h₁, hselect, hh₁⟩ := select_run (h := h) names
  have hrun : (checkConfig config names path).run h
      = (runEach {} (Turn.start path h.settings config) (h.registry.selected names)).run h₁ := by
    rw [checkConfig, run_bind_of_ok hget]
    exact run_bind_of_ok hselect
  rw [hrun]
  exact runEach_run (hh₁.clock hclock) _ _ _

theorem join_ok {a b : Report} (ha : a.Settled)
    (hb : ∀ d ∈ b.byChecker.flatMap (·.2), d.misfit? = none) (h : Host) :
    (join a b).run h = .ok (a.merge b) h := by
  rw [join, (ha.merge hb).1]
  rfl

theorem runConfigurations_ok {names : Option (List String)}
    (hcs : (h.registry.selected names).findSome? Checker.flaw? = none)
    (hclock : h.clock.Readable) (path : Datum) {configs : List Config} {report : Report}
    (hr : report.Settled)
    (hknown : Turn.Known
      (Turn.ofConfigurations (h.registry.selected names) path h.settings configs)) :
    ∃ report' h', (runConfigurations names path report configs).run h = .ok report' h' := by
  induction configs generalizing h report with
  | nil => exact ⟨report, h, rfl⟩
  | cons config rest ih =>
    obtain ⟨h₁, hwrite, hh₁⟩ := write_run (h := h) .info
      ((if path.truthy then path.shown else "<dump>") ++ ": configuration " ++ config.name.quoted)
    obtain ⟨h₂, hcheck⟩ := checkConfig_run (hh₁.clock hclock) config names path
    rw [hh₁.registry, hcs] at hcheck
    obtain ⟨next, hcheck⟩ := hcheck
    obtain ⟨hrecorded, hh₂⟩ := checkConfig_returned hcheck
    rw [hh₁.registry, hh₁.settings] at hrecorded hh₂
    have hleaves := hh₁.trans hh₂
    have hnext : ∀ d ∈ next.byChecker.flatMap (·.2), d.misfit? = none := by
      intro d hd
      rw [hrecorded.byChecker] at hd
      obtain ⟨t, ht, hd⟩ := Turn.mem_filed hd
      exact hknown _ (List.mem_cons_self ..) t ht d hd
    have hjoin := join_ok hr hnext h₂
    obtain ⟨report', h', hrest⟩ := ih (by rwa [hleaves.registry]) (hleaves.clock hclock)
      (hr.merge hnext).2 (by
        rw [hleaves.registry, hleaves.settings]
        exact fun ts hts => hknown ts (List.mem_cons_of_mem _ hts))
    refine ⟨report', h', ?_⟩
    rw [runConfigurations]
    refine (run_bind_of_ok hwrite).trans ?_
    rw [run_bind_of_ok hcheck, run_bind_of_ok hjoin]
    exact hrest

theorem checkDump_run {names : Option (List String)}
    (hcs : (h.registry.selected names).findSome? Checker.flaw? = none)
    (hclock : h.clock.Readable) (path : Datum) (dump : Dump)
    (hknown : Turn.Known (Turn.ofConfigurations (h.registry.selected names) path
      (h.settings.load dump.suppressions) dump.configurations)) :
    ∃ h', match dump.lineError? with
      | some e => (checkDump dump names path).run h = .error (.number e) h'
      | none => ∃ report, (checkDump dump names path).run h = .ok report h' := by
  obtain ⟨h₁, hh₁, hload⟩ := loadSuppressions_run (h := h) dump.suppressions
  rw [Suppressions.load_snd] at hload
  unfold Dump.lineError?
  cases he : dump.suppressions.findSome? SuppressionRecord.lineError? with
  | some e =>
    rw [he] at hload
    exact ⟨h₁, run_bind_of_error hload⟩
  | none =>
    rw [he] at hload
    obtain ⟨report, h', hrun⟩ := runConfigurations_ok (h := h₁) (by rwa [hh₁.registry])
      (hh₁.clock hclock) path Report.settled_empty (by rwa [hh₁.registry, hh₁.settings])
    exact ⟨h', report, (run_bind_of_ok hload).trans hrun⟩

end Session

namespace Addon

open Session

variable {h : Host}

/-- Where all findings can be looked up, the first file that cannot be read ends the run. -/
theorem checkFiles_run {names : Option (List String)}
    (hcs : (h.registry.selected names).findSome? Checker.flaw? = none)
    (hclock : h.clock.Readable) {disk : Disk} {files : List String} {report : Report}
    (hr : report.Settled)
    (hknown : Turn.Known
      (Turn.ofDumps (h.registry.selected names) h.settings (disk.dumps files))) :
    ∃ h', match files.findSome? disk.obstacle? with
      | some failure => (checkFiles disk names report files).run h = .error failure h'
      | none => ∃ report', (checkFiles disk names report files).run h = .ok report' h' := by
  induction files generalizing h report with
  | nil => exact ⟨h, report, rfl⟩
  | cons file rest ih =>
    rw [List.findSome?_cons, Disk.obstacle?, checkFiles]
    cases hfile : disk.load file with
    | error failure => exact ⟨h, rfl⟩
    | ok dump =>
      have hdumps : disk.dumps (file :: rest) = (file, dump) :: disk.dumps rest := by
        rw [Disk.dumps, List.filterMap_cons, hfile]
        rfl
      rw [hdumps] at hknown
      obtain ⟨h₁, hwrite, hh₁⟩ := write_run (h := h) .info ("loaded " ++ file)
      obtain ⟨h₂, hcheck⟩ := checkDump_run (h := h₁) (by rwa [hh₁.registry])
        (hh₁.clock hclock) (.text (sourcePath file)) dump (by
          rw [hh₁.registry, hh₁.settings]
          exact fun ts hts => hknown ts (List.mem_append_left _ hts))
      simp only
      rw [run_bind_of_ok hwrite]
      cases he : dump.lineError? with
      | some e =>
        rw [he] at hcheck
        exact ⟨h₂, run_bind_of_error hcheck⟩
      | none =>
        rw [he] at hcheck
        obtain ⟨next, hcheck⟩ := hcheck
        obtain ⟨hh₂, hnext, -⟩ := checkDump_returned hcheck
        rw [hh₁.registry, hh₁.settings] at hh₂
        have hleaves := hh₁.trans hh₂
        have hfiled : ∀ d ∈ next.byChecker.flatMap (·.2), d.misfit? = none := fun d hd =>
          hnext.known d (hnext.filed.mem_iff.mp hd)
        simp only [run_bind_of_ok hcheck, run_bind_of_ok (join_ok hr hfiled h₂)]
        refine ih (by rwa [hleaves.registry]) (hleaves.clock hclock) (hr.merge hfiled).2 ?_
        rw [hleaves.registry, hleaves.settings]
        exact fun ts hts => hknown ts (List.mem_append_right _ hts)

end Addon

namespace Report

variable {r : Report}

theorem failures_eq_nil_iff :
    r.failures = [] ↔ ∀ d ∈ r.diagnostics, d.errorId.isText internalErrorId = false := by
  rw [List.eq_nil_iff_forall_not_mem, failures]
  simp only [(sortTexts_perm _).mem_iff, List.mem_eraseDups, List.mem_map, List.mem_filter]
  constructor
  · intro h d hd
    rw [Bool.eq_false_iff]
    exact fun hf => h d.checker ⟨d, ⟨hd, hf⟩, rfl⟩
  · rintro h name ⟨d, ⟨hd, hf⟩, -⟩
    rw [h d hd] at hf
    exact absurd hf Bool.false_ne_true

theorem errorCount_eq_zero_iff :
    r.errorCount = 0 ↔ ∀ d ∈ r.diagnostics, d.severity ≠ .error := by
  rw [errorCount, List.length_eq_zero_iff, List.filter_eq_nil_iff]
  simp

end Report

/-- The dumps of a request can be read, and so can the clock, and every selected checker can be
made. -/
structure Served (disk : Disk) (registry : Registry) (clock : Clock) (request : AddonRequest)
    (dumps : List (String × Dump)) : Prop where
  files : request.dumpFiles = dumps.map (·.1)
  loads : ∀ p ∈ dumps, disk.load p.1 = .ok p.2
  records : ∀ p ∈ dumps, ∀ r ∈ p.2.suppressions, ∀ e, Suppression.ofRecord? r ≠ some (.error e)
  clock : clock.Readable
  creates : ∀ c ∈ registry.selected request.checkers, c.create = .ok ()

theorem Served.obstacle? {disk : Disk} {registry : Registry} {clock : Clock}
    {request : AddonRequest} {dumps : List (String × Dump)}
    (h : Served disk registry clock request dumps) :
    request.dumpFiles.findSome? disk.obstacle? = none := by
  rw [h.files, List.findSome?_eq_none_iff]
  intro file hfile
  obtain ⟨p, hp, rfl⟩ := List.mem_map.mp hfile
  have hlines : p.2.lineError? = none := by
    rw [Dump.lineError?, List.findSome?_eq_none_iff]
    intro r hr
    unfold SuppressionRecord.lineError?
    split
    · rename_i e he
      exact absurd he (h.records p hp r hr e)
    · rfl
  rw [Disk.obstacle?, h.loads p hp]
  simp only [hlines]
  rfl

namespace Addon

theorem report?_run (disk : Disk) {registry : Registry} {clock : Clock} {request : AddonRequest}
    (hcs : (registry.selected request.checkers).findSome? Checker.flaw? = none)
    (hclock : clock.Readable)
    (hknown : Turn.Known (request.turns registry (disk.dumps request.dumpFiles))) :
    match request.dumpFiles.findSome? disk.obstacle? with
    | some failure => report? disk registry clock request = .error failure
    | none => ∃ report, report? disk registry clock request = .ok report := by
  obtain ⟨h', hrun⟩ := checkFiles_run
    (h := Host.start registry (some (globalRules request.suppress)) request.options clock)
    hcs hclock Report.settled_empty (by rwa [start_settings])
  unfold report?
  cases ho : request.dumpFiles.findSome? disk.obstacle? with
  | some failure =>
    rw [ho] at hrun
    simp only [hrun]
  | none =>
    rw [ho] at hrun
    obtain ⟨report, hrun⟩ := hrun
    exact ⟨report, by simp only [hrun]⟩

/-- The report holds, of the findings of the turns, the first of each kind. -/
theorem report?_ok {disk : Disk} {registry : Registry} {clock : Clock} {request : AddonRequest}
    {dumps : List (String × Dump)} (h : Served disk registry clock request dumps)
    (hknown : Turn.Known (request.turns registry dumps)) :
    ∃ report : Report, report? disk registry clock request = .ok report
      ∧ ∀ d, d ∈ report.diagnostics ↔ IsFirst (Turn.arrivals (request.turns registry dumps)) d := by
  have hflaws : (registry.selected request.checkers).findSome? Checker.flaw? = none := by
    rw [List.findSome?_eq_none_iff]
    exact fun c hc => Checker.flaw?_eq_none_iff.mpr (h.creates c hc)
  have hrun := report?_run disk hflaws h.clock (by
    rwa [h.files, Disk.dumps_of_load h.loads])
  rw [h.obstacle?] at hrun
  obtain ⟨report, hreport⟩ := hrun
  exact ⟨report, hreport, report?_returned h.files h.loads hreport⟩

end Addon
end FinalParams
