import FinalParams.Proofs.Host.Turn
import FinalParams.Proofs.Sequence

/-!
# What a run has done when it returns

Wherever a run returns, the report and the host that it leaves follow from the turns of its
checkers, however many of them failed.  `checkFiles_returned` says that the report holds those
findings of the turns that repeat none before them.
-/

namespace FinalParams

open Diagnostic

/-- The clock shows only times that fit into a number. -/
def Clock.Readable (c : Clock) : Prop :=
  Binary64.isBeyond c.last = false ∧ ∀ t ∈ c.readings, Binary64.isBeyond t = false

theorem Clock.Readable.read {c : Clock} (h : c.Readable) :
    Binary64.isBeyond c.read.1 = false ∧ c.read.2.Readable := by
  obtain ⟨readings, last⟩ := c
  cases readings with
  | nil => exact ⟨h.1, h⟩
  | cons t rest =>
    have ht := h.2 t (List.mem_cons_self ..)
    exact ⟨ht, ht, fun u hu => h.2 u (List.mem_cons_of_mem _ hu)⟩

/-- What a part of a run keeps: the checkers, and a clock that can be read.  The settings that it
leaves are these. -/
structure Host.Leaves (h : Host) (s : Settings) (h' : Host) : Prop where
  registry : h'.registry = h.registry
  settings : h'.settings = s
  clock : h.clock.Readable → h'.clock.Readable

theorem Host.Leaves.trans {h h₁ h' : Host} {s s' : Settings} (h₁s : h.Leaves s h₁)
    (hs' : h₁.Leaves s' h') : h.Leaves s' h' :=
  ⟨hs'.registry.trans h₁s.registry, hs'.settings, fun hclock => hs'.clock (h₁s.clock hclock)⟩

/-- The second report is the first one with the findings of these turns at its end. -/
structure Report.Recorded (report : Report) (ts : List Turn) (report' : Report) : Prop where
  diagnostics : report'.diagnostics = report.diagnostics ++ ts.flatMap Turn.findings
  byChecker : report'.byChecker
    = ts.foldl (fun table t => Table.set table t.checker.name t.findings) report.byChecker
  checkers : report'.checkers = report.checkers ++ ts.map (·.checker.name)

namespace Session

variable {h h' : Host}

theorem write_run (level : Log.Level) (message : String) :
    ∃ h', (write level message).run h = .ok () h' ∧ h.Leaves h.settings h' :=
  ⟨_, rfl, rfl, rfl, id⟩

theorem write_returned {level : Log.Level} {message : String} {u : Unit}
    (hr : (write level message).run h = .ok u h') : h.Leaves h.settings h' := by
  obtain ⟨h₁, hrun, hleaves⟩ := write_run (h := h) level message
  obtain ⟨-, rfl⟩ := EStateM.Result.ok.inj (hrun.symm.trans hr)
  exact hleaves

theorem readClock_returned {t : Int} (hr : readClock.run h = .ok t h') :
    h.Leaves h.settings h' := by
  have hget : ∀ f : Host → Int × Host, (modifyGet f : Session Int).run h = .ok (f h).1 (f h).2 :=
    fun f => rfl
  rw [readClock, run_bind_of_ok (hget _)] at hr
  simp only at hr
  split at hr
  · contradiction
  · obtain ⟨-, rfl⟩ := EStateM.Result.ok.inj hr
    exact ⟨rfl, rfl, fun hclock => hclock.read.2⟩

/-- Names that are not registered leave a line in the log. -/
theorem select_run (names : Option (List String)) :
    ∃ h', (select names).run h = .ok (h.registry.selected names) h' ∧ h.Leaves h.settings h' := by
  have hget : (get : Session Host).run h = .ok h h := rfl
  unfold select
  rw [run_bind_of_ok hget]
  cases names with
  | none => exact ⟨h, rfl, rfl, rfl, id⟩
  | some names =>
    have hmap : ∀ f : String → Session (Option Checker), (∀ name (h₁ : Host),
        ∃ h₂, (f name).run h₁ = .ok (Table.get? h.registry name) h₂ ∧ h₁.Leaves h₁.settings h₂) →
        ∀ h₁ : Host, ∃ h₂, (names.mapM f).run h₁ = .ok (names.map (Table.get? h.registry)) h₂
          ∧ h₁.Leaves h₁.settings h₂ := by
      intro f hf
      induction names with
      | nil => exact fun h₁ => ⟨h₁, rfl, rfl, rfl, id⟩
      | cons name rest ih =>
        intro h₁
        obtain ⟨h₂, hone, hh₂⟩ := hf name h₁
        obtain ⟨h₃, hrest, hh₃⟩ := ih h₂
        refine ⟨h₃, ?_, hh₂.trans (hh₂.settings ▸ hh₃)⟩
        rw [List.mapM_cons, run_bind_of_ok hone, run_bind_of_ok hrest]
        rfl
    have hlook : ∀ f : String → Session (Option Checker), (∀ name (h₁ : Host),
        ∃ h₂, (f name).run h₁ = .ok (Table.get? h.registry name) h₂ ∧ h₁.Leaves h₁.settings h₂) →
        ∃ h', (names.mapM f >>= fun found => pure (found.filterMap id)).run h
          = .ok (h.registry.selected (some names)) h' ∧ h.Leaves h.settings h' := by
      intro f hf
      obtain ⟨h', hrun, hh'⟩ := hmap f hf h
      refine ⟨h', ?_, hh'⟩
      rw [run_bind_of_ok hrun, List.filterMap_map]
      rfl
    apply hlook
    intro name h₁
    cases Table.get? h.registry name with
    | some c => exact ⟨h₁, rfl, rfl, rfl, id⟩
    | none =>
      obtain ⟨h₂, hwrite, hh₂⟩ := write_run .warning
        ("no checker named " ++ Text.quoted name ++ "; skipped")
      exact ⟨h₂, run_bind_of_ok hwrite, hh₂⟩

/-- A checker of which an instance can be made has its turn, whether it finishes or not. -/
theorem runOne_run {c : Checker} (hc : c.create = .ok ()) (context : Context) :
    ∃ h', (runOne c context).run h
        = .ok ((Turn.mk c context).findings, (Turn.mk c context).after) h'
      ∧ h.Leaves (Turn.mk c context).after.settings h' := by
  let after := (Turn.mk c context).after
  refine ⟨{ h with
    suppressions := h.suppressions.setWorking after.suppressions
    options := h.options.setWorking after.options
    log := h.log ++ (attempt c context).2.2 }, ?_, rfl, ?_, id⟩
  · rw [runOne, hc]
    rfl
  · simp only [Host.settings, Context.settings, Handover.working_setWorking, after]

theorem runOne_returned {c : Checker} {context context' : Context} {ds : List Diagnostic}
    (hr : (runOne c context).run h = .ok (ds, context') h') :
    c.create = .ok () ∧ ds = (Turn.mk c context).findings ∧ context' = (Turn.mk c context).after
      ∧ h.Leaves context'.settings h' := by
  cases hc : c.create with
  | error failure =>
    rw [runOne, hc] at hr
    contradiction
  | ok =>
    obtain ⟨h₁, hrun, hleaves⟩ := runOne_run (h := h) hc context
    obtain ⟨heq, rfl⟩ := EStateM.Result.ok.inj (hrun.symm.trans hr)
    obtain ⟨rfl, rfl⟩ := Prod.mk.inj heq
    exact ⟨rfl, rfl, rfl, hleaves⟩

theorem runEach_returned {cs : List Checker} {context : Context} {report report' : Report}
    (hs : h.settings = context.settings)
    (hr : (runEach report context cs).run h = .ok report' h') :
    report.Recorded (Turn.inOrder context cs) report'
      ∧ h.Leaves (Turn.contextAfter context cs).settings h' := by
  induction cs generalizing context h report with
  | nil =>
    obtain ⟨rfl, rfl⟩ := EStateM.Result.ok.inj hr
    refine ⟨⟨?_, rfl, ?_⟩, rfl, hs, id⟩ <;> simp [Turn.inOrder]
  | cons c rest ih =>
    rw [runEach] at hr
    obtain ⟨started, h₁, hstart, hr⟩ := exists_of_run_bind_ok hr
    obtain ⟨⟨ds, context'⟩, h₂, hone, hr⟩ := exists_of_run_bind_ok hr
    obtain ⟨ended, h₃, hend, hr⟩ := exists_of_run_bind_ok hr
    obtain ⟨-, rfl, rfl, hh₂⟩ := runOne_returned hone
    have hh₃ := ((readClock_returned hstart).trans hh₂).trans (readClock_returned hend)
    obtain ⟨hrest, hh'⟩ := ih (hh₃.settings.trans hh₂.settings) hr
    refine ⟨⟨?_, hrest.byChecker, ?_⟩, hh₃.trans hh'⟩
    · rw [hrest.diagnostics]
      simp [Report.record, Turn.inOrder]
    · rw [hrest.checkers]
      simp [Report.record, Turn.inOrder]

/-- The report on a configuration holds the findings of each turn, one after the other. -/
theorem checkConfig_returned {config : Config} {names : Option (List String)} {path : Datum}
    {report : Report} (hr : (checkConfig config names path).run h = .ok report h') :
    Report.Recorded {}
        (Turn.inOrder (Turn.start path h.settings config) (h.registry.selected names)) report
      ∧ h.Leaves (Turn.contextAfter (Turn.start path h.settings config)
          (h.registry.selected names)).settings h' := by
  have hget : (get : Session Host).run h = .ok h h := rfl
  obtain ⟨h₁, hselect, hh₁⟩ := select_run (h := h) names
  rw [checkConfig, run_bind_of_ok hget] at hr
  change (select names >>= runEach {} (Turn.start path h.settings config)).run h = _ at hr
  rw [run_bind_of_ok hselect] at hr
  obtain ⟨hrecorded, hh'⟩ := runEach_returned hh₁.settings hr
  exact ⟨hrecorded, hh₁.trans hh'⟩

theorem join_returned {a b c : Report} (hr : (join a b).run h = .ok c h') :
    c = a.merge b ∧ h = h' ∧ ∀ d ∈ b.byChecker.flatMap (·.2), d.misfit? = none := by
  unfold join at hr
  cases hm : a.mergeUntil b with
  | mk merged e =>
    rw [hm] at hr
    cases e with
    | some e => contradiction
    | none =>
      obtain ⟨rfl, rfl⟩ := EStateM.Result.ok.inj hr
      unfold Report.mergeUntil at hm
      split at hm
      · obtain ⟨-, hm⟩ := Prod.mk.inj hm
        contradiction
      · split at hm
        · obtain ⟨-, hm⟩ := Prod.mk.inj hm
          contradiction
        · rename_i hknown
          obtain ⟨rfl, -⟩ := Prod.mk.inj hm
          rw [List.findSome?_eq_none_iff] at hknown
          refine ⟨rfl, rfl, ?_⟩
          intro d hd
          rw [← Report.contributions_map] at hd
          obtain ⟨entry, hentry, rfl⟩ := List.mem_map.mp hd
          exact hknown entry hentry

/-- The report on the configurations of a dump holds what is new in the findings on each. -/
theorem runConfigurations_returned {names : Option (List String)} {path : Datum}
    {configs : List Config} {report report' : Report}
    (hr : (runConfigurations names path report configs).run h = .ok report' h') :
    h.Leaves (Turn.settingsAfter (h.registry.selected names) path h.settings configs) h'
      ∧ (report.Settled → report'.Settled)
      ∧ report'.diagnostics = allNew report.diagnostics (Turn.arrivals
          (Turn.ofConfigurations (h.registry.selected names) path h.settings configs)) := by
  induction configs generalizing h report with
  | nil =>
    obtain ⟨rfl, rfl⟩ := EStateM.Result.ok.inj hr
    exact ⟨⟨rfl, rfl, id⟩, id, rfl⟩
  | cons config rest ih =>
    rw [runConfigurations] at hr
    obtain ⟨u, h₁, hwrite, hr⟩ := exists_of_run_bind_ok hr
    obtain ⟨next, h₂, hcheck, hr⟩ := exists_of_run_bind_ok hr
    obtain ⟨joined, h₃, hjoin, hr⟩ := exists_of_run_bind_ok hr
    have hh₁ := write_returned hwrite
    obtain ⟨hrecorded, hh₂⟩ := checkConfig_returned hcheck
    obtain ⟨rfl, rfl, hknown⟩ := join_returned hjoin
    rw [hh₁.registry, hh₁.settings] at hh₂ hrecorded
    have hleaves := hh₁.trans hh₂
    obtain ⟨hh', hsettled, hheld⟩ := ih hr
    rw [hleaves.registry, hleaves.settings] at hh' hheld
    refine ⟨hleaves.trans hh', fun hreport => hsettled (hreport.merge hknown).2, ?_⟩
    rw [hheld, Report.merge_diagnostics, hrecorded.byChecker, ← allNew_append]
    rfl

/-- Importing the suppressions of a dump ends at the first line that is no number. -/
theorem loadSuppressions_run (records : List SuppressionRecord) :
    ∃ h', h.Leaves (h.settings.load records) h' ∧ (loadSuppressions records).run h
      = match (Suppressions.load h.suppressions.working records).2 with
        | some e => .error (.number e) h'
        | none => .ok () h' := by
  have hget : (get : Session Host).run h = .ok h h := rfl
  refine ⟨{ h with suppressions :=
    h.suppressions.setWorking (Suppressions.load h.suppressions.working records).1 },
    ⟨rfl, ?_, id⟩, ?_⟩
  · simp only [Host.settings, Settings.load, Handover.working_setWorking]
  · rw [loadSuppressions, run_bind_of_ok hget]
    cases hl : Suppressions.load h.suppressions.working records with
    | mk rules failure => cases failure <;> rfl

theorem checkDump_returned {dump : Dump} {names : Option (List String)} {path : Datum}
    {report : Report} (hr : (checkDump dump names path).run h = .ok report h') :
    h.Leaves (Turn.settingsAfter (h.registry.selected names) path
        (h.settings.load dump.suppressions) dump.configurations) h'
      ∧ report.Settled
      ∧ report.diagnostics = allNew [] (Turn.arrivals
          (Turn.ofConfigurations (h.registry.selected names) path
            (h.settings.load dump.suppressions) dump.configurations)) := by
  obtain ⟨⟨⟩, h₁, hrules, hr⟩ := exists_of_run_bind_ok hr
  obtain ⟨h₂, hh₂, hload⟩ := loadSuppressions_run (h := h) dump.suppressions
  rw [hload] at hrules
  split at hrules
  · contradiction
  · obtain ⟨-, rfl⟩ := EStateM.Result.ok.inj hrules
    obtain ⟨hh', hsettled, hheld⟩ := runConfigurations_returned hr
    rw [hh₂.registry, hh₂.settings] at hh' hheld
    exact ⟨hh₂.trans hh', hsettled Report.settled_empty, hheld⟩

end Session

namespace Addon

open Session

variable {h h' : Host}

/-- The report on several dumps holds what is new in the findings on their configurations. -/
theorem checkFiles_returned {disk : Disk} {names : Option (List String)}
    {dumps : List (String × Dump)} (hdisk : ∀ p ∈ dumps, disk.load p.1 = .ok p.2)
    {report report' : Report}
    (hr : (checkFiles disk names report (dumps.map (·.1))).run h = .ok report' h') (d : Diagnostic) :
    d ∈ report'.diagnostics ↔ d ∈ allNew report.diagnostics
      (Turn.arrivals (Turn.ofDumps (h.registry.selected names) h.settings dumps)) := by
  induction dumps generalizing h report with
  | nil =>
    obtain ⟨rfl, rfl⟩ := EStateM.Result.ok.inj hr
    exact Iff.rfl
  | cons p rest ih =>
    obtain ⟨file, dump⟩ := p
    have hfile : disk.load file = .ok dump := hdisk (file, dump) (List.mem_cons_self ..)
    rw [List.map_cons, checkFiles, hfile] at hr
    obtain ⟨u, h₁, hwrite, hr⟩ := exists_of_run_bind_ok hr
    obtain ⟨next, h₂, hcheck, hr⟩ := exists_of_run_bind_ok hr
    obtain ⟨joined, h₃, hjoin, hr⟩ := exists_of_run_bind_ok hr
    have hh₁ := write_returned hwrite
    obtain ⟨hh₂, hnext, hheld⟩ := checkDump_returned hcheck
    obtain ⟨rfl, rfl, -⟩ := join_returned hjoin
    rw [hh₁.registry, hh₁.settings] at hh₂ hheld
    have hleaves := hh₁.trans hh₂
    have hrest := ih (fun q hq => hdisk q (List.mem_cons_of_mem _ hq)) hr
    rw [hleaves.registry, hleaves.settings] at hrest
    rw [hrest, mem_allNew_congr (hnext.mem_merge_iff hheld), ← allNew_append,
      ← Turn.arrivals_append]
    rfl

/-- The report of a request, if nothing escapes. -/
def report? (disk : Disk) (registry : Registry) (clock : Clock) (request : AddonRequest) :
    Except Failure Report :=
  let host := Host.start registry (some (globalRules request.suppress)) request.options clock
  match (checkFiles disk request.checkers {} request.dumpFiles).run host with
  | .ok report _ => .ok report
  | .error failure _ => .error failure

/-- Status and output follow from the report. -/
theorem runAddon_eq (disk : Disk) (registry : Registry) (clock : Clock) (request : AddonRequest) :
    (runAddon disk registry clock request).1 = (report? disk registry clock request).map fun report =>
      (status report, written report request.output) := by
  unfold runAddon report?
  generalize Host.start registry (some (globalRules request.suppress)) request.options clock = host
  have hsession : ∀ {report : Report} {h : Host},
      (checkFiles disk request.checkers {} request.dumpFiles).run host = .ok report h →
        ∃ h', (session disk request).run host
          = .ok (status report, written report request.output) h' := by
    intro report h hrun
    unfold session
    rw [run_bind_of_ok hrun]
    by_cases hf : report.failures ≠ []
    · rw [if_pos hf]
      exact ⟨_, rfl⟩
    · rw [if_neg hf]
      exact ⟨_, rfl⟩
  simp only
  cases hrun : (checkFiles disk request.checkers {} request.dumpFiles).run host with
  | ok report h =>
    obtain ⟨h', hs⟩ := hsession hrun
    simp only [hs, Except.map]
  | error failure h =>
    have hs : (session disk request).run host = .error failure h := run_bind_of_error hrun
    simp only [hs, Except.map]

theorem start_settings (registry : Registry) (clock : Clock) (request : AddonRequest) :
    (Host.start registry (some (globalRules request.suppress)) request.options clock).settings
      = request.settings := by
  simp only [Host.settings, Host.start, Handover.working_ofGiven, AddonRequest.settings,
    Option.getD_some]

/-- The report holds, of the findings of the turns, the first of each kind. -/
theorem report?_returned {disk : Disk} {registry : Registry} {clock : Clock}
    {request : AddonRequest} {dumps : List (String × Dump)}
    (hfiles : request.dumpFiles = dumps.map (·.1)) (hdisk : ∀ p ∈ dumps, disk.load p.1 = .ok p.2)
    {report : Report} (hr : report? disk registry clock request = .ok report) (d : Diagnostic) :
    d ∈ report.diagnostics ↔ IsFirst (Turn.arrivals (request.turns registry dumps)) d := by
  unfold report? at hr
  simp only [hfiles] at hr
  split at hr
  · rename_i report₁ h' hrun
    obtain rfl := Except.ok.inj hr
    rw [checkFiles_returned hdisk hrun, start_settings, mem_allNew_iff]
    simp [AddonRequest.turns, Host.start]
  · contradiction

end Addon
end FinalParams
