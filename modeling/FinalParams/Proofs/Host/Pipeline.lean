import FinalParams.Proofs.Diagnostic.JsonLines
import FinalParams.Proofs.Host.Regrouped
import FinalParams.Proofs.Lowering.Finished

/-!
# A run over one dump

The checker for parameters is one of many that a run can have.  It shares a context with them, and
its findings are filed, put together and put together again before they are written.  With no other
checker registered none of this can be seen: `runAddon_eq_pipeline` says that a run over one dump
writes what is found in its configurations, one after the other, less what a rule covers and what
repeats an earlier finding.
-/

namespace FinalParams

open Diagnostic

namespace AddonRequest

/-- The rules of the command line and those of the dump, as they are given. -/
def rules? (request : AddonRequest) (dump : Dump) : Except IntegerError (List Suppression) :=
  ((dump.suppressions.filterMap Suppression.ofRecord?).mapM id).map fun others =>
    request.suppress.map (fun errorId => { errorId := .text errorId }) ++ others

/-- What a request for a dump comes to: the configurations are lowered and searched, findings that a
rule covers are dropped, and so are those that repeat an earlier one. -/
def pipeline? (request : AddonRequest) (file : String) (dump : Dump) :
    Except Failure (List Diagnostic) := do
  let rules ← (request.rules? dump).mapError .number
  let found ← dump.configurations.mapM (request.findings? file)
  let kept ← (Suppressions.sift rules found.flatten).mapError .misfit
  kept.forM fun d => d.lookUp.mapError .misfit
  return kept.eraseDupsBy Diagnostic.repeats

theorem pipeline?_ok_iff {request : AddonRequest} {file : String} {dump : Dump}
    {ds : List Diagnostic} :
    request.pipeline? file dump = .ok ds ↔ ∃ rules found, request.rules? dump = .ok rules
      ∧ dump.configurations.mapM (request.findings? file) = .ok found
      ∧ (∀ d ∈ found.flatten, Suppressions.misfit? rules d = none)
      ∧ (∀ d ∈ Suppressions.keep rules found.flatten, d.misfit? = none)
      ∧ ds = (Suppressions.keep rules found.flatten).eraseDupsBy Diagnostic.repeats := by
  constructor
  · intro h
    obtain ⟨rules, hrules, h⟩ := exists_of_bind_ok h
    obtain ⟨found, hfound, h⟩ := exists_of_bind_ok h
    obtain ⟨kept, hkept, h⟩ := exists_of_bind_ok h
    obtain ⟨_, hknown, h⟩ := exists_of_bind_ok h
    obtain ⟨htried, rfl⟩ := Suppressions.sift_ok_iff.mp (ok_of_mapError hkept)
    refine ⟨rules, found, ok_of_mapError hrules, hfound, htried, ?_, (Except.ok.inj h).symm⟩
    intro d hd
    exact misfit?_eq_none_iff.mpr (ok_of_mapError (forM_ok_iff.mp hknown d hd))
  · rintro ⟨rules, found, hrules, hfound, htried, hknown, rfl⟩
    have hsift := Suppressions.sift_ok_iff.mpr ⟨htried, rfl⟩
    have hlooked : ((Suppressions.keep rules found.flatten).forM fun d =>
        d.lookUp.mapError Failure.misfit) = .ok () := by
      rw [forM_ok_iff]
      intro d hd
      rw [misfit?_eq_none_iff.mp (hknown d hd)]
      rfl
    simp only [Except.mapError] at hlooked
    simp only [pipeline?, hrules, hfound, hsift, Except.mapError, bind, Except.bind, pure,
      Except.pure, hlooked]

end AddonRequest

/-! ## The rules -/

theorem Addon.globalRules_eq (ids : List String) :
    globalRules ids
      = (ids.map fun errorId => { errorId := .text errorId }).foldl Suppressions.add [] := by
  rw [globalRules, List.foldl_map]

/-- Once the dump is loaded the host has the rules, less those that are the same as another one. -/
theorem AddonRequest.load_settings {request : AddonRequest} {dump : Dump} {rules : List Suppression}
    (h : request.rules? dump = .ok rules) :
    dump.lineError? = none ∧ (request.settings.load dump.suppressions).options
        = request.settings.options
      ∧ ∀ ds, Suppressions.sift (request.settings.load dump.suppressions).suppressions ds
        = Suppressions.sift rules ds := by
  obtain ⟨others, hothers, rfl⟩ := exists_of_map_ok h
  have hload := Suppressions.load_eq hothers (Addon.globalRules request.suppress)
  refine ⟨?_, rfl, ?_⟩
  · rw [Dump.lineError?, ← Suppressions.load_snd, hload]
  · intro ds
    show Suppressions.sift (Suppressions.load (Addon.globalRules request.suppress) _).1 ds = _
    rw [hload, Addon.globalRules_eq, ← List.foldl_append, Suppressions.sift_foldl_add]
    rfl

/-! ## The turns -/

namespace Turn

variable {request : AddonRequest} {file : String} {s : Settings} {rules : List Suppression}

/-- The turns on the configurations of a dump report what no rule covers. -/
theorem arrivals_pipeline (hoptions : s.options = request.settings.options)
    (hrules : ∀ ds, Suppressions.sift s.suppressions ds = Suppressions.sift rules ds)
    {configs : List Config} {found : List (List Diagnostic)}
    (hfound : configs.mapM (request.findings? file) = .ok found)
    (htried : ∀ d ∈ found.flatten, Suppressions.misfit? rules d = none) :
    arrivals (ofConfigurations [parameterChecker] (.text (sourcePath file)) s configs)
      = Suppressions.keep rules found.flatten := by
  rw [(ofConfigurations_parameterChecker _ s configs).1, arrivals_single, Suppressions.keep,
    List.filter_flatten, ← List.flatMap_def]
  have hall := mapM_ok_iff.mp hfound
  clear hfound
  induction hall with
  | nil => rfl
  | @cons config ds configs found hconfig _ ih =>
    have hsift : Suppressions.sift s.suppressions ds = .ok (Suppressions.keep rules ds) := by
      rw [hrules, Suppressions.sift_ok_iff]
      exact ⟨fun d hd => htried d (List.mem_append_left _ hd), rfl⟩
    have hturn := ParameterChecker.turn_findings_eq (.text (sourcePath file)) s config
    rw [hoptions] at hturn
    rw [AddonRequest.findings?] at hconfig
    rw [hconfig] at hturn
    simp only [hsift] at hturn
    rw [List.flatMap_cons, List.flatMap_cons, hturn,
      ih fun d hd => htried d (List.mem_append_right _ hd)]
    rfl

end Turn

/-! ## The output -/

theorem intercalate_append {s : String} {ls : List String} (h : ls ≠ []) :
    s.intercalate ls ++ s = String.join (ls.map (· ++ s)) := by
  induction ls with
  | nil => exact absurd rfl h
  | cons l rest ih =>
    rw [List.map_cons, String.join_cons]
    by_cases hr : rest = []
    · simp [hr]
    · rw [String.intercalate_cons_of_ne_nil hr, String.append_assoc, ih hr]

namespace Addon

/-- In JSON each finding is written on a line of its own. -/
theorem written_json (r : Report) :
    written r "json" = String.join (r.diagnostics.map fun d => d.jsonLine ++ "\n") := by
  have hformat : r.format "json" = r.jsonLines := by
    rw [Report.format, if_neg (by decide), if_pos rfl]
  rw [written, hformat]
  by_cases hr : r.diagnostics = []
  · rw [if_pos (Report.jsonLines_eq_empty_iff.mpr hr), hr]
    rfl
  · rw [if_neg (mt Report.jsonLines_eq_empty_iff.mp hr)]
    show "\n".intercalate _ ++ "\n" = _
    rw [intercalate_append (by simpa using hr), List.map_map]
    rfl

/-- Where all findings are errors that stand for no failure their number decides the status. -/
theorem status_of_errors {r : Report} (h : ∀ d ∈ r.diagnostics,
    d.severity = .error ∧ d.errorId.isText Report.internalErrorId = false) :
    status r = if r.diagnostics = [] then .clean else .violations := by
  obtain ⟨hviolations, hclean⟩ := status_of_unfailing fun d hd => (h d hd).2
  cases hr : r.diagnostics with
  | nil =>
    rw [if_pos rfl, hclean, hr]
    exact fun d hd => absurd hd List.not_mem_nil
  | cons d rest =>
    have hd : d ∈ r.diagnostics := hr ▸ List.mem_cons_self ..
    rw [if_neg (List.cons_ne_nil d rest), hviolations]
    exact ⟨d, hd, (h d hd).1⟩

end Addon

/-! ## The run -/

namespace AddonRequest

variable {request : AddonRequest} {file : String} {dump : Dump} {ds : List Diagnostic}

/-- The findings of the pipeline are errors, and none of them stands for a failure. -/
theorem error_of_pipeline (h : request.pipeline? file dump = .ok ds) {d : Diagnostic}
    (hd : d ∈ ds) : d.severity = .error ∧ d.errorId.isText Report.internalErrorId = false := by
  obtain ⟨rules, found, -, hfound, -, -, rfl⟩ := pipeline?_ok_iff.mp h
  have hkept := Suppressions.mem_keep.mp ((eraseDupsBy_sublist _).subset hd)
  obtain ⟨ds, hds, hd⟩ := List.mem_flatten.mp hkept.1
  obtain ⟨config, -, hconfig⟩ := exists_of_mem_mapM hfound hds
  exact ParameterChecker.error_of_findings hconfig hd

/-- The checks of the configurations come to the report with the findings of the pipeline. -/
theorem checkDump_pipeline (h : request.pipeline? file dump = .ok ds) {host : Host}
    (hselected : host.registry.selected request.checkers = [parameterChecker])
    (hsettings : host.settings = request.settings) (hclock : host.clock.Readable) :
    ∃ m host', (Session.checkDump dump request.checkers (.text (sourcePath file))).run host
        = .ok m host' ∧ m.diagnostics = ds := by
  obtain ⟨rules, found, hrules, hfound, htried, hknown, rfl⟩ := pipeline?_ok_iff.mp h
  obtain ⟨hline, hoptions, hsift⟩ := load_settings hrules
  have harrivals := Turn.arrivals_pipeline hoptions hsift hfound htried
  rw [← hsettings] at harrivals
  have hturns : Turn.Known (Turn.ofConfigurations [parameterChecker] (.text (sourcePath file))
      (host.settings.load dump.suppressions) dump.configurations) := by
    intro ts hts t ht d hd
    apply hknown
    rw [(Turn.ofConfigurations_parameterChecker _ _ _).1] at harrivals hts
    obtain ⟨config, hconfig, rfl⟩ := List.mem_map.mp hts
    obtain rfl := List.mem_singleton.mp ht
    rw [← harrivals, Turn.arrivals_single]
    exact List.mem_flatMap.mpr ⟨config, hconfig, hd⟩
  have hflaws : (host.registry.selected request.checkers).findSome? Checker.flaw? = none := by
    rw [hselected]
    rfl
  obtain ⟨host', hrun⟩ := Session.checkDump_run hflaws hclock (.text (sourcePath file)) dump
    (by rwa [hselected])
  rw [hline] at hrun
  obtain ⟨m, hrun⟩ := hrun
  obtain ⟨-, -, hheld⟩ := Session.checkDump_returned hrun
  refine ⟨m, host', hrun, ?_⟩
  rw [hheld, hselected, harrivals, allNew_nil]

end AddonRequest

/-- The values of a dump are of the right kinds where they are compared or looked up. -/
structure Dump.Plain (dump : Dump) : Prop where
  files : ∀ c ∈ dump.configurations, c.FilesNamed
  spellings : ∀ c ∈ dump.configurations, c.Spelled
  rules : ∀ r ∈ dump.suppressions, ∀ rule, Suppression.ofRecord? r = some (.ok rule) →
    rule.FileNamed

/-- Nothing but a failing lowering or a line that is no number can stop the pipeline of a dump with
values of the right kinds. -/
theorem AddonRequest.pipeline?_ok {request : AddonRequest} {file : String} {dump : Dump}
    (hplain : dump.Plain)
    (hlower : ∀ c ∈ dump.configurations, ∃ tree,
      c.compilationUnit (.text (sourcePath file)) = .ok tree)
    (hlines : ∀ r ∈ dump.suppressions, ∀ e, Suppression.ofRecord? r ≠ some (.error e)) :
    ∃ ds, request.pipeline? file dump = .ok ds := by
  have hrules : ∃ rules, request.rules? dump = .ok rules ∧ ∀ rule ∈ rules, rule.FileNamed := by
    obtain ⟨others, hothers⟩ : ∃ others,
        (dump.suppressions.filterMap Suppression.ofRecord?).mapM id = .ok others := by
      apply exists_mapM_ok
      intro result hresult
      obtain ⟨r, hr, hrule⟩ := List.mem_filterMap.mp hresult
      cases result with
      | error e => exact absurd hrule (hlines r hr e)
      | ok rule => exact ⟨rule, rfl⟩
    refine ⟨_, by rw [rules?, hothers]; rfl, ?_⟩
    intro rule hrule
    rcases List.mem_append.mp hrule with hrule | hrule
    · obtain ⟨errorId, -, rfl⟩ := List.mem_map.mp hrule
      exact ⟨"", rfl⟩
    · obtain ⟨result, hresult, rfl⟩ := exists_of_mem_mapM hothers hrule
      obtain ⟨r, hr, hrule⟩ := List.mem_filterMap.mp hresult
      exact hplain.rules r hr rule hrule
  obtain ⟨rules, hrules, hnamed⟩ := hrules
  obtain ⟨found, hfound⟩ : ∃ found,
      dump.configurations.mapM (request.findings? file) = .ok found := by
    apply exists_mapM_ok
    intro c hc
    obtain ⟨tree, htree⟩ := hlower c hc
    unfold findings? ParameterChecker.findings?
    simp only [htree, Config.compilationUnit_finishes (hplain.spellings c hc) htree]
    exact ⟨_, rfl⟩
  have hfindings : ∀ d ∈ found.flatten, d.Plain := by
    intro d hd
    obtain ⟨ds, hds, hd⟩ := List.mem_flatten.mp hd
    obtain ⟨c, hc, hconfig⟩ := exists_of_mem_mapM hfound hds
    exact (ParameterChecker.plain_of_findings (hplain.files c hc) hconfig hd).1
  refine ⟨_, pipeline?_ok_iff.mpr ⟨rules, found, hrules, hfound, ?_, ?_, rfl⟩⟩
  · intro d hd
    obtain ⟨-, -, path, m, n, hl⟩ := hfindings d hd
    exact Suppressions.misfit?_of_texts (by rw [hl]) hnamed
  · exact fun d hd => (hfindings d (Suppressions.mem_keep.mp hd).1).misfit?

/-- With the checker for parameters alone a run over one dump writes the findings of the pipeline in
JSON, a line for each, and its status says whether there are any.  Nothing but a failing lowering or
a line that is no number can stop the pipeline of a dump with values of the right kinds. -/
theorem runAddon_eq_pipeline {disk : Disk} {clock : Clock} {request : AddonRequest} {file : String}
    {dump : Dump} (hload : disk.load file = .ok dump) (hclock : clock.Readable)
    (hfile : request.dumpFiles = [file]) (hall : request.checkers = none)
    (hjson : request.output = "json") :
    (∀ ds, request.pipeline? file dump = .ok ds →
        (runAddon disk Registry.default clock request).1
          = .ok (if ds = [] then .clean else .violations,
              String.join (ds.map fun d => d.jsonLine ++ "\n")))
      ∧ (dump.Plain →
          (∀ c ∈ dump.configurations, ∃ tree,
            c.compilationUnit (.text (sourcePath file)) = .ok tree) →
          (∀ r ∈ dump.suppressions, ∀ e, Suppression.ofRecord? r ≠ some (.error e)) →
          ∃ ds, request.pipeline? file dump = .ok ds) := by
  refine ⟨?_, AddonRequest.pipeline?_ok⟩
  intro ds hds
  have hselected : (Addon.loaded Registry.default clock request file).registry.selected
      request.checkers = [parameterChecker] := by
    rw [hall]
    rfl
  have hsettings : (Addon.loaded Registry.default clock request file).settings
      = request.settings := Addon.start_settings Registry.default clock request
  obtain ⟨m, host', hrun, rfl⟩ := AddonRequest.checkDump_pipeline hds hselected hsettings hclock
  have hordered : (({} : Report).merge m).diagnostics = m.diagnostics := by
    apply Session.ordered_checkDump hrun
    right
    rw [hselected]
    intro c hc c' hc'
    rw [List.mem_singleton.mp hc, List.mem_singleton.mp hc']
  have herrors : ∀ d ∈ (({} : Report).merge m).diagnostics,
      d.severity = .error ∧ d.errorId.isText Report.internalErrorId = false := by
    rw [hordered]
    exact fun d hd => AddonRequest.error_of_pipeline hds hd
  rw [Addon.runAddon_eq, Addon.report?_single hfile hload hrun]
  show Except.ok (Addon.status _, Addon.written _ _) = _
  rw [hjson, Addon.written_json, Addon.status_of_errors herrors, hordered]

/-! A file is dumped in four configurations.  The first step is in two of them, and a comment
suppresses the second one. -/

theorem steppingOn_token (line : Int) (t : Nat) :
    ((steppingOn line).token t).file = (steppingConfig.token t).file
      ∧ ((steppingOn line).token t).spelling = (steppingConfig.token t).spelling := by
  unfold Config.token steppingOn
  simp only [Array.getD_eq_getD_getElem?, Array.getElem?_map]
  cases steppingConfig.tokens[t]? <;> exact ⟨rfl, rfl⟩

theorem steppingOn_filesNamed (line : Int) : (steppingOn line).FilesNamed := by
  intro t
  rw [(steppingOn_token line t).1]
  exact steppingConfig_filesNamed t

theorem steppingOn_spelled (line : Int) : (steppingOn line).Spelled := by
  intro t
  rw [(steppingOn_token line t).2]
  match t with
  | 0 | 1 | 2 | 3 => exact Datum.isKey_text _
  | _ + 4 => exact Datum.isKey_text _

def repeatedSteps : Dump where
  configurations := [2, 3, 2, 4].map steppingOn
  suppressions := [{ errorId := .text ParameterChecker.errorId, fileName := .text "lib/a.c",
                     lineNumber := .text "3" }]

def repeatedDisk : Disk where
  read := fun _ => some (.ok repeatedSteps)

theorem repeatedSteps_plain : repeatedSteps.Plain where
  files := by
    intro c hc
    obtain ⟨line, -, rfl⟩ := List.mem_map.mp hc
    exact steppingOn_filesNamed line
  spellings := by
    intro c hc
    obtain ⟨line, -, rfl⟩ := List.mem_map.mp hc
    exact steppingOn_spelled line
  rules := by
    intro r hr rule hrule
    obtain rfl := List.mem_singleton.mp hr
    obtain rfl := Except.ok.inj (Option.some.inj hrule)
    exact ⟨_, rfl⟩

theorem repeatedSteps_lowered : ∀ c ∈ repeatedSteps.configurations,
    ∃ tree, c.compilationUnit (.text "lib/a.c") = .ok tree := by
  have hall : (repeatedSteps.configurations.all fun c =>
      (c.compilationUnit (.text "lib/a.c")).toOption.isSome) = true := by decide +kernel
  intro c hc
  obtain ⟨tree, htree⟩ := Option.isSome_iff_exists.mp (List.all_eq_true.mp hall c hc)
  exact ⟨tree, ok_of_toOption htree⟩

/-- Of the four steps the first and the last one are written. -/
theorem runAddon_eq_pipeline_repeatedSteps :
    ∃ ds : List Diagnostic, ds.map (·.loc.line) = [.int 2, .int 4]
      ∧ (runAddon repeatedDisk Registry.default {} { dumpFiles := ["lib/a.c.dump"] }).1
          = .ok (.violations, String.join (ds.map fun d => d.jsonLine ++ "\n")) := by
  have hclock : ({} : Clock).Readable := ⟨rfl, fun t ht => absurd ht List.not_mem_nil⟩
  have hload : repeatedDisk.load "lib/a.c.dump" = .ok repeatedSteps := rfl
  have hpath : sourcePath "lib/a.c.dump" = "lib/a.c" := by decide
  obtain ⟨hruns, hok⟩ := runAddon_eq_pipeline hload hclock
    (rfl : ({ dumpFiles := ["lib/a.c.dump"] } : AddonRequest).dumpFiles = _) rfl rfl
  have hlines : ∀ r ∈ repeatedSteps.suppressions, ∀ e,
      Suppression.ofRecord? r ≠ some (.error e) := by
    intro r hr e he
    obtain rfl := List.mem_singleton.mp hr
    cases he
  obtain ⟨ds, hds⟩ := hok repeatedSteps_plain (hpath ▸ repeatedSteps_lowered) hlines
  have hplaces : (AddonRequest.pipeline? { dumpFiles := ["lib/a.c.dump"] } "lib/a.c.dump"
      repeatedSteps).map (·.map (·.loc.line)) = .ok [.int 2, .int 4] := by decide +kernel
  rw [hds] at hplaces
  have hplaces := Except.ok.inj hplaces
  have hrun := hruns ds hds
  cases ds with
  | nil => cases hplaces
  | cons d rest =>
    rw [if_neg (List.cons_ne_nil d rest)] at hrun
    exact ⟨d :: rest, hplaces, hrun⟩

end FinalParams
