import FinalParams.Proofs.Host.Dumps
import FinalParams.Proofs.Host.ExitStatus
import FinalParams.Proofs.Host.Filing

/-!
# Adding a report to an empty one

The report on a dump holds its findings in the order in which the configurations came, and what is
added to another report comes checker by checker.  So an empty report to which the report on a dump
is added holds the same findings under the same checkers, but in the order of the checkers.
`checkDump_regrouped` says so, and that the order is the same where one configuration or one checker
leaves no choice.
-/

namespace FinalParams

open Diagnostic

namespace Report

variable {m : Report} {kept : List (String × Diagnostic)} {t : Table (List Diagnostic)}

/-- The contributions in a table, checker by checker. -/
def entries (t : Table (List Diagnostic)) : List (String × Diagnostic) :=
  t.flatMap fun (checker, ds) => ds.map fun d => (checker, d)

/-- Each checker of the table is in one place and has findings. -/
def Tidy (t : Table (List Diagnostic)) : Prop := (Table.names t).Nodup ∧ ∀ e ∈ t, e.2 ≠ []

theorem tidy_nil : Tidy [] := ⟨List.nodup_nil, fun _ he => absurd he List.not_mem_nil⟩

theorem foldl_file_of_not_mem {checker : String} (h : checker ∉ Table.names t)
    {ds : List Diagnostic} (hds : ds ≠ []) :
    (ds.map fun d => (checker, d)).foldl file t = t ++ [(checker, ds)] := by
  induction ds using List.reverseRecOn with
  | nil => exact absurd rfl hds
  | append_singleton ds d ih =>
    rw [List.map_append, List.foldl_append]
    cases ds with
    | nil =>
      show Table.set t checker ((Table.get? t checker).getD [] ++ [d]) = _
      rw [Table.set_of_not_mem h, Table.get?_of_not_mem h]
      rfl
    | cons d' ds =>
      rw [ih (List.cons_ne_nil d' ds)]
      show Table.set _ checker ((Table.get? _ checker).getD [] ++ [d]) = _
      rw [Table.get?_append_of_not_mem h, Table.set_append_of_not_mem h]
      simp [Table.get?, Table.set]

/-- Filing the contributions in a tidy table gives the table back. -/
theorem filing_entries (h : Tidy t) : filing (entries t) = t := by
  obtain ⟨hnames, hfull⟩ := h
  induction t using List.reverseRecOn with
  | nil => rfl
  | append_singleton t entry ih =>
    obtain ⟨checker, ds⟩ := entry
    rw [Table.names, List.map_append, List.nodup_append] at hnames
    have hnew : checker ∉ Table.names t := fun hmem =>
      hnames.2.2 checker hmem checker (List.mem_singleton_self _) rfl
    have ht := ih hnames.1 fun e he => hfull e (List.mem_append_left _ he)
    have hds : ds ≠ [] := hfull (checker, ds) (List.mem_append_right _ (List.mem_singleton_self _))
    rw [filing] at ht
    rw [filing, entries, List.flatMap_append, List.foldl_append]
    show ((ds.map fun d => (checker, d)) ++ []).foldl file ((entries t).foldl file []) = _
    rw [ht, List.append_nil, foldl_file_of_not_mem hnew hds]

theorem tidy_filing (kept : List (String × Diagnostic)) : Tidy (filing kept) := by
  induction kept using List.reverseRecOn with
  | nil => exact tidy_nil
  | append_singleton kept c ih =>
    obtain ⟨hnames, hfull⟩ := ih
    rw [filing, List.foldl_append]
    refine ⟨Table.nodup_set hnames _ _, ?_⟩
    intro e he
    rcases Table.mem_of_mem_set he with he | rfl
    · exact hfull e he
    · exact List.concat_ne_nil _ _

/-- What is left of the contributions in a table is what there is in a tidy table. -/
theorem exists_tidy (hnames : (Table.names t).Nodup) (h : kept.Sublist (entries t)) :
    ∃ u, Tidy u ∧ (Table.names u).Sublist (Table.names t) ∧ kept = entries u := by
  induction t generalizing kept with
  | nil =>
    obtain rfl := List.sublist_nil.mp h
    exact ⟨[], tidy_nil, List.Sublist.slnil, rfl⟩
  | cons entry t ih =>
    obtain ⟨checker, ds⟩ := entry
    rw [Table.names, List.map_cons, List.nodup_cons] at hnames
    rw [entries, List.flatMap_cons] at h
    obtain ⟨front, back, rfl, hfront, hback⟩ := List.sublist_append_iff.mp h
    obtain ⟨ds', -, rfl⟩ := List.sublist_map_iff.mp hfront
    obtain ⟨u, ⟨hu, hfull⟩, hsub, rfl⟩ := ih hnames.2 hback
    cases ds' with
    | nil => exact ⟨u, ⟨hu, hfull⟩, hsub.cons _, rfl⟩
    | cons d ds' =>
      refine ⟨(checker, d :: ds') :: u, ⟨?_, ?_⟩, hsub.cons_cons _, rfl⟩
      · exact List.nodup_cons.mpr ⟨fun hmem => hnames.1 (hsub.subset hmem), hu⟩
      · intro e he
        rcases List.mem_cons.mp he with rfl | he
        · exact List.cons_ne_nil _ _
        · exact hfull e he

theorem map_entries (t : Table (List Diagnostic)) : (entries t).map (·.2) = t.flatMap (·.2) :=
  contributions_map { byChecker := t }

/-- The second report holds what the first one holds, and lists the findings checker by checker. -/
structure Regrouped (m fresh : Report) : Prop where
  byChecker : fresh.byChecker = m.byChecker
  checkers : fresh.checkers = m.checkers
  diagnostics : fresh.diagnostics = m.byChecker.flatMap (·.2)
  perm : fresh.diagnostics.Perm m.diagnostics

theorem regrouped_merge (hs : m.Settled) (hm : m.Files kept) (hcheckers : m.checkers.Nodup) :
    Regrouped m (({} : Report).merge m) := by
  have hcontributions : m.contributions = entries m.byChecker := rfl
  have hdistinct : (entries m.byChecker).Pairwise fun c e => e.2.repeats c.2 = false := by
    have hfiled := hs.distinct.perm hs.filed.symm
    rw [← map_entries, Distinct, List.pairwise_map] at hfiled
    refine hfiled.imp ?_
    intro c e h
    rw [repeats_comm]
    exact h
  have hkept : m.contributions.foldl keep [] = entries m.byChecker := by
    rw [foldl_keep, firsts, hcontributions, eraseDupsBy_of_pairwise hdistinct]
  have hfresh : (({} : Report).merge m).Files (entries m.byChecker) := by
    rw [← hkept]
    exact Files.merge ⟨rfl, rfl⟩ m
  have hdiagnostics := hfresh.diagnostics.trans (map_entries _)
  refine ⟨?_, ?_, hdiagnostics, hdiagnostics ▸ hs.filed⟩
  · rw [hfresh.byChecker, filing_entries (hm.byChecker ▸ tidy_filing kept)]
  · rw [merge_checkers]
    show m.checkers.foldl (keepNew (· == ·)) [] = m.checkers
    rw [foldl_keepNew]
    apply eraseDupsBy_of_pairwise
    refine hcheckers.imp ?_
    intro a b hab
    simpa using hab.symm

theorem nodup_checkers_foldl_merge (rs : List Report) :
    (rs.foldl Report.merge {}).checkers.Nodup := by
  rw [checkers_foldl_merge]
  refine (pairwise_eraseDupsBy _).imp ?_
  intro a b hab he
  simp [he] at hab

/-- Findings that are held checker by checker are listed in this order. -/
theorem diagnostics_of_entries (hm : m.Files kept) {u : Table (List Diagnostic)} (hu : Tidy u)
    (hkept : kept = entries u) : m.byChecker.flatMap (·.2) = m.diagnostics := by
  rw [hm.byChecker, hm.diagnostics, hkept, filing_entries hu, map_entries]

end Report

namespace Turn

theorem names_filed (ts : List Turn) :
    (Table.names (filed ts)).Nodup
      ∧ ∀ name ∈ Table.names (filed ts), name ∈ ts.map (·.checker.name) := by
  induction ts using List.reverseRecOn with
  | nil => exact ⟨List.nodup_nil, fun name hname => absurd hname List.not_mem_nil⟩
  | append_singleton ts t ih =>
    have hfiled : filed (ts ++ [t]) = Table.set (filed ts) t.checker.name t.findings := by
      rw [filed, List.foldl_append]
      rfl
    rw [hfiled, List.map_append]
    refine ⟨Table.nodup_set ih.1 _ _, ?_⟩
    intro name hname
    rw [Table.names_set] at hname
    split at hname
    · exact List.mem_append_left _ (ih.2 name hname)
    · rcases List.mem_append.mp hname with hname | hname
      · exact List.mem_append_left _ (ih.2 name hname)
      · exact List.mem_append_right _ hname

end Turn

namespace Session

variable {h h' : Host} {names : Option (List String)} {path : Datum}

/-- The report on one configuration files under the names of the selected checkers. -/
theorem checkConfig_filed {config : Config} {report : Report}
    (hr : (checkConfig config names path).run h = .ok report h') :
    (Table.names report.byChecker).Nodup
      ∧ ∀ name ∈ Table.names report.byChecker,
        name ∈ (h.registry.selected names).map (·.name) := by
  obtain ⟨hrecorded, -⟩ := checkConfig_returned hr
  obtain ⟨hnodup, hmem⟩ := Turn.names_filed
    (Turn.inOrder (Turn.start path h.settings config) (h.registry.selected names))
  rw [hrecorded.byChecker]
  refine ⟨hnodup, ?_⟩
  intro name hname
  have hturn := hmem name hname
  rw [Turn.names_eq, Turn.inOrder_checkers] at hturn
  exact hturn

/-- The report on several configurations comes of putting the reports on each of them together. -/
theorem runConfigurations_merged {configs : List Config} {report report' : Report}
    (hr : (runConfigurations names path report configs).run h = .ok report' h') :
    ∃ rs : List Report, report' = rs.foldl Report.merge report ∧ rs.length = configs.length
      ∧ ∀ r ∈ rs, (Table.names r.byChecker).Nodup
        ∧ ∀ name ∈ Table.names r.byChecker, name ∈ (h.registry.selected names).map (·.name) := by
  induction configs generalizing h report with
  | nil =>
    obtain ⟨rfl, -⟩ := EStateM.Result.ok.inj hr
    exact ⟨[], rfl, rfl, fun r hr => absurd hr List.not_mem_nil⟩
  | cons config rest ih =>
    rw [runConfigurations] at hr
    obtain ⟨u, h₁, hwrite, hr⟩ := exists_of_run_bind_ok hr
    obtain ⟨next, h₂, hcheck, hr⟩ := exists_of_run_bind_ok hr
    obtain ⟨joined, h₃, hjoin, hr⟩ := exists_of_run_bind_ok hr
    have hh₁ := write_returned hwrite
    obtain ⟨-, hh₂⟩ := checkConfig_returned hcheck
    have hnext := checkConfig_filed hcheck
    obtain ⟨rfl, rfl, -⟩ := join_returned hjoin
    obtain ⟨rs, hreport, hlength, hrs⟩ := ih hr
    rw [hh₂.registry, hh₁.registry] at hrs
    rw [hh₁.registry] at hnext
    refine ⟨next :: rs, hreport, by rw [List.length_cons, List.length_cons, hlength], ?_⟩
    intro r hr
    rcases List.mem_cons.mp hr with rfl | hr
    · exact hnext
    · exact hrs r hr

theorem checkDump_merged {dump : Dump} {report : Report}
    (hr : (checkDump dump names path).run h = .ok report h') :
    ∃ rs : List Report, report = rs.foldl Report.merge {}
      ∧ rs.length = dump.configurations.length
      ∧ ∀ r ∈ rs, (Table.names r.byChecker).Nodup
        ∧ ∀ name ∈ Table.names r.byChecker, name ∈ (h.registry.selected names).map (·.name) := by
  obtain ⟨⟨⟩, h₁, hrules, hr⟩ := exists_of_run_bind_ok hr
  obtain ⟨h₂, hh₂, hload⟩ := loadSuppressions_run (h := h) dump.suppressions
  rw [hload] at hrules
  split at hrules
  · cases hrules
  · obtain ⟨-, rfl⟩ := EStateM.Result.ok.inj hrules
    rw [← hh₂.registry]
    exact runConfigurations_merged hr

end Session

namespace Report

theorem name_of_contribution {r : Report} {c : String × Diagnostic} (hc : c ∈ r.contributions) :
    c.1 ∈ Table.names r.byChecker := by
  obtain ⟨⟨checker, ds⟩, he, hc⟩ := List.mem_flatMap.mp hc
  obtain ⟨d, -, rfl⟩ := List.mem_map.mp hc
  exact List.mem_map.mpr ⟨(checker, ds), he, rfl⟩

/-- One configuration, or one name, leaves nothing to regroup. -/
theorem exists_tidy_firsts {rs : List Report} {names : List String}
    (hrs : ∀ r ∈ rs, (Table.names r.byChecker).Nodup
      ∧ ∀ name ∈ Table.names r.byChecker, name ∈ names)
    (h : rs.length ≤ 1 ∨ ∀ a ∈ names, ∀ b ∈ names, a = b) :
    ∃ u, Tidy u ∧ firsts (rs.flatMap contributions) = entries u := by
  have hsub : (firsts (rs.flatMap contributions)).Sublist (rs.flatMap contributions) :=
    eraseDupsBy_sublist _
  rcases h with hone | hsame
  · match rs with
    | [] => exact ⟨[], tidy_nil, rfl⟩
    | [r] =>
      have hr : [r].flatMap contributions = entries r.byChecker := List.append_nil _
      rw [hr] at hsub ⊢
      obtain ⟨u, hu, -, hkept⟩ := exists_tidy (hrs r (List.mem_singleton_self r)).1 hsub
      exact ⟨u, hu, hkept⟩
    | _ :: _ :: _ =>
      simp only [List.length_cons] at hone
      omega
  · generalize firsts (rs.flatMap contributions) = kept at hsub ⊢
    cases kept with
    | nil => exact ⟨[], tidy_nil, rfl⟩
    | cons c kept =>
      have hname : ∀ e ∈ c :: kept, e.1 ∈ names := by
        intro e he
        obtain ⟨r, hr, he⟩ := List.mem_flatMap.mp (hsub.subset he)
        exact (hrs r hr).2 e.1 (name_of_contribution he)
      have hall : entries [(c.1, (c :: kept).map (·.2))] = c :: kept := by
        show ((c :: kept).map (·.2)).map (fun d => (c.1, d)) ++ [] = _
        rw [List.append_nil, List.map_map]
        refine (List.map_congr_left ?_).trans (List.map_id _)
        intro e he
        exact Prod.ext (hsame c.1 (hname c (List.mem_cons_self ..)) e.1 (hname e he)) rfl
      refine ⟨[(c.1, (c :: kept).map (·.2))], ⟨List.pairwise_singleton _ c.1, ?_⟩, hall.symm⟩
      intro e he
      rw [List.mem_singleton.mp he]
      exact List.cons_ne_nil _ _

end Report

namespace Session

variable {h h' : Host} {dump : Dump} {names : Option (List String)} {path : Datum} {m : Report}

/-- Adding the report on a dump to an empty one goes through. -/
theorem join_checkDump (hr : (checkDump dump names path).run h = .ok m h') (h₁ : Host) :
    (join {} m).run h₁ = .ok (({} : Report).merge m) h₁ := by
  obtain ⟨-, hsettled, -⟩ := checkDump_returned hr
  apply join_ok Report.settled_empty
  exact fun d hd => hsettled.known d (hsettled.filed.mem_iff.mp hd)

/-- What comes of it is grouped by checkers. -/
theorem regrouped_checkDump (hr : (checkDump dump names path).run h = .ok m h') :
    Report.Regrouped m (({} : Report).merge m) := by
  obtain ⟨-, hsettled, -⟩ := checkDump_returned hr
  obtain ⟨rs, rfl, -⟩ := checkDump_merged hr
  exact Report.regrouped_merge hsettled (Report.files_foldl_merge rs)
    (Report.nodup_checkers_foldl_merge rs)

/-- One configuration, or one name for all checkers, leaves the findings in their order. -/
theorem ordered_checkDump (hr : (checkDump dump names path).run h = .ok m h')
    (hone : dump.configurations.length ≤ 1 ∨ (∀ c ∈ h.registry.selected names,
      ∀ c' ∈ h.registry.selected names, c.name = c'.name)) :
    (({} : Report).merge m).diagnostics = m.diagnostics := by
  have hregrouped := regrouped_checkDump hr
  obtain ⟨rs, rfl, hlength, hrs⟩ := checkDump_merged hr
  have hnames : rs.length ≤ 1 ∨ ∀ a ∈ (h.registry.selected names).map (·.name),
      ∀ b ∈ (h.registry.selected names).map (·.name), a = b := by
    rw [hlength]
    refine hone.imp_right ?_
    intro hsame a ha b hb
    obtain ⟨c, hc, rfl⟩ := List.mem_map.mp ha
    obtain ⟨c', hc', rfl⟩ := List.mem_map.mp hb
    exact hsame c hc c' hc'
  obtain ⟨u, hu, hkept⟩ := Report.exists_tidy_firsts hrs hnames
  rw [hregrouped.diagnostics,
    Report.diagnostics_of_entries (Report.files_foldl_merge rs) hu hkept]

end Session

namespace Addon

/-- The host of a request once its first file was loaded. -/
def loaded (registry : Registry) (clock : Clock) (request : AddonRequest) (file : String) : Host :=
  { Host.start registry (some (globalRules request.suppress)) request.options clock with
    log := [⟨.info, .host, "loaded " ++ file⟩] }

section

variable {disk : Disk} {registry : Registry} {clock : Clock} {request : AddonRequest}
  {file : String} {dump : Dump} {h' : Host}

theorem checkFiles_single (hload : disk.load file = .ok dump) :
    (checkFiles disk request.checkers {} [file]).run
        (Host.start registry (some (globalRules request.suppress)) request.options clock)
      = (Session.checkDump dump request.checkers (.text (sourcePath file))
          >>= Session.join {}).run (loaded registry clock request file) := by
  have hwrite : (Session.write .info ("loaded " ++ file)).run
      (Host.start registry (some (globalRules request.suppress)) request.options clock)
        = .ok () (loaded registry clock request file) := rfl
  rw [checkFiles, hload]
  refine (run_bind_of_ok hwrite).trans ?_
  simp only [checkFiles, bind_pure]

theorem report?_single (hfile : request.dumpFiles = [file]) (hload : disk.load file = .ok dump)
    {m : Report} (hr : (Session.checkDump dump request.checkers (.text (sourcePath file))).run
      (loaded registry clock request file) = .ok m h') :
    report? disk registry clock request = .ok (({} : Report).merge m) := by
  unfold report?
  simp only [hfile]
  rw [checkFiles_single hload, run_bind_of_ok hr, Session.join_checkDump hr]

theorem report?_single_error (hfile : request.dumpFiles = [file])
    (hload : disk.load file = .ok dump) {failure : Failure}
    (hr : (Session.checkDump dump request.checkers (.text (sourcePath file))).run
      (loaded registry clock request file) = .error failure h') :
    report? disk registry clock request = .error failure := by
  unfold report?
  simp only [hfile]
  rw [checkFiles_single hload, run_bind_of_error hr]

end

end Addon

/-- Adding the report on a dump to an empty one goes through, and what comes of it holds the same
findings under the same checkers, listed checker by checker.  The order is the same if the dump has
one configuration or one checker is selected.  A request for one dump writes the findings in the
order of the checkers, unless a failure ends the check of the dump. -/
theorem checkDump_regrouped :
    (∀ (h h' : Host) (dump : Dump) (names : Option (List String)) (path : Datum) (m : Report),
      (Session.checkDump dump names path).run h = .ok m h' →
        (∀ h₁ : Host, (Session.join {} m).run h₁ = .ok (({} : Report).merge m) h₁)
          ∧ Report.Regrouped m (({} : Report).merge m)
          ∧ (dump.configurations.length ≤ 1
              ∨ (∀ c ∈ h.registry.selected names, ∀ c' ∈ h.registry.selected names,
                c.name = c'.name) →
            (({} : Report).merge m).diagnostics = m.diagnostics))
      ∧ ∀ (disk : Disk) (registry : Registry) (clock : Clock) (request : AddonRequest)
          (file : String) (dump : Dump),
        request.dumpFiles = [file] → disk.load file = .ok dump →
          match (Session.checkDump dump request.checkers (.text (sourcePath file))).run
              (Addon.loaded registry clock request file) with
          | .ok m _ => (runAddon disk registry clock request).1
              = .ok (Addon.status (({} : Report).merge m),
                  Addon.written (({} : Report).merge m) request.output)
          | .error failure _ => (runAddon disk registry clock request).1 = .error failure := by
  refine ⟨?_, ?_⟩
  · intro h h' dump names path m hr
    exact ⟨Session.join_checkDump hr, Session.regrouped_checkDump hr, Session.ordered_checkDump hr⟩
  · intro disk registry clock request file dump hfile hload
    rw [Addon.runAddon_eq]
    cases hr : (Session.checkDump dump request.checkers (.text (sourcePath file))).run
        (Addon.loaded registry clock request file) with
    | ok m h' =>
      show (Addon.report? disk registry clock request).map _ = _
      rw [Addon.report?_single hfile hload hr]
      rfl
    | error failure h' =>
      show (Addon.report? disk registry clock request).map _ = _
      rw [Addon.report?_single_error hfile hload hr]
      rfl

/-! Two configurations of a file have their step on different lines, and another checker insists on
one finding in both of them. -/

/-- The configuration with all its tokens on this line. -/
def steppingOn (line : Int) : Config :=
  { steppingConfig with tokens := steppingConfig.tokens.map ({ · with line := .int line }) }

def steppingTwice : Dump := { configurations := [steppingOn 2, steppingOn 3] }

def steppingTwiceDisk : Disk where
  read := fun path => if path = "lib/a.c.dump" then some (.ok steppingTwice) else none

def twoCheckers : Registry := Registry.ofList [parameterChecker, insisting "other" .warning]

/-- The report on the two configurations has what the other checker found between the two steps, and
an empty report to which it is added has it after them. -/
theorem steppingTwice_reordered :
    ∃ m h', (Session.checkDump steppingTwice none (.text "lib/a.c")).run
        (.start twoCheckers none none {}) = .ok m h'
      ∧ m.diagnostics.map (fun d => (d.checker, d.loc.line))
        = [(ParameterChecker.name, .int 2), ("other", .int 0), (ParameterChecker.name, .int 3)]
      ∧ (({} : Report).merge m).diagnostics.map (fun d => (d.checker, d.loc.line))
        = [(ParameterChecker.name, .int 2), (ParameterChecker.name, .int 3), ("other", .int 0)] := by
  let found : Report → List (String × Datum) :=
    fun r => r.diagnostics.map fun d => (d.checker, d.loc.line)
  have hrun : ((Session.checkDump steppingTwice none (.text "lib/a.c")).run'
      (.start twoCheckers none none {})).map (fun m => (found m, found (({} : Report).merge m)))
      = some ([(ParameterChecker.name, .int 2), ("other", .int 0), (ParameterChecker.name, .int 3)],
          [(ParameterChecker.name, .int 2), (ParameterChecker.name, .int 3), ("other", .int 0)]) := by
    decide +kernel
  obtain ⟨m, hm, hfound⟩ := Option.map_eq_some_iff.mp hrun
  obtain ⟨h', hr⟩ := exists_of_run' hm
  obtain ⟨hbefore, hafter⟩ := Prod.mk.inj hfound
  exact ⟨m, h', hr, hbefore, hafter⟩

/-- With the other checker alone there is nothing to regroup. -/
theorem checkDump_regrouped_steppingTwice :
    (∃ m h', (Session.checkDump steppingTwice none (.text "lib/a.c")).run
          (.start twoCheckers none none {}) = .ok m h'
        ∧ Report.Regrouped m (({} : Report).merge m))
      ∧ (∃ m h', (Session.checkDump steppingTwice (some ["other"]) (.text "lib/a.c")).run
            (.start twoCheckers none none {}) = .ok m h'
          ∧ (({} : Report).merge m).diagnostics = m.diagnostics)
      ∧ ∃ m h', (Session.checkDump steppingTwice none (.text "lib/a.c")).run
            (Addon.loaded twoCheckers {} { dumpFiles := ["lib/a.c.dump"] } "lib/a.c.dump") = .ok m h'
          ∧ (runAddon steppingTwiceDisk twoCheckers {} { dumpFiles := ["lib/a.c.dump"] }).1
            = .ok (Addon.status (({} : Report).merge m),
                Addon.written (({} : Report).merge m) "json") := by
  obtain ⟨hdump, haddon⟩ := checkDump_regrouped
  refine ⟨?_, ?_, ?_⟩
  · obtain ⟨m, h', hr⟩ := exists_of_isSome_run'
      (x := Session.checkDump steppingTwice none (.text "lib/a.c"))
      (s := .start twoCheckers none none {}) (by decide +kernel)
    exact ⟨m, h', hr, (hdump _ _ _ _ _ m hr).2.1⟩
  · obtain ⟨m, h', hr⟩ := exists_of_isSome_run'
      (x := Session.checkDump steppingTwice (some ["other"]) (.text "lib/a.c"))
      (s := .start twoCheckers none none {}) (by decide +kernel)
    have hselected : twoCheckers.selected (some ["other"]) = [insisting "other" .warning] := rfl
    have hone : ∀ c ∈ twoCheckers.selected (some ["other"]), c = insisting "other" .warning :=
      fun c hc => List.mem_singleton.mp (hselected ▸ hc)
    refine ⟨m, h', hr, (hdump _ _ _ _ _ m hr).2.2 (.inr ?_)⟩
    intro c hc c' hc'
    rw [hone c hc, hone c' hc']
  · obtain ⟨m, h', hr⟩ := exists_of_isSome_run'
      (x := Session.checkDump steppingTwice none (.text "lib/a.c"))
      (s := Addon.loaded twoCheckers {} { dumpFiles := ["lib/a.c.dump"] } "lib/a.c.dump")
      (by decide +kernel)
    have hwritten := haddon steppingTwiceDisk twoCheckers {} { dumpFiles := ["lib/a.c.dump"] }
      "lib/a.c.dump" steppingTwice rfl rfl
    have hpath : sourcePath "lib/a.c.dump" = "lib/a.c" := by decide
    simp only [hpath, hr] at hwritten
    exact ⟨m, h', hr, hwritten⟩

end FinalParams
