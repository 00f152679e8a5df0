import FinalParams.Proofs.Host.Isolation

/-!
# What the others report beside a failing checker

Checkers find what earlier ones left in the context that they share, so one that fails half-way
might change what the others report.  `checkConfig_bystanders` says that it does not if it fails
without a change to the context: the run reports what it reports without this checker, and the
finding for the failure stands between what the checkers before it and behind it report.

Whatever else goes on in the run makes no difference.  Other checkers may fail, too, and if no
instance of one of them can be made, both runs end in the same way.
-/

namespace FinalParams

namespace Turn

/-- The checker fails in one of its steps, and it leaves the context as it was. -/
def FailsQuietly (t : Turn) (failure : Failure) : Prop :=
  ∃ b, t.checker.work.run { context := t.context } = .error failure b ∧ b.context = t.context

variable {t : Turn} {failure : Failure}

theorem FailsQuietly.after (h : t.FailsQuietly failure) : t.after = t.context := by
  obtain ⟨b, hrun, hcontext⟩ := h
  rw [Turn.after, Session.attempt, hrun]
  exact hcontext

theorem FailsQuietly.findings (h : t.FailsQuietly failure) :
    t.findings = [Session.internalError t.checker t.context.path failure] := by
  obtain ⟨b, hrun, hcontext⟩ := h
  rw [Turn.findings, Session.attempt, hrun, ← hcontext]

/-! ## Turns before and behind another one -/

theorem contextAfter_append (context : Context) (cs ds : List Checker) :
    contextAfter context (cs ++ ds) = contextAfter (contextAfter context cs) ds :=
  List.foldl_append

theorem inOrder_append (context : Context) (cs ds : List Checker) :
    inOrder context (cs ++ ds) = inOrder context cs ++ inOrder (contextAfter context cs) ds := by
  induction cs generalizing context with
  | nil => rfl
  | cons c rest ih =>
    rw [List.cons_append, inOrder, inOrder, ih]
    rfl

/-- Each turn is that of a checker in the context that those before it leave. -/
theorem exists_of_mem_inOrder {context : Context} {cs : List Checker}
    (h : t ∈ inOrder context cs) :
    ∃ before behind, cs = before ++ t.checker :: behind
      ∧ t.context = contextAfter context before := by
  induction cs generalizing context with
  | nil => exact absurd h List.not_mem_nil
  | cons c rest ih =>
    rcases List.mem_cons.mp h with rfl | h
    · exact ⟨[], rest, rfl, rfl⟩
    · obtain ⟨before, behind, hrest, hcontext⟩ := ih h
      exact ⟨c :: before, behind, congrArg (c :: ·) hrest, hcontext⟩

/-- With a checker that fails quietly there is one turn more, and the others are the same. -/
theorem FailsQuietly.inOrder_eq {context : Context} {before behind : List Checker}
    (h : t.FailsQuietly failure) (hcontext : t.context = contextAfter context before) :
    inOrder context (before ++ t.checker :: behind)
      = inOrder context before ++ t :: inOrder (contextAfter context before) behind := by
  have hafter : (Turn.mk t.checker (contextAfter context before)).after
      = contextAfter context before := by
    rw [← hcontext]
    exact h.after
  rw [inOrder_append, inOrder, hafter, ← hcontext]

theorem FailsQuietly.contextAfter_eq {context : Context} {before behind : List Checker}
    (h : t.FailsQuietly failure) (hcontext : t.context = contextAfter context before) :
    contextAfter context (before ++ t.checker :: behind)
      = contextAfter context (before ++ behind) := by
  rw [contextAfter_append, contextAfter_append, ← hcontext]
  exact congrArg (contextAfter · behind) h.after

end Turn

namespace Registry

/-- The selection without a checker. -/
def others (registry : Registry) (names : Option (List String)) (name : String) : List String :=
  (names.getD (Table.names registry)).filter (· ≠ name)

/-- Selecting no checkers by name is selecting all of them. -/
theorem Named.selected_none {registry : Registry} (h : registry.Named) :
    registry.selected none = registry.selected (some (Table.names registry)) := by
  rw [selected, selected, checkers, Table.names, List.filterMap_map,
    List.filterMap_congr (g := fun entry => some entry.2), List.filterMap_eq_map']
  exact fun entry hentry => Table.get?_of_mem h.nodup hentry

theorem Named.selected_others {registry : Registry} (h : registry.Named)
    (names : Option (List String)) (name : String) :
    registry.selected (some (registry.others names name))
      = (registry.selected names).filter (·.name ≠ name) := by
  have hfilter : ∀ ns : List String, registry.selected (some (ns.filter (· ≠ name)))
      = (registry.selected (some ns)).filter (·.name ≠ name) := by
    intro ns
    rw [selected, selected, List.filterMap_filter, List.filter_filterMap]
    apply List.filterMap_congr
    intro n _
    cases hget : Table.get? registry n with
    | none => simp
    | some c =>
      have hname : c.name = n := h.own _ (Table.mem_of_get? hget)
      simp [Option.filter, hname]
  cases names with
  | none => rw [h.selected_none, ← hfilter]; rfl
  | some ns => exact hfilter ns

/-- Where no checker is selected twice only the checker itself goes. -/
theorem Named.selected_others_eq {registry : Registry} (h : registry.Named)
    {names : Option (List String)} (honce : ∀ ns ∈ names, ns.Nodup) {before behind : List Checker}
    {c : Checker} (hselected : registry.selected names = before ++ c :: behind) :
    registry.selected (some (registry.others names c.name)) = before ++ behind := by
  have hnodup := h.nodup_selected honce
  rw [hselected, List.map_append, List.map_cons, List.nodup_append, List.nodup_cons] at hnodup
  obtain ⟨-, ⟨hbehind, -⟩, hbefore⟩ := hnodup
  rw [h.selected_others, hselected, List.filter_append, List.filter_cons_of_neg (by simp),
    List.filter_eq_self.mpr, List.filter_eq_self.mpr]
  · intro d hd
    exact decide_eq_true fun he => hbehind (he ▸ List.mem_map_of_mem hd)
  · intro d hd
    exact decide_eq_true (hbefore _ (List.mem_map_of_mem hd) _ (List.mem_cons_self ..))

end Registry

/-! ## Reports with and without a failure -/

/-- The second report is the first one with the finding `d` for a failure of the checker `c`.  It
stands between what the checkers before it and behind it report. -/
structure Report.Inserted (rest report : Report) (before : List Checker) (c : Checker)
    (behind : List Checker) (d : Diagnostic) : Prop where
  without : rest.diagnostics
    = before.flatMap (rest.findingsOf ·.name) ++ behind.flatMap (rest.findingsOf ·.name)
  diagnostics : report.diagnostics
    = before.flatMap (rest.findingsOf ·.name) ++ d :: behind.flatMap (rest.findingsOf ·.name)
  own : Table.get? report.byChecker c.name = some [d]
  others : ∀ name, name ≠ c.name →
    Table.get? report.byChecker name = Table.get? rest.byChecker name

namespace Report

variable {report rest : Report} {ts us : List Turn}

theorem Recorded.byChecker_eq (h : Recorded {} ts report)
    (hnodup : (ts.map (·.checker.name)).Nodup) :
    report.byChecker = ts.map fun t => (t.checker.name, t.findings) := by
  rw [h.byChecker]
  exact Turn.filed_eq hnodup

/-- What some of the turns report is found under the names of their checkers. -/
theorem Recorded.flatMap_findingsOf (h : Recorded {} ts report)
    (hnodup : (ts.map (·.checker.name)).Nodup) (hsub : us ⊆ ts) :
    (us.map (·.checker)).flatMap (report.findingsOf ·.name) = us.flatMap Turn.findings := by
  rw [List.flatMap_map]
  apply List.flatMap_congr
  intro t ht
  have hnames : (Table.names (ts.map fun t => (t.checker.name, t.findings))).Nodup := by
    rw [Table.names, List.map_map]
    exact hnodup
  have hentry := Table.get?_of_mem hnames (List.mem_map.mpr ⟨t, hsub ht, rfl⟩)
  rw [findingsOf, h.byChecker_eq hnodup, hentry]
  rfl

/-- One turn more, with a failure, is one finding more. -/
theorem inserted_of_recorded {t : Turn} {d : Diagnostic} (hfindings : t.findings = [d])
    (hnodup : ((ts ++ t :: us).map (·.checker.name)).Nodup)
    (hrest : Recorded {} (ts ++ us) rest) (hreport : Recorded {} (ts ++ t :: us) report) :
    Inserted rest report (ts.map (·.checker)) t.checker (us.map (·.checker)) d := by
  have hothers : ((ts ++ us).map (·.checker.name)).Nodup :=
    hnodup.sublist (((List.sublist_cons_self t us).append_left ts).map _)
  have hnew : t.checker.name ∉ Table.names (ts.map fun t => (t.checker.name, t.findings)) := by
    rw [Table.names, List.map_map]
    rw [List.map_append, List.map_cons] at hnodup
    exact fun hmem => (List.nodup_append.mp hnodup).2.2 _ hmem _ (List.mem_cons_self ..) rfl
  have hbefore := hrest.flatMap_findingsOf hothers (List.subset_append_left ts us)
  have hbehind := hrest.flatMap_findingsOf hothers (List.subset_append_right ts us)
  constructor
  · rw [hrest.diagnostics, hbefore, hbehind, List.flatMap_append]
    rfl
  · rw [hreport.diagnostics, hbefore, hbehind, List.flatMap_append, List.flatMap_cons, hfindings]
    rfl
  · rw [hreport.byChecker_eq hnodup, List.map_append, List.map_cons,
      Table.get?_append_cons_self hnew, hfindings]
  · intro name hname
    rw [hreport.byChecker_eq hnodup, hrest.byChecker_eq hothers, List.map_append, List.map_append,
      List.map_cons, Table.get?_append_cons_of_ne hname]

end Report

/-- Two runs that return, with and without a checker that fails quietly. -/
theorem Session.inserted_of_returned {h h₁ h₂ : Host} {config : Config} {path : Datum}
    {names others : Option (List String)} {before behind : List Checker} {t : Turn}
    {failure : Failure} (hfails : t.FailsQuietly failure)
    (hcontext : t.context = Turn.contextAfter (Turn.start path h.settings config) before)
    (hselected : h.registry.selected names = before ++ t.checker :: behind)
    (hothers : h.registry.selected others = before ++ behind)
    (hnodup : ((h.registry.selected names).map (·.name)).Nodup) {report rest : Report}
    (hreport : (Session.checkConfig config names path).run h = .ok report h₁)
    (hrest : (Session.checkConfig config others path).run h = .ok rest h₂) :
    rest.Inserted report before t.checker behind
        (Session.internalError t.checker t.context.path failure)
      ∧ h₁.settings = h₂.settings := by
  obtain ⟨hrecorded, hleaves⟩ := Session.checkConfig_returned hreport
  obtain ⟨hrecorded', hleaves'⟩ := Session.checkConfig_returned hrest
  rw [hselected, hfails.inOrder_eq hcontext] at hrecorded
  rw [hselected, hfails.contextAfter_eq hcontext] at hleaves
  rw [hothers, Turn.inOrder_append] at hrecorded'
  rw [hothers] at hleaves'
  have hturns : ((Turn.inOrder (Turn.start path h.settings config) before
      ++ t :: Turn.inOrder (Turn.contextAfter (Turn.start path h.settings config) before)
        behind).map (·.checker.name)).Nodup := by
    rw [← hfails.inOrder_eq hcontext, Turn.names_eq, Turn.inOrder_checkers, ← hselected]
    exact hnodup
  have hinserted := Report.inserted_of_recorded hfails.findings hturns hrecorded' hrecorded
  rw [Turn.inOrder_checkers, Turn.inOrder_checkers] at hinserted
  exact ⟨hinserted, hleaves.settings.trans hleaves'.settings.symm⟩

/-- A selected checker that fails without a change to the context does not change what the others
report.  With it and without it the run ends at the same checker of which no instance can be made,
or it returns both times, leaves the same settings, and the finding for the failure is the one
difference between the reports. -/
theorem checkConfig_bystanders {h : Host} (hclock : h.clock.Readable) (hregistry : h.registry.Named)
    {names : Option (List String)} (honce : ∀ ns ∈ names, ns.Nodup) (config : Config) (path : Datum)
    {t : Turn} (ht : t ∈ Turn.inOrder (Turn.start path h.settings config)
      (h.registry.selected names)) (hmade : t.checker.create = .ok ()) {failure : Failure}
    (hfails : t.FailsQuietly failure) :
    ∃ before behind, h.registry.selected names = before ++ t.checker :: behind
      ∧ h.registry.selected (some (h.registry.others names t.checker.name)) = before ++ behind
      ∧ ∃ h₁ h₂, match (before ++ behind).findSome? Checker.flaw? with
        | some flaw => (Session.checkConfig config names path).run h = .error flaw h₁
          ∧ (Session.checkConfig config (some (h.registry.others names t.checker.name)) path).run h
            = .error flaw h₂
        | none => ∃ report rest, (Session.checkConfig config names path).run h = .ok report h₁
          ∧ (Session.checkConfig config (some (h.registry.others names t.checker.name)) path).run h
            = .ok rest h₂
          ∧ rest.Inserted report before t.checker behind
            (Session.internalError t.checker t.context.path failure)
          ∧ h₁.settings = h₂.settings := by
  obtain ⟨before, behind, hselected, hcontext⟩ := Turn.exists_of_mem_inOrder ht
  have hothers := hregistry.selected_others_eq honce hselected
  -- a checker of which an instance can be made does not end the run
  have hflaws : (before ++ t.checker :: behind).findSome? Checker.flaw?
      = (before ++ behind).findSome? Checker.flaw? := by
    rw [List.findSome?_append, List.findSome?_append, List.findSome?_cons_of_isNone]
    rw [Checker.flaw?_eq_none_iff.mpr hmade]
    rfl
  obtain ⟨h₁, hrun⟩ := Session.checkConfig_run hclock config names path
  obtain ⟨h₂, hrun'⟩ := Session.checkConfig_run hclock config
    (some (h.registry.others names t.checker.name)) path
  rw [hselected, hflaws] at hrun
  rw [hothers] at hrun'
  refine ⟨before, behind, hselected, hothers, h₁, h₂, ?_⟩
  cases hflaw : (before ++ behind).findSome? Checker.flaw? with
  | some flaw =>
    rw [hflaw] at hrun hrun'
    exact ⟨hrun, hrun'⟩
  | none =>
    rw [hflaw] at hrun hrun'
    obtain ⟨report, hreport⟩ := hrun
    obtain ⟨rest, hrest⟩ := hrun'
    exact ⟨report, rest, hreport, hrest, Session.inserted_of_returned hfails hcontext hselected
      hothers (hregistry.nodup_selected honce) hreport hrest⟩

/-! ## A failure between a report and another failure -/

def troubledNames : List String := ["insisting", "breaking", "absent", "speechless"]

def breakingTurn : Turn := ⟨breaking, Turn.start (.text "a.c") troubledHost.settings {}⟩

theorem breakingTurn_failsQuietly : breakingTurn.FailsQuietly (.crash "boom") := ⟨_, rfl, rfl⟩

/-- Without `breaking` the run reports what `insisting` finds and the failure of `speechless`. -/
theorem checkConfig_bystanders_troubledNames :
    troubledHost.clock.Readable ∧ troubledHost.registry.Named ∧ troubledNames.Nodup
      ∧ breakingTurn ∈ Turn.inOrder (Turn.start (.text "a.c") troubledHost.settings {})
        (troubledHost.registry.selected (some troubledNames))
      ∧ breakingTurn.checker.create = .ok () ∧ breakingTurn.FailsQuietly (.crash "boom")
      ∧ ∃ before behind report rest h₁ h₂,
        (Session.checkConfig {} (some troubledNames) (.text "a.c")).run troubledHost = .ok report h₁
          ∧ (Session.checkConfig {} (some ["insisting", "absent", "speechless"])
            (.text "a.c")).run troubledHost = .ok rest h₂
          ∧ rest.Inserted report before breaking behind
            (Session.internalError breaking (.text "a.c") (.crash "boom"))
          ∧ h₁.settings = h₂.settings := by
  have hclock : troubledHost.clock.Readable := ⟨rfl, fun t ht => absurd ht List.not_mem_nil⟩
  have hregistry : troubledHost.registry.Named := Registry.named_ofList _
  have honce : troubledNames.Nodup := by decide
  have hturn : breakingTurn ∈ Turn.inOrder (Turn.start (.text "a.c") troubledHost.settings {})
      (troubledHost.registry.selected (some troubledNames)) :=
    List.mem_cons_of_mem _ (List.mem_cons_self ..)
  have hnames : ∀ ns ∈ some troubledNames, ns.Nodup := by
    intro ns hns
    rwa [← Option.some.inj hns]
  refine ⟨hclock, hregistry, honce, hturn, rfl, breakingTurn_failsQuietly, ?_⟩
  obtain ⟨before, behind, hselected, hothers, h₁, h₂, hends⟩ := checkConfig_bystanders hclock
    hregistry hnames {} (.text "a.c") hturn rfl breakingTurn_failsQuietly
  have hflaw : (before ++ behind).findSome? Checker.flaw? = none := by
    rw [← hothers]
    rfl
  rw [hflaw] at hends
  obtain ⟨report, rest, hreport, hrest, hinserted, hsettings⟩ := hends
  exact ⟨before, behind, report, rest, h₁, h₂, hreport, hrest, hinserted, hsettings⟩

end FinalParams
