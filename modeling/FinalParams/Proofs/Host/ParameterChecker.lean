import FinalParams.Proofs.Diagnostic.Plain
import FinalParams.Proofs.Diagnostic.Rules
import FinalParams.Proofs.Host.Trace
import FinalParams.Proofs.Lowering.Placed

/-!
# What the checker for parameters reports

The findings on a configuration do not depend on the rules, and the checker leaves rules and options
as they are.  Where files are named by texts it reports those findings that no rule covers, or the
one that says why it stopped, which no rule can cover.
-/

namespace FinalParams

namespace ParameterChecker

/-- The findings in a tree before any rule is tried, or why the checker stops. -/
def foundIn? (m : Mutations) (unit : Except Failure Node) : Except Failure (List Diagnostic) :=
  match unit with
  | .error failure => .error failure
  | .ok tree =>
    match (tree.scan m none).error with
    | some e => .error (.scan e)
    | none => .ok ((tree.scan m none).violations.map finding)

/-- The findings on a configuration before any rule is tried, or why the checker stops. -/
def findings? (m : Mutations) (path : Datum) (config : Config) : Except Failure (List Diagnostic) :=
  match config.compilationUnit path with
  | .error e => .error (.lowering e)
  | .ok tree =>
    match (tree.scan m none).error with
    | some e => .error (.scan e)
    | none => .ok ((tree.scan m none).violations.map finding)

theorem findings?_eq (m : Mutations) (path : Datum) (config : Config) :
    findings? m path config = foundIn? m ((config.compilationUnit path).mapError .lowering) := by
  unfold findings? foundIn?
  cases config.compilationUnit path <;> rfl

/-- The tree that was left for the checker, if there is one. -/
def stored? (context : Context) : Option Node :=
  match Table.get? context.analyses Action.unitAnalysis with
  | some (.stray (.datum .null)) => none
  | found => found

/-- The tree that the checker searches, or why there is none. -/
def unit? (context : Context) : Except Failure Node :=
  match stored? context with
  | some tree => .ok tree
  | none => (context.config.compilationUnit context.path).mapError .lowering

/-- What the checker leaves as it is.  It stores no tree but the one that it searches. -/
structure Keeps (context after : Context) : Prop where
  settings : after.settings = context.settings
  path : after.path = context.path
  config : after.config = context.config
  analyses : ∀ entry ∈ after.analyses, entry ∈ context.analyses ∨ unit? context = .ok entry.2

/-! ## The four steps -/

theorem getAnalysis_run (b : Bench) :
    (Action.getAnalysis Action.unitAnalysis).run b = .ok (stored? b.context) b := by
  have hget : (get : Action Bench).run b = .ok b b := rfl
  rw [Action.getAnalysis, run_bind_of_ok hget, stored?]
  generalize Table.get? b.context.analyses Action.unitAnalysis = found
  -- only the null value is taken for no tree
  cases found with
  | none => rfl
  | some n =>
    cases n with
    | stray value =>
      cases value with
      | datum d => cases d <;> rfl
      | parameter p => rfl
    | _ => rfl

theorem collect_run (b : Bench) :
    match unit? b.context with
    | .error failure => collect.run b = .error failure b
    | .ok tree => ∃ b', collect.run b = .ok () b' ∧ b'.inst = { b.inst with unit := some tree }
        ∧ Keeps b.context b'.context := by
  have hget : (get : Action Bench).run b = .ok b b := rfl
  obtain ⟨unit, hunit⟩ : ∃ unit, unit = unit? b.context := ⟨_, rfl⟩
  rw [← hunit, collect, run_bind_of_ok (getAnalysis_run b)]
  unfold unit? at hunit
  cases hs : stored? b.context with
  | some tree =>
    rw [hs] at hunit
    subst hunit
    exact ⟨_, rfl, rfl, rfl, rfl, rfl, fun entry hentry => .inl hentry⟩
  | none =>
    simp only [hs] at hunit ⊢
    rw [run_bind_of_ok hget]
    cases ht : b.context.config.compilationUnit b.context.path with
    | error e =>
      rw [ht] at hunit
      subst hunit
      rfl
    | ok tree =>
      rw [ht] at hunit
      subst hunit
      refine ⟨_, rfl, rfl, rfl, rfl, rfl, ?_⟩
      intro entry hentry
      rcases Table.mem_of_mem_set hentry with hentry | rfl
      · exact .inl hentry
      · refine .inr ?_
        rw [unit?, hs]
        simp only [ht]
        rfl

theorem diagnose_run {b : Bench} {tree : Node} (h : b.inst.unit = some tree) :
    ∃ b', (diagnose.run b = match (tree.scan b.inst.mutations none).error with
        | some e => .error (.scan e) b'
        | none => .ok () b')
      ∧ b'.context = b.context
      ∧ b'.inst.found
        = b.inst.found ++ (tree.scan b.inst.mutations none).violations.map finding := by
  have hget : (get : Action Bench).run b = .ok b b := rfl
  rw [diagnose, run_bind_of_ok hget]
  simp only [h]
  generalize tree.scan b.inst.mutations none = outcome
  obtain ⟨violations, error⟩ := outcome
  cases error with
  | some e => exact ⟨_, rfl, rfl, rfl⟩
  | none =>
    cases scanNote? tree violations.length with
    | none => exact ⟨_, rfl, rfl, rfl⟩
    | some message => exact ⟨_, rfl, rfl, rfl⟩

theorem report_run (b : Bench) :
    Action.unsuppressed.run b = match Suppressions.sift b.context.suppressions b.inst.found with
      | .error e => .error (.misfit e) b
      | .ok kept => .ok kept b := by
  have hget : (get : Action Bench).run b = .ok b b := rfl
  rw [Action.unsuppressed, run_bind_of_ok hget]
  cases Suppressions.sift b.context.suppressions b.inst.found <;> rfl

/-- The checker reports what no rule covers. -/
theorem work_run (context : Context) :
    ∃ b, Keeps context b.context
      ∧ parameterChecker.work.run { context }
        = match foundIn? (Mutations.ofOptions context.options) (unit? context) with
          | .error failure => .error failure b
          | .ok ds => match Suppressions.sift context.suppressions ds with
            | .error e => .error (.misfit e) b
            | .ok kept => .ok kept b := by
  obtain ⟨m, hm⟩ : ∃ m, m = Mutations.ofOptions context.options := ⟨_, rfl⟩
  let b₀ : Bench := { context, inst := { mutations := m } }
  have hconfigure : parameterChecker.configure.run { context } = .ok () b₀ := by
    simp only [b₀, hm]
    rfl
  rw [Checker.work, run_bind_of_ok hconfigure, ← hm]
  have hcollect := collect_run b₀
  cases ht : unit? context with
  | error failure =>
    simp only [b₀, ht] at hcollect
    exact ⟨b₀, ⟨rfl, rfl, rfl, fun entry hentry => .inl hentry⟩, run_bind_of_error hcollect⟩
  | ok tree =>
    simp only [b₀, ht] at hcollect
    obtain ⟨b₁, hrun, hinst, hkeeps⟩ := hcollect
    have hcollected : parameterChecker.collect.run b₀ = .ok () b₁ := hrun
    have hunit : b₁.inst.unit = some tree := by rw [hinst]
    obtain ⟨b₂, hdiagnose, hcontext, hfound⟩ := diagnose_run hunit
    rw [run_bind_of_ok hcollected]
    simp only [hinst] at hdiagnose hfound
    refine ⟨b₂, hcontext ▸ hkeeps, ?_⟩
    unfold foundIn?
    cases he : (tree.scan m none).error with
    | some e =>
      simp only [he] at hdiagnose ⊢
      exact run_bind_of_error hdiagnose
    | none =>
      simp only [he] at hdiagnose ⊢
      have hdiagnosed : parameterChecker.diagnose.run b₁ = .ok () b₂ := hdiagnose
      have hrules : b₂.context.suppressions = context.suppressions := by
        rw [hcontext]
        exact congrArg Settings.suppressions hkeeps.settings
      rw [run_bind_of_ok hdiagnosed, parameterChecker, report_run, hfound, hrules]
      rfl

/-! ## Findings and failures -/

/-- All findings in a tree whose names lie in plain places are plain errors with the one id. -/
theorem plain_of_foundIn {m : Mutations} {tree : Node} (h : tree.Everywhere Node.Placed)
    {ds : List Diagnostic} (hds : foundIn? m (.ok tree) = .ok ds) {d : Diagnostic} (hd : d ∈ ds) :
    d.Plain ∧ d.errorId = .text errorId ∧ d.severity = .error := by
  unfold foundIn? at hds
  simp only at hds
  split at hds
  · contradiction
  · obtain rfl := Except.ok.inj hds
    obtain ⟨v, hv, rfl⟩ := List.mem_map.mp hd
    exact ⟨⟨⟨_, rfl⟩, ⟨_, rfl⟩, (Scan.scan_placed h m none v hv).reported ""⟩, rfl, rfl⟩

theorem plain_of_findings {m : Mutations} {path : String} {config : Config}
    (h : config.FilesNamed) {ds : List Diagnostic}
    (hds : findings? m (.text path) config = .ok ds) {d : Diagnostic} (hd : d ∈ ds) :
    d.Plain ∧ d.errorId = .text errorId ∧ d.severity = .error := by
  rw [findings?_eq] at hds
  cases ht : config.compilationUnit (.text path) with
  | error e =>
    rw [ht] at hds
    cases hds
  | ok tree =>
    rw [ht] at hds
    exact plain_of_foundIn (Config.compilationUnit_placed h ht) hds hd

theorem error_of_findings {m : Mutations} {path : Datum} {config : Config} {ds : List Diagnostic}
    (hds : findings? m path config = .ok ds) {d : Diagnostic} (hd : d ∈ ds) :
    d.severity = .error ∧ d.errorId.isText Report.internalErrorId = false := by
  unfold findings? at hds
  split at hds
  · cases hds
  split at hds
  · cases hds
  obtain rfl := Except.ok.inj hds
  obtain ⟨v, -, rfl⟩ := List.mem_map.mp hd
  have hid : (Datum.text errorId).isText Report.internalErrorId = false := by decide
  exact ⟨rfl, hid⟩

theorem plain_internalError (path : String) (failure : Failure) :
    (Session.internalError parameterChecker (.text path) failure).Plain :=
  ⟨⟨_, rfl⟩, ⟨_, rfl⟩, _, _, _, rfl⟩

/-- The checker reports what no rule covers, or why it stopped. -/
theorem turn_findings_eq (path : Datum) (s : Settings) (config : Config) :
    (Turn.mk parameterChecker (Turn.start path s config)).findings
      = match findings? (Mutations.ofOptions s.options) path config with
        | .error failure => [Session.internalError parameterChecker path failure]
        | .ok ds => match Suppressions.sift s.suppressions ds with
          | .error e => [Session.internalError parameterChecker path (.misfit e)]
          | .ok kept => kept := by
  obtain ⟨b, hkeeps, hrun⟩ := work_run (Turn.start path s config)
  have hpath : b.context.path = path := hkeeps.path
  have hunit : foundIn? (Mutations.ofOptions s.options) (unit? (Turn.start path s config))
      = findings? (Mutations.ofOptions s.options) path config := (findings?_eq ..).symm
  rw [Turn.findings, Session.attempt, hrun]
  simp only [Turn.start] at hunit ⊢
  rw [hunit]
  cases findings? (Mutations.ofOptions s.options) path config with
  | error failure => simp only [hpath]
  | ok ds => cases hs : Suppressions.sift s.suppressions ds <;> simp only [hs, hpath]

/-- What the checker reports where files are named by texts. -/
theorem turn_findings {path : String} {s : Settings} {config : Config} (h : config.FilesNamed)
    (hrules : ∀ rule ∈ s.suppressions, rule.FileNamed) :
    (Turn.mk parameterChecker (Turn.start (.text path) s config)).findings
      = match findings? (Mutations.ofOptions s.options) (.text path) config with
        | .error failure => [Session.internalError parameterChecker (.text path) failure]
        | .ok ds => Suppressions.keep s.suppressions ds := by
  rw [turn_findings_eq]
  cases hds : findings? (Mutations.ofOptions s.options) (.text path) config with
  | error failure => rfl
  | ok ds =>
    have htexts : ∀ d ∈ ds, ∃ path, d.loc.file = .text path := by
      intro d hd
      obtain ⟨⟨-, -, f, m, n, hl⟩, -⟩ := plain_of_findings h hds hd
      exact ⟨f, by rw [hl]⟩
    simp only [Suppressions.sift_of_texts htexts hrules]

/-- The checker leaves what it keeps, whether it finishes or not. -/
theorem turn_keeps (context : Context) :
    Keeps context (Turn.mk parameterChecker context).after := by
  obtain ⟨b, hkeeps, hrun⟩ := work_run context
  rw [Turn.after, Session.attempt, hrun]
  cases foundIn? (Mutations.ofOptions context.options) (unit? context) with
  | error failure => exact hkeeps
  | ok ds =>
    simp only
    cases Suppressions.sift context.suppressions ds <;> exact hkeeps

theorem turn_after (path : Datum) (s : Settings) (config : Config) :
    (Turn.mk parameterChecker (Turn.start path s config)).after.settings = s :=
  (turn_keeps (Turn.start path s config)).settings

end ParameterChecker

/-! ## Several turns on one configuration -/

/-- The file is named by a text, and so are those of all tokens and of all trees that were left. -/
structure Context.Plain (context : Context) : Prop where
  path : ∃ s, context.path = .text s
  files : context.config.FilesNamed
  analyses : ∀ entry ∈ context.analyses, entry.2.Everywhere Node.Placed

namespace ParameterChecker

theorem unit?_placed {context : Context} (h : context.Plain) {tree : Node}
    (ht : unit? context = .ok tree) : tree.Everywhere Node.Placed := by
  unfold unit? at ht
  split at ht
  · rename_i stored hs
    obtain rfl := Except.ok.inj ht
    unfold stored? at hs
    split at hs
    · cases hs
    · exact h.analyses _ (Table.mem_of_get? hs)
  · obtain ⟨path, hpath⟩ := h.path
    rw [hpath] at ht
    cases hc : context.config.compilationUnit (.text path) with
    | error e =>
      rw [hc] at ht
      cases ht
    | ok unit =>
      rw [hc] at ht
      obtain rfl : unit = tree := Except.ok.inj ht
      exact Config.compilationUnit_placed h.files hc

theorem after_plain {context : Context} (h : context.Plain) :
    (Turn.mk parameterChecker context).after.Plain := by
  have hkeeps := turn_keeps context
  refine ⟨hkeeps.path ▸ h.path, hkeeps.config ▸ h.files, ?_⟩
  intro entry hentry
  rcases hkeeps.analyses entry hentry with hold | hunit
  · exact h.analyses entry hold
  · exact unit?_placed h hunit

/-- Whatever the rules are, the checker reports plain findings only. -/
theorem plain_of_turn {context : Context} (h : context.Plain) {d : Diagnostic}
    (hd : d ∈ (Turn.mk parameterChecker context).findings) : d.Plain := by
  obtain ⟨b, hkeeps, hrun⟩ := work_run context
  obtain ⟨path, hpath⟩ := h.path
  have herror : ∀ failure,
      (Session.internalError parameterChecker b.context.path failure).Plain := by
    intro failure
    rw [hkeeps.path, hpath]
    exact plain_internalError path failure
  rw [Turn.findings, Session.attempt, hrun] at hd
  cases hds : foundIn? (Mutations.ofOptions context.options) (unit? context) with
  | error failure =>
    simp only [hds] at hd
    obtain rfl := List.mem_singleton.mp hd
    exact herror failure
  | ok ds =>
    simp only [hds] at hd
    cases hsift : Suppressions.sift context.suppressions ds with
    | error e =>
      simp only [hsift] at hd
      obtain rfl := List.mem_singleton.mp hd
      exact herror (.misfit e)
    | ok kept =>
      simp only [hsift] at hd
      obtain ⟨-, rfl⟩ := Suppressions.sift_ok_iff.mp hsift
      have hsub : d ∈ ds := (Suppressions.mem_keep.mp hd).1
      cases hunit : unit? context with
      | error failure =>
        rw [hunit] at hds
        cases hds
      | ok tree =>
        rw [hunit] at hds
        exact (plain_of_foundIn (unit?_placed h hunit) hds hsub).1

theorem plain_of_inOrder {cs : List Checker} (hcs : ∀ c ∈ cs, c = parameterChecker)
    {context : Context} (h : context.Plain) {t : Turn} (ht : t ∈ Turn.inOrder context cs)
    {d : Diagnostic} (hd : d ∈ t.findings) : d.Plain := by
  induction cs generalizing context with
  | nil => exact absurd ht List.not_mem_nil
  | cons c rest ih =>
    obtain rfl := hcs c (List.mem_cons_self ..)
    rcases List.mem_cons.mp ht with rfl | ht
    · exact plain_of_turn h hd
    · exact ih (fun c hc => hcs c (List.mem_cons_of_mem _ hc)) (after_plain h) ht

/-- However often the checker is selected, all that it reports can be looked up. -/
theorem known_ofDumps {cs : List Checker} (hcs : ∀ c ∈ cs, c = parameterChecker) {s : Settings}
    {dumps : List (String × Dump)}
    (hfiles : ∀ p ∈ dumps, ∀ config ∈ p.2.configurations, config.FilesNamed) :
    Turn.Known (Turn.ofDumps cs s dumps) := by
  intro ts hts t ht d hd
  obtain ⟨p, hp, config, hconfig, s', rfl⟩ := Turn.exists_of_mem_ofDumps hts
  have hplain : (Turn.start (.text (sourcePath p.1)) s' config).Plain :=
    ⟨⟨_, rfl⟩, hfiles p hp config hconfig, fun entry hentry => absurd hentry List.not_mem_nil⟩
  exact (plain_of_inOrder hcs hplain ht hd).misfit?

end ParameterChecker
end FinalParams
