import FinalParams.Host.Addon
import FinalParams.Proofs.Host.Merge
import Mathlib.Data.List.Induction

/-!
# The turns of a run

Every checker works on a context, and it hands over the rules and the options that it leaves to the
next one.  A turn is a checker with the context that it finds.  The turns of a run follow from the
dumps alone, without clock, log or reports.
-/

namespace FinalParams

open Diagnostic

/-- The rules and options that the checkers work with. -/
structure Settings where
  suppressions : Suppressions := []
  options : Options := []

def Host.settings (h : Host) : Settings := ⟨h.suppressions.working, h.options.working⟩

def Context.settings (context : Context) : Settings := ⟨context.suppressions, context.options⟩

/-- The settings after the rules of a dump were added. -/
def Settings.load (s : Settings) (records : List SuppressionRecord) : Settings :=
  { s with suppressions := (Suppressions.load s.suppressions records).1 }

/-- A checker and the context that it finds. -/
structure Turn where
  checker : Checker
  context : Context

namespace Turn

/-- What the checker reports. -/
def findings (t : Turn) : List Diagnostic := (Session.attempt t.checker t.context).1

/-- The context that the checker leaves. -/
def after (t : Turn) : Context := (Session.attempt t.checker t.context).2.1

/-- The turns of these checkers, one after the other. -/
def inOrder (context : Context) : List Checker → List Turn
  | [] => []
  | c :: rest => ⟨c, context⟩ :: inOrder (Turn.mk c context).after rest

/-- The context that these checkers leave. -/
def contextAfter (context : Context) (cs : List Checker) : Context :=
  cs.foldl (fun context c => (Turn.mk c context).after) context

/-- The context in which the checkers of one configuration begin. -/
def start (path : Datum) (s : Settings) (config : Config) : Context :=
  { config, path, suppressions := s.suppressions, options := s.options }

/-- The turns on each configuration of a dump. -/
def ofConfigurations (cs : List Checker) (path : Datum) (s : Settings) :
    List Config → List (List Turn)
  | [] => []
  | config :: rest =>
    inOrder (start path s config) cs
      :: ofConfigurations cs path (contextAfter (start path s config) cs).settings rest

def settingsAfter (cs : List Checker) (path : Datum) (s : Settings) (configs : List Config) :
    Settings :=
  configs.foldl (fun s config => (contextAfter (start path s config) cs).settings) s

/-- The turns on each configuration of these dumps. -/
def ofDumps (cs : List Checker) (s : Settings) : List (String × Dump) → List (List Turn)
  | [] => []
  | (file, dump) :: rest =>
    let path := .text (sourcePath file)
    let loaded := s.load dump.suppressions
    ofConfigurations cs path loaded dump.configurations
      ++ ofDumps cs (settingsAfter cs path loaded dump.configurations) rest

/-- The findings on one configuration, filed by checker.  Where one checker has several turns only
the last one counts. -/
def filed (ts : List Turn) : Table (List Diagnostic) :=
  ts.foldl (fun table t => Table.set table t.checker.name t.findings) []

/-- The findings of all configurations, in the order in which they are put together. -/
def arrivals (tss : List (List Turn)) : List Diagnostic :=
  tss.flatMap fun ts => (filed ts).flatMap (·.2)

/-- Whatever these turns report can be looked up. -/
def Known (tss : List (List Turn)) : Prop :=
  ∀ ts ∈ tss, ∀ t ∈ ts, ∀ d ∈ t.findings, d.misfit? = none

/-- Filing the findings of a turn. -/
theorem filed_append (ts : List Turn) (t : Turn) :
    filed (ts ++ [t]) = Table.set (filed ts) t.checker.name t.findings := by
  rw [filed, List.foldl_append]
  rfl

/-- Each entry is that of some turn. -/
theorem exists_of_mem_filed {ts : List Turn} {e : String × List Diagnostic} (he : e ∈ filed ts) :
    ∃ t ∈ ts, e = (t.checker.name, t.findings) := by
  induction ts using List.reverseRecOn with
  | nil => exact absurd he List.not_mem_nil
  | append_singleton ts t ih =>
    rw [filed_append] at he
    rcases Table.mem_of_mem_set he with he | he
    · obtain ⟨u, hu, rfl⟩ := ih he
      exact ⟨u, List.mem_append_left _ hu, rfl⟩
    · exact ⟨t, List.mem_append_right _ (List.mem_singleton_self t), he⟩

theorem mem_filed {ts : List Turn} {d : Diagnostic} (hd : d ∈ (filed ts).flatMap (·.2)) :
    ∃ t ∈ ts, d ∈ t.findings := by
  obtain ⟨e, he, hd⟩ := List.mem_flatMap.mp hd
  obtain ⟨t, ht, rfl⟩ := exists_of_mem_filed he
  exact ⟨t, ht, hd⟩

theorem arrivals_append (tss uss : List (List Turn)) :
    arrivals (tss ++ uss) = arrivals tss ++ arrivals uss := List.flatMap_append

theorem mem_arrivals {tss : List (List Turn)} {d : Diagnostic} (hd : d ∈ arrivals tss) :
    ∃ ts ∈ tss, ∃ t ∈ ts, d ∈ t.findings := by
  obtain ⟨ts, hts, hd⟩ := List.mem_flatMap.mp hd
  exact ⟨ts, hts, mem_filed hd⟩

/-- Where each configuration has one turn all findings arrive as they are. -/
theorem arrivals_single {α : Type} (turn : α → Turn) (as : List α) :
    arrivals (as.map fun a => [turn a]) = as.flatMap fun a => (turn a).findings := by
  simp [arrivals, filed, Table.set, List.flatMap_map]

theorem inOrder_checkers (context : Context) (cs : List Checker) :
    (inOrder context cs).map (·.checker) = cs := by
  induction cs generalizing context with
  | nil => rfl
  | cons c rest ih =>
    rw [inOrder, List.map_cons, ih]

theorem names_eq (ts : List Turn) :
    ts.map (·.checker.name) = (ts.map (·.checker)).map (·.name) := by
  rw [List.map_map]
  rfl

/-- The turns of a run are those on its configurations, one after the other. -/
theorem exists_of_mem_ofDumps {cs : List Checker} {s : Settings} {dumps : List (String × Dump)}
    {ts : List Turn} (h : ts ∈ ofDumps cs s dumps) :
    ∃ p ∈ dumps, ∃ config ∈ p.2.configurations, ∃ s',
      ts = inOrder (start (.text (sourcePath p.1)) s' config) cs := by
  have hconfigs : ∀ (path : Datum) (configs : List Config) (s : Settings),
      ts ∈ ofConfigurations cs path s configs →
        ∃ config ∈ configs, ∃ s', ts = inOrder (start path s' config) cs := by
    intro path configs
    induction configs with
    | nil => exact fun s hts => absurd hts List.not_mem_nil
    | cons config rest ih =>
      intro s hts
      rcases List.mem_cons.mp hts with rfl | hts
      · exact ⟨config, List.mem_cons_self .., s, rfl⟩
      · obtain ⟨config', hconfig', s', rfl⟩ := ih _ hts
        exact ⟨config', List.mem_cons_of_mem _ hconfig', s', rfl⟩
  induction dumps generalizing s with
  | nil => exact absurd h List.not_mem_nil
  | cons p rest ih =>
    rcases List.mem_append.mp h with h | h
    · obtain ⟨config, hconfig, s', rfl⟩ := hconfigs _ _ _ h
      exact ⟨p, List.mem_cons_self .., config, hconfig, s', rfl⟩
    · obtain ⟨q, hq, hts⟩ := ih h
      exact ⟨q, List.mem_cons_of_mem _ hq, hts⟩

theorem ofDumps_checkers {cs : List Checker} {s : Settings} {dumps : List (String × Dump)}
    {ts : List Turn} (h : ts ∈ ofDumps cs s dumps) : ts.map (·.checker) = cs := by
  obtain ⟨p, -, config, -, s', rfl⟩ := exists_of_mem_ofDumps h
  exact inOrder_checkers _ cs

/-- Where no checker has two turns the findings of each are filed as they are. -/
theorem filed_eq {ts : List Turn} (h : (ts.map (·.checker.name)).Nodup) :
    filed ts = ts.map fun t => (t.checker.name, t.findings) := by
  have hfold : ∀ table : Table (List Diagnostic),
      (∀ name ∈ Table.names table, name ∉ ts.map (·.checker.name)) →
        ts.foldl (fun table t => Table.set table t.checker.name t.findings) table
          = table ++ ts.map fun t => (t.checker.name, t.findings) := by
    induction ts with
    | nil => exact fun table _ => (List.append_nil _).symm
    | cons t rest ih =>
      intro table htable
      rw [List.map_cons, List.nodup_cons] at h
      have hnew : t.checker.name ∉ Table.names table := fun hmem =>
        htable _ hmem (List.mem_cons_self ..)
      rw [List.foldl_cons, Table.set_of_not_mem hnew, ih h.2]
      · simp
      · intro name hname
        rw [Table.names, List.map_append, List.mem_append] at hname
        rcases hname with hname | hname
        · exact fun hmem => htable name hname (List.mem_cons_of_mem _ hmem)
        · obtain rfl := List.mem_singleton.mp hname
          exact h.1
  exact hfold [] fun name hname => absurd hname List.not_mem_nil

/-- Where no checker is selected twice all findings arrive. -/
theorem mem_arrivals_of_nodup {cs : List Checker} (hcs : (cs.map (·.name)).Nodup) {s : Settings}
    {dumps : List (String × Dump)} {ts : List Turn} (hts : ts ∈ ofDumps cs s dumps) {t : Turn}
    (ht : t ∈ ts) {d : Diagnostic} (hd : d ∈ t.findings) : d ∈ arrivals (ofDumps cs s dumps) := by
  have hnames : (ts.map (·.checker.name)).Nodup := by
    rw [names_eq, ofDumps_checkers hts]
    exact hcs
  refine List.mem_flatMap.mpr ⟨ts, hts, ?_⟩
  rw [filed_eq hnames, List.flatMap_map]
  exact List.mem_flatMap.mpr ⟨t, ht, hd⟩

end Turn

/-- The checkers that are selected by name, or all of them. -/
def Registry.selected (registry : Registry) (names : Option (List String)) : List Checker :=
  match names with
  | none => registry.checkers
  | some names => names.filterMap (Table.get? registry)

namespace Registry

/-- Every checker is registered under its own name, and no name has two checkers. -/
structure Named (registry : Registry) : Prop where
  nodup : (Table.names registry).Nodup
  own : ∀ entry ∈ registry, entry.2.name = entry.1

theorem Named.register {registry : Registry} (h : registry.Named) (c : Checker) :
    (registry.register c).Named := by
  constructor
  · exact Table.nodup_set h.nodup _ _
  · intro entry hentry
    rcases Table.mem_of_mem_set hentry with hentry | rfl
    · exact h.own entry hentry
    · rfl

theorem named_ofList (cs : List Checker) : (ofList cs).Named := by
  have hfold : ∀ registry : Registry, registry.Named → (cs.foldl Registry.register registry).Named := by
    induction cs with
    | nil => exact fun registry h => h
    | cons c rest ih => exact fun registry h => ih _ (h.register c)
  exact hfold [] ⟨List.nodup_nil, fun entry hentry => absurd hentry List.not_mem_nil⟩

/-- A selection that names each checker at most once selects no checker twice. -/
theorem Named.nodup_selected {registry : Registry} (h : registry.Named)
    {names : Option (List String)} (honce : ∀ ns ∈ names, ns.Nodup) :
    ((registry.selected names).map (·.name)).Nodup := by
  cases names with
  | none =>
    have hnames : (registry.selected none).map (·.name) = Table.names registry := by
      rw [selected, checkers, List.map_map]
      exact List.map_congr_left h.own
    rw [hnames]
    exact h.nodup
  | some ns =>
    have hsub : ∀ ns : List String,
        ((ns.filterMap (Table.get? registry)).map (·.name)).Sublist ns := by
      intro ns
      induction ns with
      | nil => exact List.Sublist.slnil
      | cons name rest ih =>
        rw [List.filterMap_cons]
        cases hget : Table.get? registry name with
        | none => exact ih.cons _
        | some c =>
          have hname : c.name = name := h.own _ (Table.mem_of_get? hget)
          rw [List.map_cons, hname]
          exact ih.cons_cons _
    exact (honce ns rfl).sublist (hsub ns)

end Registry

/-- The settings in which a request begins. -/
def AddonRequest.settings (request : AddonRequest) : Settings :=
  ⟨Addon.globalRules request.suppress, request.options.getD []⟩

/-- The turns of a request on each configuration of these dumps. -/
def AddonRequest.turns (request : AddonRequest) (registry : Registry)
    (dumps : List (String × Dump)) : List (List Turn) :=
  Turn.ofDumps (registry.selected request.checkers) request.settings dumps

end FinalParams
