import FinalParams.Proofs.Host.ExitStatus
import FinalParams.Proofs.Host.Filing
import Mathlib.Algebra.Ring.Nat

/-!
# The two lists of a report

A report keeps its findings twice, in the order in which they came and for each checker.  Adding a
report to another one adds each finding to both, so the two stay in step, if they are, and stay as
far apart as they are, if they are not.

A run files the findings of a turn in the place of those that the same checker filed before.
`checkConfig_inStep_iff` says that exactly these are missing from the lists of the checkers: the
findings of a turn after which the same checker has another one.
-/

namespace FinalParams

open scoped List

namespace Turn

/-- The findings of the turns after which their checkers have another turn. -/
def overwritten : List Turn → List Diagnostic
  | [] => []
  | t :: rest =>
    if t.checker.name ∈ rest.map (·.checker.name) then t.findings ++ overwritten rest
    else overwritten rest

theorem overwritten_of_nodup {ts : List Turn} (h : (ts.map (·.checker.name)).Nodup) :
    overwritten ts = [] := by
  induction ts with
  | nil => rfl
  | cons t rest ih =>
    rw [List.map_cons, List.nodup_cons] at h
    rw [overwritten, if_neg h.1, ih h.2]

/-- What is filed under a name after these turns. -/
def last (ts : List Turn) (name : String) : List Diagnostic := (Table.get? (filed ts) name).getD []

theorem last_append (ts : List Turn) (t : Turn) (name : String) :
    last (ts ++ [t]) name = if name = t.checker.name then t.findings else last ts name := by
  rw [last, filed_append, Table.get?_set]
  split <;> rfl

theorem last_of_not_mem {ts : List Turn} {name : String}
    (h : name ∉ ts.map (·.checker.name)) : last ts name = [] := by
  induction ts using List.reverseRecOn with
  | nil => rfl
  | append_singleton ts t ih =>
    rw [List.map_append, List.mem_append, not_or] at h
    rw [last_append, if_neg fun he => h.2 (List.mem_singleton.mpr he), ih h.1]

theorem last_cons (t : Turn) (ts : List Turn) {name : String} :
    last (t :: ts) name
      = if name ∉ ts.map (·.checker.name) ∧ name = t.checker.name then t.findings
        else last ts name := by
  induction ts using List.reverseRecOn with
  | nil =>
    have h := last_append [] t name
    simpa using h
  | append_singleton ts u ih =>
    rw [← List.cons_append, last_append, last_append, ih]
    by_cases hu : name = u.checker.name <;> simp [hu]

/-- Another turn overwrites what its checker filed last. -/
theorem overwritten_append (ts : List Turn) (t : Turn) :
    (overwritten (ts ++ [t])).Perm (overwritten ts ++ last ts t.checker.name) := by
  induction ts with
  | nil => exact List.Perm.refl _
  | cons u ts ih =>
    have hsnoc : u.checker.name ∈ (ts ++ [t]).map (·.checker.name)
        ↔ u.checker.name ∈ ts.map (·.checker.name) ∨ t.checker.name = u.checker.name := by
      simp [eq_comm]
    rw [List.cons_append, overwritten, overwritten, last_cons]
    by_cases hu : u.checker.name ∈ ts.map (·.checker.name)
    · rw [if_pos (hsnoc.mpr (.inl hu)), if_pos hu, if_neg fun h => h.1 (h.2 ▸ hu),
        List.append_assoc]
      exact ih.append_left _
    rw [if_neg hu]
    by_cases ht : t.checker.name = u.checker.name
    · have hlast : last ts t.checker.name = [] := last_of_not_mem (ht ▸ hu)
      rw [hlast, List.append_nil] at ih
      rw [if_pos (hsnoc.mpr (.inr ht)), if_pos ⟨ht ▸ hu, ht⟩]
      exact (ih.append_left _).trans List.perm_append_comm
    · rw [if_neg fun h => (hsnoc.mp h).elim hu ht, if_neg fun h => ht h.2]
      exact ih

/-- What the turns find is filed under their checkers, or it is overwritten. -/
theorem filed_perm (ts : List Turn) :
    ((filed ts).flatMap (·.2) ++ overwritten ts).Perm (ts.flatMap findings) := by
  induction ts using List.reverseRecOn with
  | nil => exact List.Perm.refl _
  | append_singleton ts t ih =>
    rw [filed_append, List.flatMap_append, List.flatMap_cons, List.flatMap_nil, List.append_nil]
    have hset := Report.set_perm (filed ts) t.checker.name t.findings
    calc (Table.set (filed ts) t.checker.name t.findings).flatMap (·.2) ++ overwritten (ts ++ [t])
        ~ (Table.set (filed ts) t.checker.name t.findings).flatMap (·.2)
            ++ (last ts t.checker.name ++ overwritten ts) :=
          ((overwritten_append ts t).trans List.perm_append_comm).append_left _
      _ ~ (filed ts).flatMap (·.2) ++ t.findings ++ overwritten ts := by
          rw [← List.append_assoc]
          exact hset.append_right _
      _ ~ (filed ts).flatMap (·.2) ++ overwritten ts ++ t.findings := by
          rw [List.append_assoc, List.append_assoc]
          exact List.perm_append_comm.append_left _
      _ ~ ts.flatMap findings ++ t.findings := ih.append_right _

end Turn

namespace Report

/-- All findings of the report but these are filed under checkers, each checker's in their order. -/
structure FilesBut (r : Report) (missing : List Diagnostic) : Prop where
  filed : (r.byChecker.flatMap (·.2) ++ missing).Perm r.diagnostics
  ordered : ∀ e ∈ r.byChecker, e.2.Sublist r.diagnostics

/-- The lists of the checkers hold what the report holds, each of them in its order. -/
structure InStep (r : Report) : Prop where
  filed : (r.byChecker.flatMap (·.2)).Perm r.diagnostics
  ordered : ∀ e ∈ r.byChecker, e.2.Sublist r.diagnostics
  count : r.diagnostics.length = (r.byChecker.map (·.2.length)).sum

variable {a r : Report} {missing : List Diagnostic}

theorem FilesBut.count (h : r.FilesBut missing) :
    r.diagnostics.length = (r.byChecker.map (·.2.length)).sum + missing.length := by
  rw [← h.filed.length_eq, List.length_append, List.length_flatMap]

theorem FilesBut.inStep_iff (h : r.FilesBut missing) : r.InStep ↔ missing = [] := by
  constructor
  · intro hstep
    have hcount := h.count
    rw [hstep.count] at hcount
    exact List.eq_nil_of_length_eq_zero (by omega)
  · rintro rfl
    have hfiled := h.filed
    rw [List.append_nil] at hfiled
    exact ⟨hfiled, h.ordered, h.count⟩

theorem FilesBut.of_eq (h : a.FilesBut missing) (hd : r.diagnostics = a.diagnostics)
    (hb : r.byChecker = a.byChecker) : r.FilesBut missing := by
  constructor
  · rw [hd, hb]
    exact h.filed
  · rw [hd, hb]
    exact h.ordered

theorem FilesBut.addFinding (h : r.FilesBut missing) (checker : String) (d : Diagnostic) :
    (r.addFinding checker d).FilesBut missing := by
  unfold Report.addFinding
  split
  · exact h
  constructor
  · have hset := (set_findings_perm r.byChecker checker d).append_right missing
    refine hset.trans ?_
    rw [List.append_assoc]
    refine (List.perm_append_comm.append_left _).trans ?_
    rw [← List.append_assoc]
    exact h.filed.append_right [d]
  · intro e he
    rcases Table.mem_of_mem_set he with he | rfl
    · exact (h.ordered e he).trans (List.sublist_append_left ..)
    · refine List.Sublist.append ?_ (List.Sublist.refl [d])
      rw [findingsOf]
      cases hget : Table.get? r.byChecker checker with
      | none => exact List.nil_sublist _
      | some ds => exact h.ordered _ (Table.mem_of_get? hget)

theorem FilesBut.addFindings (h : r.FilesBut missing) (cs : List (String × Diagnostic)) :
    (r.addFindings cs).FilesBut missing := by
  induction cs generalizing r with
  | nil => exact h
  | cons c cs ih => exact ih (h.addFinding c.1 c.2)

/-- Adding a report, even if it does not go through, adds each finding to both lists. -/
theorem FilesBut.mergeUntil (h : a.FilesBut missing) (b : Report) :
    (a.mergeUntil b).1.FilesBut missing := by
  obtain ⟨hd, hb⟩ := addCheckers_eq a b.checkers
  have hchecked := h.of_eq hd hb
  unfold Report.mergeUntil
  split
  · exact h
  split
  · exact hchecked.addFindings _
  · obtain ⟨hd', hb', -⟩ :=
      addElapsed_eq ((a.addCheckers b.checkers).addFindings b.contributions) b.elapsed
    exact (hchecked.addFindings b.contributions).of_eq hd' hb'

theorem FilesBut.foldl_mergeUntil (h : a.FilesBut missing) (rs : List Report) :
    (rs.foldl (fun a b => (a.mergeUntil b).1) a).FilesBut missing := by
  induction rs generalizing a with
  | nil => exact h
  | cons b rs ih => exact ih (h.mergeUntil b)

theorem Recorded.filesBut {ts : List Turn} (h : Recorded {} ts r) :
    r.FilesBut (Turn.overwritten ts) := by
  have hd : r.diagnostics = ts.flatMap Turn.findings := h.diagnostics
  have hb : r.byChecker = Turn.filed ts := h.byChecker
  constructor
  · rw [hd, hb]
    exact Turn.filed_perm ts
  · rw [hd, hb]
    intro e he
    obtain ⟨t, ht, rfl⟩ := Turn.exists_of_mem_filed he
    exact List.sublist_flatten_of_mem (List.mem_map_of_mem ht)

end Report

/-- After a run, and after any reports were added to its report, the lists of the checkers hold what
was not overwritten, each of them in its order.  So they are in step with the list of all findings
exactly if nothing was overwritten, as in a run that selects no checker twice. -/
theorem checkConfig_inStep_iff {h h' : Host} {config : Config} {names : Option (List String)}
    {path : Datum} {r : Report} (hr : (Session.checkConfig config names path).run h = .ok r h')
    (added : List Report) :
    let missing := Turn.overwritten
      (Turn.inOrder (Turn.start path h.settings config) (h.registry.selected names))
    let m := added.foldl (fun a b => (a.mergeUntil b).1) r
    m.FilesBut missing
      ∧ m.diagnostics.length = (m.byChecker.map (·.2.length)).sum + missing.length
      ∧ (m.InStep ↔ missing = [])
      ∧ (h.registry.Named → (∀ ns ∈ names, ns.Nodup) → m.InStep) := by
  intro missing m
  obtain ⟨hrecorded, -⟩ := Session.checkConfig_returned hr
  have hm : m.FilesBut missing := hrecorded.filesBut.foldl_mergeUntil added
  refine ⟨hm, hm.count, hm.inStep_iff, ?_⟩
  intro hnamed honce
  apply hm.inStep_iff.mpr
  apply Turn.overwritten_of_nodup
  rw [Turn.names_eq, Turn.inOrder_checkers]
  exact hnamed.nodup_selected honce

/-- Two checkers that insist on the same finding. -/
def insistingHost : Host :=
  .start (Registry.ofList [insisting "a" .warning, insisting "b" .error]) none none {}

/-- A checker that is selected twice and finds something both times. -/
theorem checkConfig_twice_not_inStep :
    ∃ r h', (Session.checkConfig {} (some ["a", "a"]) (.text "a.c")).run insistingHost = .ok r h'
      ∧ r.diagnostics.length = 2 ∧ r.byChecker.map (·.2.length) = [1] ∧ ¬ r.InStep := by
  have hrun : ((Session.checkConfig {} (some ["a", "a"]) (.text "a.c")).run' insistingHost).map
      (fun r => (r.diagnostics.length, r.byChecker.map (·.2.length))) = some (2, [1]) := by
    decide +kernel
  obtain ⟨r, hr, hfound⟩ := Option.map_eq_some_iff.mp hrun
  obtain ⟨h', hr⟩ := exists_of_run' hr
  obtain ⟨hall, heach⟩ := Prod.mk.inj hfound
  refine ⟨r, h', hr, hall, heach, ?_⟩
  intro hstep
  have hcount := hstep.count
  rw [hall, heach] at hcount
  exact absurd hcount (by decide)

theorem checkConfig_inStep_iff_insistingHost :
    ∃ r h', (Session.checkConfig {} (some ["b", "c", "a"]) (.text "a.c")).run insistingHost
        = .ok r h'
      ∧ (repeatingReports.foldl (fun a b => (a.mergeUntil b).1) r).InStep := by
  obtain ⟨r, h', hr⟩ := exists_of_isSome_run'
    (x := Session.checkConfig {} (some ["b", "c", "a"]) (.text "a.c")) (s := insistingHost)
    (by decide +kernel)
  have hnames : ∀ ns ∈ some ["b", "c", "a"], ns.Nodup := by
    intro ns hns
    obtain rfl := Option.some.inj hns
    decide
  obtain ⟨-, -, -, honce⟩ := checkConfig_inStep_iff hr repeatingReports
  exact ⟨r, h', hr, honce (Registry.named_ofList _) hnames⟩

end FinalParams
