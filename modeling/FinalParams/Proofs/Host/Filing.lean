import FinalParams.Proofs.FirstOccurrences
import FinalParams.Proofs.Host.Trace
import Mathlib.Data.List.Induction

/-!
# Putting any number of reports together

A finding comes with the name of the checker that it is filed under.  What a report holds after any
number of reports were added to it follows from the list of these contributions: those that repeat
none before them are kept, in the order in which they came, and each is filed under its checker.
`foldl_join` says so for every list of reports, whatever checkers and configurations they are from.
-/

namespace FinalParams

namespace Diagnostic

theorem repeats_comm (a b : Diagnostic) : a.repeats b = b.repeats a :=
  Bool.eq_iff_iff.mpr ⟨repeats_symm, repeats_symm⟩

theorem misfit?_eq_none_iff {d : Diagnostic} : d.misfit? = none ↔ d.lookUp = .ok () := by
  unfold misfit?
  cases d.lookUp <;> simp

theorem repeats_self {d : Diagnostic} (h : d.misfit? = none) : d.repeats d = true := by
  have hself : ∀ {x k : Datum}, x.key? = .ok k → x.agrees x = true := fun hk =>
    Datum.agrees_iff.mpr ⟨_, hk, hk⟩
  have hok := misfit?_eq_none_iff.mp h
  obtain ⟨_, hi, hok⟩ := exists_of_bind_ok hok
  obtain ⟨_, hm, hok⟩ := exists_of_bind_ok hok
  obtain ⟨_, hf, hok⟩ := exists_of_bind_ok hok
  obtain ⟨_, hl, hc⟩ := exists_of_bind_ok hok
  obtain ⟨i, hi, -⟩ := exists_of_map_ok hi
  obtain ⟨m, hm, -⟩ := exists_of_map_ok hm
  obtain ⟨f, hf, -⟩ := exists_of_map_ok hf
  obtain ⟨l, hl, -⟩ := exists_of_map_ok hl
  obtain ⟨c, hc, -⟩ := exists_of_map_ok hc
  rw [repeats, Loc.agrees, hself hi, hself hm, hself hf, hself hl, hself hc]
  rfl

/-- Of findings that come into an empty list the first of each kind are held. -/
theorem allNew_nil (ds : List Diagnostic) : allNew [] ds = ds.eraseDupsBy repeats := by
  have hadd : addNew = keepNew fun a b => b.repeats a := rfl
  rw [allNew, hadd, foldl_keepNew]
  congr 1
  funext a b
  exact repeats_comm b a

end Diagnostic

namespace Report

open Diagnostic

/-- The contributions kept after another one came in. -/
def keep : List (String × Diagnostic) → String × Diagnostic → List (String × Diagnostic) :=
  keepNew fun c e => e.2.repeats c.2

/-- The contributions that repeat none before them. -/
def firsts (cs : List (String × Diagnostic)) : List (String × Diagnostic) :=
  cs.eraseDupsBy fun c e => c.2.repeats e.2

/-- A table of findings with another one, at the end of those of its checker. -/
def file (t : Table (List Diagnostic)) (c : String × Diagnostic) : Table (List Diagnostic) :=
  Table.set t c.1 ((Table.get? t c.1).getD [] ++ [c.2])

/-- The findings of these contributions, each under its checker. -/
def filing (cs : List (String × Diagnostic)) : Table (List Diagnostic) := cs.foldl file []

/-- The report holds these contributions. -/
structure Files (r : Report) (kept : List (String × Diagnostic)) : Prop where
  diagnostics : r.diagnostics = kept.map (·.2)
  byChecker : r.byChecker = filing kept

variable {a r : Report} {kept cs : List (String × Diagnostic)}

/-! ## What is kept -/

theorem foldl_keep (cs : List (String × Diagnostic)) : cs.foldl keep [] = firsts cs := by
  rw [keep, foldl_keepNew, firsts]
  congr 1
  funext c e
  exact repeats_comm e.2 c.2

theorem map_firsts (cs : List (String × Diagnostic)) :
    (firsts cs).map (·.2) = (cs.map (·.2)).eraseDupsBy Diagnostic.repeats :=
  (map_eraseDupsBy ..).symm

/-! ## What a report files -/

theorem findings_filing (kept : List (String × Diagnostic)) (checker : String) :
    (Table.get? (filing kept) checker).getD [] = (kept.filter (·.1 == checker)).map (·.2) := by
  induction kept using List.reverseRecOn with
  | nil => rfl
  | append_singleton kept c ih =>
    rw [filing, List.foldl_append, List.foldl_cons, List.foldl_nil, file, Table.get?_set,
      List.filter_append, List.map_append, ← ih]
    by_cases hc : checker = c.1
    · subst hc
      simp [filing]
    · have hc' : (c.1 == checker) = false := by simpa using fun he => hc he.symm
      simp [filing, hc, hc']

theorem Files.addFinding (h : r.Files kept) (c : String × Diagnostic) :
    (r.addFinding c.1 c.2).Files (keep kept c) := by
  have hany : r.diagnostics.any (·.repeats c.2) = kept.any (·.2.repeats c.2) := by
    rw [h.diagnostics, List.any_map]
    rfl
  unfold Report.addFinding keep keepNew
  rw [hany]
  split
  · exact h
  · refine ⟨?_, ?_⟩
    · rw [h.diagnostics, List.map_append]
      rfl
    · rw [filing, List.foldl_append, findingsOf, h.byChecker]
      rfl

theorem Files.addFindings (h : r.Files kept) (cs : List (String × Diagnostic)) :
    (r.addFindings cs).Files (cs.foldl keep kept) := by
  induction cs generalizing r kept with
  | nil => exact h
  | cons c cs ih => exact ih (h.addFinding c)

theorem Files.merge (h : a.Files kept) (b : Report) :
    (a.merge b).Files (b.contributions.foldl keep kept) := by
  obtain ⟨hd, hb⟩ := addCheckers_eq a b.checkers
  have hchecked : (a.addCheckers b.checkers).Files kept :=
    ⟨hd.trans h.diagnostics, hb.trans h.byChecker⟩
  have hfilled := hchecked.addFindings b.contributions
  obtain ⟨hd', hb', -⟩ :=
    addElapsed_eq ((a.addCheckers b.checkers).addFindings b.contributions) b.elapsed
  exact ⟨hd'.trans hfilled.diagnostics, hb'.trans hfilled.byChecker⟩

theorem files_foldl_merge (rs : List Report) :
    (rs.foldl Report.merge {}).Files (firsts (rs.flatMap contributions)) := by
  have hfold : ∀ {a : Report} {kept : List (String × Diagnostic)}, a.Files kept →
      (rs.foldl Report.merge a).Files ((rs.flatMap contributions).foldl keep kept) := by
    induction rs with
    | nil => exact id
    | cons r rs ih =>
      intro a kept h
      rw [List.flatMap_cons, List.foldl_append]
      exact ih (h.merge r)
  rw [← foldl_keep]
  exact hfold ⟨rfl, rfl⟩

/-! ## Names of checkers -/

theorem addCheckers_checkers (r : Report) (names : List String) :
    (r.addCheckers names).checkers
      = names.foldl (keepNew (· == ·)) r.checkers := by
  induction names generalizing r with
  | nil => rfl
  | cons name names ih =>
    have hone : (r.addChecker name).checkers = keepNew (· == ·) r.checkers name := by
      unfold addChecker keepNew
      have hiff : name ∈ r.checkers ↔ r.checkers.any (name == ·) = true := by simp
      simp only [hiff]
      split <;> rfl
    rw [List.foldl_cons, ← hone]
    exact ih (r.addChecker name)

theorem addFindings_checkers (r : Report) (cs : List (String × Diagnostic)) :
    (r.addFindings cs).checkers = r.checkers := by
  induction cs generalizing r with
  | nil => rfl
  | cons c cs ih =>
    refine (ih (r.addFinding c.1 c.2)).trans ?_
    unfold addFinding
    split <;> rfl

theorem merge_checkers (a b : Report) :
    (a.merge b).checkers = b.checkers.foldl (keepNew (· == ·)) a.checkers := by
  rw [Report.merge, (addElapsed_eq _ _).2.2, addFindings_checkers, addCheckers_checkers]

theorem checkers_foldl_merge (rs : List Report) :
    (rs.foldl Report.merge {}).checkers = (rs.flatMap (·.checkers)).eraseDups := by
  have hfold : ∀ a : Report, (rs.foldl Report.merge a).checkers
      = (rs.flatMap (·.checkers)).foldl (keepNew (· == ·)) a.checkers := by
    induction rs with
    | nil => exact fun a => rfl
    | cons r rs ih =>
      intro a
      rw [List.foldl_cons, ih, merge_checkers, List.flatMap_cons, List.foldl_append]
  rw [hfold, List.eraseDups, ← foldl_keepNew]

/-! ## Any number of reports -/

/-- What comes of putting these reports together. -/
structure Joined (rs : List Report) (m : Report) : Prop where
  /-- Of the findings that the reports file, the first of each kind are held, in this order. -/
  diagnostics : m.diagnostics
    = (rs.flatMap fun r => r.byChecker.flatMap (·.2)).eraseDupsBy Diagnostic.repeats
  /-- They are the findings of the contributions that are kept. -/
  kept : m.diagnostics = (firsts (rs.flatMap contributions)).map (·.2)
  /-- A checker has those that are filed under its name where they are kept, in the same order. -/
  findings : ∀ checker, m.findingsOf checker
    = ((firsts (rs.flatMap contributions)).filter (·.1 == checker)).map (·.2)
  checkers : m.checkers = (rs.flatMap (·.checkers)).eraseDups
  /-- No finding is lost and none is held twice. -/
  held : ∀ r ∈ rs, ∀ d ∈ r.byChecker.flatMap (·.2), ∃ e ∈ m.diagnostics, e.repeats d = true
  once : Distinct m.diagnostics
  /-- Any of the reports, if it is added again, adds nothing but its times. -/
  again : ∀ r ∈ rs, ∀ h : Host, ∃ m', (Session.join m r).run h = .ok m' h
    ∧ m'.diagnostics = m.diagnostics ∧ m'.byChecker = m.byChecker ∧ m'.checkers = m.checkers

theorem foldlM_join_ok {rs : List Report} (ha : a.Settled)
    (hrs : ∀ r ∈ rs, ∀ d ∈ r.byChecker.flatMap (·.2), d.misfit? = none) (h : Host) :
    (rs.foldlM Session.join a).run h = .ok (rs.foldl Report.merge a) h
      ∧ (rs.foldl Report.merge a).Settled := by
  induction rs generalizing a with
  | nil => exact ⟨rfl, ha⟩
  | cons r rs ih =>
    have hr := hrs r (List.mem_cons_self ..)
    obtain ⟨hrun, hsettled⟩ :=
      ih (ha.merge hr).2 fun r' hr' => hrs r' (List.mem_cons_of_mem _ hr')
    rw [List.foldlM_cons, run_bind_of_ok (Session.join_ok ha hr h)]
    exact ⟨hrun, hsettled⟩

theorem foldlM_join_returned {rs : List Report} {m : Report} {h h' : Host}
    (hr : (rs.foldlM Session.join a).run h = .ok m h') :
    m = rs.foldl Report.merge a
      ∧ ∀ r ∈ rs, ∀ d ∈ r.byChecker.flatMap (·.2), d.misfit? = none := by
  induction rs generalizing a h with
  | nil =>
    obtain ⟨rfl, -⟩ := EStateM.Result.ok.inj hr
    exact ⟨rfl, fun r hr => absurd hr List.not_mem_nil⟩
  | cons r rs ih =>
    rw [List.foldlM_cons] at hr
    obtain ⟨joined, h₁, hjoin, hr⟩ := exists_of_run_bind_ok hr
    obtain ⟨rfl, rfl, hknown⟩ := Session.join_returned hjoin
    obtain ⟨hm, hrest⟩ := ih hr
    refine ⟨hm, ?_⟩
    intro r' hr'
    rcases List.mem_cons.mp hr' with rfl | hr'
    · exact hknown
    · exact hrest r' hr'

theorem map_contributions (rs : List Report) :
    (rs.flatMap contributions).map (·.2) = rs.flatMap fun r => r.byChecker.flatMap (·.2) := by
  rw [List.map_flatMap]
  exact List.flatMap_congr fun r _ => contributions_map r

/-- A contribution of one of the reports repeats one that is kept. -/
theorem any_firsts {rs : List Report}
    (hrs : ∀ r ∈ rs, ∀ d ∈ r.byChecker.flatMap (·.2), d.misfit? = none) {r : Report} (hr : r ∈ rs)
    {c : String × Diagnostic} (hc : c ∈ r.contributions) :
    (firsts (rs.flatMap contributions)).any (·.2.repeats c.2) = true := by
  have hself : ∀ e ∈ rs.flatMap contributions, e.2.repeats e.2 = true := by
    intro e he
    obtain ⟨r', hr', he⟩ := List.mem_flatMap.mp he
    apply repeats_self
    apply hrs r' hr'
    rw [← contributions_map]
    exact List.mem_map_of_mem he
  obtain ⟨e, he, hce⟩ := exists_first (r := fun c e => c.2.repeats e.2) hself
    (List.mem_flatMap.mpr ⟨r, hr, hc⟩)
  exact List.any_eq_true.mpr ⟨e, he, repeats_symm hce⟩

theorem joined_foldl_merge {rs : List Report}
    (hrs : ∀ r ∈ rs, ∀ d ∈ r.byChecker.flatMap (·.2), d.misfit? = none) :
    Joined rs (rs.foldl Report.merge {}) := by
  obtain ⟨hd, hb⟩ := files_foldl_merge rs
  have hsettled := (foldlM_join_ok settled_empty hrs (.start [] none none {})).2
  refine ⟨?_, hd, ?_, checkers_foldl_merge rs, ?_, hsettled.distinct, ?_⟩
  · rw [hd, map_firsts, map_contributions]
  · intro checker
    rw [findingsOf, hb, findings_filing]
  · intro r hr d hdr
    rw [← contributions_map] at hdr
    obtain ⟨c, hc, rfl⟩ := List.mem_map.mp hdr
    obtain ⟨e, he, hrepeats⟩ := List.any_eq_true.mp (any_firsts hrs hr hc)
    exact ⟨e.2, hd ▸ List.mem_map_of_mem he, hrepeats⟩
  · intro r hr h
    have hagain := (Files.mk hd hb).merge r
    rw [keep, foldl_keepNew_of_kept fun c hc => any_firsts hrs hr hc] at hagain
    refine ⟨_, Session.join_ok hsettled (hrs r hr) h, hagain.diagnostics.trans hd.symm,
      hagain.byChecker.trans hb.symm, ?_⟩
    rw [merge_checkers]
    apply foldl_keepNew_of_kept
    intro name hname
    rw [checkers_foldl_merge]
    simpa using ⟨r, hr, hname⟩

end Report

/-- Reports are put together exactly if all their findings can be looked up.  Whatever the reports
are, the result holds the first finding of each kind, filed under the checker that it came with, and
the names of all checkers. -/
theorem foldlM_join (rs : List Report) (h : Host) :
    ((∃ m h', (rs.foldlM Session.join {}).run h = .ok m h')
        ↔ ∀ r ∈ rs, ∀ d ∈ r.byChecker.flatMap (·.2), d.misfit? = none)
      ∧ ∀ m h', (rs.foldlM Session.join {}).run h = .ok m h' → Report.Joined rs m := by
  refine ⟨⟨?_, ?_⟩, ?_⟩
  · rintro ⟨m, h', hr⟩
    exact (Report.foldlM_join_returned hr).2
  · intro hrs
    exact ⟨_, h, (Report.foldlM_join_ok Report.settled_empty hrs h).1⟩
  · intro m h' hr
    obtain ⟨rfl, hrs⟩ := Report.foldlM_join_returned hr
    exact Report.joined_foldl_merge hrs

/-- The reports of two runs.  In each of them a checker repeats what another one or itself found. -/
def repeatingReports : List Report :=
  let first (line : Int) : Diagnostic :=
    { errorId := .text "x", message := .text "m", severity := .warning,
      loc := { line := .int line }, checker := "first" }
  let second (line : Int) : Diagnostic := { first line with severity := .error, checker := "second" }
  [(({} : Report).record "first" .zero [first 1, first 1]).record "second" .zero [second 1, second 2],
    (({} : Report).record "second" .zero [second 3]).record "first" .zero [first 2, first 4]]

example : (repeatingReports.foldl Report.merge {}).diagnostics.map (fun d => (d.checker, d.loc.line))
    = [("first", .int 1), ("second", .int 2), ("second", .int 3), ("first", .int 4)] := by
  decide

theorem foldlM_join_repeatingReports :
    ∃ m h', (repeatingReports.foldlM Session.join {}).run (.start [] none none {}) = .ok m h'
      ∧ Report.Joined repeatingReports m := by
  obtain ⟨hreturns, hjoined⟩ := foldlM_join repeatingReports (.start [] none none {})
  obtain ⟨m, h', hr⟩ := hreturns.mpr (by decide)
  exact ⟨m, h', hr, hjoined m h' hr⟩

end FinalParams
