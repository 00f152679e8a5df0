import FinalParams.Host.Report
import FinalParams.Proofs.Watched

/-!
# Putting reports together

A finding is dropped if it repeats one that is held already.  `mem_allNew_iff` says which findings
are held after a list of them came in, and `Settled.merge` that a report holds exactly these after
another one was added to it, in whatever order its checkers list them.
-/

namespace FinalParams
namespace Diagnostic

theorem repeats_symm {a b : Diagnostic} (h : a.repeats b = true) : b.repeats a = true := by
  simp only [repeats, Loc.agrees, Bool.and_eq_true] at *
  obtain ⟨⟨hi, hm⟩, ⟨hf, hl⟩, hc⟩ := h
  exact ⟨⟨Datum.agrees_symm hi, Datum.agrees_symm hm⟩,
    ⟨Datum.agrees_symm hf, Datum.agrees_symm hl⟩, Datum.agrees_symm hc⟩

theorem repeats_trans {a b c : Diagnostic} (hab : a.repeats b = true) (hbc : b.repeats c = true) :
    a.repeats c = true := by
  simp only [repeats, Loc.agrees, Bool.and_eq_true] at *
  exact ⟨⟨Datum.agrees_trans hab.1.1 hbc.1.1, Datum.agrees_trans hab.1.2 hbc.1.2⟩,
    ⟨Datum.agrees_trans hab.2.1.1 hbc.2.1.1, Datum.agrees_trans hab.2.1.2 hbc.2.1.2⟩,
    Datum.agrees_trans hab.2.2 hbc.2.2⟩

theorem repeats_eq_false {a b c : Diagnostic} (hac : a.repeats c = false)
    (hbc : b.repeats c = true) : a.repeats b = false := by
  rw [Bool.eq_false_iff]
  intro hab
  rw [repeats_trans hab hbc] at hac
  exact absurd hac (by decide)

/-- The findings held after another one came in. -/
def addNew (held : List Diagnostic) (d : Diagnostic) : List Diagnostic :=
  if held.any (·.repeats d) then held else held ++ [d]

/-- The findings held after these came in. -/
def allNew (held ds : List Diagnostic) : List Diagnostic := ds.foldl addNew held

/-- The finding is in the list, and it repeats none of those before it. -/
def IsFirst (ds : List Diagnostic) (d : Diagnostic) : Prop :=
  ∃ before after, ds = before ++ d :: after ∧ ∀ e ∈ before, e.repeats d = false

/-- No finding of the list repeats another one. -/
def Distinct (ds : List Diagnostic) : Prop := ds.Pairwise fun a b => a.repeats b = false

theorem isFirst_cons {e d : Diagnostic} {ds : List Diagnostic} :
    IsFirst (e :: ds) d ↔ d = e ∨ IsFirst ds d ∧ e.repeats d = false := by
  constructor
  · rintro ⟨before, after, hsplit, hnone⟩
    cases before with
    | nil => exact .inl (List.cons.inj hsplit).1.symm
    | cons b before =>
      obtain ⟨rfl, hrest⟩ := List.cons.inj hsplit
      refine .inr ⟨⟨before, after, hrest, ?_⟩, hnone _ (List.mem_cons_self ..)⟩
      exact fun x hx => hnone x (List.mem_cons_of_mem _ hx)
  · rintro (rfl | ⟨⟨before, after, rfl, hnone⟩, he⟩)
    · exact ⟨[], ds, rfl, fun x hx => absurd hx List.not_mem_nil⟩
    · refine ⟨e :: before, after, rfl, ?_⟩
      intro x hx
      rcases List.mem_cons.mp hx with rfl | hx
      · exact he
      · exact hnone x hx

theorem IsFirst.mem {d : Diagnostic} {ds : List Diagnostic} (h : IsFirst ds d) : d ∈ ds := by
  obtain ⟨before, after, rfl, -⟩ := h
  exact List.mem_append_right _ (List.mem_cons_self ..)

/-- Every finding of a list is the first of its kind or repeats an earlier one that is. -/
theorem exists_isFirst {ds : List Diagnostic} {d : Diagnostic} (h : d ∈ ds) :
    IsFirst ds d ∨ ∃ e, IsFirst ds e ∧ e.repeats d = true := by
  induction ds with
  | nil => exact absurd h List.not_mem_nil
  | cons a rest ih =>
    simp only [isFirst_cons]
    rcases List.mem_cons.mp h with rfl | hd
    · exact .inl (.inl rfl)
    · cases had : a.repeats d with
      | true => exact .inr ⟨a, .inl rfl, had⟩
      | false =>
        rcases ih hd with hf | ⟨e, he, hed⟩
        · exact .inl (.inr ⟨hf, rfl⟩)
        · exact .inr ⟨e, .inr ⟨he, repeats_eq_false had hed⟩, hed⟩

theorem mem_addNew_iff {held : List Diagnostic} {a d : Diagnostic} :
    d ∈ addNew held a ↔ d ∈ held ∨ d = a ∧ ∀ e ∈ held, e.repeats d = false := by
  unfold addNew
  by_cases ha : held.any (·.repeats a) = true
  · rw [if_pos ha]
    constructor
    · exact .inl
    · rintro (h | ⟨rfl, hn⟩)
      · exact h
      · obtain ⟨b, hb, hbd⟩ := List.any_eq_true.mp ha
        rw [hn b hb] at hbd
        exact absurd hbd Bool.false_ne_true
  · rw [if_neg ha, List.mem_append, List.mem_singleton]
    refine or_congr_right ⟨?_, And.left⟩
    rintro rfl
    refine ⟨rfl, ?_⟩
    intro e he
    rw [Bool.eq_false_iff]
    intro hed
    exact ha (List.any_eq_true.mpr ⟨e, he, hed⟩)

/-- Nothing that is held repeats `d` after `a` came in exactly if nothing did before and `a` does
not: where `a` is dropped, what it repeats stands for it. -/
theorem forall_addNew_iff {held : List Diagnostic} {a d : Diagnostic} :
    (∀ e ∈ addNew held a, e.repeats d = false)
      ↔ (∀ e ∈ held, e.repeats d = false) ∧ a.repeats d = false := by
  simp only [mem_addNew_iff]
  constructor
  · intro h
    have hheld : ∀ e ∈ held, e.repeats d = false := fun e he => h e (.inl he)
    refine ⟨hheld, ?_⟩
    rw [Bool.eq_false_iff]
    intro had
    have hnone : ∀ e ∈ held, e.repeats a = false := fun e he => repeats_eq_false (hheld e he) had
    rw [h a (.inr ⟨rfl, hnone⟩)] at had
    exact absurd had Bool.false_ne_true
  · intro h e he
    rcases he with he | ⟨rfl, -⟩
    · exact h.1 e he
    · exact h.2

/-- Of several findings that repeat each other only the first one is held, and none if they repeat
one that was held before. -/
theorem mem_allNew_iff {held ds : List Diagnostic} {d : Diagnostic} :
    d ∈ allNew held ds ↔ d ∈ held ∨ IsFirst ds d ∧ ∀ e ∈ held, e.repeats d = false := by
  induction ds generalizing held with
  | nil =>
    constructor
    · exact .inl
    · rintro (h | ⟨h, -⟩)
      · exact h
      · exact absurd h.mem List.not_mem_nil
  | cons a rest ih =>
    show d ∈ allNew (addNew held a) rest ↔ _
    rw [ih, mem_addNew_iff, forall_addNew_iff, isFirst_cons, or_assoc, or_and_right, and_right_comm,
      and_assoc]

theorem allNew_append (held ds es : List Diagnostic) :
    allNew held (ds ++ es) = allNew (allNew held ds) es := List.foldl_append

theorem mem_allNew_congr {held held' ds : List Diagnostic} (h : ∀ d, d ∈ held ↔ d ∈ held')
    (d : Diagnostic) : d ∈ allNew held ds ↔ d ∈ allNew held' ds := by
  simp only [mem_allNew_iff, h]

theorem distinct_addNew {held : List Diagnostic} (h : Distinct held) (d : Diagnostic) :
    Distinct (addNew held d) := by
  unfold addNew
  split
  · exact h
  · rename_i hd
    refine List.pairwise_append.mpr ⟨h, List.pairwise_singleton _ _, ?_⟩
    intro e he b hb
    obtain rfl := List.mem_singleton.mp hb
    rw [Bool.eq_false_iff]
    intro hr
    exact hd (List.any_eq_true.mpr ⟨e, he, hr⟩)

theorem isFirst_iff_of_distinct {ds : List Diagnostic} (h : Distinct ds) {d : Diagnostic} :
    IsFirst ds d ↔ d ∈ ds := by
  constructor
  · exact IsFirst.mem
  · intro hd
    obtain ⟨before, after, rfl⟩ := List.append_of_mem hd
    refine ⟨before, after, rfl, ?_⟩
    intro e he
    exact (List.pairwise_append.mp h).2.2 e he d (List.mem_cons_self ..)

theorem Distinct.perm {ds es : List Diagnostic} (h : Distinct ds) (hp : ds.Perm es) :
    Distinct es := by
  refine hp.pairwise h ?_
  intro a b hab
  rw [Bool.eq_false_iff]
  intro hba
  rw [repeats_symm hba] at hab
  exact absurd hab (by decide)

end Diagnostic

namespace Report

open Diagnostic

theorem addFindings_diagnostics (r : Report) (cs : List (String × Diagnostic)) :
    (r.addFindings cs).diagnostics = allNew r.diagnostics (cs.map (·.2)) := by
  induction cs generalizing r with
  | nil => rfl
  | cons c rest ih =>
    obtain ⟨checker, d⟩ := c
    have hone : (r.addFinding checker d).diagnostics = addNew r.diagnostics d := by
      unfold addFinding addNew
      split <;> rfl
    show ((r.addFinding checker d).addFindings rest).diagnostics = _
    rw [ih, hone]
    rfl

/-- What is filed under a name takes the place of what was filed there. -/
theorem set_perm (t : Table (List Diagnostic)) (checker : String) (ds : List Diagnostic) :
    ((Table.set t checker ds).flatMap (·.2) ++ (Table.get? t checker).getD []).Perm
      (t.flatMap (·.2) ++ ds) := by
  induction t with
  | nil => simp [Table.set]
  | cons entry rest ih =>
    obtain ⟨name, es⟩ := entry
    by_cases hn : name = checker
    · subst hn
      have hget : Table.get? ((name, es) :: rest) name = some es := by simp [Table.get?]
      rw [hget, Table.set, if_pos (beq_self_eq_true _)]
      simp only [Option.getD_some, List.flatMap_cons]
      rw [List.append_assoc es]
      exact List.perm_append_comm.trans (List.perm_append_comm.append_left es)
    · have hget : Table.get? ((name, es) :: rest) checker = Table.get? rest checker := by
        simp [Table.get?, hn]
      rw [hget, Table.set, if_neg (by simpa using hn)]
      simp only [List.flatMap_cons, List.append_assoc]
      exact List.Perm.append_left _ ih

theorem set_findings_perm (t : Table (List Diagnostic)) (checker : String) (d : Diagnostic) :
    ((Table.set t checker ((Table.get? t checker).getD [] ++ [d])).flatMap (·.2)).Perm
      (t.flatMap (·.2) ++ [d]) := by
  have hset := set_perm t checker ((Table.get? t checker).getD [] ++ [d])
  generalize (Table.get? t checker).getD [] = old at hset ⊢
  apply (List.perm_append_right_iff old).mp
  rw [List.append_assoc]
  exact hset.trans (List.perm_append_comm.append_left _)

theorem contributions_map (r : Report) :
    r.contributions.map (·.2) = r.byChecker.flatMap (·.2) := by
  unfold contributions
  rw [List.map_flatMap]
  congr 1
  funext ⟨checker, ds⟩
  rw [List.map_map]
  exact List.map_id _

/-- No finding of the report repeats another one, each of them can be looked up, and each of them is
filed under a checker. -/
structure Settled (r : Report) : Prop where
  distinct : Distinct r.diagnostics
  known : ∀ d ∈ r.diagnostics, d.misfit? = none
  filed : (r.byChecker.flatMap (·.2)).Perm r.diagnostics

theorem settled_empty : Settled {} :=
  ⟨List.Pairwise.nil, fun _ hd => absurd hd List.not_mem_nil, List.Perm.refl _⟩

theorem Settled.addFinding {r : Report} (h : r.Settled) (checker : String) {d : Diagnostic}
    (hd : d.misfit? = none) : (r.addFinding checker d).Settled := by
  unfold Report.addFinding
  split
  · exact h
  · rename_i hn
    refine ⟨?_, ?_, ?_⟩
    · have hdistinct := distinct_addNew h.distinct d
      rw [addNew, if_neg hn] at hdistinct
      exact hdistinct
    · intro e he
      rcases List.mem_append.mp he with he | he
      · exact h.known e he
      · obtain rfl := List.mem_singleton.mp he
        exact hd
    · exact (set_findings_perm r.byChecker checker d).trans (h.filed.append_right [d])

theorem Settled.addFindings {r : Report} (h : r.Settled) {cs : List (String × Diagnostic)}
    (hcs : ∀ c ∈ cs, c.2.misfit? = none) : (r.addFindings cs).Settled := by
  induction cs generalizing r with
  | nil => exact h
  | cons c rest ih =>
    exact ih (h.addFinding c.1 (hcs c (List.mem_cons_self ..)))
      fun c' hc' => hcs c' (List.mem_cons_of_mem _ hc')

theorem addCheckers_eq (r : Report) (checkers : List String) :
    (r.addCheckers checkers).diagnostics = r.diagnostics
      ∧ (r.addCheckers checkers).byChecker = r.byChecker := by
  induction checkers generalizing r with
  | nil => exact ⟨rfl, rfl⟩
  | cons checker rest ih =>
    have hone : (r.addChecker checker).diagnostics = r.diagnostics
        ∧ (r.addChecker checker).byChecker = r.byChecker := by
      unfold addChecker
      split <;> exact ⟨rfl, rfl⟩
    obtain ⟨hd, hb⟩ := ih (r.addChecker checker)
    exact ⟨hd.trans hone.1, hb.trans hone.2⟩

theorem addElapsed_eq (r : Report) (times : Table Elapsed) :
    (times.foldl (fun r (checker, elapsed) => r.addElapsed checker elapsed) r).diagnostics
        = r.diagnostics
      ∧ (times.foldl (fun r (checker, elapsed) => r.addElapsed checker elapsed) r).byChecker
        = r.byChecker
      ∧ (times.foldl (fun r (checker, elapsed) => r.addElapsed checker elapsed) r).checkers
        = r.checkers := by
  induction times generalizing r with
  | nil => exact ⟨rfl, rfl, rfl⟩
  | cons entry rest ih => exact ih (r.addElapsed entry.1 entry.2)

theorem merge_diagnostics (a b : Report) :
    (a.merge b).diagnostics = allNew a.diagnostics (b.byChecker.flatMap (·.2)) := by
  unfold merge
  rw [(addElapsed_eq _ _).1, addFindings_diagnostics, (addCheckers_eq _ _).1, contributions_map]

/-- A report to which another one was added holds what it held and what is new in the other one. -/
theorem Settled.merge {a b : Report} (ha : a.Settled)
    (hb : ∀ d ∈ b.byChecker.flatMap (·.2), d.misfit? = none) :
    a.mergeUntil b = (a.merge b, none) ∧ (a.merge b).Settled := by
  have hcs : ∀ c ∈ b.contributions, c.2.misfit? = none := by
    intro c hc
    apply hb
    rw [← contributions_map]
    exact List.mem_map_of_mem hc
  refine ⟨mergeUntil_eq ha.known hcs, ?_⟩
  have hchecked : (a.addCheckers b.checkers).Settled := by
    obtain ⟨hd, hf⟩ := addCheckers_eq a b.checkers
    refine ⟨?_, ?_, ?_⟩
    · rw [hd]
      exact ha.distinct
    · rw [hd]
      exact ha.known
    · rw [hd, hf]
      exact ha.filed
  have hfilled := hchecked.addFindings hcs
  obtain ⟨hd, hf, -⟩ :=
    addElapsed_eq ((a.addCheckers b.checkers).addFindings b.contributions) b.elapsed
  refine ⟨?_, ?_, ?_⟩
  · rw [Report.merge, hd]
    exact hfilled.distinct
  · rw [Report.merge, hd]
    exact hfilled.known
  · rw [Report.merge, hd, hf]
    exact hfilled.filed

/-- What a settled report adds to another one does not depend on how it is filed. -/
theorem Settled.mem_merge_iff {a b : Report} (hb : b.Settled) {ds : List Diagnostic}
    (hds : b.diagnostics = allNew [] ds) (d : Diagnostic) :
    d ∈ (a.merge b).diagnostics ↔ d ∈ allNew a.diagnostics ds := by
  have hfiled : Distinct (b.byChecker.flatMap (·.2)) := hb.distinct.perm hb.filed.symm
  rw [merge_diagnostics, mem_allNew_iff, mem_allNew_iff, isFirst_iff_of_distinct hfiled,
    hb.filed.mem_iff, hds, mem_allNew_iff]
  simp

end Report
end FinalParams
