import FinalParams.Proofs.Diagnostic.Rules
import Mathlib.Data.Finset.Card

/-!
# Rules as a set

Rules are collected one edit at a time: a rule as it is, one for a file, one for all files, or the
records of a dump.  `sift_edits` says that only the set of the rules matters that the edits ask for.
Edits that ask for the same set leave equally many rules, which drop the same findings, and rules
for the union of two sets drop what the rules for these sets drop one after the other, in any order.

Two rules count as one if they are the same, so the set is one of canonical forms.  One step of the
collection adds the canonical form of its rule to the set and no form twice.
-/

namespace FinalParams

/-- The rule of which all that are the same are versions. -/
def Suppression.canonical (rule : Suppression) : Suppression :=
  ⟨rule.errorId.canonical, rule.file.canonical, rule.line.canonical⟩

/-- The rule of a record that has an id and a line. -/
def SuppressionRecord.rule? (r : SuppressionRecord) : Option Suppression :=
  (Suppression.ofRecord? r).bind Except.toOption

/-- One way to change a list of rules. -/
inductive Edit where
  | single (rule : Suppression)
  | forFile (errorId pattern : Datum)
  | forAll (errorId : Datum)
  | fromRecords (records : List SuppressionRecord)

namespace Edit

/-- The rules after an edit, unless a record has a line that is no number. -/
def apply (rules : Suppressions) : Edit → Except IntegerError Suppressions
  | single rule => .ok (rules.add rule)
  | forFile errorId pattern => .ok (rules.add { errorId, file := pattern })
  | forAll errorId => .ok (rules.add { errorId })
  | fromRecords records =>
    match rules.load records with
    | (rules, none) => .ok rules
    | (_, some e) => .error e

/-- The rules after some edits, where there were none before. -/
def applyAll (edits : List Edit) : Except IntegerError Suppressions := edits.foldlM apply []

/-- The rules that an edit asks for. -/
def rules : Edit → List Suppression
  | single rule => [rule]
  | forFile errorId pattern => [{ errorId, file := pattern }]
  | forAll errorId => [{ errorId }]
  | fromRecords records => records.filterMap SuppressionRecord.rule?

end Edit

namespace Suppressions

/-- The set of rules of a list, without the difference between rules that are the same. -/
def ruleSet (rules : List Suppression) : Finset Suppression :=
  (rules.map Suppression.canonical).toFinset

/-- The findings that are kept by some lists of rules, one after the other. -/
def siftAll (managers : List Suppressions) (ds : List Diagnostic) :
    Except Misfit (List Diagnostic) :=
  managers.foldlM (fun ds rules => sift rules ds) ds

/-- The findings that are kept by these lists of rules are those that are kept by the other ones. -/
structure Interchangeable (managers others : List Suppressions) : Prop where
  agree : ∀ ds kept kept', siftAll managers ds = .ok kept → siftAll others ds = .ok kept' →
    kept = kept'
  /-- Nothing can go wrong where all files are texts. -/
  returns : (∀ rules ∈ managers ++ others, ∀ rule ∈ rules, rule.FileNamed) →
    ∀ ds : List Diagnostic, (∀ d ∈ ds, ∃ path, d.loc.file = .text path) →
      ∃ kept, siftAll managers ds = .ok kept ∧ siftAll others ds = .ok kept

end Suppressions

theorem Suppression.same_iff {a b : Suppression} : a.same b = true ↔ a.canonical = b.canonical := by
  rw [same, Bool.and_eq_true, Bool.and_eq_true, Datum.same_iff, Datum.same_iff, Datum.same_iff,
    canonical, canonical, Suppression.mk.injEq, and_assoc]

namespace Suppressions

variable {rules others : List Suppression}

theorem mem_ruleSet {k : Suppression} : k ∈ ruleSet rules ↔ ∃ rule ∈ rules, rule.canonical = k := by
  rw [ruleSet, List.mem_toFinset, List.mem_map]

theorem ruleSet_append : ruleSet (rules ++ others) = ruleSet rules ∪ ruleSet others := by
  rw [ruleSet, List.map_append, List.toFinset_append]
  rfl

/-! ## What edits leave -/

/-- A rule that is added is in the set, and nothing else changes in the set. -/
theorem ruleSet_add (rules : Suppressions) (rule : Suppression) :
    ruleSet (add rules rule) = ruleSet (rules ++ [rule]) := by
  unfold add
  split
  · rename_i hany
    obtain ⟨other, hmem, hsame⟩ := List.any_eq_true.mp hany
    rw [ruleSet_append, Finset.left_eq_union]
    intro k hk
    obtain ⟨r, hr, rfl⟩ := mem_ruleSet.mp hk
    rw [List.mem_singleton.mp hr]
    exact mem_ruleSet.mpr ⟨other, hmem, Suppression.same_iff.mp hsame⟩
  · rfl

theorem ruleSet_foldl_add (rules : Suppressions) (others : List Suppression) :
    ruleSet (others.foldl add rules) = ruleSet (rules ++ others) := by
  induction others generalizing rules with
  | nil => rw [List.foldl_nil, List.append_nil]
  | cons rule rest ih =>
    rw [List.foldl_cons, ih, ruleSet_append, ruleSet_add, ← ruleSet_append, List.append_assoc,
      List.singleton_append]

theorem pairwise_foldl_add {rules : Suppressions}
    (h : rules.Pairwise fun a b => a.same b = false) (others : List Suppression) :
    (others.foldl add rules).Pairwise fun a b => a.same b = false := by
  induction others generalizing rules with
  | nil => exact h
  | cons rule rest ih => exact ih (pairwise_add h rule)

/-- Rules of which no two are the same are as many as there are in their set. -/
theorem length_eq_card {rules : Suppressions} (h : rules.Pairwise fun a b => a.same b = false) :
    rules.length = (ruleSet rules).card := by
  have hnodup : (rules.map Suppression.canonical).Nodup := by
    refine List.pairwise_map.mpr (h.imp ?_)
    intro a b hab heq
    rw [Suppression.same_iff.mpr heq] at hab
    cases hab
  rw [ruleSet, List.toFinset_card_of_nodup hnodup, List.length_map]

theorem load_eq_foldl_add {records : List SuppressionRecord} {rules rules' : Suppressions}
    (h : load rules records = (rules', none)) :
    rules' = (records.filterMap SuppressionRecord.rule?).foldl add rules := by
  induction records generalizing rules with
  | nil => exact (Prod.mk.inj h).1.symm
  | cons r rest ih =>
    rw [load] at h
    rw [List.filterMap_cons, SuppressionRecord.rule?]
    split at h
    · rename_i hr
      rw [hr]
      exact ih h
    · rename_i rule hr
      rw [hr]
      exact ih h
    · cases h

end Suppressions

namespace Edit

open Suppressions

variable {edits : List Edit} {rules : Suppressions}

/-- An edit adds the rules that it asks for. -/
theorem apply_eq_foldl_add {edit : Edit} {rules' : Suppressions}
    (h : apply rules edit = .ok rules') : rules' = edit.rules.foldl add rules := by
  cases edit with
  | single rule => exact (Except.ok.inj h).symm
  | forFile errorId pattern => exact (Except.ok.inj h).symm
  | forAll errorId => exact (Except.ok.inj h).symm
  | fromRecords records =>
    rw [apply] at h
    split at h
    · rename_i hload
      obtain rfl := Except.ok.inj h
      exact load_eq_foldl_add hload
    · cases h

theorem foldlM_apply_eq {rules' : Suppressions} (h : edits.foldlM apply rules = .ok rules') :
    rules' = (edits.flatMap Edit.rules).foldl add rules := by
  induction edits generalizing rules with
  | nil => exact (Except.ok.inj h).symm
  | cons edit rest ih =>
    rw [List.foldlM_cons] at h
    obtain ⟨middle, hmiddle, h⟩ := exists_of_bind_ok h
    rw [ih h, apply_eq_foldl_add hmiddle, List.flatMap_cons, List.foldl_append]

theorem ruleSet_applyAll (h : applyAll edits = .ok rules) :
    ruleSet rules = ruleSet (edits.flatMap Edit.rules) := by
  rw [foldlM_apply_eq h, ruleSet_foldl_add, List.nil_append]

theorem length_applyAll (h : applyAll edits = .ok rules) :
    rules.length = (ruleSet rules).card := by
  apply length_eq_card
  rw [foldlM_apply_eq h]
  exact pairwise_foldl_add List.Pairwise.nil _

end Edit

namespace Suppressions

variable {rules others : List Suppression} {managers : List Suppressions} {ds : List Diagnostic}

/-! ## What rules drop -/

theorem suppresses_of_ruleSet_subset (h : ruleSet rules ⊆ ruleSet others) {d : Diagnostic}
    (hd : suppresses rules d = true) : suppresses others d = true := by
  obtain ⟨rule, hrule, hcovers⟩ := List.any_eq_true.mp hd
  obtain ⟨other, hother, hsame⟩ := mem_ruleSet.mp (h (mem_ruleSet.mpr ⟨rule, hrule, rfl⟩))
  refine List.any_eq_true.mpr ⟨other, hother, ?_⟩
  rw [Suppression.covers_congr (Suppression.same_iff.mpr hsame), hcovers]

/-- What is kept depends on the set of the rules alone. -/
theorem keep_congr (h : ruleSet rules = ruleSet others) (ds : List Diagnostic) :
    keep rules ds = keep others ds := by
  have hsuppresses : suppresses rules = suppresses others := by
    funext d
    rw [Bool.eq_iff_iff]
    exact ⟨suppresses_of_ruleSet_subset h.subset, suppresses_of_ruleSet_subset h.symm.subset⟩
  rw [keep, keep, hsuppresses]

theorem keep_nil (ds : List Diagnostic) : keep [] ds = ds := List.filter_eq_self.mpr fun _ _ => rfl

theorem keep_append (rules others : List Suppression) (ds : List Diagnostic) :
    keep (rules ++ others) ds = keep others (keep rules ds) := by
  rw [keep, keep, keep, List.filter_filter]
  congr 1
  funext d
  rw [suppresses, List.any_append, Bool.not_or, Bool.and_comm]
  rfl

/-- Lists of rules that are tried one after the other keep what all of their rules keep. -/
theorem eq_keep_of_siftAll {kept : List Diagnostic} (h : siftAll managers ds = .ok kept) :
    kept = keep managers.flatten ds := by
  induction managers generalizing ds with
  | nil =>
    obtain rfl := Except.ok.inj h
    exact (keep_nil ds).symm
  | cons rules rest ih =>
    rw [siftAll, List.foldlM_cons] at h
    obtain ⟨middle, hmiddle, h⟩ := exists_of_bind_ok h
    rw [ih h, (sift_ok_iff.mp hmiddle).2, List.flatten_cons, keep_append]

theorem siftAll_of_texts (hrules : ∀ rules ∈ managers, ∀ rule ∈ rules, rule.FileNamed)
    (hds : ∀ d ∈ ds, ∃ path, d.loc.file = .text path) :
    siftAll managers ds = .ok (keep managers.flatten ds) := by
  induction managers generalizing ds with
  | nil => exact congrArg Except.ok (keep_nil ds).symm
  | cons rules rest ih =>
    have hkept : ∀ d ∈ keep rules ds, ∃ path, d.loc.file = .text path :=
      fun d hd => hds d (mem_keep.mp hd).1
    have hrest := ih (fun rules hr => hrules rules (List.mem_cons_of_mem _ hr)) hkept
    rw [siftAll, List.foldlM_cons, sift_of_texts hds (hrules rules (List.mem_cons_self ..))]
    rw [List.flatten_cons, keep_append]
    exact hrest

/-- Lists of rules can be put in the place of others if the union of their sets is the same. -/
theorem interchangeable {managers others : List Suppressions}
    (h : ruleSet managers.flatten = ruleSet others.flatten) : Interchangeable managers others where
  agree := by
    intro ds kept kept' hkept hkept'
    rw [eq_keep_of_siftAll hkept, eq_keep_of_siftAll hkept', keep_congr h]
  returns := by
    intro hrules ds hds
    refine ⟨keep managers.flatten ds, siftAll_of_texts ?_ hds, ?_⟩
    · exact fun rules hr => hrules rules (List.mem_append_left _ hr)
    · rw [keep_congr h]
      exact siftAll_of_texts (fun rules hr => hrules rules (List.mem_append_right _ hr)) hds

/-- Edits leave one rule for each one in the set that they ask for.  If others ask for the same set,
what is kept is the same, and if two others ask for parts of it that make up the set, they keep one
after the other what the edits keep at once. -/
theorem sift_edits {edits edits₁ edits₂ : List Edit} {rules rules₁ rules₂ : Suppressions}
    (h : Edit.applyAll edits = .ok rules) (h₁ : Edit.applyAll edits₁ = .ok rules₁)
    (h₂ : Edit.applyAll edits₂ = .ok rules₂) :
    rules.length = (ruleSet (edits.flatMap Edit.rules)).card
      ∧ (ruleSet (edits.flatMap Edit.rules) = ruleSet (edits₁.flatMap Edit.rules) →
        rules.length = rules₁.length ∧ Interchangeable [rules] [rules₁])
      ∧ (ruleSet (edits.flatMap Edit.rules)
          = ruleSet (edits₁.flatMap Edit.rules) ∪ ruleSet (edits₂.flatMap Edit.rules) →
        Interchangeable [rules] [rules₁, rules₂] ∧ Interchangeable [rules] [rules₂, rules₁]) := by
  rw [← Edit.ruleSet_applyAll h, ← Edit.ruleSet_applyAll h₁, ← Edit.ruleSet_applyAll h₂]
  refine ⟨Edit.length_applyAll h, ?_, ?_⟩
  · intro hset
    refine ⟨?_, interchangeable (by simpa using hset)⟩
    rw [Edit.length_applyAll h, hset, Edit.length_applyAll h₁]
  · intro hset
    refine ⟨interchangeable ?_, interchangeable ?_⟩
    · simpa [ruleSet_append] using hset
    · simpa [ruleSet_append, Finset.union_comm] using hset

/-! ## The same rules in another order -/

/-- Three rules, one of them twice. -/
def mixedEdits : List Edit :=
  [.single { errorId := .text "x" }, .forFile (.text "x") (.text "a.c"),
    .fromRecords [{ errorId := .text "y", fileName := .text "a.c", lineNumber := .text "3" }, {}],
    .forAll (.text "x")]

/-- The records of a dump ask for two of the rules. -/
def recordEdits : List Edit :=
  [.fromRecords [{ errorId := .text "y", fileName := .text "a.c", lineNumber := .int 3 },
    { errorId := .text "x", fileName := .text "a.c" }]]

def otherEdits : List Edit := [.forAll (.text "x"), .forFile (.text "x") (.text "a.c")]

/-- The rules are three in either order, and they keep the same findings. -/
theorem sift_edits_mixedEdits :
    ∃ rules rules' rules₁ rules₂, Edit.applyAll mixedEdits = .ok rules
      ∧ Edit.applyAll (recordEdits ++ otherEdits) = .ok rules'
      ∧ Edit.applyAll recordEdits = .ok rules₁ ∧ Edit.applyAll otherEdits = .ok rules₂
      ∧ rules ≠ rules' ∧ rules.length = 3 ∧ rules.length = rules'.length
      ∧ Interchangeable [rules] [rules']
      ∧ Interchangeable [rules] [rules₁, rules₂] ∧ Interchangeable [rules] [rules₂, rules₁] := by
  have hmixed : Edit.applyAll mixedEdits = .ok [⟨.text "x", .text "", .int 0⟩,
      ⟨.text "x", .text "a.c", .int 0⟩, ⟨.text "y", .text "a.c", .int 3⟩] := by decide +kernel
  have hrecords : Edit.applyAll recordEdits = .ok [⟨.text "y", .text "a.c", .int 3⟩,
      ⟨.text "x", .text "a.c", .int 0⟩] := by decide +kernel
  have hothers : Edit.applyAll otherEdits = .ok [⟨.text "x", .text "", .int 0⟩,
      ⟨.text "x", .text "a.c", .int 0⟩] := by decide +kernel
  have hboth : Edit.applyAll (recordEdits ++ otherEdits) = .ok [⟨.text "y", .text "a.c", .int 3⟩,
      ⟨.text "x", .text "a.c", .int 0⟩, ⟨.text "x", .text "", .int 0⟩] := by decide +kernel
  have hset : ruleSet (mixedEdits.flatMap Edit.rules)
      = ruleSet ((recordEdits ++ otherEdits).flatMap Edit.rules) := by decide +kernel
  have hunion : ruleSet (mixedEdits.flatMap Edit.rules)
      = ruleSet (recordEdits.flatMap Edit.rules) ∪ ruleSet (otherEdits.flatMap Edit.rules) := by
    rw [hset, List.flatMap_append, ruleSet_append]
  obtain ⟨-, hsame, -⟩ := sift_edits hmixed hboth hothers
  obtain ⟨-, -, hparts⟩ := sift_edits hmixed hrecords hothers
  obtain ⟨hlength, heffect⟩ := hsame hset
  obtain ⟨hone, hother⟩ := hparts hunion
  exact ⟨_, _, _, _, hmixed, hboth, hrecords, hothers, by decide, rfl, hlength, heffect, hone,
    hother⟩

end Suppressions

end FinalParams
