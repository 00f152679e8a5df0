import FinalParams.Proofs.Scan.Sweep
import FinalParams.Proofs.Tree.WellFormed

/-!
# Searching for plain assignments alone

A search that looks for plain assignments alone makes the same visits in the same order as one that
looks for other mutations too.  `scan_plainOnly` says that it finds exactly those that the other one
finds with the operator `=`, and ends in the same way.

It could differ only where a mutation that it passes over ends the other search, or where a step is
written like an assignment.  Neither can be in a tree in which mutations carry their texts and names
can be looked up.
-/

namespace FinalParams

/-- The violation is a plain assignment. -/
def Violation.isPlain (v : Violation) : Bool := v.op.isText "="

namespace Node

/-- A mutation can be quoted and a name can be looked up, and a step is not written `=`. -/
def Searchable : Node → Prop
  | assign _ _ _ text _ => text.truthy = true
  | update _ op _ text _ => text.truthy = true ∧ op.isText "=" = false
  | ref name binding _ => ∃ k, (Identifier.mk name binding).keys? = .ok k
  | _ => True

theorem written?_plainOnly {n : Node} (h : n.Searchable) (m : Mutations) :
    n.written? .plainOnly = (n.written? m).filter fun w => w.2.isText "=" := by
  cases n with
  | assign target value op text loc =>
    simp only [written?, Mutations.plainOnly, Bool.or_false]
    by_cases hop : op.isText "=" = true
    · simp [Option.filter_some, hop]
    · by_cases hm : m.compound = true <;> simp [Option.filter_some, hop, hm]
  | update target op leading text loc =>
    obtain ⟨-, hop⟩ := h
    by_cases hm : m.steps = true <;>
      simp [written?, Mutations.plainOnly, Option.filter_some, hop, hm]
  | _ => rfl

theorem Searchable.sourceText_ok {m : Mutations} {n : Node} {w : Node × Datum} (h : n.Searchable)
    (hw : n.written? m = some w) : ∃ text, n.sourceText = .ok text := by
  cases n with
  | assign target value op text loc =>
    have ht : text.truthy = true := h
    exact ⟨text, by rw [sourceText, if_pos ht]⟩
  | update target op leading text loc => exact ⟨text, by rw [sourceText, if_pos h.1]⟩
  | _ => cases hw

theorem exists_written_of_offence {m : Mutations} {watched : Option Watched} {n : Node}
    {offence : Identifier × Loc × Datum} (h : n.offence? m watched = .ok (some offence)) :
    ∃ w, n.written? m = some w := by
  unfold offence? at h
  split at h
  · exact ⟨_, by assumption⟩
  · cases h

/-- Passing over a mutation changes nothing else about a node. -/
theorem offence?_plainOnly {n : Node} (hn : n.Searchable) (hc : ∀ c ∈ n.children, c.Searchable)
    (m : Mutations) (watched : Option Watched) :
    ∃ o, n.offence? m watched = .ok o
      ∧ n.offence? .plainOnly watched = .ok (o.filter fun x => x.2.2.isText "=") := by
  unfold offence?
  rw [written?_plainOnly hn m]
  cases watched with
  | none => exact ⟨none, rfl, rfl⟩
  | some w =>
    cases hw : n.written? m with
    | none => exact ⟨none, rfl, rfl⟩
    | some written =>
      obtain ⟨target, op⟩ := written
      rw [Option.filter_some]
      cases target with
      | ref name binding loc =>
        have hcovers := Watched.covers_ok (hc _ (written?_child hw)) w
        refine ⟨_, by simp only [hcovers, Except.map]; rfl, ?_⟩
        cases hop : op.isText "=" with
        | true =>
          simp only [if_true, hcovers, Except.map]
          split <;> simp [Option.filter_some, hop]
        | false =>
          simp only [Bool.false_eq_true, if_false]
          split <;> simp [Option.filter_some, hop]
      | _ =>
        refine ⟨none, rfl, ?_⟩
        split <;> simp_all

theorem violation?_plainOnly {n : Node} (hn : n.Searchable) (hc : ∀ c ∈ n.children, c.Searchable)
    (m : Mutations) (path : Datum) (watched : Option Watched) :
    ∃ o, n.violation? m path watched = .ok o
      ∧ n.violation? .plainOnly path watched = .ok (o.filter Violation.isPlain) := by
  obtain ⟨o, ho, hplain⟩ := offence?_plainOnly hn hc m watched
  unfold violation?
  rw [ho, hplain]
  cases o with
  | none => exact ⟨none, rfl, rfl⟩
  | some offence =>
    obtain ⟨ident, loc, op⟩ := offence
    obtain ⟨w, hw⟩ := exists_written_of_offence ho
    obtain ⟨text, htext⟩ := hn.sourceText_ok hw
    refine ⟨some ⟨loc.inFile path, ident, text, op⟩, by rw [htext]; rfl, ?_⟩
    rw [Option.filter_some, Option.filter_some, Violation.isPlain]
    split
    · rw [htext]
      rfl
    · rfl

end Node

namespace Scan

/-- A visit passes on the same whatever it looks for. -/
theorem visit_plainOnly {n : Node} (hn : n.Searchable) (hc : ∀ c ∈ n.children, c.Searchable)
    (m : Mutations) (path : Datum) (watched : Option Watched) :
    visit .plainOnly path watched n = (visit m path watched n).map fun v =>
      { v with violation := v.violation.filter Violation.isPlain } := by
  cases n with
  | file own cs loc => rfl
  | callable name params body kind loc =>
    simp only [visit]
    cases Watched.ofParameterList params <;> rfl
  | stray value => rfl
  | _ =>
    obtain ⟨o, ho, hplain⟩ := Node.violation?_plainOnly hn hc m path watched
    simp only [visit, ho, hplain]
    rfl

theorem sweep_plainOnly (m : Mutations) (inherited : Option Watched) {fs : List Frame}
    (h : ∀ f ∈ fs, f.node.Everywhere Node.Searchable) (path : Datum) (found : List Violation) :
    sweep .plainOnly inherited path (found.filter Violation.isPlain) fs
      = { violations := (sweep m inherited path found fs).violations.filter Violation.isPlain
          error := (sweep m inherited path found fs).error } := by
  induction fs generalizing path found with
  | nil => simp [sweep, List.filter_reverse]
  | cons f rest ih =>
    obtain ⟨hn, hc⟩ := Node.everywhere_iff.mp (h f (List.mem_cons_self ..))
    have hchildren : ∀ c ∈ f.node.children, c.Searchable := fun c hmem =>
      (Node.everywhere_iff.mp (hc c hmem)).1
    rw [sweep, sweep, visit_plainOnly hn hchildren m]
    cases visit m path (f.watched inherited) f.node with
    | error e => simp [Except.map, List.filter_reverse]
    | ok v =>
      have hfound : (v.violation.filter Violation.isPlain).toList ++ found.filter Violation.isPlain
          = (v.violation.toList ++ found).filter Violation.isPlain := by
        rw [List.filter_append]
        cases hv : v.violation with
        | none => rfl
        | some x => by_cases hx : x.isPlain = true <;> simp [Option.filter_some, hx]
      simp only [Except.map, hfound]
      exact ih (fun g hg => h g (List.mem_cons_of_mem _ hg)) v.path _

/-- A search for plain assignments alone finds those that a search for more finds, in their order,
and ends as it does. -/
theorem scan_plainOnly {n : Node} (h : n.Everywhere Node.Searchable) (m : Mutations)
    (inherited : Option Watched) :
    n.scan .plainOnly inherited
      = { violations := (n.scan m inherited).violations.filter Violation.isPlain
          error := (n.scan m inherited).error } := by
  rw [scan_eq_sweep, scan_eq_sweep]
  exact sweep_plainOnly m inherited (fun f hf => h.of_nodeAt? (Node.mem_frames_iff.mp hf).1)
    (.text "") []

end Scan
end FinalParams
