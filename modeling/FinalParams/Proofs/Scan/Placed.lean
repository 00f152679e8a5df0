import FinalParams.Proofs.Scan.Sweep
import FinalParams.Proofs.Tree.WellFormed

/-!
# Where violations lie

A place is plain if its file is a text and its line and column are integers.  Where all names of a
tree lie in plain places so do all violations that are found in it.
-/

namespace FinalParams

/-- The file is a text, and line and column are integers. -/
def Loc.Plain (l : Loc) : Prop := ∃ f m n, l = ⟨.text f, .int m, .int n⟩

theorem Loc.Plain.inFile {l : Loc} (h : l.Plain) {file : Datum} (hf : ∃ s, file = .text s) :
    (l.inFile file).Plain := by
  obtain ⟨f, m, n, rfl⟩ := h
  obtain ⟨s, rfl⟩ := hf
  unfold Loc.inFile
  split
  · exact ⟨s, m, n, rfl⟩
  · exact ⟨f, m, n, rfl⟩

theorem Loc.Plain.reported {l : Loc} (h : l.Plain) (s : String) : (l.reported (.text s)).Plain := by
  obtain ⟨f, m, n, rfl⟩ := h
  unfold Loc.reported
  split
  · exact ⟨f, m, n, rfl⟩
  · exact ⟨s, m, n, rfl⟩

namespace Node

/-- Names lie in plain places, and the paths of compilation units are texts. -/
def Placed : Node → Prop
  | ref _ _ loc => loc.Plain
  | file path _ _ => ∃ s, path = .text s
  | _ => True

/-- A violation lies where a name below the node lies. -/
theorem loc_of_violation {m : Mutations} {path : Datum} {watched : Option Watched} {n : Node}
    {v : Violation} (h : n.violation? m path watched = .ok (some v)) :
    ∃ name binding loc, ref name binding loc ∈ n.children ∧ v.loc = loc.inFile path := by
  obtain ⟨w, loc, -, hw, -, hloc⟩ := violation?_eq_some h
  exact ⟨_, _, loc, written?_child hw, hloc⟩

end Node

namespace Scan

theorem sweep_placed {m : Mutations} {inherited : Option Watched} {fs : List Frame}
    (h : ∀ f ∈ fs, f.node.Everywhere Node.Placed) {path : Datum} (hp : ∃ s, path = .text s)
    {found : List Violation} (hf : ∀ v ∈ found, v.loc.Plain) :
    ∀ v ∈ (sweep m inherited path found fs).violations, v.loc.Plain := by
  induction fs generalizing path found with
  | nil =>
    intro v hv
    exact hf v (List.mem_reverse.mp hv)
  | cons f rest ih =>
    have hplaced := h f (List.mem_cons_self ..)
    rw [sweep]
    cases hv : visit m path (f.watched inherited) f.node with
    | error e =>
      intro v hv
      exact hf v (List.mem_reverse.mp hv)
    | ok w =>
      obtain ⟨hpath, hviolation⟩ := visit_ok hv
      apply ih fun g hg => h g (List.mem_cons_of_mem _ hg)
      · rw [hpath]
        have hnode := hplaced [] f.node rfl
        cases hn : f.node with
        | file own cs loc =>
          rw [hn] at hnode
          exact hnode
        | _ => exact hp
      · intro v hmem
        rcases List.mem_append.mp hmem with hmem | hmem
        · rw [Option.mem_toList] at hmem
          rw [hmem] at hviolation
          obtain ⟨name, binding, loc, hchild, hloc⟩ := Node.loc_of_violation hviolation
          have hchild := ((Node.everywhere_iff.mp hplaced).2 _ hchild) [] _ rfl
          rw [hloc]
          exact hchild.inFile hp
        · exact hf v hmem

/-- Where all names lie in plain places so do all violations. -/
theorem scan_placed {n : Node} (h : n.Everywhere Node.Placed) (m : Mutations)
    (inherited : Option Watched) : ∀ v ∈ (n.scan m inherited).violations, v.loc.Plain := by
  rw [scan_eq_sweep]
  refine sweep_placed ?_ ⟨"", rfl⟩ fun v hv => absurd hv List.not_mem_nil
  intro f hf
  exact h.of_nodeAt? (Node.mem_frames_iff.mp hf).1

end Scan
end FinalParams
