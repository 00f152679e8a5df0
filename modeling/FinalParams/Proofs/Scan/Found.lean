import FinalParams.Proofs.Scan.Exact

/-!
# What is found in the parts of a tree

Where no compilation unit lies below the root, one path counts everywhere, and what is found in a
tree is what its root is and then what is found below each of its children.
-/

namespace FinalParams
namespace Node

/-- Nodes of the tree below a compilation unit. -/
def Inner (n : Node) : Prop := n.Sound ∧ ∀ path cs loc, n ≠ file path cs loc

/-- The violation that a node is where this parameter list counts. -/
def own? (m : Mutations) (path : Datum) (around : Option ParameterList) (n : Node) :
    Option Violation :=
  match n.violation? m path (ParameterList.watched none around) with
  | .ok v => v
  | .error _ => none

/-- The violations in a tree in pre-order, all in the file at `path`. -/
def found (m : Mutations) (path : Datum) (around : Option ParameterList) (n : Node) :
    List Violation :=
  (n.frames around).filterMap fun f => f.node.own? m path f.around

theorem filterMap_framesAll (g : Node → Option ParameterList → Option Violation)
    (around : Option ParameterList) (i : Nat) (ns : List Node) :
    (framesAll around i ns).filterMap (fun f => g f.node f.around)
      = ns.flatMap fun n => (n.frames around).filterMap fun f => g f.node f.around := by
  have hstop : ∀ fs : List Frame, fs.filterMap (fun f => g f.node f.around)
      = (fs.map Frame.stop).filterMap fun s => g s.1 s.2 := by
    intro fs
    rw [List.filterMap_map]
    rfl
  rw [hstop, map_stop_framesAll, ← hstop, List.filterMap_flatMap]

theorem found_eq (m : Mutations) (path : Datum) (around : Option ParameterList) (n : Node) :
    n.found m path around = (n.own? m path around).toList
      ++ n.children.flatMap (found m path (n.aroundBelow around)) := by
  unfold found
  rw [frames_eq, List.filterMap_cons, filterMap_framesAll fun n a => n.own? m path a]
  cases own? m path around n <;> rfl

theorem own?_of_written {m : Mutations} {n : Node} {name binding op text : Datum} {loc : Loc}
    (hn : n.written? m = some (ref name binding loc, op))
    (hk : ∃ k, (Identifier.mk name binding).keys? = .ok k) (ht : n.sourceText = .ok text)
    {params : ParameterList} {w : Watched} (hw : Watched.ofParameterList params = .ok w)
    (path : Datum) :
    n.own? m path (some params) = if w.any (Identifier.mk name binding).agrees then
      some ⟨loc.inFile path, ⟨name, binding⟩, text, op⟩ else none := by
  have hwatched : ParameterList.watched none (some params) = some w := by
    simp only [ParameterList.watched, hw, Except.toOption]
  unfold own? violation? offence?
  simp only [hwatched, hn, Watched.covers_ok hk w, Except.map, bind, Except.bind, ht]
  cases w.any (Identifier.mk name binding).agrees <;> rfl

theorem own?_of_not_written {m : Mutations} {n : Node}
    (hn : ∀ name binding loc op, n.written? m ≠ some (ref name binding loc, op)) (path : Datum)
    (around : Option ParameterList) : n.own? m path around = none := by
  have hnone : ∀ watched, n.offence? m watched = .ok none := by
    intro watched
    unfold offence?
    split
    · rename_i w name binding loc op he
      exact absurd he (hn name binding loc op)
    · rfl
  unfold own? violation?
  rw [hnone]
  rfl

theorem own?_callable (m : Mutations) (path : Datum) (around : Option ParameterList)
    (name kind : Datum) (params : ParameterList) (body : Option Node) (loc : Loc) :
    (callable name params body kind loc).own? m path around = none := by
  apply own?_of_not_written
  intro _ _ _ _ he
  cases he

theorem own?_block (m : Mutations) (path : Datum) (around : Option ParameterList)
    (ss : List Node) (loc : Loc) : (block ss loc).own? m path around = none := by
  apply own?_of_not_written
  intro _ _ _ _ he
  cases he

end Node

namespace Scan

theorem rows_of_inner {m : Mutations} {path : Datum} {fs : List Frame}
    (h : ∀ f ∈ fs, f.node.Inner) :
    (rows m none path fs).map (·.2) = fs.filterMap fun f => f.node.own? m path f.around := by
  induction fs with
  | nil => rfl
  | cons f rest ih =>
    have hpath : f.node.pathAfter path = path := by
      cases hn : f.node with
      | file own cs loc => exact absurd hn ((h f (List.mem_cons_self ..)).2 own cs loc)
      | _ => rfl
    rw [rows, hpath, List.map_append, ih fun g hg => h g (List.mem_cons_of_mem _ hg),
      List.filterMap_cons]
    unfold Node.own? Frame.watched
    cases f.node.violation? m path (ParameterList.watched none f.around) with
    | error e => rfl
    | ok o => cases o <;> rfl

/-- What is found in a compilation unit is what is found in its children, in their order. -/
theorem scan_file {cs : List Node} (h : ∀ c ∈ cs, c.Everywhere Node.Inner) (m : Mutations)
    (path : Datum) (loc : Loc) :
    (Node.file path cs loc).scan m none
      = { violations := cs.flatMap (Node.found m path none) } := by
  have hw : (Node.file path cs loc).WellFormed := by
    rw [Node.wellFormed_file]
    exact fun c hc => (h c hc).imp fun _ hi => hi.1
  have hvisited : ∀ f ∈ (Node.file path cs loc).frames none, ∀ path,
      ∃ v, visit m path (f.watched none) f.node = .ok v := fun f hf path =>
    visit_of_wellFormed (hw.of_nodeAt? (Node.mem_frames_iff.mp hf).1) m path _
  have hinner : ∀ f ∈ Node.framesAll none 0 cs, f.node.Inner := by
    intro f hf
    obtain ⟨j, c, g, hc, hg, rfl⟩ := (Node.mem_framesAll_iff 0).mp hf
    exact h c (List.mem_of_getElem? hc) g.pos g.node (Node.mem_frames_iff.mp hg).1
  rw [scan_eq_sweep, sweep_of_visited hvisited, Node.frames_eq, rows, List.map_append]
  show Outcome.mk ([].reverse ++ ([] ++ (rows m none path (Node.framesAll none 0 cs)).map _)) none = _
  rw [rows_of_inner hinner, Node.filterMap_framesAll fun n a => n.own? m path a]
  rfl

end Scan
end FinalParams
