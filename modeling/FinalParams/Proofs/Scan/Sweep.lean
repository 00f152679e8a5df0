import FinalParams.Proofs.Sequence
import FinalParams.Proofs.Tree.Frame
import FinalParams.Scan

/-!
# The search as a sweep over frames

The search keeps a list of nodes still to be visited and replaces the first of them by its children.
`run_eq_sweep` says that it visits the frames of the waiting trees one after the other, so that what
is found can be told from the list of frames alone: `sweep_split` tells it from the frames before the
first visit that fails, and `sweep_of_visited` from all frames where no visit fails.
-/

namespace FinalParams

/-- The names that are watched where this parameter list counts, if any does. -/
def ParameterList.watched (inherited : Option Watched) (around : Option ParameterList) :
    Option Watched :=
  match around with
  | none => inherited
  | some params => (Watched.ofParameterList params).toOption

namespace Frame

/-- What a visit looks at. -/
def stop (f : Frame) : Node × Option ParameterList := (f.node, f.around)

def watched (inherited : Option Watched) (f : Frame) : Option Watched :=
  ParameterList.watched inherited f.around

end Frame

namespace Node

theorem written?_child {m : Mutations} {n target : Node} {op : Datum}
    (h : n.written? m = some (target, op)) : target ∈ n.children := by
  cases n with
  | assign t value op' text loc =>
    simp only [written?] at h
    split at h
    · obtain ⟨rfl, -⟩ := Prod.mk.inj (Option.some.inj h)
      exact List.mem_cons_self ..
    · contradiction
  | update t op' leading text loc =>
    simp only [written?] at h
    split at h
    · obtain ⟨rfl, -⟩ := Prod.mk.inj (Option.some.inj h)
      exact List.mem_cons_self ..
    · contradiction
  | _ => cases h

/-- A violation is a watched name that the node mutates, and it lies where the name lies. -/
theorem violation?_eq_some {m : Mutations} {path : Datum} {watched : Option Watched} {n : Node}
    {v : Violation} (h : n.violation? m path watched = .ok (some v)) :
    ∃ w loc, watched = some w ∧ n.written? m = some (ref v.ident.name v.ident.binding loc, v.op)
      ∧ w.covers v.ident = .ok true ∧ v.loc = loc.inFile path := by
  obtain ⟨o, ho, h⟩ := exists_of_bind_ok h
  cases o with
  | none => cases h
  | some offence =>
    obtain ⟨ident, loc, op⟩ := offence
    obtain ⟨text, -, h⟩ := exists_of_bind_ok h
    obtain rfl := Option.some.inj (Except.ok.inj h)
    unfold offence? at ho
    split at ho
    · rename_i w name binding loc' op' hw
      obtain ⟨covered, hc, ho⟩ := exists_of_map_ok ho
      split at ho
      · rename_i hcovered
        cases ho
        exact ⟨w, loc, rfl, hw, hcovered ▸ hc, rfl⟩
      · cases ho
    · cases ho

/-- The path that counts after a node, where `path` counted before it. -/
def pathAfter (path : Datum) : Node → Datum
  | file own _ _ => own
  | _ => path

theorem map_stop_framesAll (around : Option ParameterList) (i : Nat) (ns : List Node) :
    (framesAll around i ns).map Frame.stop = (ns.flatMap (frames around)).map Frame.stop := by
  induction ns generalizing i with
  | nil => simp
  | cons n rest ih =>
    rw [framesAll_cons, List.flatMap_cons, List.map_append, List.map_append, ih, List.map_map]
    rfl

end Node

namespace Scan

/-- One visit after the other, of frames in this order. -/
def sweep (m : Mutations) (inherited : Option Watched) (path : Datum) (found : List Violation) :
    List Frame → Outcome
  | [] => { violations := found.reverse }
  | f :: rest =>
    match visit m path (f.watched inherited) f.node with
    | .error e => { violations := found.reverse, error := some e }
    | .ok v => sweep m inherited v.path (v.violation.toList ++ found) rest

theorem sweep_congr {fs gs : List Frame} (h : fs.map Frame.stop = gs.map Frame.stop)
    (m : Mutations) (inherited : Option Watched) (path : Datum) (found : List Violation) :
    sweep m inherited path found fs = sweep m inherited path found gs := by
  induction fs generalizing gs path found with
  | nil =>
    rw [List.map_nil, eq_comm, List.map_eq_nil_iff] at h
    rw [h]
  | cons f rest ih =>
    cases gs with
    | nil => simp at h
    | cons g rest' =>
      rw [List.map_cons, List.map_cons] at h
      obtain ⟨hf, hr⟩ := List.cons.inj h
      obtain ⟨hn, ha⟩ := Prod.mk.inj hf
      simp only [sweep, Frame.watched, hn, ha]
      cases visit m path (ParameterList.watched inherited g.around) g.node with
      | error e => rfl
      | ok v => exact ih hr v.path _

theorem visit_watched {m : Mutations} {path : Datum} {inherited : Option Watched}
    {around : Option ParameterList} {n : Node} {v : Visit}
    (h : visit m path (ParameterList.watched inherited around) n = .ok v) :
    v.watched = ParameterList.watched inherited (n.aroundBelow around) := by
  cases n with
  | callable name params body kind loc =>
    simp only [visit] at h
    cases hw : Watched.ofParameterList params with
    | error e => simp [hw] at h
    | ok own =>
      simp only [hw, Except.ok.injEq] at h
      rw [← h]
      simp only [Node.aroundBelow, ParameterList.watched, hw]
      rfl
  | file own cs loc =>
    simp only [visit, Except.ok.injEq] at h
    rw [← h]
    rfl
  | stray value => simp [visit] at h
  | _ =>
    simp only [visit] at h
    split at h
    · contradiction
    · rw [← Except.ok.inj h]
      rfl

theorem run_eq_sweep (m : Mutations) (inherited : Option Watched) (path : Datum)
    (found : List Violation) (roots : List (Node × Option ParameterList)) :
    run m path found (roots.map fun r => (r.1, ParameterList.watched inherited r.2))
      = sweep m inherited path found (roots.flatMap fun r => r.1.frames r.2) := by
  induction hs : Node.sizeAll (roots.map (·.1)) using Nat.strongRecOn
    generalizing roots path found with
  | ind s ih =>
    cases roots with
    | nil => simp [run, sweep]
    | cons r rest =>
      obtain ⟨n, around⟩ := r
      rw [List.map_cons, run, List.flatMap_cons, Node.frames_eq, List.cons_append, sweep]
      simp only [Frame.watched]
      cases hv : visit m path (ParameterList.watched inherited around) n with
      | error e => rfl
      | ok v =>
        have hc : n.children.map (·, v.watched)
              ++ rest.map (fun r => (r.1, ParameterList.watched inherited r.2))
            = (n.children.map (·, n.aroundBelow around) ++ rest).map
                fun r => (r.1, ParameterList.watched inherited r.2) := by
          rw [List.map_append, List.map_map, visit_watched hv]
          rfl
        simp only [hc]
        rw [ih _ ?_ v.path _ _ rfl]
        · apply sweep_congr
          rw [List.flatMap_append, List.map_append, List.map_append, Node.map_stop_framesAll,
            List.flatMap_map]
        · rw [← hs, List.map_append, List.map_cons, Node.sizeAll_append, Node.sizeAll,
            Node.size_eq n, List.map_map]
          simp only [Function.comp_def, List.map_id']
          omega

theorem scan_eq_sweep (n : Node) (m : Mutations) (inherited : Option Watched) :
    n.scan m inherited = sweep m inherited (.text "") [] (n.frames none) := by
  have h := run_eq_sweep m inherited (.text "") [] [(n, none)]
  rw [List.flatMap_cons, List.flatMap_nil, List.append_nil] at h
  exact h

/-! ## What a sweep yields -/

/-- The violations of frames in this order, each with its position. -/
def rows (m : Mutations) (inherited : Option Watched) (path : Datum) :
    List Frame → List (Position × Violation)
  | [] => []
  | f :: rest =>
    let here :=
      match f.node.violation? m path (f.watched inherited) with
      | .ok (some v) => [(f.pos, v)]
      | _ => []
    here ++ rows m inherited (f.node.pathAfter path) rest

theorem visit_ok {m : Mutations} {path : Datum} {watched : Option Watched} {n : Node} {v : Visit}
    (h : visit m path watched n = .ok v) :
    v.path = n.pathAfter path ∧ n.violation? m path watched = .ok v.violation := by
  cases n with
  | callable name params body kind loc =>
    simp only [visit] at h
    cases hw : Watched.ofParameterList params with
    | error e => simp [hw] at h
    | ok own =>
      simp only [hw, Except.ok.injEq] at h
      rw [← h]
      cases watched <;> exact ⟨rfl, rfl⟩
  | file own cs loc =>
    simp only [visit, Except.ok.injEq] at h
    rw [← h]
    cases watched <;> exact ⟨rfl, rfl⟩
  | stray value => simp [visit] at h
  | _ =>
    simp only [visit] at h
    split at h
    · contradiction
    · rename_i hv
      rw [← Except.ok.inj h]
      exact ⟨rfl, hv⟩

/-- A sweep visits frames up to the first visit that fails, and yields what is found before. -/
theorem sweep_split (m : Mutations) (inherited : Option Watched) (path : Datum)
    (found : List Violation) (fs : List Frame) :
    ∃ before after error, fs = before ++ after
      ∧ (∀ f ∈ before, ∃ path v, visit m path (f.watched inherited) f.node = .ok v)
      ∧ sweep m inherited path found fs
        = { violations := found.reverse ++ (rows m inherited path before).map (·.2), error }
      ∧ (after = [] ∧ error = none
        ∨ ∃ f rest path e, after = f :: rest
          ∧ visit m path (f.watched inherited) f.node = .error e ∧ error = some e) := by
  induction fs generalizing path found with
  | nil =>
    refine ⟨[], [], none, rfl, fun f hf => absurd hf List.not_mem_nil, ?_, .inl ⟨rfl, rfl⟩⟩
    rw [sweep, rows, List.map_nil, List.append_nil]
  | cons f rest ih =>
    rw [sweep]
    cases hv : visit m path (f.watched inherited) f.node with
    | error e =>
      refine ⟨[], f :: rest, some e, rfl, fun g hg => absurd hg List.not_mem_nil, ?_,
        .inr ⟨f, rest, path, e, rfl, hv, rfl⟩⟩
      rw [rows, List.map_nil, List.append_nil]
    | ok v =>
      obtain ⟨hp, hviolation⟩ := visit_ok hv
      obtain ⟨before, after, error, rfl, hvisited, hsweep, hend⟩ :=
        ih v.path (v.violation.toList ++ found)
      refine ⟨f :: before, after, error, rfl, ?_, ?_, hend⟩
      · intro g hg
        rcases List.mem_cons.mp hg with rfl | hg
        · exact ⟨path, v, hv⟩
        · exact hvisited g hg
      · show sweep m inherited v.path (v.violation.toList ++ found) (before ++ after) = _
        rw [hsweep, hp]
        simp only [rows, hviolation]
        cases v.violation with
        | none => simp
        | some violation => simp

theorem sweep_of_visited {m : Mutations} {inherited : Option Watched} {fs : List Frame}
    (h : ∀ f ∈ fs, ∀ path, ∃ v, visit m path (f.watched inherited) f.node = .ok v)
    (path : Datum) (found : List Violation) :
    sweep m inherited path found fs
      = { violations := found.reverse ++ (rows m inherited path fs).map (·.2) } := by
  obtain ⟨before, after, error, rfl, -, hsweep, hend⟩ := sweep_split m inherited path found fs
  rcases hend with ⟨rfl, rfl⟩ | ⟨f, rest, path', e, rfl, hfail, -⟩
  · rw [hsweep, List.append_nil]
  · obtain ⟨v, hv⟩ := h f (List.mem_append_right _ (List.mem_cons_self ..)) path'
    rw [hv] at hfail
    cases hfail

end Scan
end FinalParams
