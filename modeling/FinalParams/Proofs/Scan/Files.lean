import FinalParams.Proofs.Scan.Exact
import Mathlib.Data.List.Induction
import Mathlib.Data.List.Infix

/-!
# In which file a violation lies

A target with a file keeps it.  A target without one is put into the compilation unit that was seen
last, and `scan_filed` says so for every tree, whatever its compilation units contain.  Where every
compilation unit before a position lies around it, the one seen last is the innermost one around
it.  Behind the end of a nested compilation unit it is not: `siblingSample_filed` is an assignment
that is put into a file next to its own.
-/

namespace FinalParams

theorem lt_of_prefix_of_ne {q p : Position} (h : q <+: p) (hne : q ≠ p) : q < p := by
  obtain ⟨r, rfl⟩ := h
  induction q with
  | nil =>
    cases r with
    | nil => exact absurd rfl hne
    | cons i r => exact List.nil_lt_cons _ _
  | cons i q ih =>
    refine List.cons_lt_cons_iff.mpr (.inr ⟨rfl, ih ?_⟩)
    intro he
    exact hne (congrArg (i :: ·) he)

namespace Node

/-- The innermost compilation unit at or around `p` has this path.  Where none is around there is no
path. -/
def EnclosingPath (n : Node) (p : Position) (path : Datum) : Prop :=
  (∃ q cs loc, q <+: p ∧ n.nodeAt? q = some (file path cs loc) ∧
      ∀ q' path' cs' loc', q' <+: p → n.nodeAt? q' = some (file path' cs' loc') → q' <+: q)
    ∨ path = .text "" ∧
      ∀ q path' cs loc, q <+: p → n.nodeAt? q ≠ some (file path' cs loc)

/-- The violation comes from the node at `p`, whose target lies at `loc`.  Before `p` the compilation
unit at `last` was seen last, and `own` is the innermost one around it. -/
structure FiledAt (m : Mutations) (n : Node) (p : Position) (v : Violation) (loc : Loc)
    (last own : Datum) : Prop where
  writes : ∃ c, n.nodeAt? p = some c ∧ c.Writes m v.ident loc v.op
  seen : n.LastPath p last
  around : n.EnclosingPath p own
  kept : loc.file.truthy = true → v.loc = loc
  filled : loc.file = .text "" → ∀ s, last = .text s → v.loc = { loc with file := last }
  /-- If all compilation units that were seen are around `p`, the last one is its own. -/
  enclosed : (∀ q path cs l, q < p → n.nodeAt? q = some (file path cs l) → q <+: p) → last = own

variable {n : Node} {p : Position}

/-! ## The innermost compilation unit -/

theorem exists_enclosingPath (n : Node) (p : Position) : ∃ path, n.EnclosingPath p path := by
  induction p using List.reverseRecOn with
  | nil =>
    by_cases h : ∃ path cs loc, n.nodeAt? [] = some (file path cs loc)
    · obtain ⟨path, cs, loc, hn⟩ := h
      exact ⟨path, .inl ⟨[], cs, loc, List.prefix_rfl, hn, fun q _ _ _ hq _ => hq⟩⟩
    · refine ⟨.text "", .inr ⟨rfl, ?_⟩⟩
      intro q path cs loc hq hn
      obtain rfl := List.prefix_nil.mp hq
      exact h ⟨path, cs, loc, hn⟩
  | append_singleton p i ih =>
    by_cases h : ∃ path cs loc, n.nodeAt? (p ++ [i]) = some (file path cs loc)
    · obtain ⟨path, cs, loc, hn⟩ := h
      exact ⟨path, .inl ⟨p ++ [i], cs, loc, List.prefix_rfl, hn, fun q _ _ _ hq _ => hq⟩⟩
    · have habove : ∀ q path cs loc, q <+: p ++ [i] → n.nodeAt? q = some (file path cs loc) →
          q <+: p := by
        intro q path cs loc hq hn
        rcases List.prefix_concat_iff.mp hq with rfl | hq
        · exact absurd ⟨path, cs, loc, hn⟩ h
        · exact hq
      obtain ⟨path, ⟨q, cs, loc, hq, hn, hnear⟩ | ⟨rfl, hnone⟩⟩ := ih
      · refine ⟨path, .inl ⟨q, cs, loc, hq.trans (List.prefix_append ..), hn, ?_⟩⟩
        intro q' path' cs' loc' hq' hn'
        exact hnear q' path' cs' loc' (habove q' path' cs' loc' hq' hn') hn'
      · refine ⟨.text "", .inr ⟨rfl, ?_⟩⟩
        intro q path cs loc hq hn
        exact hnone q path cs loc (habove q path cs loc hq hn) hn

theorem enclosingPath_unique {path path' : Datum} (h : n.EnclosingPath p path)
    (h' : n.EnclosingPath p path') : path = path' := by
  rcases h with ⟨q, cs, loc, hq, hn, hnear⟩ | ⟨rfl, hnone⟩
  · rcases h' with ⟨q', cs', loc', hq', hn', hnear'⟩ | ⟨-, hnone'⟩
    · have hle := hnear q' path' cs' loc' hq' hn'
      have hge := hnear' q path cs loc hq hn
      obtain rfl := hle.eq_of_length_le hge.length_le
      rw [hn] at hn'
      cases hn'
      rfl
    · exact absurd hn (hnone' q path cs loc hq)
  · rcases h' with ⟨q', cs', loc', hq', hn', -⟩ | ⟨rfl, -⟩
    · exact absurd hn' (hnone q' path' cs' loc' hq')
    · rfl

/-- If all compilation units before `p` are around it, the last of them is the innermost one. -/
theorem LastPath.enclosing {path : Datum} (h : n.LastPath p path)
    (hp : ∀ path cs loc, n.nodeAt? p ≠ some (file path cs loc))
    (hbefore : ∀ q path cs l, q < p → n.nodeAt? q = some (file path cs l) → q <+: p) :
    n.EnclosingPath p path := by
  have hlt : ∀ q path cs loc, q <+: p → n.nodeAt? q = some (file path cs loc) → q < p := by
    intro q path cs loc hq hn
    apply lt_of_prefix_of_ne hq
    rintro rfl
    exact hp path cs loc hn
  rcases h with ⟨q, cs, loc, hq, hn, hlast⟩ | ⟨rfl, hnone⟩
  · refine .inl ⟨q, cs, loc, hbefore q path cs loc hq hn, hn, ?_⟩
    intro q' path' cs' loc' hq' hn'
    rcases List.prefix_or_prefix_of_prefix hq' (hbefore q path cs loc hq hn) with hle | hge
    · exact hle
    · by_cases he : q = q'
      · exact he ▸ List.prefix_rfl
      · exact absurd hn'
          (hlast q' path' cs' loc' (lt_of_prefix_of_ne hge he) (hlt q' path' cs' loc' hq' hn'))
  · refine .inr ⟨rfl, ?_⟩
    intro q path cs loc hq hn
    exact hnone q path cs loc (hlt q path cs loc hq hn) hn

theorem Writes.not_file {m : Mutations} {i : Identifier} {loc : Loc} {op : Datum} {c : Node}
    (h : c.Writes m i loc op) (path : Datum) (cs : List Node) (l : Loc) : c ≠ file path cs l := by
  rcases h with ⟨value, text, l', rfl, -⟩ | ⟨leading, text, l', rfl, -⟩ <;> exact nofun

/-- A violation that is found at a frame lies in the last compilation unit before it. -/
theorem filedAt_of_frames {m : Mutations} {watched : Option Watched} {v : Violation}
    {before after : List Frame} {f : Frame} (h : n.frames none = before ++ f :: after)
    (hv : f.node.violation? m (Scan.pathAfterAll (.text "") before) watched = .ok (some v)) :
    ∃ loc last own, n.FiledAt m f.pos v loc last own := by
  obtain ⟨w, loc, -, hwritten, -, hloc⟩ := violation?_eq_some hv
  have hwrites := written?_eq_some.mp hwritten
  have hmem : f ∈ n.frames none := by
    rw [h]
    exact List.mem_append_right _ (List.mem_cons_self ..)
  have hnode := (mem_frames_iff.mp hmem).1
  have hlast := Scan.lastPath_of_frames h
  obtain ⟨own, hown⟩ := exists_enclosingPath n f.pos
  refine ⟨loc, _, own, ⟨f.node, hnode, hwrites⟩, hlast, hown, ?_, ?_, ?_⟩
  · intro hfile
    rw [hloc, Loc.inFile_of_truthy hfile]
  · intro hfile s hs
    rw [hloc, hs, Loc.inFile_of_empty hfile]
  · intro hbefore
    have hp : ∀ path cs l, n.nodeAt? f.pos ≠ some (file path cs l) := by
      intro path cs l hn
      exact hwrites.not_file path cs l (Option.some.inj (hnode.symm.trans hn))
    exact enclosingPath_unique (hlast.enclosing hp hbefore) hown

end Node

/-- Whatever the tree, a search yields violations in pre-order, each from the node at its position
and in the file of its target or, if that has none, of the compilation unit seen last. -/
theorem scan_filed (n : Node) (m : Mutations) (inherited : Option Watched) :
    ∃ rows : List (Position × Violation),
      (n.scan m inherited).violations = rows.map (·.2)
        ∧ rows.Pairwise (fun a b => a.1 < b.1)
        ∧ ∀ p v, (p, v) ∈ rows → ∃ loc last own, n.FiledAt m p v loc last own := by
  obtain ⟨before, after, error, hsplit, -, hsweep, -⟩ :=
    Scan.sweep_split m inherited (.text "") [] (n.frames none)
  refine ⟨Scan.rows m inherited (.text "") before, ?_, ?_, ?_⟩
  · rw [Scan.scan_eq_sweep, hsweep]
    rfl
  · have hsorted := n.frames_pairwise none
    rw [hsplit] at hsorted
    exact Scan.rows_pairwise m inherited (.text "") (List.pairwise_append.mp hsorted).1
  · intro p v hrow
    obtain ⟨front, f, back, rfl, rfl, hv⟩ := Scan.mem_rows_iff.mp hrow
    rw [List.append_assoc, List.cons_append] at hsplit
    exact Node.filedAt_of_frames hsplit hv

/-- `f(x) { x = 1; }` in `a.c`, behind a compilation unit `b.c` that is nested in `a.c`.  No name has
a file. -/
def siblingSample : Node :=
  .file (.text "a.c")
    [.file (.text "b.c") [] {},
      .callable (.text "f") (some [some { name := .text "x", binding := .int 1 }])
        (some (.block [.assign (.ref (.text "x") (.int 1) {}) none (.text "=") (.text "x = 1") {}] {}))
        (.text "function") {}] {}

/-- The assignment to the name without a file lies in `a.c` alone, and it is reported in `b.c`. -/
theorem siblingSample_filed :
    (siblingSample.scan {} none).violations.map (fun v => (v.ident, v.loc, v.op))
        = [(⟨.text "x", .int 1⟩, ⟨.text "b.c", .int 0, .int 0⟩, .text "=")]
      ∧ (∃ c, siblingSample.nodeAt? [1, 0, 0] = some c
        ∧ c.Writes {} ⟨.text "x", .int 1⟩ ⟨.text "", .int 0, .int 0⟩ (.text "="))
      ∧ ∀ path, siblingSample.EnclosingPath [1, 0, 0] path ↔ path = .text "a.c" := by
  have hown : siblingSample.EnclosingPath [1, 0, 0] (.text "a.c") := by
    refine .inl ⟨[], _, _, List.nil_prefix, rfl, ?_⟩
    intro q path cs loc hq hn
    have hcases : q = [] ∨ q = [1] ∨ q = [1, 0] ∨ q = [1, 0, 0] := by
      simpa using (List.mem_inits q [1, 0, 0]).mpr hq
    obtain rfl | rfl | rfl | rfl := hcases
    · exact List.prefix_rfl
    · cases hn
    · cases hn
    · cases hn
  refine ⟨by decide +kernel, ⟨_, rfl, .inl ⟨none, _, _, rfl, .inl rfl⟩⟩, ?_⟩
  intro path
  constructor
  · exact fun h => Node.enclosingPath_unique h hown
  · rintro rfl
    exact hown

end FinalParams
