import FinalParams.Proofs.Scan.Sweep
import FinalParams.Proofs.Tree.WellFormed

/-!
# What a search finds

A position qualifies if the node there is a mutation that counts, its target is a bare name, and
that name is watched: it agrees with an assignable parameter of the nearest function or lambda
around the position or, outside of all of them, with a name that is watched from outside.

The main statement is `scan_exact`: a search of a well-formed tree ends without an error and yields
one violation for each qualifying position and nothing else, in pre-order, and it says what each
violation carries.
-/

namespace FinalParams
namespace Node

/-- The node is a mutation that counts, and its target is the bare name `i` at `loc`. -/
def Writes (m : Mutations) (i : Identifier) (loc : Loc) (op : Datum) (n : Node) : Prop :=
  (∃ value text l, n = assign (ref i.name i.binding loc) value op text l
      ∧ (op = .text "=" ∨ m.compound = true))
    ∨ ∃ leading text l, n = update (ref i.name i.binding loc) op leading text l
      ∧ m.steps = true

/-- The name `i` is watched at the position `p`, where `inherited` is watched outside of every
function and lambda. -/
def Watches (n : Node) (inherited : Option Watched) (p : Position) (i : Identifier) : Prop :=
  (∃ q params, n.EnclosesNearest q p params ∧ Watched.Assignable params i)
    ∨ (∀ q params, ¬ n.Encloses q p params) ∧
      ∃ j ∈ inherited.getD [], i.agrees j = true

/-- There is a violation at the position `p`. -/
def Qualifies (m : Mutations) (n : Node) (inherited : Option Watched) (p : Position) : Prop :=
  ∃ c i loc op, n.nodeAt? p = some c ∧ c.Writes m i loc op ∧ n.Watches inherited p i

/-- The last compilation unit that comes before `p` in pre-order has this path.  Where none comes
before there is no path. -/
def LastPath (n : Node) (p : Position) (path : Datum) : Prop :=
  (∃ q cs loc, q < p ∧ n.nodeAt? q = some (file path cs loc) ∧
      ∀ q' path' cs' loc', q < q' → q' < p → n.nodeAt? q' ≠ some (file path' cs' loc'))
    ∨ path = .text "" ∧
      ∀ q path' cs loc, q < p → n.nodeAt? q ≠ some (file path' cs loc)

/-- The violation names the target and the operator of the node at `p` and quotes its text.  It lies
where the target lies, and in the last compilation unit if the target has no file. -/
def Describes (m : Mutations) (n : Node) (p : Position) (v : Violation) : Prop :=
  ∃ c loc path, n.nodeAt? p = some c ∧ c.Writes m v.ident loc v.op
    ∧ c.sourceText = .ok v.text ∧ n.LastPath p path ∧ v.loc = loc.inFile path

theorem written?_eq_some {m : Mutations} {n : Node} {name binding op : Datum} {loc : Loc} :
    n.written? m = some (ref name binding loc, op) ↔ n.Writes m ⟨name, binding⟩ loc op := by
  cases n with
  | assign target value op' text l =>
    simp only [written?, Writes]
    by_cases h : op'.isText "=" = true ∨ m.compound = true
    · rw [if_pos (by simpa using h)]
      rw [Datum.isText_iff] at h
      constructor
      · intro he
        obtain ⟨rfl, rfl⟩ := Prod.mk.inj (Option.some.inj he)
        exact .inl ⟨value, text, l, rfl, h⟩
      · rintro (⟨_, _, _, he, -⟩ | ⟨_, _, _, he, -⟩)
        · cases he
          rfl
        · cases he
    · rw [if_neg (by simpa using h)]
      rw [Datum.isText_iff] at h
      constructor
      · intro he
        cases he
      · rintro (⟨_, _, _, he, hop⟩ | ⟨_, _, _, he, -⟩)
        · cases he
          exact absurd hop h
        · cases he
  | update target op' leading text l =>
    simp only [written?, Writes]
    by_cases h : m.steps = true
    · rw [if_pos h]
      constructor
      · intro he
        obtain ⟨rfl, rfl⟩ := Prod.mk.inj (Option.some.inj he)
        exact .inr ⟨leading, text, l, rfl, h⟩
      · rintro (⟨_, _, _, he, -⟩ | ⟨_, _, _, he, -⟩)
        · cases he
        · cases he
          rfl
    · rw [if_neg h]
      simp [h]
  | _ => simp [written?, Writes]

theorem Strewn.target_keys {m : Mutations} {n : Node} {i : Identifier} {loc : Loc} {op : Datum}
    (h : n.Strewn) (hw : n.Writes m i loc op) : ∃ k, i.keys? = .ok k := by
  have htarget : (ref i.name i.binding loc).Sound := by
    rcases hw with ⟨value, text, l, rfl, -⟩ | ⟨leading, text, l, rfl, -⟩
    · exact (h.of_mem_children (List.mem_cons_self ..)).sound nofun
    · exact (h.of_mem_children (List.mem_cons_self ..)).sound nofun
  obtain ⟨⟨s, hs⟩, hb⟩ := htarget
  exact Identifier.keys?_of_isKey (hs ▸ Datum.isKey_text s) hb

theorem Strewn.offence?_ok {m : Mutations} {n : Node} (h : n.Strewn)
    (watched : Option Watched) :
    ∃ o, n.offence? m watched = .ok o ∧ ∀ i loc op, o = some (i, loc, op) ↔
      n.Writes m i loc op ∧ (watched.getD []).any i.agrees = true := by
  cases watched with
  | none => exact ⟨none, rfl, by simp⟩
  | some w =>
    by_cases hw : ∃ i loc op, n.Writes m i loc op
    · obtain ⟨⟨name, binding⟩, loc, op, hw⟩ := hw
      have hwritten := written?_eq_some.mpr hw
      refine ⟨if w.any (Identifier.agrees ⟨name, binding⟩) = true then
        some (⟨name, binding⟩, loc, op) else none, ?_, ?_⟩
      · simp only [offence?, hwritten, Watched.covers_ok (h.target_keys hw) w, Except.map]
      · rintro ⟨name', binding'⟩ loc' op'
        constructor
        · intro ho
          by_cases hc : w.any (Identifier.agrees ⟨name, binding⟩) = true
          · rw [if_pos hc] at ho
            cases ho
            exact ⟨hw, hc⟩
          · rw [if_neg hc] at ho
            cases ho
        · rintro ⟨hw', hc⟩
          rw [← written?_eq_some, hwritten] at hw'
          cases hw'
          exact if_pos hc
    · have hwritten : ∀ (i : Identifier) loc op, n.written? m ≠ some (ref i.name i.binding loc, op) :=
        fun i loc op he => hw ⟨i, loc, op, written?_eq_some.mp he⟩
      refine ⟨none, ?_, fun i loc op => ⟨fun he => (nomatch he), fun ⟨he, _⟩ =>
        absurd ⟨i, loc, op, he⟩ hw⟩⟩
      unfold offence?
      split
      · rename_i name binding loc op _ he
        exact absurd he (hwritten ⟨name, binding⟩ loc op)
      · rfl

theorem Strewn.violation?_ok {m : Mutations} {n : Node} (h : n.Strewn) (path : Datum)
    (watched : Option Watched) :
    ∃ o, n.violation? m path watched = .ok o ∧ ∀ v, o = some v ↔
      ∃ loc, n.Writes m v.ident loc v.op ∧ (watched.getD []).any v.ident.agrees = true
        ∧ n.sourceText = .ok v.text ∧ v.loc = loc.inFile path := by
  obtain ⟨o, ho, hspec⟩ := h.offence?_ok (m := m) watched
  obtain ⟨s, hs⟩ := h.sourceText_ok
  cases o with
  | none =>
    refine ⟨none, by simp [violation?, ho, bind, Except.bind, pure, Except.pure], ?_⟩
    intro v
    constructor
    · intro he
      cases he
    · rintro ⟨loc, hw, hc, -, -⟩
      cases (hspec v.ident loc v.op).mpr ⟨hw, hc⟩
  | some o =>
    obtain ⟨i, loc, op⟩ := o
    obtain ⟨hw, hc⟩ := (hspec i loc op).mp rfl
    refine ⟨some ⟨loc.inFile path, i, .text s, op⟩,
      by simp [violation?, ho, hs, bind, Except.bind, pure, Except.pure], ?_⟩
    intro v
    constructor
    · intro he
      cases he
      exact ⟨loc, hw, hc, hs, rfl⟩
    · rintro ⟨loc', hw', hc', hs', hl⟩
      have he := (hspec v.ident loc' v.op).mpr ⟨hw', hc'⟩
      obtain ⟨rfl, rfl, rfl⟩ : i = v.ident ∧ loc = loc' ∧ op = v.op := by simpa using he
      rw [hs, Except.ok.injEq] at hs'
      rw [hs', ← hl]

end Node

namespace Scan

/-- A visit of a strewn tree fails only where the tree is a stray value itself. -/
theorem visit_of_strewn {n : Node} (h : n.Strewn) (hn : ∀ value, n ≠ .stray value) (m : Mutations)
    (path : Datum) (watched : Option Watched) : ∃ v, visit m path watched n = .ok v := by
  cases n with
  | file own cs loc => exact ⟨_, rfl⟩
  | callable name params body kind loc =>
    obtain ⟨w, hw, -⟩ := h.watched_ok
    exact ⟨_, by simp only [visit, hw]; rfl⟩
  | stray value => exact absurd rfl (hn value)
  | _ =>
    obtain ⟨o, ho, -⟩ := h.violation?_ok (m := m) path watched
    exact ⟨_, by simp only [visit, ho]; rfl⟩

theorem visit_of_wellFormed {n : Node} (h : n.WellFormed) (m : Mutations) (path : Datum)
    (watched : Option Watched) : ∃ v, visit m path watched n = .ok v := by
  apply visit_of_strewn h.strewn
  rintro value rfl
  exact h [] _ rfl

/-- The path that counts after these frames. -/
def pathAfterAll (path : Datum) (fs : List Frame) : Datum :=
  fs.foldl (fun path f => f.node.pathAfter path) path

theorem mem_rows_iff {m : Mutations} {inherited : Option Watched} {path : Datum} {fs : List Frame}
    {p : Position} {v : Violation} :
    (p, v) ∈ rows m inherited path fs ↔ ∃ before f after, fs = before ++ f :: after ∧ f.pos = p ∧
      f.node.violation? m (pathAfterAll path before) (f.watched inherited) = .ok (some v) := by
  induction fs generalizing path with
  | nil => simp [rows]
  | cons g rest ih =>
    rw [rows, List.mem_append, ih]
    constructor
    · rintro (h | ⟨before, f, after, rfl, hp, hv⟩)
      · refine ⟨[], g, rest, rfl, ?_⟩
        split at h
        · rename_i u hu
          obtain ⟨rfl, rfl⟩ := Prod.mk.inj (List.mem_singleton.mp h)
          exact ⟨rfl, hu⟩
        · exact absurd h List.not_mem_nil
      · exact ⟨g :: before, f, after, rfl, hp, hv⟩
    · rintro ⟨before, f, after, hsplit, hp, hv⟩
      cases before with
      | nil =>
        obtain ⟨rfl, rfl⟩ := List.cons.inj hsplit
        refine .inl ?_
        have hv' : g.node.violation? m path (g.watched inherited) = .ok (some v) := hv
        rw [hv', hp]
        exact List.mem_singleton_self _
      | cons b before =>
        obtain ⟨rfl, rfl⟩ := List.cons.inj hsplit
        exact .inr ⟨before, f, after, rfl, hp, hv⟩

/-- What is found, also where the search ends with an error, is found at a frame. -/
theorem exists_frame_of_sweep {m : Mutations} {inherited : Option Watched} {path : Datum}
    {found : List Violation} {fs : List Frame} {v : Violation}
    (h : v ∈ (sweep m inherited path found fs).violations) :
    v ∈ found ∨ ∃ before f after, fs = before ++ f :: after
      ∧ f.node.violation? m (pathAfterAll path before) (f.watched inherited) = .ok (some v) := by
  obtain ⟨visited, after, error, rfl, -, hsweep, -⟩ := sweep_split m inherited path found fs
  rw [hsweep] at h
  rcases List.mem_append.mp h with h | h
  · exact .inl (List.mem_reverse.mp h)
  · obtain ⟨⟨p, v'⟩, hrow, rfl⟩ := List.mem_map.mp h
    obtain ⟨before, f, rest, rfl, -, hv⟩ := mem_rows_iff.mp hrow
    exact .inr ⟨before, f, rest ++ after, by rw [List.append_assoc, List.cons_append], hv⟩

theorem rows_sublist (m : Mutations) (inherited : Option Watched) (path : Datum)
    (fs : List Frame) : ((rows m inherited path fs).map (·.1)).Sublist (fs.map (·.pos)) := by
  induction fs generalizing path with
  | nil => exact List.Sublist.slnil
  | cons f rest ih =>
    rw [rows, List.map_append, List.map_cons]
    cases f.node.violation? m path (f.watched inherited) with
    | error e => exact (ih _).cons _
    | ok o =>
      cases o with
      | none => exact (ih _).cons _
      | some v => exact (ih _).cons_cons _

/-- Frames in pre-order have their violations in pre-order. -/
theorem rows_pairwise (m : Mutations) (inherited : Option Watched) (path : Datum)
    {fs : List Frame} (h : fs.Pairwise fun f g => f.pos < g.pos) :
    (rows m inherited path fs).Pairwise fun a b => a.1 < b.1 :=
  List.pairwise_map.mp
    ((List.pairwise_map.mpr h : (fs.map (·.pos)).Pairwise (· < ·)).sublist (rows_sublist ..))

/-- The path that counts after these frames is that of the last compilation unit among them. -/
theorem pathAfterAll_cases (path : Datum) (fs : List Frame) :
    (∃ before f after cs loc, fs = before ++ f :: after
        ∧ f.node = .file (pathAfterAll path fs) cs loc
        ∧ ∀ g ∈ after, ∀ path' cs' loc', g.node ≠ .file path' cs' loc')
      ∨ pathAfterAll path fs = path ∧ ∀ g ∈ fs, ∀ path' cs' loc', g.node ≠ .file path' cs' loc' := by
  induction fs generalizing path with
  | nil => exact .inr ⟨rfl, fun g hg => absurd hg List.not_mem_nil⟩
  | cons f rest ih =>
    have hstep : pathAfterAll path (f :: rest) = pathAfterAll (f.node.pathAfter path) rest := rfl
    rw [hstep]
    rcases ih (f.node.pathAfter path) with ⟨before, g, after, cs, loc, rfl, hg, hnone⟩ | ⟨hp, hnone⟩
    · exact .inl ⟨f :: before, g, after, cs, loc, rfl, hg, hnone⟩
    · by_cases hf : ∃ own cs loc, f.node = .file own cs loc
      · obtain ⟨own, cs, loc, hf⟩ := hf
        have hown : f.node.pathAfter path = own := by rw [hf]; rfl
        exact .inl ⟨[], f, rest, cs, loc, rfl, by rw [hp, hown, hf], hnone⟩
      · have hsame : f.node.pathAfter path = path := by
          cases hn : f.node with
          | file own cs loc => exact absurd ⟨own, cs, loc, hn⟩ hf
          | _ => rfl
        refine .inr ⟨hp.trans hsame, ?_⟩
        intro g hg path' cs' loc' he
        rcases List.mem_cons.mp hg with rfl | hg
        · exact hf ⟨path', cs', loc', he⟩
        · exact hnone g hg path' cs' loc' he

/-- The path that counts at a position is that of the last compilation unit before it. -/
theorem lastPath_of_frames {n : Node} {before after : List Frame} {f : Frame}
    (h : n.frames none = before ++ f :: after) :
    n.LastPath f.pos (pathAfterAll (.text "") before) := by
  have hsorted := n.frames_pairwise none
  rw [h, List.pairwise_append, List.pairwise_cons] at hsorted
  obtain ⟨hbefore, ⟨hafter, -⟩, hlt⟩ := hsorted
  -- A compilation unit before `f` in pre-order is among the frames before `f`.
  have hmem : ∀ q path cs loc, q < f.pos → n.nodeAt? q = some (.file path cs loc) →
      ⟨q, .file path cs loc, n.aroundAt none q⟩ ∈ before := by
    intro q path cs loc hq hn
    have hin : (⟨q, .file path cs loc, n.aroundAt none q⟩ : Frame) ∈ n.frames none :=
      Node.mem_frames_iff.mpr ⟨hn, rfl⟩
    rw [h, List.mem_append, List.mem_cons] at hin
    rcases hin with hin | rfl | hin
    · exact hin
    · exact absurd hq (List.lt_irrefl _)
    · exact absurd (hafter _ hin) (List.lt_asymm hq)
  rcases pathAfterAll_cases (.text "") before with
    ⟨front, g, back, cs, loc, hsplit, hg, hnone⟩ | ⟨hp, hnone⟩
  · have hgin : g ∈ before := by
      rw [hsplit]
      exact List.mem_append_right _ (List.mem_cons_self ..)
    have hgn : n.nodeAt? g.pos = some g.node := by
      refine (Node.mem_frames_iff.mp (?_ : g ∈ n.frames none)).1
      rw [h]
      exact List.mem_append_left _ hgin
    refine .inl ⟨g.pos, cs, loc, hlt g hgin f (List.mem_cons_self ..), hg ▸ hgn, ?_⟩
    intro q' path' cs' loc' hgq hqf hn
    have hin := hmem q' path' cs' loc' hqf hn
    rw [hsplit, List.pairwise_append] at hbefore
    rw [hsplit, List.mem_append, List.mem_cons] at hin
    rcases hin with hin | heq | hin
    · exact absurd (hbefore.2.2 _ hin g (List.mem_cons_self ..)) (List.lt_asymm hgq)
    · rw [← heq] at hgq
      exact absurd hgq (List.lt_irrefl _)
    · exact hnone _ hin path' cs' loc' rfl
  · refine .inr ⟨hp, ?_⟩
    intro q path' cs loc hq hn
    exact hnone _ (hmem q path' cs loc hq hn) path' cs loc rfl

/-- The names that a visit of a frame has are those that are watched at its position. -/
theorem watched_iff {n : Node} (h : n.Strewn) (inherited : Option Watched) {f : Frame}
    (hf : f ∈ n.frames none) (i : Identifier) :
    ((f.watched inherited).getD []).any i.agrees = true ↔ n.Watches inherited f.pos i := by
  obtain ⟨hn, ha⟩ := Node.mem_frames_iff.mp hf
  unfold Frame.watched Node.Watches
  rw [← ha]
  rcases Node.aroundAt_spec hn none with ⟨q, params, hnear, hp⟩ | ⟨hnone, hp⟩
  · obtain ⟨-, -, name, body, kind, loc, hq⟩ := hnear.1
    obtain ⟨w, hw, hcovers⟩ := (h.of_nodeAt? hq).watched_ok
    rw [hp]
    simp only [ParameterList.watched, hw, Except.toOption, Option.getD_some]
    rw [hcovers]
    constructor
    · exact fun hi => .inl ⟨q, params, hnear, hi⟩
    · rintro (⟨q', params', hnear', hi⟩ | ⟨hnone, -⟩)
      · rw [Node.enclosesNearest_unique hnear hnear']
        exact hi
      · exact absurd hnear.1 (hnone q params)
  · rw [hp]
    simp only [ParameterList.watched]
    rw [List.any_eq_true]
    constructor
    · exact fun hi => .inr ⟨hnone, hi⟩
    · rintro (⟨q, params, hnear, -⟩ | ⟨-, hi⟩)
      · exact absurd hnear.1 (hnone q params)
      · exact hi

/-- A violation that is found among the first frames of a tree is watched where it is found, and it
describes what happens there. -/
theorem describes_of_mem_rows {n : Node} (h : n.Strewn) {m : Mutations}
    {inherited : Option Watched} {visited after : List Frame}
    (hframes : n.frames none = visited ++ after) {p : Position} {v : Violation}
    (hrow : (p, v) ∈ rows m inherited (.text "") visited) :
    n.Describes m p v ∧ n.Watches inherited p v.ident := by
  obtain ⟨before, f, rest, rfl, rfl, hv⟩ := mem_rows_iff.mp hrow
  rw [List.append_assoc, List.cons_append] at hframes
  have hf : f ∈ n.frames none := by
    rw [hframes]
    exact List.mem_append_right _ (List.mem_cons_self ..)
  have hn := (Node.mem_frames_iff.mp hf).1
  obtain ⟨o, ho, hspec⟩ := (h.of_nodeAt? hn).violation?_ok (m := m)
    (pathAfterAll (.text "") before) (f.watched inherited)
  rw [ho] at hv
  obtain ⟨loc, hw, hc, ht, hl⟩ := (hspec v).mp (Except.ok.inj hv)
  exact ⟨⟨f.node, loc, _, hn, hw, ht, lastPath_of_frames hframes, hl⟩,
    (watched_iff h inherited hf v.ident).mp hc⟩

/-- At every qualifying position among the first frames something is found. -/
theorem exists_row_of_qualifies {n : Node} (h : n.Strewn) {m : Mutations}
    {inherited : Option Watched} {visited after : List Frame}
    (hframes : n.frames none = visited ++ after) {p : Position}
    (hp : n.Qualifies m inherited p) (hafter : ∀ f ∈ after, f.pos ≠ p) :
    ∃ v, (p, v) ∈ rows m inherited (.text "") visited := by
  obtain ⟨c, i, loc, op, hn, hw, hwatch⟩ := hp
  have hf : (⟨p, c, n.aroundAt none p⟩ : Frame) ∈ n.frames none :=
    Node.mem_frames_iff.mpr ⟨hn, rfl⟩
  have hvisited : (⟨p, c, n.aroundAt none p⟩ : Frame) ∈ visited := by
    rw [hframes] at hf
    rcases List.mem_append.mp hf with hf | hf
    · exact hf
    · exact absurd rfl (hafter _ hf)
  obtain ⟨before, rest, rfl⟩ := List.append_of_mem hvisited
  have hc := h.of_nodeAt? hn
  obtain ⟨s, hs⟩ := hc.sourceText_ok
  obtain ⟨o, ho, hspec⟩ := hc.violation?_ok (m := m) (pathAfterAll (.text "") before)
    (Frame.watched inherited ⟨p, c, n.aroundAt none p⟩)
  have hv := (hspec ⟨loc.inFile (pathAfterAll (.text "") before), i, .text s, op⟩).mpr
    ⟨loc, hw, (watched_iff h inherited hf i).mpr hwatch, hs, rfl⟩
  exact ⟨_, mem_rows_iff.mpr ⟨before, _, rest, rfl, rfl, hv ▸ ho⟩⟩

end Scan

/-- A search of a well-formed tree ends without an error.  Its violations belong to the qualifying
positions, one to each and in pre-order, and each describes what happens at its position. -/
theorem scan_exact {n : Node} (h : n.WellFormed) (m : Mutations) (inherited : Option Watched) :
    ∃ rows : List (Position × Violation),
      n.scan m inherited = { violations := rows.map (·.2) }
        ∧ rows.Pairwise (fun a b => a.1 < b.1)
        ∧ (∀ p, (∃ v, (p, v) ∈ rows) ↔ n.Qualifies m inherited p)
        ∧ ∀ p v, (p, v) ∈ rows → n.Describes m p v := by
  have hvisited : ∀ f ∈ n.frames none, ∀ path,
      ∃ v, Scan.visit m path (f.watched inherited) f.node = .ok v := by
    intro f hf path
    exact Scan.visit_of_wellFormed (h.of_nodeAt? (Node.mem_frames_iff.mp hf).1) m path _
  have hall : n.frames none = n.frames none ++ [] := (List.append_nil _).symm
  refine ⟨Scan.rows m inherited (.text "") (n.frames none), ?_, ?_, ?_, ?_⟩
  · rw [Scan.scan_eq_sweep, Scan.sweep_of_visited hvisited]
    rfl
  · exact Scan.rows_pairwise m inherited (.text "") (n.frames_pairwise none)
  · intro p
    constructor
    · rintro ⟨v, hv⟩
      obtain ⟨⟨c, loc, path, hn, hw, -⟩, hwatch⟩ := Scan.describes_of_mem_rows h.strewn hall hv
      exact ⟨c, v.ident, loc, v.op, hn, hw, hwatch⟩
    · exact fun hp => Scan.exists_row_of_qualifies h.strewn hall hp nofun
  · intro p v hv
    exact (Scan.describes_of_mem_rows h.strewn hall hv).1

/-- `z = z2; f(x, const y, ?) { x = (x2 = y++); [] { x = 1; }; } h();` where `x2` is another variable
that is spelled `x`. -/
def nestedSample : Node :=
  let x : Node := .ref (.text "x") (.int 1) { line := .int 2 }
  .file (.text "a.c")
    [.assign (.ref (.text "z") .null {}) (some (.ref (.text "z") (.int 5) {})) (.text "=")
        (.text "") {},
      .callable (.text "f")
        (some [some { name := .text "x", binding := .int 1 },
          some { name := .text "y", immutable := .bool true, binding := .int 2 }, some {}, none])
        (some (.block
          [.assign x (some (.assign (.ref (.text "x") (.int 3) {})
              (some (.update (.ref (.text "y") (.int 2) {}) (.text "++") (.bool false) (.text "")
                {})) (.text "=") (.text "") {})) (.text "+=") (.text "x += 1") {},
            .callable (.text "<lambda>") none
              (some (.block [.assign x none (.text "=") (.text "") {}] {})) (.text "lambda") {}]
          {})) (.text "function") {},
      .callable (.text "h") (some []) none (.text "function") {}] {}

theorem nestedSample_wellFormed : nestedSample.WellFormed := by
  simp [nestedSample, Node.Sound, Datum.IsKey, Datum.key?]

theorem scan_exact_nestedSample :
    nestedSample.WellFormed ∧
      ∃ rows : List (Position × Violation),
        nestedSample.scan {} (some [⟨.text "z", .null⟩]) = { violations := rows.map (·.2) }
          ∧ rows.Pairwise (fun a b => a.1 < b.1)
          ∧ (∀ p, (∃ v, (p, v) ∈ rows)
              ↔ nestedSample.Qualifies {} (some [⟨.text "z", .null⟩]) p)
          ∧ ∀ p v, (p, v) ∈ rows → nestedSample.Describes {} p v :=
  ⟨nestedSample_wellFormed, scan_exact nestedSample_wellFormed {} (some [⟨.text "z", .null⟩])⟩

end FinalParams
