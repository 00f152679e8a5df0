import FinalParams.Node.SourceText
import FinalParams.Proofs.Tree.Frame
import FinalParams.Proofs.Watched

/-!
# Well-formed trees

A tree is well-formed if it has no stray values, if names and texts are texts, and if whatever names
are bound to can be looked up.  Parameter lists and bodies may still be missing, and so may the
entries of a parameter list and their names.  A tree is strewn if stray values are all that may keep
it from being well-formed.  Every strewn tree has a source text.
-/

namespace FinalParams
namespace Node

/-- What a single node of a well-formed tree is like. -/
def Sound : Node → Prop
  | file _ _ _ => True
  | callable name params _ _ _ =>
    (∃ s, name = .text s) ∧
      ∀ p, some p ∈ params.getD [] → (p.name = .null ∨ ∃ s, p.name = .text s) ∧ p.binding.IsKey
  | block _ _ => True
  | assign _ _ _ text _ => ∃ s, text = .text s
  | update _ _ _ text _ => ∃ s, text = .text s
  | ref name binding _ => (∃ s, name = .text s) ∧ binding.IsKey
  | other _ _ text _ => ∃ s, text = .text s
  | stray _ => False

/-- Every node of the tree is like this. -/
def Everywhere (P : Node → Prop) (n : Node) : Prop := ∀ p c, n.nodeAt? p = some c → P c

theorem everywhere_iff {P : Node → Prop} {n : Node} :
    n.Everywhere P ↔ P n ∧ ∀ c ∈ n.children, c.Everywhere P := by
  constructor
  · intro h
    refine ⟨h [] n rfl, ?_⟩
    intro c hc p d hd
    obtain ⟨i, hi⟩ := List.getElem?_of_mem hc
    exact h (i :: p) d (by rw [nodeAt?_cons hi, hd])
  · rintro ⟨hn, hc⟩ p d hd
    cases p with
    | nil =>
      obtain rfl : n = d := Option.some.inj hd
      exact hn
    | cons i p =>
      obtain ⟨c, hi, hd⟩ := child_of_nodeAt? hd
      exact hc c (List.mem_of_getElem? hi) p d hd

theorem Everywhere.imp {P Q : Node → Prop} (himp : ∀ c, P c → Q c) {n : Node}
    (h : n.Everywhere P) : n.Everywhere Q := fun p c hc => himp c (h p c hc)

theorem Everywhere.of_nodeAt? {P : Node → Prop} {n c : Node} {p : Position} (h : n.Everywhere P)
    (hc : n.nodeAt? p = some c) : c.Everywhere P := by
  induction p generalizing n with
  | nil =>
    obtain rfl : n = c := Option.some.inj hc
    exact h
  | cons i p ih =>
    obtain ⟨d, hi, hd⟩ := child_of_nodeAt? hc
    exact ih ((everywhere_iff.mp h).2 d (List.mem_of_getElem? hi)) hd

/-- A tree of sound nodes. -/
def WellFormed (n : Node) : Prop := n.Everywhere Sound

theorem wellFormed_iff {n : Node} : n.WellFormed ↔ n.Sound ∧ ∀ c ∈ n.children, c.WellFormed :=
  everywhere_iff

/-- A tree of sound nodes and stray values. -/
def Strewn (n : Node) : Prop := n.Everywhere fun c => c.Sound ∨ ∃ value, c = stray value

theorem WellFormed.strewn {n : Node} (h : n.WellFormed) : n.Strewn := Everywhere.imp (fun _ => .inl) h

theorem Strewn.sound {n : Node} (h : n.Strewn) (hn : ∀ value, n ≠ stray value) : n.Sound := by
  rcases h [] n rfl with hs | ⟨value, hv⟩
  · exact hs
  · exact absurd hv (hn value)

theorem Strewn.of_mem_children {n c : Node} (h : n.Strewn) (hc : c ∈ n.children) : c.Strewn :=
  (everywhere_iff.mp h).2 c hc

theorem Strewn.of_nodeAt? {n c : Node} {p : Position} (h : n.Strewn) (hc : n.nodeAt? p = some c) :
    c.Strewn := Everywhere.of_nodeAt? h hc

@[simp] theorem wellFormed_file {path : Datum} {cs : List Node} {loc : Loc} :
    (file path cs loc).WellFormed ↔ ∀ c ∈ cs, c.WellFormed := by
  rw [wellFormed_iff]
  simp [Sound, children]

@[simp] theorem wellFormed_callable {name kind : Datum} {params : ParameterList}
    {body : Option Node} {loc : Loc} :
    (callable name params body kind loc).WellFormed ↔
      (callable name params body kind loc).Sound ∧ ∀ c ∈ body, c.WellFormed := by
  rw [wellFormed_iff]
  simp [children]

@[simp] theorem wellFormed_block {ss : List Node} {loc : Loc} :
    (block ss loc).WellFormed ↔ ∀ c ∈ ss, c.WellFormed := by
  rw [wellFormed_iff]
  simp [Sound, children]

@[simp] theorem wellFormed_assign {target : Node} {value : Option Node} {op text : Datum}
    {loc : Loc} :
    (assign target value op text loc).WellFormed ↔
      (∃ s, text = .text s) ∧ target.WellFormed ∧ ∀ c ∈ value, c.WellFormed := by
  rw [wellFormed_iff]
  simp [Sound, children]

@[simp] theorem wellFormed_update {target : Node} {op leading text : Datum} {loc : Loc} :
    (update target op leading text loc).WellFormed ↔
      (∃ s, text = .text s) ∧ target.WellFormed := by
  rw [wellFormed_iff]
  simp [Sound, children]

@[simp] theorem wellFormed_ref {name binding : Datum} {loc : Loc} :
    (ref name binding loc).WellFormed ↔ (∃ s, name = .text s) ∧ binding.IsKey := by
  rw [wellFormed_iff]
  simp [Sound, children]

@[simp] theorem wellFormed_other {kind text : Datum} {cs : List Node} {loc : Loc} :
    (other kind cs text loc).WellFormed ↔ (∃ s, text = .text s) ∧ ∀ c ∈ cs, c.WellFormed := by
  rw [wellFormed_iff]
  simp [Sound, children]

theorem WellFormed.of_nodeAt? {n c : Node} {p : Position} (h : n.WellFormed)
    (hc : n.nodeAt? p = some c) : c.WellFormed := Everywhere.of_nodeAt? h hc

theorem Strewn.watched_ok {name kind : Datum} {params : ParameterList} {body : Option Node}
    {loc : Loc} (h : (callable name params body kind loc).Strewn) :
    ∃ w, Watched.ofParameterList params = .ok w ∧
      ∀ i, w.any i.agrees = true ↔ Watched.Assignable params i := by
  apply Watched.ofParameterList_covers
  intro p hp
  obtain ⟨hname, hb⟩ := (h.sound (by simp)).2 p hp
  refine ⟨?_, hb⟩
  rcases hname with hn | ⟨s, hs⟩
  · exact hn ▸ Datum.isKey_null
  · exact hs ▸ Datum.isKey_text s

theorem sourceTexts_ok {cs : List Node} (h : ∀ c ∈ cs, ∃ s, c.sourceText = .ok (.text s)) :
    ∃ ss : List String, sourceTexts cs = .ok (ss.map .text) := by
  induction cs with
  | nil => exact ⟨[], rfl⟩
  | cons c rest ih =>
    obtain ⟨s, hs⟩ := h c (List.mem_cons_self ..)
    obtain ⟨ss, hss⟩ := ih fun d hd => h d (List.mem_cons_of_mem _ hd)
    exact ⟨s :: ss, by simp [sourceTexts, hs, hss, bind, Except.bind, pure, Except.pure]⟩

/-- Every strewn tree has a source text, and it is a text.  Stray values have an empty one. -/
theorem Strewn.sourceText_ok {n : Node} (h : n.Strewn) : ∃ s, n.sourceText = .ok (.text s) := by
  induction hs : n.size using Nat.strongRecOn generalizing n with
  | ind s ih =>
    have below : ∀ c ∈ n.children, ∃ s, c.sourceText = .ok (.text s) := by
      intro c hc
      exact ih c.size (hs ▸ size_lt_of_mem_children hc) (h.of_mem_children hc) rfl
    cases n with
    | file path cs loc => exact ⟨"", by simp only [sourceText]⟩
    | callable name params body kind loc =>
      obtain ⟨s, rfl⟩ := (h.sound (by simp)).1
      exact ⟨s, by simp only [sourceText]⟩
    | block ss loc => exact ⟨"", by simp only [sourceText]⟩
    | assign target value op text loc =>
      obtain ⟨s, rfl⟩ := h.sound (by simp)
      simp only [sourceText]
      split
      · exact ⟨s, rfl⟩
      · obtain ⟨left, hl⟩ := below target (by simp [children])
        cases value with
        | none =>
          simp only [hl, sourceTextIfAny, bind, Except.bind, pure, Except.pure]
          exact ⟨_, rfl⟩
        | some v =>
          obtain ⟨right, hr⟩ := below v (by simp [children])
          simp only [hl, hr, sourceTextIfAny, bind, Except.bind, pure, Except.pure]
          exact ⟨_, rfl⟩
    | update target op leading text loc =>
      obtain ⟨s, rfl⟩ := h.sound (by simp)
      simp only [sourceText]
      split
      · exact ⟨s, rfl⟩
      · obtain ⟨operand, ho⟩ := below target (by simp [children])
        simp only [ho, bind, Except.bind, pure, Except.pure]
        exact ⟨_, rfl⟩
    | ref name binding loc =>
      obtain ⟨s, rfl⟩ := (h.sound (by simp)).1
      exact ⟨s, by simp only [sourceText]⟩
    | other kind cs text loc =>
      obtain ⟨s, rfl⟩ := h.sound (by simp)
      simp only [sourceText]
      split
      · exact ⟨s, rfl⟩
      · have hbelow : ∀ c ∈ cs, ∃ s, c.sourceText = .ok (.text s) := below
        obtain ⟨ss, hss⟩ := sourceTexts_ok hbelow
        simp only [hss, Datum.joined, Datum.textsFrom_texts, Except.map, bind, Except.bind, pure,
          Except.pure]
        exact ⟨_, rfl⟩
    | stray value => exact ⟨"", by simp only [sourceText]⟩

end Node
end FinalParams
