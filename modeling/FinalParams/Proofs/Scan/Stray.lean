import FinalParams.Proofs.Scan.Exact

/-!
# Searching a tree with stray values

A stray value ends the search when it is visited, and not when the node above it is.  So
`scan_strewn` says that what is found in a tree with stray values is what the rule asks for before
the first of them in pre-order, also at the node right above it.  Where there is none the search
comes to its end.
-/

namespace FinalParams
namespace Node

/-- The position comes before all stray values. -/
def Undisturbed (n : Node) (p : Position) : Prop :=
  ∀ q value, n.nodeAt? q = some (stray value) → p < q

/-- Of all stray values the one at `p` comes first. -/
def FirstStray (n : Node) (p : Position) (value : Stray) : Prop :=
  n.nodeAt? p = some (stray value) ∧
    ∀ q value', n.nodeAt? q = some (stray value') → p = q ∨ p < q

theorem firstStray_unique {n : Node} {p q : Position} {value value' : Stray}
    (h : n.FirstStray p value) (h' : n.FirstStray q value') : value = value' := by
  obtain rfl : p = q := by
    rcases h.2 q value' h'.1 with he | hlt
    · exact he
    · rcases h'.2 p value h.1 with he | hgt
      · exact he.symm
      · exact absurd hgt (List.lt_asymm hlt)
  exact Node.stray.inj (Option.some.inj (h.1.symm.trans h'.1))

end Node

namespace Scan

/-- The frames up to the first stray value, and those from there on. -/
structure Cut (n : Node) (visited after : List Frame) (error : Option ScanError) : Prop where
  frames : n.frames none = visited ++ after
  visited : ∀ f ∈ visited, ∀ value, f.node ≠ .stray value
  after : after = [] ∧ error = none
    ∨ ∃ f rest value, after = f :: rest ∧ f.node = .stray value
      ∧ error = some (.notANode value.typeName)

variable {n : Node} {visited after : List Frame} {error : Option ScanError}

/-- A search of a strewn tree sees the frames up to the first stray value. -/
theorem exists_cut (h : n.Strewn) (m : Mutations) (inherited : Option Watched) :
    ∃ visited after error, Cut n visited after error ∧ n.scan m inherited
      = { violations := (rows m inherited (.text "") visited).map (·.2), error } := by
  obtain ⟨visited, after, error, hframes, hvisited, hsweep, hend⟩ :=
    sweep_split m inherited (.text "") [] (n.frames none)
  refine ⟨visited, after, error, ⟨hframes, ?_, ?_⟩, ?_⟩
  · intro f hf value hn
    obtain ⟨path, v, hv⟩ := hvisited f hf
    rw [hn] at hv
    cases hv
  · rcases hend with hnone | ⟨f, rest, path, e, rfl, hfail, rfl⟩
    · exact .inl hnone
    · have hf : f ∈ n.frames none := by
        rw [hframes]
        exact List.mem_append_right _ (List.mem_cons_self ..)
      by_cases hn : ∃ value, f.node = .stray value
      · obtain ⟨value, hn⟩ := hn
        rw [hn] at hfail
        obtain rfl := Except.error.inj hfail
        exact .inr ⟨f, rest, value, rfl, hn, rfl⟩
      · obtain ⟨v, hv⟩ := visit_of_strewn (h.of_nodeAt? (Node.mem_frames_iff.mp hf).1)
          (fun value hv => hn ⟨value, hv⟩) m path (f.watched inherited)
        rw [hv] at hfail
        cases hfail
  · rw [scan_eq_sweep, hsweep]
    rfl

theorem Cut.sorted (h : Cut n visited after error) :
    (visited ++ after).Pairwise fun f g => f.pos < g.pos := h.frames ▸ n.frames_pairwise none

/-- A stray value is not among the frames before the cut. -/
theorem Cut.exists_after (h : Cut n visited after error) {q : Position} {value : Stray}
    (hq : n.nodeAt? q = some (.stray value)) :
    ∃ f ∈ after, f.pos = q ∧ f.node = .stray value := by
  have hf : (⟨q, .stray value, n.aroundAt none q⟩ : Frame) ∈ n.frames none :=
    Node.mem_frames_iff.mpr ⟨hq, rfl⟩
  rw [h.frames] at hf
  rcases List.mem_append.mp hf with hf | hf
  · exact absurd rfl (h.visited _ hf value)
  · exact ⟨_, hf, rfl, rfl⟩

/-- What is visited comes before all stray values. -/
theorem Cut.undisturbed (h : Cut n visited after error) {f : Frame} (hf : f ∈ visited) :
    n.Undisturbed f.pos := by
  intro q value hq
  obtain ⟨g, hg, rfl, -⟩ := h.exists_after hq
  exact (List.pairwise_append.mp h.sorted).2.2 f hf g hg

/-- What comes before all stray values is visited. -/
theorem Cut.not_after (h : Cut n visited after error) {p : Position} (hp : n.Undisturbed p) :
    ∀ f ∈ after, f.pos ≠ p := by
  rintro f hf rfl
  rcases h.after with ⟨rfl, -⟩ | ⟨g, rest, value, rfl, hg, -⟩
  · exact absurd hf List.not_mem_nil
  · have hmem : g ∈ n.frames none := by
      rw [h.frames]
      exact List.mem_append_right _ (List.mem_cons_self ..)
    have hlt := hp g.pos value (hg ▸ (Node.mem_frames_iff.mp hmem).1)
    rcases List.mem_cons.mp hf with rfl | hf
    · exact List.lt_irrefl _ hlt
    · have hsorted := (List.pairwise_append.mp h.sorted).2.1
      exact List.lt_asymm hlt ((List.pairwise_cons.mp hsorted).1 f hf)

/-- The error is that of the first stray value. -/
theorem Cut.error_iff (h : Cut n visited after error) (e : ScanError) :
    error = some e ↔ ∃ q value, n.FirstStray q value ∧ e = .notANode value.typeName := by
  rcases h.after with ⟨rfl, rfl⟩ | ⟨g, rest, value, rfl, hg, rfl⟩
  · refine iff_of_false nofun ?_
    rintro ⟨q, value, ⟨hq, -⟩, -⟩
    obtain ⟨f, hf, -⟩ := h.exists_after hq
    exact List.not_mem_nil hf
  · have hmem : g ∈ n.frames none := by
      rw [h.frames]
      exact List.mem_append_right _ (List.mem_cons_self ..)
    have hat : n.nodeAt? g.pos = some (.stray value) := hg ▸ (Node.mem_frames_iff.mp hmem).1
    have hfirst : n.FirstStray g.pos value := by
      refine ⟨hat, ?_⟩
      intro q value' hq
      obtain ⟨f, hf, rfl, -⟩ := h.exists_after hq
      rcases List.mem_cons.mp hf with rfl | hf
      · exact .inl rfl
      · have hsorted := (List.pairwise_append.mp h.sorted).2.1
        exact .inr ((List.pairwise_cons.mp hsorted).1 f hf)
    constructor
    · intro he
      exact ⟨g.pos, value, hfirst, (Option.some.inj he).symm⟩
    · rintro ⟨q, value', hq, rfl⟩
      rw [Node.firstStray_unique hfirst hq]

theorem Cut.error_none_iff (h : Cut n visited after error) :
    error = none ↔ ∀ q value, n.nodeAt? q ≠ some (.stray value) := by
  constructor
  · rintro rfl q value hq
    obtain ⟨f, hf, -⟩ := h.exists_after hq
    rcases h.after with ⟨rfl, -⟩ | ⟨g, rest, value', -, -, he⟩
    · exact List.not_mem_nil hf
    · cases he
  · intro hnone
    cases error with
    | none => rfl
    | some e =>
      obtain ⟨q, value, hq, -⟩ := (h.error_iff e).mp rfl
      exact absurd hq.1 (hnone q value)

end Scan

/-- A search of a strewn tree ends with an error exactly if there is a stray value, with that of the
first one.  It yields the violations of the qualifying positions before the first stray value and no
others, in pre-order. -/
theorem scan_strewn {n : Node} (h : n.Strewn) (m : Mutations) (inherited : Option Watched) :
    ∃ rows : List (Position × Violation),
      (n.scan m inherited).violations = rows.map (·.2)
        ∧ rows.Pairwise (fun a b => a.1 < b.1)
        ∧ (∀ p, (∃ v, (p, v) ∈ rows) ↔ n.Qualifies m inherited p ∧ n.Undisturbed p)
        ∧ (∀ p v, (p, v) ∈ rows → n.Describes m p v)
        ∧ ((n.scan m inherited).error = none ↔ ∀ q value, n.nodeAt? q ≠ some (.stray value))
        ∧ ∀ e, (n.scan m inherited).error = some e
          ↔ ∃ q value, n.FirstStray q value ∧ e = .notANode value.typeName := by
  obtain ⟨visited, after, error, hcut, hscan⟩ := Scan.exists_cut h m inherited
  rw [hscan]
  refine ⟨Scan.rows m inherited (.text "") visited, rfl, ?_, ?_, ?_, hcut.error_none_iff,
    hcut.error_iff⟩
  · exact Scan.rows_pairwise m inherited (.text "") (List.pairwise_append.mp hcut.sorted).1
  · intro p
    constructor
    · rintro ⟨v, hv⟩
      obtain ⟨⟨c, loc, path, hn, hw, -⟩, hwatch⟩ := Scan.describes_of_mem_rows h hcut.frames hv
      obtain ⟨before, f, rest, rfl, rfl, -⟩ := Scan.mem_rows_iff.mp hv
      exact ⟨⟨c, v.ident, loc, v.op, hn, hw, hwatch⟩,
        hcut.undisturbed (List.mem_append_right _ (List.mem_cons_self ..))⟩
    · rintro ⟨hp, hfree⟩
      exact Scan.exists_row_of_qualifies h hcut.frames hp (hcut.not_after hfree)
  · intro p v hv
    exact (Scan.describes_of_mem_rows h hcut.frames hv).1

/-- `f(x) { x = 5; x = 1; }`, where the number is left in place of its node in the first
assignment. -/
def strewnSample : Node :=
  .callable (.text "f") (some [some { name := .text "x", binding := .int 1 }])
    (some (.block
      [.assign (.ref (.text "x") (.int 1) {}) (some (.stray (.datum (.int 5)))) (.text "=")
          (.text "") {},
        .assign (.ref (.text "x") (.int 1) {}) none (.text "=") (.text "x = 1") {}] {}))
    (.text "function") {}

theorem strewnSample_strewn : strewnSample.Strewn := by
  have hname : (Node.ref (.text "x") (.int 1) {}).Strewn :=
    Node.everywhere_iff.mpr ⟨.inl ⟨⟨_, rfl⟩, Datum.isKey_int _⟩, List.forall_mem_nil _⟩
  have hnumber : (Node.stray (.datum (.int 5))).Strewn :=
    Node.everywhere_iff.mpr ⟨.inr ⟨_, rfl⟩, List.forall_mem_nil _⟩
  have hassign : ∀ value text, (∀ c ∈ value, c.Strewn) →
      (Node.assign (.ref (.text "x") (.int 1) {}) value (.text "=") (.text text) {}).Strewn := by
    intro value text hvalue
    refine Node.everywhere_iff.mpr ⟨.inl ⟨text, rfl⟩, ?_⟩
    intro c hc
    rcases List.mem_cons.mp hc with rfl | hc
    · exact hname
    · exact hvalue c (Option.mem_toList.mp hc)
  have hblock : (Node.block
      [.assign (.ref (.text "x") (.int 1) {}) (some (.stray (.datum (.int 5)))) (.text "=")
          (.text "") {},
        .assign (.ref (.text "x") (.int 1) {}) none (.text "=") (.text "x = 1") {}] {}).Strewn := by
    refine Node.everywhere_iff.mpr ⟨.inl trivial, ?_⟩
    simp only [Node.children, List.forall_mem_cons]
    exact ⟨hassign _ _ (by simpa using hnumber), hassign _ _ (by simp), List.forall_mem_nil _⟩
  refine Node.everywhere_iff.mpr ⟨.inl ?_, ?_⟩
  · simp [strewnSample, Node.Sound, Datum.IsKey, Datum.key?]
  · intro c hc
    obtain rfl := List.mem_singleton.mp hc
    exact hblock

/-- The first assignment is found although its value ends the search, and the second one is not. -/
theorem scan_strewn_strewnSample :
    strewnSample.Strewn
      ∧ (∃ rows : List (Position × Violation),
        (strewnSample.scan {} none).violations = rows.map (·.2)
          ∧ rows.Pairwise (fun a b => a.1 < b.1)
          ∧ (∀ p, (∃ v, (p, v) ∈ rows)
              ↔ strewnSample.Qualifies {} none p ∧ strewnSample.Undisturbed p)
          ∧ (∀ p v, (p, v) ∈ rows → strewnSample.Describes {} p v)
          ∧ ((strewnSample.scan {} none).error = none
              ↔ ∀ q value, strewnSample.nodeAt? q ≠ some (.stray value))
          ∧ ∀ e, (strewnSample.scan {} none).error = some e
            ↔ ∃ q value, strewnSample.FirstStray q value ∧ e = .notANode value.typeName)
      ∧ (strewnSample.scan {} none).violations.map (fun v => (v.ident, v.text))
        = [(⟨.text "x", .int 1⟩, .text "x =")] :=
  ⟨strewnSample_strewn, scan_strewn strewnSample_strewn {} none, by decide +kernel⟩

end FinalParams
