import FinalParams.Node.Basic

/-!
# Places in a tree

A position names a node by the numbers of the children on the way down from the root.  Positions in
lexicographic order are positions in pre-order: a node stands before all nodes below it, and the
nodes below one child stand before those below the next.

A frame is a node with its position and with the parameter list of the nearest function or lambda
around it.  `frames` lists the frames of a tree in pre-order.  `mem_frames_iff` says which frames
these are, `frames_pairwise` that each position comes once and in order, and `around_of_mem_frames`
that the parameter list is the one of the nearest function or lambda.
-/

namespace FinalParams

abbrev Position := List Nat

/-- The parameter list of a function or lambda, which may be missing and have missing entries. -/
abbrev ParameterList := Option (List (Option Parameter))

namespace Node

/-- The node at a position, if there is one. -/
def nodeAt? (n : Node) : Position → Option Node
  | [] => some n
  | i :: p =>
    match n.children[i]? with
    | some c => c.nodeAt? p
    | none => none

/-- The parameter list that counts below a node, where `around` counts at the node itself. -/
def aroundBelow (around : Option ParameterList) : Node → Option ParameterList
  | callable _ params _ _ _ => some params
  | _ => around

/-- At `q`, above the position `p`, there is a function or lambda with these parameters. -/
def Encloses (n : Node) (q p : Position) (params : ParameterList) : Prop :=
  q <+: p ∧ q ≠ p ∧
    ∃ name body kind loc, n.nodeAt? q = some (callable name params body kind loc)

/-- The function or lambda at `q` encloses `p`, and every other one that does encloses `q` itself
or stands there. -/
def EnclosesNearest (n : Node) (q p : Position) (params : ParameterList) : Prop :=
  n.Encloses q p params ∧ ∀ q' params', n.Encloses q' p params' → q' <+: q

end Node

structure Frame where
  pos : Position
  node : Node
  around : Option ParameterList
  deriving Repr

/-- The same frame, seen from the parent of the root, whose child of number `i` the root is. -/
def Frame.under (i : Nat) (f : Frame) : Frame := { f with pos := i :: f.pos }

namespace Node

mutual

/-- The frames of a tree in pre-order, where `around` counts at the root. -/
def frames (around : Option ParameterList) (n : Node) : List Frame :=
  ⟨[], n, around⟩ :: framesAll (n.aroundBelow around) 0 n.children
termination_by (n.size, 0)
decreasing_by
  rw [size_eq n]
  exact Prod.Lex.left _ _ (Nat.lt_succ_self _)

/-- The frames below a parent, from its child of number `i` on. -/
def framesAll (around : Option ParameterList) (i : Nat) : List Node → List Frame
  | [] => []
  | n :: rest => (frames around n).map (·.under i) ++ framesAll around (i + 1) rest
termination_by ns => (sizeAll ns, 1)
decreasing_by
  · rw [sizeAll]
    rcases Nat.eq_zero_or_pos (sizeAll rest) with h | h
    · rw [h]
      exact Prod.Lex.right _ Nat.zero_lt_one
    · exact Prod.Lex.left _ _ (Nat.lt_add_of_pos_right h)
  · rw [sizeAll, size_eq n]
    exact Prod.Lex.left _ _ (by omega)

end

theorem frames_eq (around : Option ParameterList) (n : Node) :
    frames around n = ⟨[], n, around⟩ :: framesAll (n.aroundBelow around) 0 n.children := by
  rw [frames]

@[simp] theorem framesAll_nil (around : Option ParameterList) (i : Nat) :
    framesAll around i [] = [] := by
  rw [framesAll]

theorem framesAll_cons (around : Option ParameterList) (i : Nat) (n : Node) (rest : List Node) :
    framesAll around i (n :: rest)
      = (frames around n).map (·.under i) ++ framesAll around (i + 1) rest := by
  rw [framesAll]

@[simp] theorem nodeAt?_nil (n : Node) : n.nodeAt? [] = some n := rfl

theorem nodeAt?_cons {n c : Node} {i : Nat} (h : n.children[i]? = some c) (p : Position) :
    n.nodeAt? (i :: p) = c.nodeAt? p := by
  simp only [nodeAt?, h]

theorem child_of_nodeAt? {n d : Node} {i : Nat} {p : Position}
    (h : n.nodeAt? (i :: p) = some d) :
    ∃ c, n.children[i]? = some c ∧ c.nodeAt? p = some d := by
  cases hc : n.children[i]? with
  | none => simp [nodeAt?, hc] at h
  | some c => exact ⟨c, rfl, by rw [← nodeAt?_cons hc, h]⟩

theorem nodeAt?_append {n d : Node} {p : Position} (h : n.nodeAt? p = some d) (q : Position) :
    n.nodeAt? (p ++ q) = d.nodeAt? q := by
  induction p generalizing n with
  | nil =>
    obtain rfl : n = d := Option.some.inj h
    rfl
  | cons i p ih =>
    obtain ⟨c, hc, hd⟩ := child_of_nodeAt? h
    rw [List.cons_append, nodeAt?_cons hc, ih hd]

/-! ## Which frames a tree has -/

theorem mem_framesAll_iff {around : Option ParameterList} {f : Frame} {ns : List Node} (i : Nat) :
    f ∈ framesAll around i ns ↔
      ∃ j c g, ns[j]? = some c ∧ g ∈ frames around c ∧ f = g.under (i + j) := by
  induction ns generalizing i with
  | nil => simp
  | cons n rest ih =>
    rw [framesAll_cons, List.mem_append, List.mem_map, ih]
    constructor
    · rintro (⟨g, hg, rfl⟩ | ⟨j, c, g, hc, hg, rfl⟩)
      · exact ⟨0, n, g, rfl, hg, rfl⟩
      · exact ⟨j + 1, c, g, hc, hg, by rw [Nat.add_right_comm, Nat.add_assoc]⟩
    · rintro ⟨j, c, g, hc, hg, rfl⟩
      cases j with
      | zero =>
        obtain rfl : n = c := by simpa using hc
        exact .inl ⟨g, hg, rfl⟩
      | succ j => exact .inr ⟨j, c, g, hc, hg, by rw [Nat.add_right_comm, Nat.add_assoc]⟩

/-- The parameter list that counts at a position, where `around` counts at the root. -/
def aroundAt (around : Option ParameterList) (n : Node) : Position → Option ParameterList
  | [] => around
  | i :: p =>
    match n.children[i]? with
    | some c => c.aroundAt (n.aroundBelow around) p
    | none => around

theorem aroundAt_cons {n c : Node} {i : Nat} (h : n.children[i]? = some c)
    (around : Option ParameterList) (p : Position) :
    n.aroundAt around (i :: p) = c.aroundAt (n.aroundBelow around) p := by
  simp only [aroundAt, h]

theorem aroundAt_append {n d : Node} {p : Position} (h : n.nodeAt? p = some d)
    (around : Option ParameterList) (q : Position) :
    n.aroundAt around (p ++ q) = d.aroundAt (n.aroundAt around p) q := by
  induction p generalizing n around with
  | nil =>
    obtain rfl : n = d := Option.some.inj h
    rfl
  | cons i p ih =>
    obtain ⟨c, hc, hd⟩ := child_of_nodeAt? h
    rw [List.cons_append, aroundAt_cons hc, aroundAt_cons hc, ih hd]

theorem mem_frames_iff {f : Frame} {around : Option ParameterList} {n : Node} :
    f ∈ frames around n ↔
      n.nodeAt? f.pos = some f.node ∧ n.aroundAt around f.pos = f.around := by
  obtain ⟨p, d, a⟩ := f
  induction p generalizing around n with
  | nil =>
    rw [frames_eq, List.mem_cons, mem_framesAll_iff]
    constructor
    · rintro (h | ⟨j, c, g, -, -, h⟩)
      · obtain ⟨-, rfl, rfl⟩ := Frame.mk.inj h
        exact ⟨rfl, rfl⟩
      · exact absurd (congrArg Frame.pos h) (List.cons_ne_nil _ _).symm
    · rintro ⟨hd, ha⟩
      obtain rfl : n = d := Option.some.inj hd
      obtain rfl : around = a := ha
      exact .inl rfl
  | cons i p ih =>
    rw [frames_eq, List.mem_cons, mem_framesAll_iff]
    constructor
    · rintro (h | ⟨j, c, g, hc, hg, h⟩)
      · exact absurd (congrArg Frame.pos h) (List.cons_ne_nil _ _)
      · obtain ⟨hp, rfl, rfl⟩ := Frame.mk.inj h
        obtain ⟨rfl, rfl⟩ := List.cons.inj hp
        have hc' : n.children[0 + j]? = some c := by rw [Nat.zero_add]; exact hc
        have := ih.mp hg
        rw [nodeAt?_cons hc', aroundAt_cons hc']
        exact this
    · rintro ⟨hd, ha⟩
      obtain ⟨c, hc, hd⟩ := child_of_nodeAt? hd
      rw [aroundAt_cons hc] at ha
      refine .inr ⟨i, c, ⟨p, d, a⟩, hc, ih.mpr ⟨hd, ha⟩, ?_⟩
      rw [Nat.zero_add]
      rfl

/-- Each position comes once, and the positions come in their order. -/
theorem frames_pairwise (around : Option ParameterList) (n : Node) :
    (frames around n).Pairwise fun f g => f.pos < g.pos := by
  induction hs : n.size using Nat.strongRecOn generalizing n around with
  | ind s ih =>
    subst hs
    have below : ∀ (ns : List Node) (i : Nat), (∀ c ∈ ns, c.size < n.size) →
        (framesAll (n.aroundBelow around) i ns).Pairwise fun f g => f.pos < g.pos := by
      intro ns
      induction ns with
      | nil => intro i _; simp
      | cons c rest ihr =>
        intro i hlt
        rw [framesAll_cons, List.pairwise_append, List.pairwise_map]
        refine ⟨?_, ihr (i + 1) fun d hd => hlt d (List.mem_cons_of_mem _ hd), ?_⟩
        · refine (ih c.size (hlt c (List.mem_cons_self ..)) _ c rfl).imp ?_
          intro f g h
          exact List.cons_lt_cons_iff.mpr (.inr ⟨rfl, h⟩)
        · intro f hf g hg
          obtain ⟨f, -, rfl⟩ := List.mem_map.mp hf
          obtain ⟨j, d, g, -, -, rfl⟩ := (mem_framesAll_iff (i + 1)).mp hg
          exact List.cons_lt_cons_iff.mpr (.inl (by omega))
    rw [frames_eq, List.pairwise_cons]
    refine ⟨?_, below _ 0 fun c hc => size_lt_of_mem_children hc⟩
    intro f hf
    obtain ⟨j, c, g, -, -, rfl⟩ := (mem_framesAll_iff 0).mp hf
    exact List.nil_lt_cons _ _

/-! ## What encloses a position -/

theorem not_encloses_nil {n : Node} {q : Position} {params : ParameterList} :
    ¬ n.Encloses q [] params := by
  rintro ⟨hq, hne, -⟩
  exact hne (List.prefix_nil.mp hq)

theorem encloses_cons {n c : Node} {i : Nat} (h : n.children[i]? = some c) {q p : Position}
    {params : ParameterList} : n.Encloses (i :: q) (i :: p) params ↔ c.Encloses q p params := by
  simp [Encloses, nodeAt?_cons h, List.cons_prefix_cons]

theorem encloses_cases {n : Node} {i : Nat} {q p : Position} {params : ParameterList}
    (h : n.Encloses q (i :: p) params) :
    q = [] ∧ (∃ name body kind loc, n = callable name params body kind loc)
      ∨ ∃ r, q = i :: r := by
  obtain ⟨hq, -, name, body, kind, loc, hn⟩ := h
  cases q with
  | nil => exact .inl ⟨rfl, name, body, kind, loc, Option.some.inj hn⟩
  | cons j r =>
    obtain ⟨rfl, -⟩ := List.cons_prefix_cons.mp hq
    exact .inr ⟨r, rfl⟩

theorem encloses_root {n : Node} {params : ParameterList}
    (h : ∃ name body kind loc, n = callable name params body kind loc) (i : Nat) (p : Position) :
    n.Encloses [] (i :: p) params := by
  obtain ⟨name, body, kind, loc, rfl⟩ := h
  exact ⟨List.nil_prefix, (List.cons_ne_nil i p).symm, name, body, kind, loc, rfl⟩

/-- A node that is no function or lambda changes nothing for the nodes below. -/
theorem aroundBelow_cases (around : Option ParameterList) (n : Node) :
    (∃ params, (∃ name body kind loc, n = callable name params body kind loc)
        ∧ n.aroundBelow around = some params)
      ∨ (∀ name params body kind loc, n ≠ callable name params body kind loc)
        ∧ n.aroundBelow around = around := by
  cases n with
  | callable name params body kind loc => exact .inl ⟨params, ⟨name, body, kind, loc, rfl⟩, rfl⟩
  | _ => exact .inr ⟨by simp, rfl⟩

/-- The parameter list that counts at a position is the one of the nearest function or lambda around
it, and `around` outside of all. -/
theorem aroundAt_spec {n d : Node} {p : Position} (h : n.nodeAt? p = some d)
    (around : Option ParameterList) :
    (∃ q params, n.EnclosesNearest q p params ∧ n.aroundAt around p = some params)
      ∨ (∀ q params, ¬ n.Encloses q p params) ∧ n.aroundAt around p = around := by
  induction p generalizing n around with
  | nil => exact .inr ⟨fun q params => not_encloses_nil, rfl⟩
  | cons i p ih =>
    obtain ⟨c, hc, hd⟩ := child_of_nodeAt? h
    rw [aroundAt_cons hc]
    rcases ih hd (n.aroundBelow around) with ⟨q, params, ⟨hq, hnear⟩, ha⟩ | ⟨hnone, ha⟩
    · refine .inl ⟨i :: q, params, ⟨(encloses_cons hc).mpr hq, ?_⟩, ha⟩
      intro q' params' h'
      rcases encloses_cases h' with ⟨rfl, -⟩ | ⟨r, rfl⟩
      · exact List.nil_prefix
      · exact List.cons_prefix_cons.mpr ⟨rfl, hnear r params' ((encloses_cons hc).mp h')⟩
    · have hin : ∀ r params, ¬ n.Encloses (i :: r) (i :: p) params := fun r params hr =>
        hnone r params ((encloses_cons hc).mp hr)
      rcases aroundBelow_cases around n with ⟨params, hn, hb⟩ | ⟨hn, hb⟩
      · refine .inl ⟨[], params, ⟨encloses_root hn i p, ?_⟩, ha.trans hb⟩
        intro q' params' h'
        rcases encloses_cases h' with ⟨rfl, -⟩ | ⟨r, rfl⟩
        · exact List.nil_prefix
        · exact absurd h' (hin r params')
      · refine .inr ⟨?_, ha.trans hb⟩
        intro q' params' h'
        rcases encloses_cases h' with ⟨-, name, body, kind, loc, hcall⟩ | ⟨r, rfl⟩
        · exact hn name params' body kind loc hcall
        · exact hin r params' h'

theorem enclosesNearest_unique {n : Node} {q q' p : Position} {params params' : ParameterList}
    (h : n.EnclosesNearest q p params) (h' : n.EnclosesNearest q' p params') :
    params = params' := by
  obtain rfl : q = q' :=
    (h'.2 q params h.1).eq_of_length_le (h.2 q' params' h'.1).length_le
  obtain ⟨-, -, name, body, kind, loc, hn⟩ := h.1
  obtain ⟨-, -, name', body', kind', loc', hn'⟩ := h'.1
  rw [hn] at hn'
  cases hn'
  rfl

end Node
end FinalParams
