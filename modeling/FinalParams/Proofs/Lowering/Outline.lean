import FinalParams.Proofs.Lowering.Entries
import FinalParams.Proofs.Lowering.Exact

/-!
# The units of a configuration

In the tree of a configuration each function or lambda is one unit.  `position` tells where: at the
place of its body among the entries of the function or lambda that its scope belongs to, or among the
children of the root if it belongs to none.  `compilationUnit_outlined` says that the units are at
these positions and nowhere else, and which statements each of them has.
-/

namespace FinalParams

open Node

/-- The node is a function or lambda. -/
def Node.IsCallable : Node → Prop
  | callable _ _ _ _ _ => True
  | _ => False

namespace Config

/-- Where the statements of `k` are the children: at the root, or at the block of the unit of `k`. -/
def blockPosition (pos : Nat → Position) : Option Nat → Position
  | none => []
  | some s => pos s ++ [0]

/-- The tree of a configuration with the unit of each function or lambda at its position. -/
structure Outlined (c : Config) (path : Datum) (tree : Node) (pos : Nat → Position) : Prop where
  /-- Behind the outermost units there are the functions that are only declared. -/
  root : ∃ units declarations,
    tree = .file (c.shownPath path) (units ++ declarations) { file := c.shownPath path }
      ∧ units.length = (c.entries none).length
      ∧ c.declaredFunctions.mapM c.declaration = .ok declarations
  /-- Each function or lambda has a unit, and in it a statement for each entry of its body.  The top
  of an expression stands for its tree. -/
  unit : ∀ s, c.Callable s → ∃ head statements, c.unitHeading s = .ok head
    ∧ tree.nodeAt? (pos s) = some (head.node (some (.block statements head.loc)))
    ∧ statements.length = (c.entries (some s)).length
    ∧ ∀ (i : Nat) (t : Nat), (c.entries (some s))[i]? = some t → c.OwnTop s t →
      ∃ n, c.expression (some s) (some t) = .ok n ∧ statements[i]? = some n
  /-- The unit of a function or lambda is a statement of the one that its scope belongs to, or a
  child of the root, at the place of its body. -/
  nested : ∀ u b, c.Callable u → (c.scope u).bodyStart = some b →
    ∃ i, (c.entries (c.owner (c.scope u).nestedIn))[i]? = some b
      ∧ pos u = blockPosition pos (c.owner (c.scope u).nestedIn) ++ [i]
  /-- Different functions and lambdas have different units. -/
  apart : ∀ s u, c.Callable s → c.Callable u → pos s = pos u → s = u
  /-- All other units are functions that are only declared. -/
  only : ∀ p name params body kind loc,
    tree.nodeAt? p = some (.callable name params body kind loc) →
      (∃ s, c.Callable s ∧ pos s = p)
        ∨ body = none ∧ ∃ i, (c.entries none).length ≤ i ∧ p = [i]

variable {c : Config}

/-! ## Positions -/

/-- The number of the token where the body of `s` begins. -/
def startOrder (c : Config) (s : Nat) : Nat := (c.scope s).bodyStart.elim 0 c.order

/-- The place of the body of `s` among the entries of the function or lambda around it. -/
noncomputable def placeAround (c : Config) (s : Nat) : Nat :=
  (c.entries (c.owner (c.scope s).nestedIn)).idxOf ((c.scope s).bodyStart.getD 0)

/-- The position of the unit of `s`.  Where bodies are well nested, the one around begins before. -/
noncomputable def position (c : Config) (s : Nat) : Position :=
  match c.owner (c.scope s).nestedIn with
  | none => [c.placeAround s]
  | some u =>
    if c.startOrder u < c.startOrder s then position c u ++ [0] ++ [c.placeAround s] else []
termination_by c.startOrder s

theorem startOrder_lt (h : c.Layered) {s u : Nat} (hs : c.Callable s)
    (hu : c.owner (c.scope s).nestedIn = some u) : c.startOrder u < c.startOrder s := by
  obtain ⟨hcu, hin, -⟩ := (h.around s hs (some u)).mp hu
  obtain ⟨b, -, hb, -⟩ := h.body s hs
  obtain ⟨b', -, hb', -⟩ := h.body u hcu
  rw [startOrder, startOrder, hb, hb']
  exact h.start_lt hcu hs hin hb' hb

theorem callable_of_owner {k : Option Nat} {s : Nat} (h : c.owner k = some s) : c.Callable s := by
  unfold owner at h
  split at h
  · rename_i o ho
    obtain rfl : o = some s := h
    exact callableAround_isCallable ho
  · cases h

theorem nodup_entries (h : c.Layered) (k : Option Nat) : (c.entries k).Nodup := by
  classical exact h.distinct.filter _

theorem getElem?_placeAround (h : c.Layered) {s b : Nat} (hs : c.Callable s)
    (hb : (c.scope s).bodyStart = some b) :
    (c.entries (c.owner (c.scope s).nestedIn))[c.placeAround s]? = some b := by
  rw [placeAround, hb, Option.getD_some]
  exact List.getElem?_idxOf (mem_entries_of_start h hs hb)

theorem position_eq (h : c.Layered) {s : Nat} (hs : c.Callable s) :
    c.position s
      = blockPosition c.position (c.owner (c.scope s).nestedIn) ++ [c.placeAround s] := by
  rw [position]
  cases hk : c.owner (c.scope s).nestedIn with
  | none => rfl
  | some u =>
    simp only [if_pos (startOrder_lt h hs hk)]
    rfl

theorem blockPosition_cases {pos : Nat → Position} {k l : Option Nat}
    (h : blockPosition pos k = blockPosition pos l) :
    k = l ∨ ∃ v w, k = some v ∧ l = some w ∧ pos v = pos w := by
  cases k with
  | none =>
    cases l with
    | none => exact .inl rfl
    | some w => exact absurd h.symm (List.concat_ne_nil _ _)
  | some v =>
    cases l with
    | none => exact absurd h (List.concat_ne_nil _ _)
    | some w => exact .inr ⟨v, w, rfl, rfl, (List.append_inj' h rfl).1⟩

/-- Two bodies at the same place among the same entries are the same. -/
theorem eq_of_placeAround (h : c.Layered) {s u : Nat} (hs : c.Callable s) (hu : c.Callable u)
    (hk : c.owner (c.scope s).nestedIn = c.owner (c.scope u).nestedIn)
    (hp : c.placeAround s = c.placeAround u) : s = u := by
  obtain ⟨b, -, hb, -⟩ := h.body s hs
  obtain ⟨b', -, hb', -⟩ := h.body u hu
  have hget := getElem?_placeAround h hs hb
  rw [hk, hp, getElem?_placeAround h hu hb'] at hget
  by_contra hne
  exact h.start s u hs hu hne (hb.trans (hget.symm.trans hb'.symm))

theorem position_inj (h : c.Layered) {s u : Nat} (hs : c.Callable s) (hu : c.Callable u)
    (hp : c.position s = c.position u) : s = u := by
  -- the induction is on the place where the body begins, as the body around begins earlier
  induction hn : c.startOrder s using Nat.strongRecOn generalizing s u with
  | ind n ih =>
    subst hn
    rw [position_eq h hs, position_eq h hu] at hp
    obtain ⟨hblock, hplace⟩ := List.append_inj' hp rfl
    refine eq_of_placeAround h hs hu ?_ (List.singleton_inj.mp hplace)
    rcases blockPosition_cases hblock with hk | ⟨v, w, hv, hw, hvw⟩
    · exact hk
    · have heq := ih _ (startOrder_lt h hs hv) (callable_of_owner hv) (callable_of_owner hw) hvw rfl
      rw [hv, hw, heq]

/-! ## What is at a position -/

/-- At each entry there is the unit of a function or lambda or the tree of an expression. -/
theorem entry_cases (h : c.Layered) {k : Option Nat} {i t : Nat}
    (ht : (c.entries k)[i]? = some t) (unit tree : Nat → Node) :
    (∃ u, c.Callable u ∧ c.entryNode k unit tree t = unit u
        ∧ c.position u = blockPosition c.position k ++ [i])
      ∨ c.entryNode k unit tree t = tree t := by
  rcases (mem_entries_iff.mp (List.mem_of_getElem? ht)).2 with ⟨u, hu, rfl, hb⟩ | ⟨s, rfl, hown⟩
  · refine .inl ⟨u, hu, entryNode_of_start h hu hb unit tree, ?_⟩
    have hi : c.placeAround u = i := by
      obtain ⟨hlt, rfl⟩ := List.getElem?_eq_some_iff.mp ht
      rw [placeAround, hb, Option.getD_some]
      exact (nodup_entries h _).idxOf_getElem i hlt
    rw [position_eq h hu, hi]
  · exact .inr (entryNode_of_ownTop h hown unit tree)

/-- In the tree of an expression there is no function or lambda. -/
theorem expression_not_callable {owner : Option Nat} {t : Nat} {n : Node}
    (hn : c.expression owner (some t) = .ok n) : n.Everywhere fun d => ¬ d.IsCallable := by
  refine expression_everywhere ?_ hn
  intro t us lowered n _ hn
  obtain ⟨loc, -, ⟨target, rest, text, -, rfl⟩ | ⟨target, rest, leading, text, -, rfl⟩ | rfl |
    rfl⟩ := nodeOf_cases hn <;> exact id

variable {unit : Nat → Node} {tree : Nat → Nat → Node}

/-- The unit of `s` has its statements below its block. -/
theorem nodeAt?_unit {s : Nat} (hs : c.Composed unit tree s) {q : Position} {d : Node}
    (hd : (unit s).nodeAt? q = some d) (hc : d.IsCallable) :
    q = [] ∨ ∃ i t r, (c.entries (some s))[i]? = some t ∧ q = 0 :: i :: r
      ∧ (c.entryNode (some s) unit (tree s) t).nodeAt? r = some d := by
  obtain ⟨head, -, hunit⟩ := hs
  rw [hunit] at hd
  match q with
  | [] => exact .inl rfl
  | 0 :: [] =>
    obtain rfl := Option.some.inj hd
    exact hc.elim
  | 0 :: i :: r =>
    obtain ⟨n, hn, hd⟩ := child_of_nodeAt? (n := .block _ _) hd
    have hmap : ((c.entries (some s)).map (c.entryNode (some s) unit (tree s)))[i]? = some n := hn
    rw [List.getElem?_map, Option.map_eq_some_iff] at hmap
    obtain ⟨t, ht, rfl⟩ := hmap
    exact .inr ⟨i, t, r, ht, rfl, hd⟩
  | (j + 1) :: r =>
    obtain ⟨n, hn, -⟩ := child_of_nodeAt? hd
    cases hn

/-- A function or lambda that is found in what stands at an entry has the position where it is
found. -/
theorem exists_position (h : c.Bracketed)
    (htree : ∀ s t, c.expression (some s) (some t) = .ok (tree s t))
    (hunit : ∀ s, c.Callable s → c.Composed unit tree s) {k : Option Nat} {i t : Nat}
    (ht : (c.entries k)[i]? = some t) {s : Nat} {r : Position} {d : Node}
    (hd : (c.entryNode k unit (tree s) t).nodeAt? r = some d) (hc : d.IsCallable) :
    ∃ u, c.Callable u ∧ c.position u = blockPosition c.position k ++ i :: r := by
  induction hl : r.length using Nat.strongRecOn generalizing k s i t r with
  | ind l ih =>
    subst hl
    rcases entry_cases h.toLayered ht unit (tree s) with ⟨u, hu, hn, hp⟩ | hn
    · rw [hn] at hd
      rcases nodeAt?_unit (hunit u hu) hd hc with rfl | ⟨j, t', r, ht', rfl, hd'⟩
      · exact ⟨u, hu, hp⟩
      · have hlt : r.length < (0 :: j :: r).length := by
          rw [List.length_cons, List.length_cons]
          omega
        obtain ⟨v, hv, hpv⟩ := ih _ hlt ht' hd' rfl
        refine ⟨v, hv, ?_⟩
        rw [hpv, blockPosition, hp, List.append_assoc, List.append_assoc]
        rfl
    · rw [hn] at hd
      exact absurd hc (expression_not_callable (htree s t) r d hd)

theorem child_of_entry (path : Datum) (declarations : List Node) {tree : Nat → Node} {i t : Nat}
    (ht : (c.entries none)[i]? = some t) :
    (c.assembled path unit tree declarations).children[i]?
      = some (c.entryNode none unit tree t) := by
  show (_ ++ declarations)[i]? = _
  rw [List.getElem?_append_left, List.getElem?_map, ht, Option.map_some]
  rw [List.length_map]
  exact (List.getElem?_eq_some_iff.mp ht).1

/-- The unit of each function or lambda is at its position. -/
theorem nodeAt?_position (h : c.Bracketed)
    (hunit : ∀ s, c.Callable s → c.Composed unit tree s) (path : Datum) (declarations : List Node)
    {s : Nat} (hs : c.Callable s) :
    (c.assembled path unit (tree 0) declarations).nodeAt? (c.position s) = some (unit s) := by
  induction hn : c.startOrder s using Nat.strongRecOn generalizing s with
  | ind n ih =>
    subst hn
    obtain ⟨b, -, hb, -⟩ := h.body s hs
    have hget := getElem?_placeAround h.toLayered hs hb
    have hnode := entryNode_of_start h.toLayered hs hb unit
    rw [position_eq h.toLayered hs]
    cases hk : c.owner (c.scope s).nestedIn with
    | none =>
      rw [hk] at hget hnode
      rw [blockPosition, List.nil_append, nodeAt?_cons (child_of_entry path declarations hget),
        hnode, nodeAt?_nil]
    | some u =>
      rw [hk] at hget hnode
      have hu := callable_of_owner hk
      obtain ⟨head, -, hcomposed⟩ := hunit u hu
      have hat := ih _ (startOrder_lt h.toLayered hs hk) hu rfl
      have hblock : (unit u).children[0]? = some (.block ((c.entries (some u)).map
          (c.entryNode (some u) unit (tree u))) head.loc) := by
        rw [hcomposed]
        rfl
      have hchild : ((c.entries (some u)).map (c.entryNode (some u) unit (tree u)))[c.placeAround s]?
          = some (unit s) := by
        rw [List.getElem?_map, hget, Option.map_some, hnode]
      rw [blockPosition, List.append_assoc, nodeAt?_append hat, List.cons_append,
        nodeAt?_cons hblock, List.nil_append, nodeAt?_cons hchild, nodeAt?_nil]

/-- All units in the tree are at their positions or only declared. -/
theorem only_of_nodeAt? (h : c.Bracketed)
    (htree : ∀ s t, c.expression (some s) (some t) = .ok (tree s t))
    (hunit : ∀ s, c.Callable s → c.Composed unit tree s) {declarations : List Node}
    (hdecl : c.declaredFunctions.mapM c.declaration = .ok declarations) {path : Datum}
    {p : Position} {name kind : Datum} {params : ParameterList} {body : Option Node} {loc : Loc}
    (hp : (c.assembled path unit (tree 0) declarations).nodeAt? p
      = some (.callable name params body kind loc)) :
    (∃ s, c.Callable s ∧ c.position s = p)
      ∨ body = none ∧ ∃ i, (c.entries none).length ≤ i ∧ p = [i] := by
  match p with
  | [] => cases hp
  | i :: r =>
    obtain ⟨n, hn, hd⟩ := child_of_nodeAt? hp
    rcases Nat.lt_or_ge i (c.entries none).length with hlt | hge
    · have ht := List.getElem?_eq_getElem hlt
      obtain rfl := Option.some.inj (hn.symm.trans (child_of_entry path declarations ht))
      have hcallable : (Node.callable name params body kind loc).IsCallable := trivial
      exact .inl (exists_position h htree hunit ht hd hcallable)
    · have hmem : (_ ++ declarations)[i]? = some n := hn
      rw [List.getElem?_append_right (by rwa [List.length_map])] at hmem
      obtain ⟨f, -, hf⟩ := exists_of_mem_mapM hdecl (List.mem_of_getElem? hmem)
      obtain ⟨x, ps, k, l, hf', -⟩ := declaration_eq h.readable h.numbered f
      obtain rfl := Except.ok.inj (hf'.symm.trans hf)
      match r with
      | [] =>
        cases hd
        exact .inr ⟨rfl, i, hge, rfl⟩
      | j :: r =>
        obtain ⟨m, hm, -⟩ := child_of_nodeAt? hd
        cases hm

end Config

/-- Where bodies share no braces and lie inside one another as their scopes do, each function or
lambda is one unit in the tree of the configuration, at the place of its body. -/
theorem compilationUnit_outlined {c : Config} (h : c.Bracketed) (path : Datum) :
    ∃ tree pos, c.compilationUnit path = .ok tree ∧ c.Outlined path tree pos := by
  obtain ⟨unit, tree, htree, hunit⟩ := Config.exists_units h
  have hcomposed : ∀ s, c.Callable s → c.Composed unit tree s := fun s hs => (hunit s hs).2
  obtain ⟨declarations, hdecl, hfile⟩ :=
    Config.compilationUnit_entries h (fun u hu => (hunit u hu).1) (tree 0) path
  refine ⟨_, c.position, hfile, ?_, ?_, ?_, ?_, ?_⟩
  · exact ⟨_, declarations, rfl, List.length_map _, hdecl⟩
  · intro s hs
    obtain ⟨head, hhead, heq⟩ := hcomposed s hs
    have hat := Config.nodeAt?_position h hcomposed path declarations hs
    rw [heq] at hat
    refine ⟨head, _, hhead, hat, List.length_map _, ?_⟩
    intro i t ht hown
    refine ⟨tree s t, htree s t, ?_⟩
    rw [List.getElem?_map, ht, Option.map_some,
      Config.entryNode_of_ownTop h.toLayered hown unit (tree s)]
  · intro u b hu hb
    exact ⟨_, Config.getElem?_placeAround h.toLayered hu hb,
      Config.position_eq h.toLayered hu⟩
  · intro s u hs hu
    exact Config.position_inj h.toLayered hs hu
  · intro p name params body kind loc hp
    exact Config.only_of_nodeAt? h htree hcomposed hdecl hp

namespace lambdaSample

theorem bracketed : lambdaSample.Bracketed where
  toWellNested := coherent.wellNested
  readable := readable
  numbered := coherent.numbered
  acyclic := acyclic
  close := by
    intro s s' hs hs' hne e he
    unfold Config.IsBrace
    rcases callable_cases hs with rfl | rfl <;> rcases callable_cases hs' with rfl | rfl
    · exact absurd rfl hne
    · cases he
      decide
    · cases he
      decide
    · exact absurd rfl hne

end lambdaSample

theorem compilationUnit_outlined_lambdaSample :
    lambdaSample.Bracketed ∧ ∃ tree pos, lambdaSample.compilationUnit (.text "a.cpp") = .ok tree
      ∧ lambdaSample.Outlined (.text "a.cpp") tree pos :=
  ⟨lambdaSample.bracketed, compilationUnit_outlined lambdaSample.bracketed (.text "a.cpp")⟩

end FinalParams
