import FinalParams.Proofs.Lowering.Parameters
import FinalParams.Proofs.Lowering.Walk

/-!
# The trees of functions and lambdas

In a coherent configuration each function and lambda has a tree.  What is found in it is what is
found in the expressions of its body and, in their places, in the functions and lambdas directly
inside.  `compilationUnit_found` says the same of the whole configuration.
-/

namespace FinalParams
namespace Config

variable {c : Config}

/-! ## Headings -/

theorem unitName_ok (h : c.Readable) (s : Nat) : ∃ x, c.unitName s = .text x := by
  have htext : ∀ {d : Datum}, d.IsTextIfAny → d.truthy = true → ∃ x, d = .text x := by
    rintro d (hf | hx) ht
    · rw [hf] at ht
      exact absurd ht Bool.false_ne_true
    · exact hx
  unfold unitName
  simp only
  split
  · rename_i ht
    cases hf : (c.scope s).function with
    | none =>
      rw [hf] at ht
      exact absurd ht Bool.false_ne_true
    | some f =>
      rw [hf] at ht
      exact htext (h.functionName f) ht
  split
  · exact ⟨_, rfl⟩
  split
  · rename_i ht
    exact htext (h.className s) ht
  · exact ⟨_, rfl⟩

theorem functionKind_ok {f : Function} (h : f.kind.IsTextIfAny) : ∃ k, functionKind f = .ok k := by
  unfold functionKind
  rcases h with hf | ⟨s, hs⟩
  · split
    · exact ⟨_, rfl⟩
    · rw [hf]
      exact ⟨_, rfl⟩
  · rw [hs]
    exact ⟨_, rfl⟩

theorem unitKind_ok (h : c.Readable) (s : Nat) : ∃ k, c.unitKind s = .ok k := by
  unfold unitKind
  simp only
  split
  · exact ⟨_, rfl⟩
  · cases (c.scope s).function with
    | none => exact functionKind_ok (.inl rfl)
    | some f => exact functionKind_ok (h.functionKind f)

theorem heading_ok (h : c.Readable) (name : Datum) (ps : Option (List Parameter)) (kind : String)
    (o : Option Nat) :
    ∃ loc, heading name (.ok ps) (.ok kind) (c.tokenIfAny o) = .ok ⟨name, ps, kind, loc⟩ := by
  obtain ⟨t, ht⟩ := c.exists_tokenIfAny o
  rw [ht]
  refine ⟨(c.token t).place, ?_⟩
  simp only [heading, h.loc?_ok, Except.mapError, bind, Except.bind, pure, Except.pure]

/-- The heading of a scope with these parameters. -/
theorem unitHeading_of_parameters (h : c.Readable) {s : Nat} {ps : Option (List Parameter)}
    (hps : c.scopeParameters s = .ok ps) :
    ∃ x kind loc, c.unitHeading s = .ok ⟨.text x, ps, kind, loc⟩ := by
  obtain ⟨x, hname⟩ := unitName_ok h s
  obtain ⟨kind, hkind⟩ := unitKind_ok h s
  obtain ⟨loc, hhead⟩ := heading_ok h (.text x) ps kind (c.scope s).bodyStart
  exact ⟨x, kind, loc, by rw [unitHeading, hname, hps, hkind, hhead]⟩

/-- A function that is declared has a heading. -/
theorem declaration_eq (h : c.Readable) (hkeys : c.Numbered) (f : Nat) :
    ∃ x ps kind loc, c.declaration f = .ok ((Heading.mk (.text x) ps kind loc).node none)
      ∧ c.functionParameters f = .ok ps := by
  obtain ⟨ps, hps, -⟩ := functionParameters_ok h hkeys f
  obtain ⟨kind, hkind⟩ := functionKind_ok (h.functionKind f)
  obtain ⟨t, ht⟩ := c.exists_tokenIfAny ((c.function f).declaredAt <|> (c.function f).definedAt)
  obtain ⟨spelling, hspelling⟩ := h.spelling t
  have hname : ∃ x, (if (c.function f).name.truthy then (c.function f).name
      else if (c.token t).spelling.truthy then (c.token t).spelling
      else .text "<anonymous>") = .text x := by
    split
    · rename_i htruthy
      rcases h.functionName f with hf | hx
      · rw [hf] at htruthy
        exact absurd htruthy Bool.false_ne_true
      · exact hx
    split
    · exact ⟨spelling, hspelling⟩
    · exact ⟨_, rfl⟩
  obtain ⟨x, hx⟩ := hname
  obtain ⟨loc, hhead⟩ := heading_ok h (.text x) ps kind
    ((c.function f).declaredAt <|> (c.function f).definedAt)
  rw [ht] at hhead
  refine ⟨x, ps, kind, loc, ?_, hps⟩
  simp only [declaration, ht, hx, hps, hkind, hhead, Except.map]

/-- The parameters of these names can be looked up. -/
def Nameable (ps : Option (List Parameter)) : Prop :=
  ∀ p, p ∈ ps.getD [] → (p.name = .null ∨ ∃ s, p.name = .text s) ∧ p.binding.IsKey

theorem Nameable.inner {ps : Option (List Parameter)} (h : Nameable ps) (x kind : String)
    (loc : Loc) (body : Option Node) :
    ((Heading.mk (.text x) ps kind loc).node body).Inner := by
  refine ⟨⟨⟨x, rfl⟩, ?_⟩, ?_⟩
  · intro p hp
    apply h p
    cases ps <;> simp_all
  · intro _ _ _ he
    cases he

/-! ## Trees of functions and lambdas -/

variable {α β : Type}

theorem flatMap_pieces (k : Option Nat) (nested top : Nat → List α) (f : α → List β) (t : Nat) :
    (c.pieces k nested top t).flatMap f
      = c.pieces k (fun u => (nested u).flatMap f) (fun t => (top t).flatMap f) t := by
  unfold pieces
  cases c.nestedOf k t with
  | some u => rfl
  | none => cases c.isStatementOf k t <;> rfl

theorem pieces_congr {k : Option Nat} {nested nested' top top' : Nat → List α} {t : Nat}
    (hn : ∀ u, c.nestedOf k t = some u → nested u = nested' u)
    (ht : c.isStatementOf k t = true → top t = top' t) :
    c.pieces k nested top t = c.pieces k nested' top' t := by
  unfold pieces
  cases hu : c.nestedOf k t with
  | some u => exact hn u hu
  | none =>
    cases hs : c.isStatementOf k t with
    | true =>
      rw [if_pos rfl, if_pos rfl]
      exact ht hs
    | false => rfl

/-- The tops of the expressions in the body of `k`, of which no path of nested bodies is as long as
the depth. -/
def rootsWithin (c : Config) : Nat → Option Nat → List Nat
  | 0, _ => []
  | depth + 1, k =>
    c.tokenList.flatMap (c.pieces k (fun u => c.rootsWithin depth (some u)) fun t => [t])

/-- What is found in the expression at `r`. -/
def foundAt (c : Config) (m : Mutations) (path : Datum) (r : Nat) : List Violation :=
  match c.tokenOwner r with
  | some s => (c.spread s r).filterMap (c.finding m path (c.scopeWatched s))
  | none => []

/-- In a tree there is found what belongs to these tops of expressions, wherever the tree stands. -/
structure Yields (c : Config) (m : Mutations) (path : Datum) (roots : List Nat) (n : Node) :
    Prop where
  inner : n.Everywhere Node.Inner
  found : ∀ around, n.found m path around = roots.flatMap (c.foundAt m path)

variable {m : Mutations} {path : Datum}

theorem pieces_inner (h : c.Coherent) {s : Nat} {params : Option (List (Option Parameter))}
    {w : Watched} {found spread : Nat → List Nat} {unit tree : Nat → Node}
    (hunit : ∀ u, c.Callable u → c.Directly u (some s) → c.Yields m path (found u) (unit u))
    (htree : ∀ t ∈ c.tokenList, c.Grown m path params w t (spread t) (tree t)) {d : Node}
    (hd : d ∈ c.tokenList.flatMap (c.pieces (some s) (fun u => [unit u]) fun t => [tree t])) :
    d.Everywhere Node.Inner := by
  obtain ⟨t, ht, hdt⟩ := List.mem_flatMap.mp hd
  unfold pieces at hdt
  split at hdt
  · rename_i u hu
    obtain ⟨hcu, -, hus⟩ := (nestedOf_eq_some_iff h.toLayered).mp hu
    obtain rfl := List.mem_singleton.mp hdt
    exact (hunit u hcu hus).inner
  split at hdt
  · obtain rfl := List.mem_singleton.mp hdt
    exact (htree t ht).inner
  · exact absurd hdt List.not_mem_nil

theorem pieces_found (h : c.Coherent) {s depth : Nat} {unit tree : Nat → Node}
    {params : ParameterList}
    (hunit : ∀ u, c.Callable u → c.Directly u (some s) →
      c.Yields m path (c.rootsWithin depth (some u)) (unit u))
    (htree : ∀ t ∈ c.tokenList,
      c.Grown m path params (c.scopeWatched s) t (c.spread s t) (tree t)) :
    (c.tokenList.flatMap (c.pieces (some s) (fun u => [unit u]) fun t => [tree t])).flatMap
        (Node.found m path (some params))
      = (c.rootsWithin (depth + 1) (some s)).flatMap (c.foundAt m path) := by
  rw [List.flatMap_assoc, rootsWithin, List.flatMap_assoc]
  apply List.flatMap_congr
  intro t ht
  rw [flatMap_pieces, flatMap_pieces]
  apply pieces_congr
  · intro u hu
    obtain ⟨hcu, -, hus⟩ := (nestedOf_eq_some_iff h.toLayered).mp hu
    rw [List.flatMap_singleton, (hunit u hcu hus).found]
  · intro hst
    obtain ⟨-, s', hs', ho⟩ := tokenOwner_of_isStatementOf hst
    obtain rfl := Option.some.inj hs'
    rw [List.flatMap_singleton, List.flatMap_singleton, (htree t ht).found, foundAt, ho]

theorem node_yields (h : c.Coherent) {s depth : Nat} {unit tree : Nat → Node}
    {ps : Option (List Parameter)} (x kind : String) (loc : Loc) (hps : Nameable ps)
    (hunit : ∀ u, c.Callable u → c.Directly u (some s) →
      c.Yields m path (c.rootsWithin depth (some u)) (unit u))
    (htree : ∀ t ∈ c.tokenList, c.Grown m path (ps.map (·.map some)) (c.scopeWatched s) t
      (c.spread s t) (tree t)) :
    c.Yields m path (c.rootsWithin (depth + 1) (some s))
      ((Heading.mk (.text x) ps kind loc).node (some (.block (c.tokenList.flatMap
        (c.pieces (some s) (fun u => [unit u]) fun t => [tree t])) loc))) := by
  constructor
  · rw [Node.everywhere_iff]
    refine ⟨hps.inner x kind loc _, ?_⟩
    intro d hd
    obtain rfl := List.mem_singleton.mp hd
    rw [Node.everywhere_iff]
    exact ⟨⟨trivial, fun _ _ _ he => nomatch he⟩, fun d hd => pieces_inner h hunit htree hd⟩
  · intro around
    have hinside : ∀ ns, (Node.block ns loc).found m path (some (ps.map (·.map some)))
        = ns.flatMap (Node.found m path (some (ps.map (·.map some)))) := by
      intro ns
      rw [Node.found_eq, Node.own?_block]
      rfl
    rw [Node.found_eq]
    show (Node.own? m path around (Node.callable _ _ _ _ _)).toList
      ++ [Node.block _ loc].flatMap (Node.found m path (some (ps.map (·.map some)))) = _
    rw [Node.own?_callable, List.flatMap_singleton, hinside, pieces_found h hunit htree]
    rfl

theorem unitWithin_ok (h : c.Coherent) {s depth : Nat} (hs : c.Callable s)
    (hd : c.inner s < depth) :
    ∃ n, c.unitWithin c.callableScopes depth s = .ok n
      ∧ c.Yields m path (c.rootsWithin depth (some s)) n := by
  induction depth generalizing s with
  | zero => exact absurd hd (Nat.not_lt_zero _)
  | succ depth ih =>
    obtain ⟨b, e, hb, -⟩ := h.body s hs
    obtain ⟨ps, hps, hnameable, hw, -⟩ := scopeWatched_ok h s
    obtain ⟨x, kind, loc, hheading⟩ := unitHeading_of_parameters h.readable hps
    have hnested : ∀ u, c.Callable u → c.Directly u (some s) →
        ∃ n, c.unitWithin c.callableScopes depth u = .ok n
          ∧ c.Yields m path (c.rootsWithin depth (some u)) n := by
      intro u hu hus
      have hlt := h.toLayered.inner_lt hu hus
      exact ih hu (by omega)
    have htops : ∀ t ∈ c.tokenList, ∃ n, c.expression (some s) (some t) = .ok n
        ∧ c.Grown m path (ps.map (·.map some)) (c.scopeWatched s) t (c.spread s t) n :=
      fun t ht => expression_ok h hw s ht
    choose! unit hunit using hnested
    choose! tree htree using htops
    have hbody := body_ok h hs hb (fun u hu hus => (hunit u hu hus).1) fun t ht => (htree t ht).1
    refine ⟨_, ?_, node_yields h x kind loc hnameable (fun u hu hus => (hunit u hu hus).2)
      fun t ht => (htree t ht).2⟩
    rw [unitWithin, hheading, hb]
    simp only [hbody, bind, Except.bind, pure, Except.pure]

/-! ## The whole configuration -/

/-- The tops of expressions in the bodies of all functions and lambdas. -/
def roots (c : Config) : List Nat := c.rootsWithin (c.scopes.size + 2) none

theorem scopeMisfit?_none (h : c.Readable) : c.scopeMisfit? = none := by
  rw [scopeMisfit?, List.findSome?_eq_none_iff]
  intro s _
  simp only [Scope.isCallable?_of_isKey (h.scopeKind s)]

theorem outermostUnit_ok (h : c.Readable) (hw : c.Layered) {unit : Nat → Node}
    (hunit : ∀ u, c.Callable u → c.unit c.callableScopes u = .ok (unit u)) (t : Nat) :
    c.outermostUnit t = .ok ((c.nestedOf none t).map unit) := by
  simp only [outermostUnit, outermostAt_ok h, Except.mapError, bind, Except.bind]
  cases hn : c.nestedOf none t with
  | none => rfl
  | some u =>
    simp only [hunit u ((nestedOf_eq_some_iff hw).mp hn).1, pure, Except.pure, Option.map_some]

theorem declaration_ok (h : c.Coherent) (f : Nat) :
    ∃ n, c.declaration f = .ok n ∧ c.Yields m path [] n := by
  obtain ⟨x, ps, kind, loc, hdecl, hps⟩ := declaration_eq h.readable h.numbered f
  obtain ⟨ps', hps', hmem⟩ := functionParameters_ok h.readable h.numbered f
  obtain rfl : ps' = ps := Except.ok.inj (hps'.symm.trans hps)
  have hnameable : Nameable ps' := by
    intro p hp
    obtain ⟨v, -, rfl⟩ := (hmem p).mp hp
    exact ⟨parameterOf_name h.readable v, parameterOf_binding v⟩
  refine ⟨_, hdecl, ?_, ?_⟩
  · rw [Node.everywhere_iff]
    exact ⟨hnameable.inner x kind loc none, fun d hd => nomatch hd⟩
  · intro around
    rw [Node.found_eq]
    show (Node.own? m path around (Node.callable _ _ _ _ _)).toList ++ [] = _
    rw [Node.own?_callable]
    rfl

/-- The functions and lambdas in no other one are found to be what their bodies are. -/
theorem outermost_found (h : c.Coherent) {unit : Nat → Node}
    (hunit : ∀ u, c.Callable u →
      c.Yields m path (c.rootsWithin (c.scopes.size + 1) (some u)) (unit u)) :
    ((c.tokenList.map fun t => (c.nestedOf none t).map unit).filterMap id).flatMap
        (Node.found m path none)
      = c.roots.flatMap (c.foundAt m path) := by
  have hpieces : (c.tokenList.map fun t => (c.nestedOf none t).map unit).filterMap id
      = c.tokenList.flatMap (c.pieces none (fun u => [unit u]) fun _ => []) := by
    rw [List.filterMap_map, List.filterMap_eq_flatMap_toList]
    apply List.flatMap_congr
    intro t _
    unfold pieces
    cases hn : c.nestedOf none t with
    | none => cases c.isStatementOf none t <;> simp [hn]
    | some u => simp [hn]
  rw [hpieces, List.flatMap_assoc, roots, rootsWithin, List.flatMap_assoc]
  apply List.flatMap_congr
  intro t _
  rw [flatMap_pieces, flatMap_pieces]
  apply pieces_congr
  · intro u hu
    rw [List.flatMap_singleton, (hunit u ((nestedOf_eq_some_iff h.toLayered).mp hu).1).found none]
  · intro hst
    obtain ⟨-, s, hs, -⟩ := tokenOwner_of_isStatementOf hst
    cases hs

/-- The tree of a coherent configuration, in which there is found what is found in the expressions
of all functions and lambdas. -/
theorem compilationUnit_found (h : c.Coherent) (m : Mutations) (path : Datum) :
    ∃ tree, c.compilationUnit path = .ok tree
      ∧ tree.scan m none
        = { violations := c.roots.flatMap (c.foundAt m (c.shownPath path)) } := by
  have hunits : ∀ u, c.Callable u → ∃ n, c.unit c.callableScopes u = .ok n
      ∧ c.Yields m (c.shownPath path) (c.rootsWithin (c.scopes.size + 1) (some u)) n :=
    fun u hu => unitWithin_ok h hu (Nat.lt_succ_of_le (c.inner_le u))
  choose! unit hunit using hunits
  have hdeclarations : ∀ f, ∃ n, c.declaration f = .ok n ∧ c.Yields m (c.shownPath path) [] n :=
    declaration_ok h
  choose decl hdecl using hdeclarations
  have houtermost : c.tokenList.mapM c.outermostUnit
      = .ok (c.tokenList.map fun t => (c.nestedOf none t).map unit) :=
    mapM_eq_map fun t _ =>
      outermostUnit_ok h.readable h.toLayered (fun u hu => (hunit u hu).1) t
  have hdeclared : c.declaredFunctions.mapM c.declaration = .ok (c.declaredFunctions.map decl) :=
    mapM_eq_map fun f _ => (hdecl f).1
  have htree : c.compilationUnit path = .ok (.file (c.shownPath path)
      ((c.tokenList.map fun t => (c.nestedOf none t).map unit).filterMap id
        ++ c.declaredFunctions.map decl) { file := c.shownPath path }) := by
    simp only [compilationUnit, scopeMisfit?_none h.readable, houtermost, hdeclared, bind,
      Except.bind, pure, Except.pure]
  refine ⟨_, htree, ?_⟩
  rw [Scan.scan_file]
  · have hdecls : (c.declaredFunctions.map decl).flatMap (Node.found m (c.shownPath path) none)
        = [] := by
      rw [List.flatMap_map, List.flatMap_eq_nil_iff]
      intro f _
      exact (hdecl f).2.found none
    rw [List.flatMap_append, hdecls, List.append_nil, outermost_found h fun u hu => (hunit u hu).2]
  · intro d hd
    rcases List.mem_append.mp hd with hd | hd
    · obtain ⟨o, ho, hod⟩ := List.mem_filterMap.mp hd
      obtain ⟨t, -, rfl⟩ := List.mem_map.mp ho
      obtain ⟨u, hu, rfl⟩ := Option.map_eq_some_iff.mp hod
      exact (hunit u ((nestedOf_eq_some_iff h.toLayered).mp hu).1).2.inner
    · obtain ⟨f, -, rfl⟩ := List.mem_map.mp hd
      exact (hdecl f).2.inner

end Config
end FinalParams
