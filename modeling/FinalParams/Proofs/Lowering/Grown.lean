import FinalParams.Proofs.Lowering.Spread
import FinalParams.Proofs.Lowering.Tree
import FinalParams.Proofs.Scan.Found

/-!
# What is found in the tree of an expression

`treeWithin_ok` says that in a coherent configuration an expression has a tree, and that the
violations in it are the findings at the tokens of the expression in pre-order.
-/

namespace FinalParams

/-- Whether a token with a first operand is a mutation that counts. -/
def Token.counts (m : Mutations) (t : Token) : Bool :=
  if t.isAssignment then t.isSpelled "=" || m.compound else t.isStep && m.steps

/-- The name that a token stands for. -/
def Token.ident (t : Token) : Identifier := ⟨t.spelling, .int t.variableId⟩

namespace Config

variable {c : Config}

theorem isStep_of_op1_none {t : Token} (h : t.op1 = none) : t.isStep = false := by
  rw [Token.isStep, h, Option.isSome_none, Bool.and_false]

theorem isVariable_of_op1 {t : Token} {a : Nat} (h : t.op1 = some a) : t.isVariable = false := by
  rw [Token.isVariable, Token.isBareName, h, Option.isNone_some, Bool.false_and, Bool.false_and,
    Bool.false_and]

theorem op1_of_isVariable {t : Token} (h : t.isVariable = true) : t.op1 = none := by
  cases ho : t.op1 with
  | none => rfl
  | some a => rw [isVariable_of_op1 ho] at h; contradiction

theorem ownOperands_of_assignment {s t a : Nat} (ho : (c.token t).op1 = some a)
    (ha : (c.token t).isAssignment = true) :
    c.ownOperands s t = a :: (c.token t).op2.toList := by
  rw [← Token.operands_of_op1 ho]
  simp [ownOperands, ho, ha]

theorem ownOperands_of_step {s t a : Nat} (ho : (c.token t).op1 = some a)
    (ha : (c.token t).isAssignment = false) (hs : (c.token t).isStep = true) :
    c.ownOperands s t = [a] := by
  simp [ownOperands, ho, ha, hs]

theorem ownOperands_of_variable {s t : Nat} (hv : (c.token t).isVariable = true) :
    c.ownOperands s t = [] := by
  have ho := op1_of_isVariable hv
  simp [ownOperands, ho, isStep_of_op1_none ho, hv]

theorem nodeOf_of_assignment (h : c.Readable) {t a : Nat} (ho : (c.token t).op1 = some a)
    (ha : (c.token t).isAssignment = true) (target : Node) (rest : List Node) :
    ∃ text, text ≠ "" ∧ c.textOf t = .ok (.text text) ∧ c.nodeOf t (target :: rest)
      = .ok (.assign target rest.head? (c.token t).spelling (.text text) (c.token t).place) := by
  obtain ⟨text, htext, hne⟩ := h.textOf_ok ho
  refine ⟨text, hne, htext, ?_⟩
  simp [nodeOf, h.loc?_ok, ho, ha, htext, Except.mapError, bind, Except.bind, pure, Except.pure]

theorem nodeOf_of_step (h : c.Readable) {t a : Nat} (ho : (c.token t).op1 = some a)
    (ha : (c.token t).isAssignment = false) (hs : (c.token t).isStep = true) (target : Node) :
    ∃ text, text ≠ "" ∧ c.textOf t = .ok (.text text) ∧ c.nodeOf t [target]
      = .ok (.update target (c.token t).spelling (.bool (c.token t).isLeadingStep) (.text text)
          (c.token t).place) := by
  obtain ⟨text, htext, hne⟩ := h.textOf_ok ho
  refine ⟨text, hne, htext, ?_⟩
  simp [nodeOf, h.loc?_ok, ha, hs, htext, Except.mapError, bind, Except.bind, pure, Except.pure]

/-- The node of a name that is known to be a variable. -/
def nameNode (c : Config) (t : Nat) : Node :=
  .ref (c.token t).spelling (.int (c.token t).variableId) (c.token t).place

theorem nodeOf_of_variable (h : c.Readable) {t : Nat} (hv : (c.token t).isVariable = true)
    (lowered : List Node) : c.nodeOf t lowered = .ok (c.nameNode t) := by
  have ho := op1_of_isVariable hv
  simp [nodeOf, h.loc?_ok, ho, isStep_of_op1_none ho, hv, nameNode, Except.mapError, bind,
    Except.bind, pure, Except.pure]

theorem nodeOf_of_other (h : c.Readable) {t : Nat} (hv : (c.token t).isVariable = false)
    (ho : (c.token t).op1 = none
      ∨ (c.token t).isAssignment = false ∧ (c.token t).isStep = false) (lowered : List Node) :
    c.nodeOf t lowered
      = .ok (.other (.text (c.token t).exprKind) lowered (c.token t).spelling
          (c.token t).place) := by
  rcases ho with ho | ⟨ha, hs⟩
  · simp [nodeOf, h.loc?_ok, ho, isStep_of_op1_none ho, hv, Except.mapError, bind, Except.bind,
      pure, Except.pure]
  · simp [nodeOf, h.loc?_ok, ha, hs, hv, Except.mapError, bind, Except.bind, pure, Except.pure]

/-- A variable stands for a name, and no other token does. -/
def Stands (c : Config) (t : Nat) (n : Node) : Prop :=
  if (c.token t).isVariable = true then n = c.nameNode t
  else ∀ name binding loc, n ≠ .ref name binding loc

/-! ## Findings -/

/-- The text of an expression that has one. -/
def shownText (c : Config) (t : Nat) : Datum :=
  match c.textOf t with
  | .ok text => text
  | .error _ => .null

/-- What is found at a token where the names `w` are watched. -/
def finding (c : Config) (m : Mutations) (path : Datum) (w : Watched) (t : Nat) :
    Option Violation :=
  match (c.token t).op1 with
  | none => none
  | some a =>
    if (c.token t).counts m && (c.token a).isVariable && w.any (c.token a).ident.agrees then
      some ⟨(c.token a).place.inFile path, (c.token a).ident, c.shownText t, (c.token t).spelling⟩
    else none

theorem keys?_ident (h : c.Readable) (t : Nat) : ∃ k, (c.token t).ident.keys? = .ok k := by
  obtain ⟨s, hs⟩ := h.spelling t
  apply Identifier.keys?_of_isKey
  · show (c.token t).spelling.IsKey
    rw [hs]
    exact Datum.isKey_text s
  · exact Datum.isKey_int _

variable {m : Mutations} {path : Datum} {params : ParameterList} {w : Watched}

/-- A node that mutates the node of the first operand is found to be what the finding says. -/
theorem own?_eq_finding (h : c.Readable) (hw : Watched.ofParameterList params = .ok w) {t a : Nat}
    {n target : Node} {text : Datum} (ho : (c.token t).op1 = some a)
    (hn : n.written? m
      = if (c.token t).counts m = true then some (target, (c.token t).spelling) else none)
    (hs : c.Stands a target) (hsrc : n.sourceText = .ok text) (ht : c.textOf t = .ok text) :
    n.own? m path (some params) = c.finding m path w t := by
  have htext : c.shownText t = text := by rw [shownText, ht]
  unfold finding
  simp only [ho, htext]
  cases hc : (c.token t).counts m with
  | false =>
    rw [hc, if_neg Bool.false_ne_true] at hn
    rw [Node.own?_of_not_written (by rw [hn]; intro _ _ _ _ he; cases he)]
    rfl
  | true =>
    rw [hc, if_pos rfl] at hn
    cases hv : (c.token a).isVariable with
    | false =>
      rw [Stands, hv, if_neg Bool.false_ne_true] at hs
      rw [Node.own?_of_not_written]
      · rfl
      · intro name binding loc op he
        rw [hn] at he
        exact hs name binding loc (Prod.mk.inj (Option.some.inj he)).1
    | true =>
      rw [Stands, hv, if_pos rfl] at hs
      subst hs
      rw [Node.own?_of_written hn (keys?_ident h a) hsrc hw]
      rfl

theorem own?_other (kind : Datum) (ns : List Node) (text : Datum) (loc : Loc) :
    (Node.other kind ns text loc).own? m path (some params) = none := by
  apply Node.own?_of_not_written
  intro _ _ _ _ he
  cases he

/-! ## Trees -/

/-- The tree of an expression has sound nodes, it is a name if the token is one, and the violations
in it are the findings at these tokens. -/
structure Grown (c : Config) (m : Mutations) (path : Datum) (params : ParameterList) (w : Watched)
    (t : Nat) (ts : List Nat) (n : Node) : Prop where
  inner : n.Everywhere Node.Inner
  stands : c.Stands t n
  found : n.found m path (some params) = ts.filterMap (c.finding m path w)

theorem Grown.of_children {t : Nat} {us : List Nat} {g : Nat → Node} {spread : Nat → List Nat}
    {n : Node} (hg : ∀ u ∈ us, c.Grown m path params w u (spread u) (g u))
    (hchildren : n.children = us.map g) (hbelow : n.aroundBelow (some params) = some params)
    (hn : n.Inner) (hs : c.Stands t n)
    (hown : n.own? m path (some params) = c.finding m path w t) :
    c.Grown m path params w t (t :: us.flatMap spread) n := by
  refine ⟨?_, hs, ?_⟩
  · rw [Node.everywhere_iff, hchildren]
    refine ⟨hn, ?_⟩
    intro d hd
    obtain ⟨u, hu, rfl⟩ := List.mem_map.mp hd
    exact (hg u hu).inner
  · have hrest : us.flatMap (fun u => (g u).found m path (some params))
        = (us.flatMap spread).filterMap (c.finding m path w) := by
      rw [List.filterMap_flatMap]
      exact List.flatMap_congr fun u hu => (hg u hu).found
    rw [Node.found_eq, hchildren, hbelow, List.flatMap_map, hrest, hown, List.filterMap_cons]
    cases c.finding m path w t <;> rfl

theorem stands_of_op1 {t a : Nat} (ho : (c.token t).op1 = some a) {n : Node}
    (hn : ∀ name binding loc, n ≠ .ref name binding loc) : c.Stands t n := by
  rw [Stands, if_neg (by rw [isVariable_of_op1 ho]; exact Bool.false_ne_true)]
  exact hn

theorem nodeOf_grown_of_assignment (h : c.Readable)
    (hw : Watched.ofParameterList params = .ok w) {s t a : Nat} {g : Nat → Node}
    {spread : Nat → List Nat} (ho : (c.token t).op1 = some a)
    (ha : (c.token t).isAssignment = true)
    (hg : ∀ u ∈ c.ownOperands s t, c.Grown m path params w u (spread u) (g u)) :
    ∃ n, c.nodeOf t ((c.ownOperands s t).map g) = .ok n
      ∧ c.Grown m path params w t (t :: (c.ownOperands s t).flatMap spread) n := by
  have hown := ownOperands_of_assignment (s := s) ho ha
  obtain ⟨text, hne, htext, hnode⟩ := nodeOf_of_assignment h ho ha (g a)
    ((c.token t).op2.toList.map g)
  have hmem : a ∈ c.ownOperands s t := by
    rw [hown]
    exact List.mem_cons_self ..
  refine ⟨_, by rw [hown]; exact hnode, ?_⟩
  apply Grown.of_children hg
  · rw [hown]
    cases (c.token t).op2 <;> rfl
  · rfl
  · refine ⟨⟨text, rfl⟩, ?_⟩
    intro _ _ _ he
    cases he
  · apply stands_of_op1 ho
    intro _ _ _ he
    cases he
  · refine own?_eq_finding h hw ho ?_ (hg a hmem).stands ?_ htext
    · rw [Node.written?, Token.counts, ha, if_pos rfl]
      rfl
    · rw [Node.sourceText, if_pos (by simpa [Datum.truthy] using hne)]

theorem nodeOf_grown_of_step (h : c.Readable) (hw : Watched.ofParameterList params = .ok w)
    {s t a : Nat} {g : Nat → Node} {spread : Nat → List Nat} (ho : (c.token t).op1 = some a)
    (ha : (c.token t).isAssignment = false) (hstep : (c.token t).isStep = true)
    (hg : ∀ u ∈ c.ownOperands s t, c.Grown m path params w u (spread u) (g u)) :
    ∃ n, c.nodeOf t ((c.ownOperands s t).map g) = .ok n
      ∧ c.Grown m path params w t (t :: (c.ownOperands s t).flatMap spread) n := by
  have hown := ownOperands_of_step (s := s) ho ha hstep
  obtain ⟨text, hne, htext, hnode⟩ := nodeOf_of_step h ho ha hstep (g a)
  have hmem : a ∈ c.ownOperands s t := by
    rw [hown]
    exact List.mem_cons_self ..
  refine ⟨_, by rw [hown]; exact hnode, ?_⟩
  apply Grown.of_children hg
  · rw [hown]
    rfl
  · rfl
  · refine ⟨⟨text, rfl⟩, ?_⟩
    intro _ _ _ he
    cases he
  · apply stands_of_op1 ho
    intro _ _ _ he
    cases he
  · refine own?_eq_finding h hw ho ?_ (hg a hmem).stands ?_ htext
    · rw [Node.written?, Token.counts, ha, hstep, if_neg Bool.false_ne_true, Bool.true_and]
    · rw [Node.sourceText, if_pos (by simpa [Datum.truthy] using hne)]

theorem nodeOf_grown_of_op1 (h : c.Readable) (hw : Watched.ofParameterList params = .ok w)
    {s t a : Nat} {g : Nat → Node} {spread : Nat → List Nat} (ho : (c.token t).op1 = some a)
    (hg : ∀ u ∈ c.ownOperands s t, c.Grown m path params w u (spread u) (g u)) :
    ∃ n, c.nodeOf t ((c.ownOperands s t).map g) = .ok n
      ∧ c.Grown m path params w t (t :: (c.ownOperands s t).flatMap spread) n := by
  cases ha : (c.token t).isAssignment with
  | true => exact nodeOf_grown_of_assignment h hw ho ha hg
  | false =>
    cases hstep : (c.token t).isStep with
    | true => exact nodeOf_grown_of_step h hw ho ha hstep hg
    | false =>
      obtain ⟨spelling, hspelling⟩ := h.spelling t
      refine ⟨_, nodeOf_of_other h (isVariable_of_op1 ho) (.inr ⟨ha, hstep⟩) _, ?_⟩
      apply Grown.of_children hg rfl rfl
      · refine ⟨⟨spelling, hspelling⟩, ?_⟩
        intro _ _ _ he
        cases he
      · apply stands_of_op1 ho
        intro _ _ _ he
        cases he
      · have hcounts : (c.token t).counts m = false := by
          rw [Token.counts, ha, hstep, if_neg Bool.false_ne_true, Bool.false_and]
        have hfind : c.finding m path w t = none := by
          simp only [finding, ho, hcounts, Bool.false_and, Bool.false_eq_true, if_false]
        rw [hfind, own?_other]

/-- Without a first operand a token is a name or an operator, and nothing is found at it. -/
theorem nodeOf_grown_of_op1_none (h : c.Readable) {s t : Nat} {g : Nat → Node}
    {spread : Nat → List Nat} (ho : (c.token t).op1 = none)
    (hg : ∀ u ∈ c.ownOperands s t, c.Grown m path params w u (spread u) (g u)) :
    ∃ n, c.nodeOf t ((c.ownOperands s t).map g) = .ok n
      ∧ c.Grown m path params w t (t :: (c.ownOperands s t).flatMap spread) n := by
  have hfind : c.finding m path w t = none := by simp only [finding, ho]
  obtain ⟨spelling, hspelling⟩ := h.spelling t
  cases hv : (c.token t).isVariable with
  | true =>
    refine ⟨c.nameNode t, nodeOf_of_variable h hv _, ?_⟩
    apply Grown.of_children hg
    · rw [ownOperands_of_variable hv]
      rfl
    · rfl
    · refine ⟨⟨⟨spelling, hspelling⟩, Datum.isKey_int _⟩, ?_⟩
      intro _ _ _ he
      cases he
    · rw [Stands, if_pos hv]
    · rw [hfind]
      apply Node.own?_of_not_written
      intro _ _ _ _ he
      cases he
  | false =>
    refine ⟨_, nodeOf_of_other h hv (.inl ho) _, ?_⟩
    apply Grown.of_children hg rfl rfl
    · refine ⟨⟨spelling, hspelling⟩, ?_⟩
      intro _ _ _ he
      cases he
    · rw [Stands, if_neg (by rw [hv]; exact Bool.false_ne_true)]
      intro _ _ _ he
      cases he
    · rw [hfind, own?_other]

theorem treeWithin_ok (h : c.Coherent) (hw : Watched.ofParameterList params = .ok w) {s t : Nat}
    {budget : Nat} (ht : t ∈ c.tokenList) (hb : c.rank t < budget) :
    ∃ n, c.treeWithin (some s) budget t = .ok n
      ∧ c.Grown m path params w t (c.spreadWithin s budget t) n := by
  induction budget generalizing t with
  | zero => exact absurd hb (Nat.not_lt_zero _)
  | succ b ih =>
    have hbelow : ∀ u ∈ c.ownOperands s t, ∃ n, c.treeWithin (some s) b u = .ok n
        ∧ c.Grown m path params w u (c.spreadWithin s b u) n := by
      intro u hu
      have hop := (c.ownOperands_sublist s t).subset hu
      have hlt := rank_lt h ht hop
      exact ih (h.operand_mem t ht u hop) (by omega)
    choose! g hg using hbelow
    have hlowered : (c.ownOperands s t).mapM (c.treeWithin (some s) b)
        = .ok ((c.ownOperands s t).map g) := mapM_eq_map fun u hu => (hg u hu).1
    have hgrown : ∀ u ∈ c.ownOperands s t, c.Grown m path params w u (c.spreadWithin s b u) (g u) :=
      fun u hu => (hg u hu).2
    have hstep : c.treeWithin (some s) (b + 1) t = c.nodeOf t ((c.ownOperands s t).map g) := by
      rw [treeWithin, openedOperands_ok h.readable]
      simp only [bind, Except.bind, hlowered]
    rw [hstep, spreadWithin]
    cases ho : (c.token t).op1 with
    | none => exact nodeOf_grown_of_op1_none h.readable ho hgrown
    | some a => exact nodeOf_grown_of_op1 h.readable hw ho hgrown

/-- The expression at a listed token, lowered for the function or lambda `s`. -/
theorem expression_ok (h : c.Coherent) (hw : Watched.ofParameterList params = .ok w) (s : Nat)
    {t : Nat} (ht : t ∈ c.tokenList) :
    ∃ n, c.expression (some s) (some t) = .ok n
      ∧ c.Grown m path params w t (c.spread s t) n := by
  rw [expression_eq]
  exact treeWithin_ok h hw ht (Nat.lt_succ_of_le (c.rank_le t))

end Config
end FinalParams
