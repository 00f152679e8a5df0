import FinalParams.Proofs.Config.SameOwners
import FinalParams.Proofs.Host.ParameterChecker
import FinalParams.Proofs.Lowering.Tree

/-!
# Blocks of control flow leave no trace

Between a function and a token in it there may be loops, conditions and classes, nested to any depth.
The tree of a configuration shows none of them.  `compilationUnit_straightened` says so: where tokens
are moved out of all these blocks into their functions, and bodies are nested directly in the
functions around them, the tree stays the same, and so does what is found in it.

Scopes are asked for in four places.  A body is outermost if nothing owns the scope around it, it is
nested in a function that owns that scope, a token is a statement of the function that owns it, and
an operator keeps the operands of its own function.  All four ask for the owner alone, apart from
operands without a scope, which lie in every function.  So it is enough that two configurations have
the same owners, and the lemmas follow the definition of the tree one function at a time.
-/

namespace FinalParams

namespace Config

/-- Blocks between the tokens `ts` or the scopes `ss` and their owners make no difference. -/
structure Transparent (c : Config) (ts ss : Finset Nat) : Prop where
  /-- No block is left between a token of `ts` and its owner, if it has one. -/
  direct : ∀ t ∈ ts, ∀ o, c.callableAround (c.token t).scope = .ok (some o) →
    ((c.straightened ts ss).token t).scope = some o
  /-- Nor is one left between a function or lambda of `ss` and the owner of the scope around it. -/
  nested : ∀ s ∈ ss, (c.scope s).isCallable = true →
    ∀ o, c.callableAround (c.scope s).nestedIn = .ok (some o) →
      ((c.straightened ts ss).scope s).nestedIn = some o
  /-- The tree is the same, and so is the error if there is none. -/
  tree : ∀ path, (c.straightened ts ss).compilationUnit path = c.compilationUnit path
  /-- The same is found, by whatever search. -/
  findings : ∀ m path, ParameterChecker.findings? m path (c.straightened ts ss)
    = ParameterChecker.findings? m path c

variable {c c' : Config}

/-! ## Expressions -/

theorem liesIn_eq_belongsTo (c : Config) (owner u : Nat) :
    c.liesIn owner u
      = if (c.token u).scope.isSome then c.belongsTo (c.token u).scope owner else .ok true := by
  unfold liesIn
  cases (c.token u).scope with
  | none => rfl
  | some s => rfl

theorem SameOwners.liesIn (h : c.SameOwners c') (owner u : Nat) :
    c'.liesIn owner u = c.liesIn owner u := by
  rw [liesIn_eq_belongsTo, liesIn_eq_belongsTo, h.isSome_scope, h.belongsTo_token]

theorem SameOwners.ownTokens (h : c.SameOwners c') (owner : Nat) (us : List Nat) :
    c'.ownTokens owner us = c.ownTokens owner us := by
  induction us with
  | nil => rfl
  | cons u rest ih => rw [Config.ownTokens, Config.ownTokens, h.liesIn, ih]

theorem SameOwners.loweredOperands (h : c.SameOwners c') (owner : Option Nat) (t : Nat) :
    c'.loweredOperands owner t = c.loweredOperands owner t := by
  obtain ⟨s, hs, -⟩ := h.token t
  unfold Config.loweredOperands
  rw [funext fun o => funext (h.ownTokens o), hs]
  rfl

theorem SameOwners.openable (h : c.SameOwners c') (t : Nat) : c'.openable t = c.openable t := by
  obtain ⟨s, hs, -⟩ := h.token t
  unfold Config.openable
  rw [hs]
  rfl

theorem SameOwners.openedOperands (h : c.SameOwners c') (owner : Option Nat) (t : Nat) :
    c'.openedOperands owner t = c.openedOperands owner t := by
  unfold Config.openedOperands
  rw [h.openable, h.loweredOperands]

theorem SameOwners.nodeOf (h : c.SameOwners c') (t : Nat) (lowered : List Node) :
    c'.nodeOf t lowered = c.nodeOf t lowered := by
  obtain ⟨s, hs, -⟩ := h.token t
  have htext : c'.textOf t = c.textOf t := h.exprText defaultDepth (some t)
  unfold Config.nodeOf
  rw [hs, htext]
  rfl

theorem SameOwners.treeWithin (h : c.SameOwners c') (owner : Option Nat) (budget t : Nat) :
    c'.treeWithin owner budget t = c.treeWithin owner budget t := by
  induction budget generalizing t with
  | zero => rfl
  | succ b ih =>
    rw [Config.treeWithin, Config.treeWithin, h.openedOperands, funext ih, funext (h.nodeOf t)]

theorem SameOwners.expression (h : c.SameOwners c') (owner : Option Nat) (t : Nat) :
    c'.expression owner (some t) = c.expression owner (some t) := by
  rw [expression_eq, expression_eq, h.tokensSize, h.treeWithin]

/-! ## Headings -/

theorem SameOwners.function (h : c.SameOwners c') (f : Nat) : c'.function f = c.function f := by
  unfold Config.function
  rw [h.functions]

theorem SameOwners.variableAt (h : c.SameOwners c') (v : Nat) :
    c'.variableAt v = c.variableAt v := by
  unfold Config.variableAt
  rw [h.vars]

/-- Whatever is read of the token referred to without its scope is the same. -/
theorem SameOwners.readsAny {α : Type} (h : c.SameOwners c') (f : Token → α)
    (hf : ∀ token s, f { token with scope := s } = f token) (t : Option Nat) :
    f (c'.tokenIfAny t) = f (c.tokenIfAny t) := by
  cases t with
  | none => rfl
  | some t => exact h.reads f hf t

theorem SameOwners.parameter (h : c.SameOwners c') (v : Nat) : c'.parameter v = c.parameter v := by
  have hspelling := h.readsAny Token.spelling (fun _ _ => rfl) (c.variableAt v).nameToken
  have hid := h.readsAny Token.variableId? (fun _ _ => rfl) (c.variableAt v).nameToken
  have hloc := h.readsAny Token.loc? (fun _ _ => rfl) (c.variableAt v).nameToken
  unfold Config.parameter
  simp only [h.variableAt, hspelling, hid, hloc]

theorem SameOwners.functionParameters (h : c.SameOwners c') (f : Nat) :
    c'.functionParameters f = c.functionParameters f := by
  unfold Config.functionParameters
  rw [h.function, funext h.parameter]

theorem SameOwners.scopeParameters (h : c.SameOwners c') (s : Nat) :
    c'.scopeParameters s = c.scopeParameters s := by
  obtain ⟨around, hs, -⟩ := h.scope s
  unfold Config.scopeParameters
  rw [hs, funext h.functionParameters, funext h.parameter, funext h.variableAt]

theorem SameOwners.unitHeading (h : c.SameOwners c') (s : Nat) :
    c'.unitHeading s = c.unitHeading s := by
  obtain ⟨around, hs, -⟩ := h.scope s
  have hname : c'.unitName s = c.unitName s := by
    unfold unitName
    rw [hs, funext h.function]
    rfl
  have hkind : c'.unitKind s = c.unitKind s := by
    unfold unitKind
    rw [hs, funext h.function]
    rfl
  have hloc := h.readsAny Token.loc? (fun _ _ => rfl) (c.scope s).bodyStart
  unfold Config.unitHeading heading
  rw [hname, hkind, h.scopeParameters, hs, hloc]

/-! ## Bodies -/

theorem SameOwners.next (h : c.SameOwners c') (t : Nat) : (c'.token t).next = (c.token t).next :=
  h.reads Token.next (fun _ _ => rfl) t

theorem SameOwners.bodyStart (h : c.SameOwners c') (s : Nat) :
    (c'.scope s).bodyStart = (c.scope s).bodyStart :=
  h.readsScope Scope.bodyStart (fun _ _ => rfl) s

theorem SameOwners.bodyEnd (h : c.SameOwners c') (s : Nat) :
    (c'.scope s).bodyEnd = (c.scope s).bodyEnd :=
  h.readsScope Scope.bodyEnd (fun _ _ => rfl) s

theorem SameOwners.bodyAt (h : c.SameOwners c') (index : List Nat) (t : Nat) :
    c'.bodyAt index t = c.bodyAt index t := by
  unfold Config.bodyAt
  simp only [h.bodyStart]

theorem SameOwners.nestedAt (h : c.SameOwners c') (index : List Nat) (s t : Nat) :
    c'.nestedAt index s t = c.nestedAt index s t := by
  unfold Config.nestedAt
  simp only [h.bodyAt, h.belongsTo_nestedIn]

theorem SameOwners.isStatement (h : c.SameOwners c') (s t : Nat) :
    c'.isStatement s t = c.isStatement s t := by
  unfold Config.isStatement
  rw [h.belongsTo_token, h.reads Token.isRoot fun _ _ => rfl]

theorem SameOwners.behindBody (h : c.SameOwners c') (u t : Nat) :
    c'.behindBody u t = c.behindBody u t := by
  unfold Config.behindBody
  simp only [h.bodyEnd, h.next]

theorem SameOwners.statements (h : c.SameOwners c') (index : List Nat)
    (descend : Nat → Except LowerError Node) (s steps : Nat) (t : Option Nat) :
    c'.statements index descend s steps t = c.statements index descend s steps t := by
  induction steps generalizing t with
  | zero =>
    cases t with
    | none => rw [Config.statements, Config.statements]
    | some t => rw [Config.statements, Config.statements]
  | succ steps ih =>
    cases t with
    | none => rw [Config.statements, Config.statements]
    | some t =>
      rw [Config.statements, Config.statements]
      simp only [h.bodyEnd, h.nestedAt, h.isStatement, h.expression, h.behindBody, h.next, ih]

theorem SameOwners.unitWithin (h : c.SameOwners c') (index : List Nat) (depth s : Nat) :
    c'.unitWithin index depth s = c.unitWithin index depth s := by
  induction depth generalizing s with
  | zero => rfl
  | succ depth ih =>
    rw [Config.unitWithin, Config.unitWithin]
    simp only [h.unitHeading, h.bodyStart, h.next, h.tokensSize, funext ih, h.statements]

/-! ## The compilation unit -/

theorem SameOwners.callableScopes (h : c.SameOwners c') : c'.callableScopes = c.callableScopes := by
  unfold Config.callableScopes
  rw [h.scopeList, funext (h.readsScope Scope.isCallable fun _ _ => rfl)]

theorem SameOwners.scopeMisfit? (h : c.SameOwners c') : c'.scopeMisfit? = c.scopeMisfit? := by
  have hkind := h.readsScope Scope.isCallable? fun _ _ => rfl
  unfold Config.scopeMisfit?
  simp only [h.scopeList, hkind]

theorem SameOwners.outermostUnit (h : c.SameOwners c') (t : Nat) :
    c'.outermostUnit t = c.outermostUnit t := by
  unfold Config.outermostUnit outermostAt unit
  simp only [h.callableScopes, h.bodyAt, h.callableAround_nestedIn, h.scopesSize, h.unitWithin]

theorem SameOwners.declaredFunctions (h : c.SameOwners c') :
    c'.declaredFunctions = c.declaredFunctions := by
  unfold Config.declaredFunctions
  rw [h.callableScopes, h.functionList, funext (h.readsScope Scope.function fun _ _ => rfl)]

theorem SameOwners.declaration (h : c.SameOwners c') (f : Nat) :
    c'.declaration f = c.declaration f := by
  have hspelling := h.readsAny Token.spelling fun _ _ => rfl
  have hloc := h.readsAny Token.loc? fun _ _ => rfl
  unfold Config.declaration heading
  simp only [h.function, h.functionParameters, hspelling, hloc]

theorem SameOwners.shownPath (h : c.SameOwners c') (path : Datum) :
    c'.shownPath path = c.shownPath path := by
  unfold Config.shownPath
  rw [h.tokenList, funext (h.reads Token.file fun _ _ => rfl)]

theorem SameOwners.compilationUnit (h : c.SameOwners c') (path : Datum) :
    c'.compilationUnit path = c.compilationUnit path := by
  unfold Config.compilationUnit
  rw [h.scopeMisfit?, h.tokenList, h.declaredFunctions, h.shownPath, funext h.outermostUnit,
    funext h.declaration]

end Config

/-- Where tokens are moved into their owners and bodies are nested directly in theirs, the tree stays
the same, however many blocks there were between them. -/
theorem compilationUnit_straightened (c : Config) (ts ss : Finset Nat) : c.Transparent ts ss where
  direct := by
    intro t ht o ho
    rw [Config.token_straightened, if_pos ht]
    exact Config.ownerOrSelf_of_owned ho
  nested := by
    intro s hs hcallable o ho
    rw [Config.scope_straightened, if_pos ⟨hs, hcallable⟩]
    exact Config.ownerOrSelf_of_owned ho
  tree := (c.sameOwners_straightened ts ss).compilationUnit
  findings := by
    intro m path
    rw [ParameterChecker.findings?_eq, ParameterChecker.findings?_eq,
      (c.sameOwners_straightened ts ss).compilationUnit]

end FinalParams
