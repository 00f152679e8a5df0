import FinalParams.Proofs.Config.Elision
import FinalParams.Proofs.Config.Readable
import Mathlib.Data.Finset.Basic

/-!
# Links that lead to the same owners

A token says in which scope it lies, and a scope in which one it is nested.  Blocks of control flow
and classes may lie between a token and its function, and they may be long chains, shared by many
tokens, or circles.  `straightened` makes some of these links lead to the owner at once.

What such a change keeps is said by `SameOwners`: all links lead to the same owners as before, and
nothing else is different.  The text of an expression does not depend on scopes at all.
-/

namespace FinalParams

namespace Config

/-- The owner of `s` if it has one, and `s` otherwise. -/
def ownerOrSelf (c : Config) (s : Option Nat) : Option Nat := c.owner s <|> s

/-- The configuration in which the tokens `ts` lie directly in their owners, and the functions and
lambdas among the scopes `ss` are nested directly in the owners around them.  What has no owner stays
as it is. -/
def straightened (c : Config) (ts ss : Finset Nat) : Config :=
  { c with
    tokens := c.tokens.mapIdx fun t token =>
      if t ∈ ts then { token with scope := c.ownerOrSelf token.scope } else token
    scopes := c.scopes.mapIdx fun s scope =>
      if s ∈ ss ∧ scope.isCallable = true then
        { scope with nestedIn := c.ownerOrSelf scope.nestedIn }
      else scope }

/-- The links of `c'` lead to the same owners as those of `c`, and nothing else is different. -/
structure SameOwners (c c' : Config) : Prop where
  tokensSize : c'.tokens.size = c.tokens.size
  scopesSize : c'.scopes.size = c.scopes.size
  functions : c'.functions = c.functions
  vars : c'.vars = c.vars
  tokenList : c'.tokenList = c.tokenList
  scopeList : c'.scopeList = c.scopeList
  functionList : c'.functionList = c.functionList
  owners : ∀ s, c'.callableAround s = c.callableAround s
  /-- A token may lie in another scope of the same owner, but not in none if it lay in one. -/
  token : ∀ t, ∃ s, c'.token t = { c.token t with scope := s }
    ∧ s.isSome = (c.token t).scope.isSome ∧ c.callableAround s = c.callableAround (c.token t).scope
  /-- A scope may be nested in another one of the same owner. -/
  scope : ∀ s, ∃ around, c'.scope s = { c.scope s with nestedIn := around }
    ∧ c.callableAround around = c.callableAround (c.scope s).nestedIn

variable {c c' : Config}

/-! ## Straightened links -/

theorem callableAround_ownerOrSelf (c : Config) (s : Option Nat) :
    c.callableAround (c.ownerOrSelf s) = c.callableAround s := by
  unfold ownerOrSelf owner
  cases hs : c.callableAround s with
  | error e => exact hs
  | ok o =>
    cases o with
    | none => exact hs
    | some a => exact callableAround_self (callableAround_isCallable hs)

theorem ownerOrSelf_of_owned {s : Option Nat} {o : Nat} (h : c.callableAround s = .ok (some o)) :
    c.ownerOrSelf s = some o := by
  unfold ownerOrSelf owner
  rw [h]
  rfl

theorem ownerOrSelf_none (c : Config) : c.ownerOrSelf none = none := by
  unfold ownerOrSelf owner
  rw [callableAround_none]
  rfl

theorem isSome_ownerOrSelf (c : Config) (s : Option Nat) :
    (c.ownerOrSelf s).isSome = s.isSome := by
  cases s with
  | none => rw [ownerOrSelf_none]
  | some s =>
    unfold ownerOrSelf
    cases c.owner (some s) with
    | none => rfl
    | some a => rfl

theorem token_straightened (c : Config) (ts ss : Finset Nat) (t : Nat) :
    (c.straightened ts ss).token t
      = if t ∈ ts then { c.token t with scope := c.ownerOrSelf (c.token t).scope }
        else c.token t := by
  by_cases ht : t < c.tokens.size
  · simp [straightened, token, Array.getD, ht]
  · have hblank := token_of_size_le (Nat.not_lt.mp ht)
    rw [token_of_size_le (by simpa [straightened] using ht), hblank, ownerOrSelf_none, ite_self]

theorem scope_straightened (c : Config) (ts ss : Finset Nat) (s : Nat) :
    (c.straightened ts ss).scope s
      = if s ∈ ss ∧ (c.scope s).isCallable = true then
          { c.scope s with nestedIn := c.ownerOrSelf (c.scope s).nestedIn }
        else c.scope s := by
  by_cases hs : s < c.scopes.size
  · simp [straightened, scope, Array.getD, hs]
  · have hblank := scope_of_size_le (Nat.not_lt.mp hs)
    rw [scope_of_size_le (by simpa [straightened] using hs), hblank, ownerOrSelf_none, ite_self]

theorem isCallable?_straightened (c : Config) (ts ss : Finset Nat) (s : Nat) :
    ((c.straightened ts ss).scope s).isCallable? = (c.scope s).isCallable? := by
  rw [scope_straightened]
  split
  · rfl
  · rfl

/-- Only links behind a function or lambda are changed, and no search goes on there. -/
theorem nearestCallable_straightened (c : Config) (ts ss : Finset Nat) (passed : List Nat)
    (s : Option Nat) :
    (c.straightened ts ss).nearestCallable passed s = c.nearestCallable passed s := by
  induction passed, s using nearestCallable.induct (c := c) with
  | case1 passed => rw [nearestCallable, nearestCallable]
  | case2 passed s hs => rw [nearestCallable, nearestCallable, if_pos hs, if_pos hs]
  | case3 passed s hs e he =>
    rw [nearestCallable, nearestCallable, if_neg hs, if_neg hs, isCallable?_straightened, he]
  | case4 passed s hs hcallable =>
    rw [nearestCallable, nearestCallable, if_neg hs, if_neg hs, isCallable?_straightened,
      hcallable]
  | case5 passed s hs hpasses ih =>
    have hkept : (c.straightened ts ss).scope s = c.scope s := by
      rw [scope_straightened, if_neg]
      rintro ⟨-, hcallable⟩
      rw [← Scope.isCallable?_of_ok hpasses] at hcallable
      cases hcallable
    rw [nearestCallable, nearestCallable, if_neg hs, if_neg hs, hkept, hpasses]
    exact ih

theorem sameOwners_straightened (c : Config) (ts ss : Finset Nat) :
    c.SameOwners (c.straightened ts ss) where
  tokensSize := Array.size_mapIdx
  scopesSize := Array.size_mapIdx
  functions := rfl
  vars := rfl
  tokenList := rfl
  scopeList := rfl
  functionList := rfl
  owners := c.nearestCallable_straightened ts ss []
  token := by
    intro t
    rw [token_straightened]
    split
    · exact ⟨_, rfl, c.isSome_ownerOrSelf _, c.callableAround_ownerOrSelf _⟩
    · exact ⟨_, rfl, rfl, rfl⟩
  scope := by
    intro s
    rw [scope_straightened]
    split
    · exact ⟨_, rfl, c.callableAround_ownerOrSelf _⟩
    · exact ⟨_, rfl, rfl⟩

/-! ## What is read of a token or a scope -/

/-- Whatever is read of a token without its scope is the same. -/
theorem SameOwners.reads {α : Type} (h : c.SameOwners c') (f : Token → α)
    (hf : ∀ token s, f { token with scope := s } = f token) (t : Nat) :
    f (c'.token t) = f (c.token t) := by
  obtain ⟨s, hs, -⟩ := h.token t
  rw [hs, hf]

/-- Whatever is read of a scope without the one around it is the same. -/
theorem SameOwners.readsScope {α : Type} (h : c.SameOwners c') (f : Scope → α)
    (hf : ∀ scope s, f { scope with nestedIn := s } = f scope) (s : Nat) :
    f (c'.scope s) = f (c.scope s) := by
  obtain ⟨around, hs, -⟩ := h.scope s
  rw [hs, hf]

theorem SameOwners.operands (h : c.SameOwners c') (t : Nat) :
    (c'.token t).operands = (c.token t).operands :=
  h.reads Token.operands (fun _ _ => rfl) t

theorem SameOwners.belongsTo (h : c.SameOwners c') (s : Option Nat) (owner : Nat) :
    c'.belongsTo s owner = c.belongsTo s owner :=
  congrArg (Except.map (· == some owner)) (h.owners s)

/-- Whether a token belongs to a function or lambda is the same. -/
theorem SameOwners.belongsTo_token (h : c.SameOwners c') (t owner : Nat) :
    c'.belongsTo (c'.token t).scope owner = c.belongsTo (c.token t).scope owner := by
  obtain ⟨s, hs, -, howner⟩ := h.token t
  rw [h.belongsTo, hs]
  exact congrArg (Except.map (· == some owner)) howner

theorem SameOwners.isSome_scope (h : c.SameOwners c') (t : Nat) :
    (c'.token t).scope.isSome = (c.token t).scope.isSome := by
  obtain ⟨s, hs, hsome, -⟩ := h.token t
  rw [hs]
  exact hsome

theorem SameOwners.callableAround_nestedIn (h : c.SameOwners c') (s : Nat) :
    c'.callableAround (c'.scope s).nestedIn = c.callableAround (c.scope s).nestedIn := by
  obtain ⟨around, hs, howner⟩ := h.scope s
  rw [h.owners, hs]
  exact howner

/-- Whether a scope is nested in a function or lambda is the same. -/
theorem SameOwners.belongsTo_nestedIn (h : c.SameOwners c') (s owner : Nat) :
    c'.belongsTo (c'.scope s).nestedIn owner = c.belongsTo (c.scope s).nestedIn owner :=
  congrArg (Except.map (· == some owner)) (h.callableAround_nestedIn s)

/-! ## Texts -/

theorem SameOwners.gatherArguments (h : c.SameOwners c') (found : List Nat)
    (pending : List (Nat × Nat)) :
    c'.gatherArguments found pending = c.gatherArguments found pending := by
  have hcomma : ∀ t, (c'.token t).isSpelled "," = (c.token t).isSpelled "," :=
    h.reads (·.isSpelled ",") fun _ _ => rfl
  induction found, pending using gatherArguments.induct (c := c) with
  | case1 found => rw [Config.gatherArguments, Config.gatherArguments]
  | case2 found t rest ht ih =>
    rw [Config.gatherArguments, Config.gatherArguments, hcomma, if_pos ht, if_pos ht]
    exact ih
  | case3 found t rest ht b ih =>
    rw [Config.gatherArguments, Config.gatherArguments, hcomma, if_pos ht, if_pos ht, h.operands]
    exact ih
  | case4 found budget t rest ht ih =>
    rw [gatherArguments.eq_def, gatherArguments.eq_def c]
    simp only [hcomma, if_neg ht]
    exact ih

theorem SameOwners.callArguments (h : c.SameOwners c') (t : Nat) :
    c'.callArguments t = c.callArguments t := by
  have hop2 : (c'.token t).op2 = (c.token t).op2 := h.reads Token.op2 (fun _ _ => rfl) t
  unfold Config.callArguments
  rw [h.gatherArguments, h.tokensSize, hop2]

theorem SameOwners.textFrom (h : c.SameOwners c') (text : Option Nat → Except Misfit Datum)
    (t : Nat) : c'.textFrom text t = c.textFrom text t := by
  have hop1 : ∀ u, (c'.token u).op1 = (c.token u).op1 := h.reads Token.op1 fun _ _ => rfl
  have hop2 : ∀ u, (c'.token u).op2 = (c.token u).op2 := h.reads Token.op2 fun _ _ => rfl
  have hcolon : ∀ u, (c'.token u).isSpelled ":" = (c.token u).isSpelled ":" :=
    h.reads (·.isSpelled ":") fun _ _ => rfl
  obtain ⟨s, hs, -⟩ := h.token t
  unfold Config.textFrom
  simp only [h.callArguments, hop1, hop2, hcolon, hs]
  rfl

theorem SameOwners.exprText (h : c.SameOwners c') (depth : Nat) (t : Option Nat) :
    c'.exprText depth t = c.exprText depth t := by
  induction depth generalizing t with
  | zero =>
    cases t with
    | none => rw [exprText_none, exprText_none]
    | some t => rw [Config.exprText, Config.exprText]
  | succ depth ih =>
    cases t with
    | none => rw [exprText_none, exprText_none]
    | some t => rw [exprText_succ, exprText_succ, h.textFrom, funext ih]

end Config
end FinalParams
