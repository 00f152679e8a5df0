import FinalParams.Lowering.Unit
import FinalParams.Proofs.Config.Readable
import Mathlib.Logic.Relation

/-!
# Coherent configurations

A dump states many things twice: operands and their operators refer to each other, bodies lie inside
one another as their scopes do, and each token has the scope in which it lies.  A configuration is
coherent if these statements agree.  It is layered if those about bodies and their scopes do, and
well nested if tokens lie in the scopes of the bodies around them, too, which is enough for reading
its bodies.
-/

namespace FinalParams
namespace Config

variable (c : Config)

/-- The number of a listed token in source order. -/
def order (t : Nat) : Nat := c.tokenList.idxOf t

/-- The function or lambda that a token belongs to, if it belongs to one. -/
def tokenOwner (t : Nat) : Option Nat := c.owner (c.token t).scope

/-- `s` is a function or lambda. -/
def Callable (s : Nat) : Prop := (c.scope s).isCallable = true

/-- The token `t` begins or ends the body of `s`. -/
def IsBrace (s t : Nat) : Prop := (c.scope s).bodyStart = some t ∨ (c.scope s).bodyEnd = some t

/-- The listed token `t` lies in the body of `s`, braces included. -/
def Holds (s t : Nat) : Prop :=
  t ∈ c.tokenList ∧ ∃ b e, (c.scope s).bodyStart = some b ∧ (c.scope s).bodyEnd = some e
    ∧ c.order b ≤ c.order t ∧ c.order t ≤ c.order e

/-- The listed token `t` lies in the body of `s`, between its braces. -/
def Within (s t : Nat) : Prop :=
  t ∈ c.tokenList ∧ ∃ b e, (c.scope s).bodyStart = some b ∧ (c.scope s).bodyEnd = some e
    ∧ c.order b < c.order t ∧ c.order t < c.order e

/-- The body of `u` lies inside the body of another scope `s`. -/
def Inside (u s : Nat) : Prop := u ≠ s ∧ ∀ t, c.Holds u t → c.Holds s t

/-- `s` is the innermost function or lambda whose body holds the token `t`. -/
def Innermost (s t : Nat) : Prop :=
  c.Callable s ∧ c.Holds s t ∧ ∀ s', c.Callable s' → c.Holds s' t → s' = s ∨ c.Inside s s'

/-- The body of `u` lies directly inside that of `k`, or inside none if `k` is none. -/
def Directly (u : Nat) (k : Option Nat) : Prop :=
  match k with
  | some s =>
    c.Callable s ∧ c.Inside u s ∧ ∀ s', c.Callable s' → c.Inside u s' → s' = s ∨ c.Inside s s'
  | none => ∀ s, c.Callable s → ¬ c.Inside u s

/-- Tokens are listed in the order in which they follow each other, and bodies lie inside one another
as their scopes do. -/
structure Layered : Prop where
  /-- No token is listed twice. -/
  distinct : c.tokenList.Nodup
  /-- Each listed token is followed by the next one of the list, and the last one by none. -/
  next : ∀ (i : Nat) (t : Nat), c.tokenList[i]? = some t → (c.token t).next = c.tokenList[i + 1]?
  /-- Every function or lambda is listed. -/
  listed : ∀ s, c.Callable s → s ∈ c.scopeList
  /-- Every function or lambda has a body, which begins before it ends. -/
  body : ∀ s, c.Callable s → ∃ b e, (c.scope s).bodyStart = some b ∧ (c.scope s).bodyEnd = some e
    ∧ b ∈ c.tokenList ∧ e ∈ c.tokenList ∧ c.order b < c.order e
  /-- Distinct bodies begin at distinct tokens. -/
  start : ∀ s s', c.Callable s → c.Callable s' → s ≠ s' →
    (c.scope s).bodyStart ≠ (c.scope s').bodyStart
  /-- Bodies are disjoint or nested. -/
  nested : ∀ s s', c.Callable s → c.Callable s' → s ≠ s' →
    (∀ t, ¬ (c.Holds s t ∧ c.Holds s' t)) ∨ c.Inside s s' ∨ c.Inside s' s
  /-- A body lies directly inside the body of that function or lambda which its scope is nested
  in, and inside none if its scope is nested in none. -/
  around : ∀ u, c.Callable u → ∀ k, c.owner (c.scope u).nestedIn = k ↔ c.Directly u k

/-- Bodies are layered, and tokens belong to the bodies in which they stand.  Nothing is said of the
braces themselves. -/
structure WellNested : Prop extends c.Layered where
  /-- A token between the braces of a body belongs to the innermost function or lambda whose body
  holds it. -/
  innermost : ∀ s t, c.Callable s → c.Within s t → ∀ s', c.tokenOwner t = some s' ↔ c.Innermost s' t

/-- The keys of argument tables stand for integers. -/
def Numbered : Prop :=
  ∀ f arguments, (c.function f).arguments = some (.numbered arguments) →
    ∀ a ∈ arguments, ∃ n, a.1.toInt = .ok n

/-- No two bodies share a brace, no expression is an operand of itself, and all values are of the
right kinds.  Operands and operators need not agree. -/
structure Bracketed : Prop extends c.WellNested where
  readable : c.Readable
  numbered : c.Numbered
  acyclic : ∀ t, ¬ Relation.TransGen (fun t u => u ∈ (c.token t).operands) t t
  /-- The token that ends a body is a brace of no other one. -/
  close : ∀ s s', c.Callable s → c.Callable s' → s ≠ s' → ∀ e, (c.scope s).bodyEnd = some e →
    ¬ c.IsBrace s' e

/-- What a dump says about tokens, bodies and scopes agrees. -/
structure Coherent : Prop extends c.Layered where
  readable : c.Readable
  numbered : c.Numbered
  /-- Operands and operators of listed tokens are listed. -/
  operand_mem : ∀ t ∈ c.tokenList, ∀ u ∈ (c.token t).operands, u ∈ c.tokenList
  parent_mem : ∀ u ∈ c.tokenList, ∀ t, (c.token u).parent = some t → t ∈ c.tokenList
  /-- The operands of a token are those tokens that have it as their operator, each in one place. -/
  links : ∀ t ∈ c.tokenList, ∀ u ∈ c.tokenList,
    u ∈ (c.token t).operands ↔ (c.token u).parent = some t
  once : ∀ t ∈ c.tokenList, (c.token t).operands.Nodup
  acyclic : ∀ t ∈ c.tokenList, ¬ Relation.TransGen (fun t u => u ∈ (c.token t).operands) t t
  /-- An increment or decrement has one operand. -/
  step : ∀ t ∈ c.tokenList, (c.token t).isStep = true → (c.token t).op2 = none
  /-- A token belongs to the innermost function or lambda whose body holds it. -/
  innermost : ∀ t ∈ c.tokenList, ∀ s, c.tokenOwner t = some s ↔ c.Innermost s t
  /-- A brace has no operands. -/
  brace : ∀ s, c.Callable s → ∀ t, c.IsBrace s t → (c.token t).op1 = none ∧ (c.token t).op2 = none
  /-- An operand that belongs elsewhere is a brace, and its operator is no assignment or step. -/
  foreign : ∀ t ∈ c.tokenList, ∀ u ∈ (c.token t).operands, c.tokenOwner t ≠ c.tokenOwner u →
    (∃ s, c.Callable s ∧ c.IsBrace s u)
      ∧ (c.token t).isAssignment = false ∧ (c.token t).isStep = false

variable {c}

theorem Coherent.wellNested (h : c.Coherent) : c.WellNested where
  toLayered := h.toLayered
  innermost := fun _ t _ ht s' => h.innermost t ht.1 s'

end Config
end FinalParams
