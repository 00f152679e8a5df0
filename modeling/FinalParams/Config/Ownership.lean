import FinalParams.Config.Basic

/-! Which function or lambda a scope belongs to.

Scopes of control flow and of classes lie inside one another, and a scope belongs to the nearest
function or lambda around it, itself included.  The chain of enclosing scopes may run into a circle
in a damaged dump, so the search remembers the scopes that it has passed and stops where it comes to
one of them again.  It also stops, with an error, at a scope whose kind is a compound value, as such
a kind cannot be looked up. -/

namespace FinalParams
namespace Scope

def callableKinds : List String := ["Function", "Lambda"]

def isCallable (s : Scope) : Bool := s.kind.isAmong callableKinds

def isLambda (s : Scope) : Bool := s.kind.isText "Lambda"

def isCallable? (s : Scope) : Except Misfit Bool := s.kind.key?.map fun _ => s.isCallable

theorem isCallable?_of_isCallable {s : Scope} (h : s.isCallable = true) :
    s.isCallable? = .ok true := by
  unfold isCallable? isCallable at *
  cases hk : s.kind <;> simp_all [Datum.isAmong, Datum.key?, Except.map]

theorem isCallable?_of_ok {s : Scope} {b : Bool} (h : s.isCallable? = .ok b) :
    b = s.isCallable := by
  unfold isCallable? at h
  cases hk : s.kind.key? <;> simp_all [Except.map]

end Scope

namespace Config

/-- The scopes of the pool that are not among `passed`. -/
def scopesAhead (c : Config) (passed : List Nat) : List Nat :=
  (List.range c.scopes.size).filter fun s => !passed.contains s

theorem mem_scopesAhead {c : Config} {passed : List Nat} {s : Nat} :
    s ∈ c.scopesAhead passed ↔ s < c.scopes.size ∧ s ∉ passed := by
  simp [scopesAhead]

theorem scopesAhead_cons (c : Config) (passed : List Nat) (s : Nat) :
    c.scopesAhead (s :: passed) = (c.scopesAhead passed).filter (· != s) := by
  unfold scopesAhead
  rw [List.filter_filter]
  congr 1
  funext x
  rw [List.contains_cons, Bool.not_or]
  rfl

theorem scopesAhead_cons_le (c : Config) (passed : List Nat) (s : Nat) :
    (c.scopesAhead (s :: passed)).length ≤ (c.scopesAhead passed).length := by
  rw [scopesAhead_cons]
  exact List.length_filter_le ..

theorem scopesAhead_cons_lt {c : Config} {passed : List Nat} {s : Nat}
    (h : s ∈ c.scopesAhead passed) :
    (c.scopesAhead (s :: passed)).length < (c.scopesAhead passed).length := by
  rw [scopesAhead_cons, List.length_filter_lt_length_iff_exists]
  exact ⟨s, h, by simp⟩

/-- The nearest callable scope of a chain of which `passed` holds the scopes before it goes on.  Each
step passes a scope of the pool that was ahead, or one outside of it, which is nested in nothing. -/
@[semireducible]
def nearestCallable (c : Config) (passed : List Nat) : Option Nat → Except Misfit (Option Nat)
  | none => .ok none
  | some s =>
    if s ∈ passed then .ok none
    else
      match (c.scope s).isCallable? with
      | .error e => .error e
      | .ok true => .ok (some s)
      | .ok false => c.nearestCallable (s :: passed) (c.scope s).nestedIn
termination_by next => 2 * (c.scopesAhead passed).length + next.toList.length
decreasing_by
  by_cases hs : s < c.scopes.size
  · have hlt := scopesAhead_cons_lt (mem_scopesAhead.mpr ⟨hs, by assumption⟩)
    have hone : (c.scope s).nestedIn.toList.length ≤ 1 := by
      cases (c.scope s).nestedIn <;> simp
    omega
  · rw [scope_of_size_le (Nat.not_lt.mp hs)]
    have hle := scopesAhead_cons_le c passed s
    simp only [Option.toList_none, Option.toList_some, List.length_nil, List.length_singleton]
    omega

def callableAround (c : Config) (s : Option Nat) : Except Misfit (Option Nat) :=
  c.nearestCallable [] s

def belongsTo (c : Config) (s : Option Nat) (owner : Nat) : Except Misfit Bool :=
  (c.callableAround s).map (· == some owner)

@[simp] theorem callableAround_none (c : Config) : c.callableAround none = .ok none := by
  simp [callableAround, nearestCallable]

theorem callableAround_self {c : Config} {s : Nat} (h : (c.scope s).isCallable = true) :
    c.callableAround (some s) = .ok (some s) := by
  simp [callableAround, nearestCallable, Scope.isCallable?_of_isCallable h]

theorem nearestCallable_isCallable {c : Config} {passed : List Nat} {s : Option Nat} {a : Nat}
    (h : c.nearestCallable passed s = .ok (some a)) : (c.scope a).isCallable = true := by
  induction passed, s using nearestCallable.induct (c := c) with
  | case1 passed => simp [nearestCallable] at h
  | case2 passed s hs => simp [nearestCallable, hs] at h
  | case3 passed s hs e he => simp [nearestCallable, hs, he] at h
  | case4 passed s hs hcallable =>
    simp only [nearestCallable, hs, hcallable, if_false, Except.ok.injEq, Option.some.injEq] at h
    exact h ▸ (Scope.isCallable?_of_ok hcallable).symm
  | case5 passed s hs hcallable ih =>
    simp only [nearestCallable, hs, hcallable, if_false] at h
    exact ih h

theorem callableAround_isCallable {c : Config} {s : Option Nat} {a : Nat}
    (h : c.callableAround s = .ok (some a)) : (c.scope a).isCallable = true :=
  nearestCallable_isCallable h

end Config
end FinalParams
