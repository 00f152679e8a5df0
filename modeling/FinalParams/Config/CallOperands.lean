import FinalParams.Config.Basic

/-! The arguments of a call.

The second operand of a call is a tree of commas whose leaves are the arguments.  The tree may lean
to either side and nest thousands of levels deep, so it is taken apart with a list of subtrees that
are still to come.  Every subtree carries a budget, the number of commas that may still lie above
its leaves.  A path through more commas than there are tokens goes in a circle, so starting with
that many loses nothing of a tree. -/

namespace FinalParams
namespace Config

/-- A bound on the work for a subtree of this budget: a comma of budget `b + 1` gives way to two
subtrees of budget `b`. -/
def workBound : Nat → Nat
  | 0 => 1
  | b + 1 => 3 * workBound b

theorem workBound_pos (b : Nat) : 0 < workBound b := by
  induction b with
  | zero => exact Nat.one_pos
  | succ b ih => exact Nat.mul_pos (by omega) ih

def pendingCost : List (Nat × Nat) → Nat
  | [] => 0
  | (budget, _) :: rest => workBound budget + pendingCost rest

theorem pendingCost_cons (b t : Nat) (rest : List (Nat × Nat)) :
    pendingCost ((b, t) :: rest) = workBound b + pendingCost rest := rfl

theorem pendingCost_operands (t : Token) (b : Nat) (rest : List (Nat × Nat)) :
    pendingCost (t.operands.map (b, ·) ++ rest) ≤ 2 * workBound b + pendingCost rest := by
  have h := t.operands_length
  match t.operands, h with
  | [], _ => exact Nat.le_add_left _ _
  | [_], _ =>
    rw [List.map_cons, List.map_nil, List.cons_append, List.nil_append, pendingCost_cons]
    omega
  | [_, _], _ =>
    rw [List.map_cons, List.map_cons, List.map_nil, List.cons_append, List.cons_append,
      List.nil_append, pendingCost_cons, pendingCost_cons]
    omega

/-- The arguments in the subtrees of `pending`, after those in `found`, which has the latest
first. -/
def gatherArguments (c : Config) (found : List Nat) : List (Nat × Nat) → List Nat
  | [] => found.reverse
  | (budget, t) :: rest =>
    if (c.token t).isSpelled "," then
      match budget with
      | 0 => c.gatherArguments found rest
      | b + 1 => c.gatherArguments found ((c.token t).operands.map (b, ·) ++ rest)
    else c.gatherArguments (t :: found) rest
termination_by pending => pendingCost pending
decreasing_by
  · rw [pendingCost_cons]
    have hp := workBound_pos 0
    omega
  · have h := pendingCost_operands (c.token t) b rest
    have hp := workBound_pos b
    have hs : pendingCost ((b.succ, t) :: rest) = 3 * workBound b + pendingCost rest := rfl
    omega
  · rw [pendingCost_cons]
    have hp := workBound_pos budget
    omega

def callArguments (c : Config) (t : Nat) : List Nat :=
  c.gatherArguments [] ((c.token t).op2.toList.map (c.tokens.size + 1, ·))

end Config
end FinalParams
