import FinalParams.Config.ExprText
import FinalParams.Config.Ownership
import FinalParams.Lowering.Parameters
import FinalParams.Node.Basic

/-
From the tokens of an expression to its tree.

An operator can only be made into a node when its operands are nodes already.  Initializer lists and
chains of operators nest thousands of levels deep, so the work is kept in a list of tasks: to open a
token means to put its operands before it, and to close it means to take the finished operands and
make the node.

An open token carries a budget, one less than the token that it is an operand of.  A path of
operands that is longer than the pool of tokens goes in a circle, which is the one way in which the
budget runs out.
-/

namespace FinalParams
namespace Config

/-- Whether the token `u` lies in the function or lambda `owner`.  What has no scope lies in all of
them. -/
def liesIn (c : Config) (owner u : Nat) : Except Misfit Bool :=
  match (c.token u).scope with
  | none => .ok true
  | some s => c.belongsTo (some s) owner

def ownTokens (c : Config) (owner : Nat) : List Nat → Except Misfit (List Nat)
  | [] => .ok []
  | u :: rest => do
    let own ← c.liesIn owner u
    let others ← c.ownTokens owner rest
    return if own then u :: others else others

theorem ownTokens_sublist {c : Config} {owner : Nat} {ts us : List Nat}
    (h : c.ownTokens owner ts = .ok us) : us.Sublist ts := by
  induction ts generalizing us with
  | nil =>
    simp only [ownTokens, Except.ok.injEq] at h
    exact h ▸ List.Sublist.slnil
  | cons t rest ih =>
    unfold ownTokens at h
    cases hl : c.liesIn owner t with
    | error e => simp [hl, bind, Except.bind] at h
    | ok own =>
      cases hr : c.ownTokens owner rest with
      | error e => simp [hl, hr, bind, Except.bind] at h
      | ok others =>
        simp only [hl, hr, bind, Except.bind, pure, Except.pure, Except.ok.injEq] at h
        cases own with
        | true => exact h ▸ (ih hr).cons_cons t
        | false => exact h ▸ (ih hr).cons t

/-- The operands that become children of the node of `t` in the function or lambda `owner`.  The
body of a lambda belongs to the lambda and not to the expression that creates it, so what another
scope owns is left out, except below an assignment or a step. -/
def loweredOperands (c : Config) (owner : Option Nat) (t : Nat) : Except Misfit (List Nat) :=
  let tok := c.token t
  if tok.isAssignment && tok.op1.isSome then .ok tok.operands
  else if tok.isStep then .ok tok.op1.toList
  else if tok.isVariable then .ok []
  else
    match owner with
    | none => .ok tok.operands
    | some o => c.ownTokens o tok.operands

theorem loweredOperands_length {c : Config} {owner : Option Nat} {t : Nat} {ts : List Nat}
    (h : c.loweredOperands owner t = .ok ts) : ts.length ≤ 2 := by
  have hl := (c.token t).operands_length
  unfold loweredOperands at h
  simp only at h
  split at h
  · exact Except.ok.inj h ▸ hl
  split at h
  · rw [← Except.ok.inj h]
    cases (c.token t).op1 <;> simp
  split at h
  · simp [← Except.ok.inj h]
  split at h
  · exact Except.ok.inj h ▸ hl
  · exact Nat.le_trans (ownTokens_sublist h).length_le hl

/-- Whether it can be told what `t` is: its spelling has to be looked up, unless the token is known
to be an assignment, and the variable that a bare name stands for needs a number. -/
def openable (c : Config) (t : Nat) : Except LowerError Unit :=
  let tok := c.token t
  if tok.isAssignmentOp && tok.op1.isSome then .ok ()
  else do
    tok.lookUp.mapError .misfit
    if tok.isBareName then discard (tok.variableId?.mapError .number)

/-- The operands to lower before `t`, unless they cannot be told. -/
def openedOperands (c : Config) (owner : Option Nat) (t : Nat) : Except LowerError (List Nat) :=
  match c.openable t, c.loweredOperands owner t with
  | .error e, _ => .error e
  | .ok (), .error e => .error (.misfit e)
  | .ok (), .ok ts => .ok ts

theorem openedOperands_length {c : Config} {owner : Option Nat} {t : Nat} {ts : List Nat}
    (h : c.openedOperands owner t = .ok ts) : ts.length ≤ 2 := by
  unfold openedOperands at h
  split at h
  · contradiction
  · contradiction
  · rename_i hl
    exact Except.ok.inj h ▸ loweredOperands_length hl

def nodeOf (c : Config) (t : Nat) (lowered : List Node) : Except LowerError Node := do
  let tok := c.token t
  let loc ← tok.loc?.mapError .number
  if tok.isAssignment && tok.op1.isSome then
    let text ← (c.textOf t).mapError .misfit
    match lowered with
    | target :: rest => return .assign target rest.head? tok.spelling text loc
    | [] => throw .missingOperand
  else if tok.isStep then
    let text ← (c.textOf t).mapError .misfit
    match lowered with
    | target :: _ => return .update target tok.spelling (.bool tok.isLeadingStep) text loc
    | [] => throw .missingOperand
  else if tok.isVariable then return .ref tok.spelling (.int tok.variableId) loc
  else return .other (.text tok.exprKind) lowered tok.spelling loc

inductive Task where
  | openToken (budget : Nat) (t : Nat)
  | closeToken (t : Nat) (operands : Nat)
  deriving DecidableEq, Repr

def Task.cost : Task → Nat
  | openToken budget _ => workBound (budget + 1)
  | closeToken _ _ => 1

def tasksCost : List Task → Nat
  | [] => 0
  | task :: rest => task.cost + tasksCost rest

theorem tasksCost_cons (task : Task) (rest : List Task) :
    tasksCost (task :: rest) = task.cost + tasksCost rest := rfl

theorem tasksCost_append (a b : List Task) : tasksCost (a ++ b) = tasksCost a + tasksCost b := by
  induction a with
  | nil => exact (Nat.zero_add _).symm
  | cons task rest ih => rw [List.cons_append, tasksCost_cons, ih, tasksCost_cons, Nat.add_assoc]

theorem tasksCost_open (budget : Nat) {ts : List Nat} (h : ts.length ≤ 2) :
    tasksCost (ts.map (Task.openToken budget)) ≤ 2 * workBound (budget + 1) := by
  match ts, h with
  | [], _ => exact Nat.zero_le _
  | [_], _ => exact Nat.le_mul_of_pos_left (workBound (budget + 1)) (by omega)
  | [_, _], _ => exact Nat.le_of_eq (Nat.two_mul _).symm

/-- The nodes in `finished` have the latest first. -/
def runTasks (c : Config) (owner : Option Nat) (finished : List Node) :
    List Task → Except LowerError Node
  | [] =>
    match finished with
    | [n] => .ok n
    | _ => .error .missingOperand
  | .openToken budget t :: rest =>
    match budget with
    | 0 => .error .endless
    | b + 1 =>
      match _h : c.openedOperands owner t with
      | .error e => .error e
      | .ok operands =>
        c.runTasks owner finished
          (operands.map (Task.openToken b) ++ Task.closeToken t operands.length :: rest)
  | .closeToken t operands :: rest =>
    if finished.length < operands then .error .missingOperand
    else
      match c.nodeOf t (finished.take operands).reverse with
      | .error e => .error e
      | .ok n => c.runTasks owner (n :: finished.drop operands) rest
termination_by tasks => tasksCost tasks
decreasing_by
  · rw [tasksCost_append, tasksCost_cons, tasksCost_cons]
    have hl := tasksCost_open b (openedOperands_length _h)
    have hp := workBound_pos b
    have hs : workBound (b + 1) = 3 * workBound b := rfl
    have ho : (Task.openToken b.succ t).cost = 3 * workBound (b + 1) := rfl
    have hc : (Task.closeToken t operands.length).cost = 1 := rfl
    omega
  · rw [tasksCost_cons]
    have hc : (Task.closeToken t operands).cost = 1 := rfl
    omega

/-- The tree of the expression at `t`, in the function or lambda `owner`.  Where there is no token
there is nothing but an empty operator. -/
def expression (c : Config) (owner : Option Nat) (t : Option Nat) : Except LowerError Node :=
  match t with
  | none => .ok (.other (.text "operator") [] (.text "") {})
  | some t => c.runTasks owner [] [.openToken (c.tokens.size + 1) t]

end Config
end FinalParams
