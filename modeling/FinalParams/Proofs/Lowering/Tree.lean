import FinalParams.Lowering.Expression
import FinalParams.Proofs.Sequence
import FinalParams.Proofs.Tree.WellFormed

/-!
# The tree of an expression by recursion

The tree of an expression is made with a list of tasks.  `treeWithin` makes it by recursion over the
operands, with a budget for the length of a path, and `expression_eq` says that this is the same
tree and the same error.  So what holds of the node of each token holds everywhere in the tree.
-/

namespace FinalParams

namespace Config

/-- The tree of the expression at `t` in the function or lambda `owner`, of which no path is as long
as the budget. -/
def treeWithin (c : Config) (owner : Option Nat) : Nat → Nat → Except LowerError Node
  | 0, _ => .error .endless
  | budget + 1, t => do
    let operands ← c.openedOperands owner t
    let lowered ← operands.mapM (c.treeWithin owner budget)
    c.nodeOf t lowered

/-- The tasks for several tokens leave the trees of these tokens, the latest first, if opening any
one of them leaves its tree. -/
theorem runTasks_map_open {c : Config} {owner : Option Nat} {budget : Nat}
    (ih : ∀ t finished rest, c.runTasks owner finished (.openToken budget t :: rest) =
      match c.treeWithin owner budget t with
      | .error e => .error e
      | .ok n => c.runTasks owner (n :: finished) rest)
    (ts : List Nat) (finished : List Node) (rest : List Task) :
    c.runTasks owner finished (ts.map (Task.openToken budget) ++ rest) =
      match ts.mapM (c.treeWithin owner budget) with
      | .error e => .error e
      | .ok ns => c.runTasks owner (ns.reverse ++ finished) rest := by
  induction ts generalizing finished with
  | nil => rfl
  | cons t ts iht =>
    rw [List.map_cons, List.cons_append, ih, List.mapM_cons]
    cases c.treeWithin owner budget t with
    | error e => rfl
    | ok n =>
      simp only [iht, bind, Except.bind]
      cases ts.mapM (c.treeWithin owner budget) with
      | error e => rfl
      | ok ns => simp [pure, Except.pure]

theorem runTasks_open (c : Config) (owner : Option Nat) (budget t : Nat) (finished : List Node)
    (rest : List Task) :
    c.runTasks owner finished (.openToken budget t :: rest) =
      match c.treeWithin owner budget t with
      | .error e => .error e
      | .ok n => c.runTasks owner (n :: finished) rest := by
  induction budget generalizing t finished rest with
  | zero =>
    rw [runTasks]
    rfl
  | succ b ih =>
    rw [runTasks, treeWithin]
    cases ho : c.openedOperands owner t with
    | error e => rfl
    | ok operands =>
      simp only [bind, Except.bind]
      rw [runTasks_map_open ih]
      cases hm : operands.mapM (c.treeWithin owner b) with
      | error e => rfl
      | ok lowered =>
        have hl : lowered.reverse.length = operands.length := by
          rw [List.length_reverse, (mapM_ok_iff.mp hm).length_eq]
        have hlt : ¬ (lowered.reverse ++ finished).length < operands.length := by
          rw [List.length_append, hl]
          exact Nat.not_lt.mpr (Nat.le_add_right ..)
        simp only []
        rw [runTasks, if_neg hlt, ← hl, List.take_left, List.drop_left]
        generalize hback : lowered.reverse.reverse = back
        obtain rfl : back = lowered := hback.symm.trans (List.reverse_reverse lowered)
        rfl

theorem expression_eq (c : Config) (owner : Option Nat) (t : Nat) :
    c.expression owner (some t) = c.treeWithin owner (c.tokens.size + 1) t := by
  show c.runTasks owner [] [.openToken (c.tokens.size + 1) t] = _
  rw [runTasks_open]
  cases c.treeWithin owner (c.tokens.size + 1) t with
  | error e => rfl
  | ok n => exact runTasks.eq_1 c owner n

/-! ## Nodes of a tree -/

variable {c : Config} {t : Nat} {lowered : List Node} {n : Node}

/-- What a token is decides which kind of node it has, and a mutation quotes its token. -/
theorem nodeOf_kinds (hn : c.nodeOf t lowered = .ok n) :
    ∃ loc, (c.token t).loc? = .ok loc ∧
      (((c.token t).isAssignment && (c.token t).op1.isSome) = true
          ∧ (∃ target rest text, lowered = target :: rest ∧ c.textOf t = .ok text
            ∧ n = .assign target rest.head? (c.token t).spelling text loc)
        ∨ ((c.token t).isAssignment && (c.token t).op1.isSome) = false
          ∧ ((c.token t).isStep = true ∧ (∃ target rest text, lowered = target :: rest
              ∧ c.textOf t = .ok text ∧ n = .update target (c.token t).spelling
                (.bool (c.token t).isLeadingStep) text loc)
            ∨ (c.token t).isStep = false
              ∧ ((c.token t).isVariable = true
                  ∧ n = .ref (c.token t).spelling (.int (c.token t).variableId) loc
                ∨ (c.token t).isVariable = false
                  ∧ n = .other (.text (c.token t).exprKind) lowered (c.token t).spelling loc))) := by
  unfold nodeOf at hn
  obtain ⟨loc, hl, hn⟩ := exists_of_bind_ok hn
  refine ⟨loc, ok_of_mapError hl, ?_⟩
  split at hn
  · rename_i hassign
    obtain ⟨text, htext, hn⟩ := exists_of_bind_ok hn
    split at hn
    · exact .inl ⟨hassign, _, _, text, rfl, ok_of_mapError htext, (Except.ok.inj hn).symm⟩
    · cases hn
  rename_i hassign
  refine .inr ⟨Bool.eq_false_iff.mpr hassign, ?_⟩
  split at hn
  · rename_i hstep
    obtain ⟨text, htext, hn⟩ := exists_of_bind_ok hn
    split at hn
    · exact .inl ⟨hstep, _, _, text, rfl, ok_of_mapError htext, (Except.ok.inj hn).symm⟩
    · cases hn
  rename_i hstep
  refine .inr ⟨Bool.eq_false_iff.mpr hstep, ?_⟩
  split at hn
  · rename_i hvariable
    exact .inl ⟨hvariable, (Except.ok.inj hn).symm⟩
  · rename_i hvariable
    exact .inr ⟨Bool.eq_false_iff.mpr hvariable, (Except.ok.inj hn).symm⟩

/-- The node of a token is an assignment, a step, a name or an operator, made of the nodes of the
operands. -/
theorem nodeOf_cases (hn : c.nodeOf t lowered = .ok n) :
    ∃ loc, (c.token t).loc? = .ok loc ∧
      ((∃ target rest text, lowered = target :: rest
          ∧ n = .assign target rest.head? (c.token t).spelling text loc)
        ∨ (∃ target rest leading text, lowered = target :: rest
          ∧ n = .update target (c.token t).spelling leading text loc)
        ∨ n = .ref (c.token t).spelling (.int (c.token t).variableId) loc
        ∨ n = .other (.text (c.token t).exprKind) lowered (c.token t).spelling loc) := by
  obtain ⟨loc, hloc, ⟨-, target, rest, text, hl, -, h⟩ |
    ⟨-, ⟨-, target, rest, text, hl, -, h⟩ | ⟨-, ⟨-, h⟩ | ⟨-, h⟩⟩⟩⟩ := nodeOf_kinds hn
  · exact ⟨loc, hloc, .inl ⟨target, rest, text, hl, h⟩⟩
  · exact ⟨loc, hloc, .inr (.inl ⟨target, rest, _, text, hl, h⟩)⟩
  · exact ⟨loc, hloc, .inr (.inr (.inl h))⟩
  · exact ⟨loc, hloc, .inr (.inr (.inr h))⟩

/-- What a token is decides which of its operands are opened for its node. -/
theorem opened_kinds {owner : Option Nat} {us : List Nat} (h : c.openedOperands owner t = .ok us) :
    ((c.token t).isAssignment && (c.token t).op1.isSome) = true ∧ us = (c.token t).operands
      ∨ ((c.token t).isAssignment && (c.token t).op1.isSome) = false
        ∧ ((c.token t).isStep = true ∧ us = (c.token t).op1.toList
          ∨ (c.token t).isStep = false
            ∧ ((c.token t).isVariable = true ∧ us = []
              ∨ (c.token t).isVariable = false
                ∧ (owner = none ∧ us = (c.token t).operands
                  ∨ ∃ s, owner = some s ∧ c.ownTokens s (c.token t).operands = .ok us))) := by
  have hl : c.loweredOperands owner t = .ok us := by
    unfold openedOperands at h
    split at h
    · cases h
    · cases h
    · rename_i hl
      exact Except.ok.inj h ▸ hl
  unfold loweredOperands at hl
  simp only at hl
  split at hl
  · rename_i hassign
    exact .inl ⟨hassign, (Except.ok.inj hl).symm⟩
  rename_i hassign
  refine .inr ⟨Bool.eq_false_iff.mpr hassign, ?_⟩
  split at hl
  · rename_i hstep
    exact .inl ⟨hstep, (Except.ok.inj hl).symm⟩
  rename_i hstep
  refine .inr ⟨Bool.eq_false_iff.mpr hstep, ?_⟩
  split at hl
  · rename_i hvariable
    exact .inl ⟨hvariable, (Except.ok.inj hl).symm⟩
  rename_i hvariable
  refine .inr ⟨Bool.eq_false_iff.mpr hvariable, ?_⟩
  cases owner with
  | none => exact .inl ⟨rfl, (Except.ok.inj hl).symm⟩
  | some s => exact .inr ⟨s, rfl, hl⟩

theorem mem_of_mem_children_nodeOf (hn : c.nodeOf t lowered = .ok n) {d : Node}
    (hd : d ∈ n.children) : d ∈ lowered := by
  obtain ⟨loc, -, ⟨target, rest, text, rfl, rfl⟩ | ⟨target, rest, leading, text, rfl, rfl⟩ | rfl |
    rfl⟩ := nodeOf_cases hn
  · rcases List.mem_cons.mp hd with rfl | hd
    · exact List.mem_cons_self ..
    · exact List.mem_cons_of_mem _ (List.mem_of_mem_head? (Option.mem_toList.mp hd))
  · obtain rfl := List.mem_singleton.mp hd
    exact List.mem_cons_self ..
  · exact absurd hd List.not_mem_nil
  · exact hd

/-- What holds of the node of each token that can be opened holds everywhere in a tree. -/
theorem treeWithin_everywhere {P : Node → Prop} {owner : Option Nat}
    (hP : ∀ t us lowered n, c.openedOperands owner t = .ok us → c.nodeOf t lowered = .ok n → P n)
    {budget : Nat} (hn : c.treeWithin owner budget t = .ok n) : n.Everywhere P := by
  induction budget generalizing t n with
  | zero => cases hn
  | succ b ih =>
    rw [treeWithin] at hn
    obtain ⟨us, ho, hn⟩ := exists_of_bind_ok hn
    obtain ⟨lowered, hm, hn⟩ := exists_of_bind_ok hn
    rw [Node.everywhere_iff]
    refine ⟨hP _ _ _ _ ho hn, ?_⟩
    intro d hd
    obtain ⟨u, -, hu⟩ := exists_of_mem_mapM hm (mem_of_mem_children_nodeOf hn hd)
    exact ih hu

theorem expression_everywhere {P : Node → Prop} {owner : Option Nat}
    (hP : ∀ t us lowered n, c.openedOperands owner t = .ok us → c.nodeOf t lowered = .ok n → P n)
    (hn : c.expression owner (some t) = .ok n) : n.Everywhere P :=
  treeWithin_everywhere hP (c.expression_eq owner t ▸ hn)

end Config
end FinalParams
