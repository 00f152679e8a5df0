import FinalParams.Proofs.Lowering.Ending
import FinalParams.Proofs.Lowering.Grown

/-!
# The tree of an expression is what its definition says

The tree of an expression is made from a list of tasks and a list of finished nodes.  It is meant to
be defined by recursion: the node of a token is made of the trees of those operands that are opened
for it.  `expression_recursive` says that both agree where no operands go in a circle, also where
one token is an operand of several others.  Each task for a token leaves exactly one more finished
node, no operand is missing when its operator is finished, and the recursion has no other solution.

In a function or lambda an operator keeps only the operands that belong there or nowhere.  Without a
function or lambda around it keeps all of them.
-/

namespace FinalParams

open Relation

namespace Config

/-- The node of `t`, where `tree` tells the trees of its operands. -/
def treeFrom (c : Config) (owner : Option Nat) (tree : Nat → Except LowerError Node) (t : Nat) :
    Except LowerError Node := do
  let operands ← c.openedOperands owner t
  let lowered ← operands.mapM tree
  c.nodeOf t lowered

/-- The operands that an operator keeps: those without a scope and those that belong to the owner, or
all of them if there is no owner. -/
def keptOperands (c : Config) (owner : Option Nat) (t : Nat) : List Nat :=
  (c.token t).operands.filter fun u =>
    owner.isNone || (c.token u).scope.isNone || c.tokenOwner u == owner

/-- The node is the one that the kind of the token asks for, made of the trees of its operands. -/
inductive Shaped (c : Config) (owner : Option Nat) (tree : Nat → Except LowerError Node) (t : Nat) :
    Node → Prop
  /-- An assignment with a first operand has it as its target and the second one as its value. -/
  | assignment {a : Nat} {target : Node} {value : Option Node} {text : Datum} {loc : Loc} :
    (c.token t).isAssignment = true → (c.token t).op1 = some a → tree a = .ok target →
    Option.Rel (fun b n => tree b = .ok n) (c.token t).op2 value →
    c.textOf t = .ok text → (c.token t).loc? = .ok loc →
    Shaped c owner tree t (.assign target value (c.token t).spelling text loc)
  /-- An increment or decrement changes its first operand. -/
  | step {a : Nat} {target : Node} {text : Datum} {loc : Loc} :
    (c.token t).isAssignment = false → (c.token t).isStep = true → (c.token t).op1 = some a →
    tree a = .ok target → c.textOf t = .ok text → (c.token t).loc? = .ok loc →
    Shaped c owner tree t
      (.update target (c.token t).spelling (.bool (c.token t).isLeadingStep) text loc)
  /-- A name on its own that is known to be a variable refers to it. -/
  | name {loc : Loc} :
    (c.token t).isVariable = true → (c.token t).loc? = .ok loc →
    Shaped c owner tree t (.ref (c.token t).spelling (.int (c.token t).variableId) loc)
  /-- Everything else has the operands that it keeps as its children. -/
  | other {children : List Node} {loc : Loc} :
    ((c.token t).isAssignment && (c.token t).op1.isSome) = false → (c.token t).isStep = false →
    (c.token t).isVariable = false →
    List.Forall₂ (fun u n => tree u = .ok n) (c.keptOperands owner t) children →
    (c.token t).loc? = .ok loc →
    Shaped c owner tree t (.other (.text (c.token t).exprKind) children (c.token t).spelling loc)

/-- The expression at `t` has the tree that the recursion over its operands defines. -/
structure Recursive (c : Config) (owner : Option Nat) (t : Nat) : Prop where
  /-- The trees of the tokens below `t` solve the equation of the recursion. -/
  solves : ∀ u, ReflTransGen (fun t u => u ∈ (c.token t).operands) t u →
    c.expression owner (some u) = c.treeFrom owner (fun v => c.expression owner (some v)) u
  /-- Whatever solves it there has this tree at `t`. -/
  unique : ∀ tree : Nat → Except LowerError Node,
    (∀ u, ReflTransGen (fun t u => u ∈ (c.token t).operands) t u →
      tree u = c.treeFrom owner tree u) → tree t = c.expression owner (some t)
  /-- Wherever the task to open `t` stands in the work, it leaves one more finished node. -/
  leaves : ∀ (budget : Nat) (finished : List Node) (rest : List Task), c.tokens.size < budget →
    c.runTasks owner finished (.openToken budget t :: rest)
      = (c.expression owner (some t)).bind fun n => c.runTasks owner (n :: finished) rest
  /-- The kind of the token decides what the tree is made of. -/
  shaped : ∀ n, c.expression owner (some t) = .ok n →
    c.Shaped owner (fun u => c.expression owner (some u)) t n
  /-- Only a value that does not fit can keep the expression from having a tree, so the work comes to
  its end with no finished node missing and none left over. -/
  unreadable : ∀ e, c.expression owner (some t) = .error e → e.isUnreadable = true
  readable : c.Readable → ∃ n, c.expression owner (some t) = .ok n

variable {c : Config} {owner : Option Nat} {t : Nat}

/-! ## The recursion -/

/-- The node of a token depends on the trees of its operands alone. -/
theorem treeFrom_congr {f g : Nat → Except LowerError Node}
    (h : ∀ u ∈ (c.token t).operands, f u = g u) : c.treeFrom owner f t = c.treeFrom owner g t := by
  unfold treeFrom
  cases ho : c.openedOperands owner t with
  | error e => rfl
  | ok us =>
    show (us.mapM f >>= c.nodeOf t) = us.mapM g >>= c.nodeOf t
    rw [mapM_congr_of_mem fun u hu => h u (mem_operands_of_opened ho hu)]

/-- A budget above the rank of a token is as good as any other one. -/
theorem treeWithin_congr {budget budget' : Nat} (h : c.Grounded t) (hb : c.rank t < budget)
    (hb' : c.rank t < budget') : c.treeWithin owner budget t = c.treeWithin owner budget' t := by
  induction budget generalizing t budget' with
  | zero => exact absurd hb (Nat.not_lt_zero _)
  | succ b ih =>
    obtain ⟨b', rfl⟩ := Nat.exists_eq_succ_of_ne_zero (Nat.ne_zero_of_lt hb')
    apply treeFrom_congr
    intro u hu
    have hlt := h.rank_lt hu
    exact ih (h.operand hu) (by omega) (by omega)

theorem treeWithin_eq_expression {budget : Nat} (h : c.Grounded t) (hb : c.rank t < budget) :
    c.treeWithin owner budget t = c.expression owner (some t) := by
  rw [expression_eq]
  exact treeWithin_congr h hb (Nat.lt_succ_of_le (c.rank_le t))

theorem expression_eq_treeFrom (h : c.Grounded t) :
    c.expression owner (some t)
      = c.treeFrom owner (fun u => c.expression owner (some u)) t := by
  rw [expression_eq]
  apply treeFrom_congr
  intro u hu
  exact treeWithin_eq_expression (h.operand hu) ((h.rank_lt hu).trans_le (c.rank_le t))

/-- The induction is on the rank, as operands have lower ranks. -/
theorem eq_expression_of_solves {tree : Nat → Except LowerError Node} (h : c.Grounded t)
    (htree : ∀ u, ReflTransGen (fun t u => u ∈ (c.token t).operands) t u →
      tree u = c.treeFrom owner tree u) : tree t = c.expression owner (some t) := by
  induction hr : c.rank t using Nat.strongRecOn generalizing t with
  | ind r ih =>
    subst hr
    rw [htree t ReflTransGen.refl, expression_eq_treeFrom h]
    apply treeFrom_congr
    intro u hu
    exact ih _ (h.rank_lt hu) (h.operand hu) (fun v hv => htree v (hv.head hu)) rfl

/-! ## The kinds of nodes -/

theorem liesIn_eq {s u : Nat} {own : Bool} (h : c.liesIn s u = .ok own) :
    own = ((c.token u).scope.isNone || c.tokenOwner u == some s) := by
  unfold liesIn at h
  unfold tokenOwner
  split at h
  · rename_i hscope
    rw [hscope]
    exact (Except.ok.inj h).symm
  · rename_i scope hscope
    obtain ⟨o, ho, hown⟩ := exists_of_map_ok h
    rw [hscope, Config.owner, ho, ← hown]
    rfl

theorem ownTokens_eq {s : Nat} {ts us : List Nat} (h : c.ownTokens s ts = .ok us) :
    us = ts.filter fun u => (c.token u).scope.isNone || c.tokenOwner u == some s := by
  induction ts generalizing us with
  | nil => exact (Except.ok.inj h).symm
  | cons u rest ih =>
    rw [ownTokens] at h
    obtain ⟨own, hown, h⟩ := exists_of_bind_ok h
    obtain ⟨others, hothers, h⟩ := exists_of_bind_ok h
    rw [← Except.ok.inj h, List.filter_cons, ← liesIn_eq hown, ← ih hothers]

/-- An operator opens the operands that it keeps. -/
theorem opened_eq_kept {us : List Nat} (h : c.openedOperands owner t = .ok us)
    (hassign : ((c.token t).isAssignment && (c.token t).op1.isSome) = false)
    (hstep : (c.token t).isStep = false) (hvariable : (c.token t).isVariable = false) :
    us = c.keptOperands owner t := by
  obtain ⟨ha, -⟩ | ⟨-, ⟨hs, -⟩ | ⟨-, ⟨hv, -⟩ | ⟨-, ⟨rfl, rfl⟩ | ⟨s, rfl, hown⟩⟩⟩⟩ := opened_kinds h
  · rw [hassign] at ha
    cases ha
  · rw [hstep] at hs
    cases hs
  · rw [hvariable] at hv
    cases hv
  · rw [keptOperands, List.filter_eq_self.mpr]
    exact fun _ _ => rfl
  · exact ownTokens_eq hown

/-- The node of a token is what its kind asks for if it is made of the trees of what is opened. -/
theorem nodeOf_shaped {tree : Nat → Except LowerError Node} {us : List Nat} {lowered : List Node}
    {n : Node} (ho : c.openedOperands owner t = .ok us)
    (hl : List.Forall₂ (fun u n => tree u = .ok n) us lowered) (hn : c.nodeOf t lowered = .ok n) :
    c.Shaped owner tree t n := by
  have hopened := opened_kinds ho
  obtain ⟨loc, hloc, ⟨hassign, target, rest, text, rfl, htext, rfl⟩ | ⟨hassign, hkind⟩⟩ :=
    nodeOf_kinds hn
  · simp only [hassign, Bool.true_eq_false, true_and, false_and, or_false] at hopened
    obtain ⟨ha, hsome⟩ := Bool.and_eq_true_iff.mp hassign
    obtain ⟨a, hop⟩ := Option.isSome_iff_exists.mp hsome
    rw [hopened, Token.operands_of_op1 hop] at hl
    obtain ⟨htarget, hrest⟩ := List.forall₂_cons.mp hl
    refine .assignment ha hop htarget ?_ htext hloc
    cases hb : (c.token t).op2 with
    | none =>
      rw [hb] at hrest
      obtain rfl := List.forall₂_nil_left_iff.mp hrest
      exact Option.Rel.none
    | some b =>
      rw [hb] at hrest
      obtain ⟨value, others, hvalue, -, rfl⟩ := List.forall₂_cons_left_iff.mp hrest
      exact Option.Rel.some hvalue
  obtain ⟨hstep, target, rest, text, rfl, htext, rfl⟩ | ⟨hstep, hkind⟩ := hkind
  · simp only [hassign, hstep, Bool.false_eq_true, Bool.true_eq_false, false_and, true_and,
      false_or, or_false] at hopened
    obtain ⟨a, hop⟩ := Option.isSome_iff_exists.mp (Bool.and_eq_true_iff.mp hstep).2
    rw [hopened, hop] at hl
    have ha : (c.token t).isAssignment = false := by
      rw [hop, Option.isSome_some, Bool.and_true] at hassign
      exact hassign
    exact .step ha hstep hop (List.forall₂_cons.mp hl).1 htext hloc
  obtain ⟨hvariable, rfl⟩ | ⟨hvariable, rfl⟩ := hkind
  · exact .name hvariable hloc
  · rw [opened_eq_kept ho hassign hstep hvariable] at hl
    exact .other hassign hstep hvariable hl hloc

theorem expression_shaped (h : c.Grounded t) {n : Node}
    (hn : c.expression owner (some t) = .ok n) :
    c.Shaped owner (fun u => c.expression owner (some u)) t n := by
  rw [expression_eq_treeFrom h] at hn
  obtain ⟨us, ho, hn⟩ := exists_of_bind_ok hn
  obtain ⟨lowered, hm, hn⟩ := exists_of_bind_ok hn
  exact nodeOf_shaped ho (mapM_ok_iff.mp hm) hn

/-! ## Trees of readable tokens -/

theorem exists_opened (h : c.Readable) (owner : Option Nat) (t : Nat) :
    ∃ us, c.openedOperands owner t = .ok us := by
  cases owner with
  | some s => exact ⟨_, openedOperands_ok h s t⟩
  | none =>
    have hopen := openable_ok h t
    have hlow : ∃ us, c.loweredOperands none t = .ok us := by
      unfold loweredOperands
      simp only
      split
      · exact ⟨_, rfl⟩
      split
      · exact ⟨_, rfl⟩
      split <;> exact ⟨_, rfl⟩
    obtain ⟨us, hus⟩ := hlow
    exact ⟨us, by simp only [openedOperands, hopen, hus]⟩

/-- In a readable configuration there is a node for every token of whose operands there are trees. -/
theorem exists_node (h : c.Readable) {us : List Nat} {lowered : List Node}
    (ho : c.openedOperands owner t = .ok us) (hl : lowered.length = us.length) :
    ∃ n, c.nodeOf t lowered = .ok n := by
  obtain ⟨hassign, hus⟩ | ⟨hassign, ⟨hstep, hus⟩ | ⟨hstep, -⟩⟩ := opened_kinds ho
  · obtain ⟨ha, hsome⟩ := Bool.and_eq_true_iff.mp hassign
    obtain ⟨a, hop⟩ := Option.isSome_iff_exists.mp hsome
    rw [hus, Token.operands_of_op1 hop] at hl
    obtain ⟨target, rest, rfl⟩ := List.exists_cons_of_length_eq_add_one hl
    obtain ⟨text, -, -, hn⟩ := nodeOf_of_assignment h hop ha target rest
    exact ⟨_, hn⟩
  · obtain ⟨a, hop⟩ := Option.isSome_iff_exists.mp (Bool.and_eq_true_iff.mp hstep).2
    rw [hop, Option.isSome_some, Bool.and_true] at hassign
    rw [hus, hop] at hl
    obtain ⟨target, rfl⟩ := List.length_eq_one_iff.mp hl
    obtain ⟨text, -, -, hn⟩ := nodeOf_of_step h hop hassign hstep target
    exact ⟨_, hn⟩
  · cases hv : (c.token t).isVariable with
    | true => exact ⟨_, nodeOf_of_variable h hv lowered⟩
    | false =>
      refine ⟨_, nodeOf_of_other h hv ?_ lowered⟩
      cases hop : (c.token t).op1 with
      | none => exact .inl rfl
      | some a =>
        rw [hop, Option.isSome_some, Bool.and_true] at hassign
        exact .inr ⟨hassign, hstep⟩

/-- In a readable configuration every expression has a tree if no operands go in a circle. -/
theorem exists_expression (h : c.Readable) (hg : c.Grounded t) (owner : Option Nat) :
    ∃ n, c.expression owner (some t) = .ok n := by
  induction hr : c.rank t using Nat.strongRecOn generalizing t with
  | ind r ih =>
    subst hr
    obtain ⟨us, ho⟩ := exists_opened h owner t
    have htrees : ∀ u ∈ us, ∃ n, c.expression owner (some u) = .ok n := by
      intro u hu
      have hoperand := mem_operands_of_opened ho hu
      exact ih _ (hg.rank_lt hoperand) (hg.operand hoperand) rfl
    obtain ⟨lowered, hm⟩ := exists_mapM_ok htrees
    obtain ⟨n, hn⟩ := exists_node h ho (mapM_ok_iff.mp hm).length_eq.symm
    refine ⟨n, ?_⟩
    rw [expression_eq_treeFrom hg, treeFrom, ho]
    simp only [bind, Except.bind]
    rw [hm]
    exact hn

/-! ## The list of tasks -/

/-- A task to open a token leaves the tree of the token, whatever else there is to do. -/
theorem runTasks_open_eq (h : c.Grounded t) {budget : Nat} (hb : c.tokens.size < budget)
    (finished : List Node) (rest : List Task) :
    c.runTasks owner finished (.openToken budget t :: rest)
      = (c.expression owner (some t)).bind fun n => c.runTasks owner (n :: finished) rest := by
  rw [runTasks_open, treeWithin_eq_expression h ((c.rank_le t).trans_lt hb)]
  cases c.expression owner (some t) with
  | error e => rfl
  | ok n => rfl

end Config

/-- Where no operands of a token go in a circle, the tree of its expression is what the recursion
over the operands says.  Only a value that does not fit can keep it from having a tree. -/
theorem expression_recursive {c : Config} {t : Nat} (h : c.Grounded t) (owner : Option Nat) :
    c.Recursive owner t where
  solves := fun _ hu => Config.expression_eq_treeFrom fun _ hv => h _ (hu.trans hv)
  unique := fun _ htree => Config.eq_expression_of_solves h htree
  leaves := fun _ finished rest hb => Config.runTasks_open_eq h hb finished rest
  shaped := fun _ hn => Config.expression_shaped h hn
  unreadable := fun _ he => Config.expression_error h he
  readable := fun hr => Config.exists_expression hr h owner

/-- The expression `a + a` in a function, where both operands are one token. -/
def doubledConfig : Config where
  tokens := #[
    { spelling := .text "+", scope := some 0, op1 := some 1, op2 := some 1, next := some 1 },
    { spelling := .text "a", varId := .int 1, isName := true, scope := some 0, parent := some 0 }]
  scopes := #[{ kind := .text "Function" }]
  tokenList := [0, 1]
  scopeList := [0]

theorem doubledConfig_grounded (t : Nat) : doubledConfig.Grounded t := fun u _ =>
  Config.acyclic_of_height (fun t => if t = 0 then 1 else 0) (by decide) u

theorem expression_recursive_doubledConfig :
    doubledConfig.Grounded 0 ∧ doubledConfig.Recursive none 0 ∧ doubledConfig.Recursive (some 0) 0 :=
  ⟨doubledConfig_grounded 0, expression_recursive (doubledConfig_grounded 0) none,
    expression_recursive (doubledConfig_grounded 0) (some 0)⟩

/-- Without an owner an operator does not keep just the operands without a scope or owner: both
operands of `a + a` belong to the function, and both are kept. -/
theorem doubledConfig_keeps_owned :
    doubledConfig.Grounded 0
      ∧ ((doubledConfig.token 0).operands.filter fun u =>
          (doubledConfig.token u).scope.isNone || doubledConfig.tokenOwner u == none) = []
      ∧ ¬ ∃ kind text loc children, doubledConfig.expression none (some 0)
          = .ok (.other kind children text loc)
        ∧ List.Forall₂ (fun u n => doubledConfig.expression none (some u) = .ok n)
          ((doubledConfig.token 0).operands.filter fun u =>
            (doubledConfig.token u).scope.isNone || doubledConfig.tokenOwner u == none)
          children := by
  have hnone : ((doubledConfig.token 0).operands.filter fun u =>
      (doubledConfig.token u).scope.isNone || doubledConfig.tokenOwner u == none) = [] := rfl
  refine ⟨doubledConfig_grounded 0, hnone, ?_⟩
  rintro ⟨kind, text, loc, children, htree, hchildren⟩
  rw [hnone, List.forall₂_nil_left_iff] at hchildren
  have hlength : (doubledConfig.expression none (some 0)).map (fun n => n.children.length)
      = .ok 2 := by
    decide +kernel
  rw [htree, hchildren] at hlength
  cases hlength

end FinalParams
