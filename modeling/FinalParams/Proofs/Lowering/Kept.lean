import FinalParams.Proofs.Lowering.Justified

/-!
# Tokens that keep to their function or lambda

The operands of an expression that belong elsewhere are left out of its tree, but an assignment
takes both of its operands and a step takes its operand wherever they belong.
`compilationUnit_kept` says that nothing else leads a token into the unit of another function or
lambda, and that what is reported for a token which is not led astray concerns a parameter of its own
function or lambda.
-/

namespace FinalParams

open Relation

namespace Config

/-- Wherever the tree has the token `t`, a unit of `s` stands between it and any unit of another
function or lambda above it. -/
def KeptIn (c : Config) (s t : Nat) : Prop :=
  ∀ p u, c.originAt p = some (.token u t) → ∀ q v, q <+: p → c.originAt q = some (.unit v) → v ≠ s →
    ∃ q', q <+: q' ∧ q' <+: p ∧ c.originAt q' = some (.unit s)

/-- The token `w` is an assignment or step, and `t` is an operand that its node is made of. -/
def Takes (c : Config) (w t : Nat) : Prop :=
  (c.token w).isAssignment = true ∧ (c.token w).op1.isSome = true ∧ t ∈ (c.token w).operands
    ∨ (c.token w).isStep = true ∧ (c.token w).op1 = some t

variable {c : Config} {path : Datum}

/-- A token keeps to the units of `s` exactly if it stands in no other body than that of `s`. -/
theorem keptIn_iff {s t : Nat} :
    c.KeptIn s t ↔ ∀ p u, c.originAt p = some (.token u t) → u = s := by
  constructor
  · intro h p u hp
    obtain ⟨q, hq, hunit, hnear⟩ := exists_nearest hp rfl
    by_contra hne
    obtain ⟨q', hqq', hq'p, hq'⟩ := h p u hp q u hq hunit hne
    obtain rfl : q = q' := hqq'.eq_of_length_le (hnear q' s hq'p hq').length_le
    exact hne (Origin.unit.inj (Option.some.inj (hunit.symm.trans hq')))
  · intro h p u hp q v hq hv _
    obtain rfl := h p u hp
    obtain ⟨q', hq', hunit, hnear⟩ := exists_nearest hp rfl
    exact ⟨q', hnear q v hq hv, hq', hunit⟩

/-! ## Operands that are lowered -/

theorem liesIn_of_mem_ownTokens {owner t : Nat} {ts us : List Nat}
    (h : c.ownTokens owner ts = .ok us) (ht : t ∈ us) : c.liesIn owner t = .ok true := by
  induction ts generalizing us with
  | nil =>
    obtain rfl := Except.ok.inj h
    exact absurd ht List.not_mem_nil
  | cons x rest ih =>
    rw [ownTokens] at h
    obtain ⟨own, hown, h⟩ := exists_of_bind_ok h
    obtain ⟨others, hothers, h⟩ := exists_of_bind_ok h
    obtain rfl := Except.ok.inj h
    cases own with
    | true =>
      rcases List.mem_cons.mp ht with rfl | ht
      · exact hown
      · exact ih hothers ht
    | false => exact ih hothers ht

/-- An operand that is lowered in `u` is taken by an assignment or step or belongs to `u`. -/
theorem takes_or_owned {u w t s : Nat} {us : List Nat}
    (h : c.openedOperands (some u) w = .ok us) (ht : t ∈ us)
    (hs : c.callableAround (c.token t).scope = .ok (some s)) : c.Takes w t ∨ u = s := by
  obtain ⟨hassign, rfl⟩ | ⟨-, ⟨hstep, rfl⟩ | ⟨-, ⟨-, rfl⟩ | ⟨-, ⟨hnone, -⟩ | ⟨o, ho, hown⟩⟩⟩⟩ :=
    opened_kinds h
  · rw [Bool.and_eq_true] at hassign
    exact .inl (.inl ⟨hassign.1, hassign.2, ht⟩)
  · exact .inl (.inr ⟨hstep, Option.mem_toList.mp ht⟩)
  · exact absurd ht List.not_mem_nil
  · cases hnone
  · obtain rfl := Option.some.inj ho
    have hlies := liesIn_of_mem_ownTokens hown ht
    unfold liesIn at hlies
    split at hlies
    · rename_i hnone
      rw [hnone, callableAround_none] at hs
      cases hs
    · rename_i scope hscope
      rw [belongsTo, ← hscope, hs] at hlies
      have heq : (some s == some u) = true := Except.ok.inj hlies
      exact .inr (Option.some.inj (beq_iff_eq.mp heq)).symm

theorem mem_opened_of_takes {owner : Option Nat} {w t : Nat} {us : List Nat}
    (h : c.openedOperands owner w = .ok us) (ht : c.Takes w t) : t ∈ us := by
  have hopened := opened_kinds h
  rcases ht with ⟨hassign, hsome, ht⟩ | ⟨hstep, ht⟩
  · simp only [hassign, hsome, Bool.and_self, Bool.true_eq_false, true_and, false_and,
      or_false] at hopened
    rwa [hopened]
  · rcases hopened with ⟨-, rfl⟩ | ⟨-, ⟨-, rfl⟩ | ⟨hno, -⟩⟩
    · rw [Token.operands_of_op1 ht]
      exact List.mem_cons_self ..
    · exact Option.mem_toList.mpr ht
    · rw [hstep] at hno
      cases hno

theorem exists_child_of_takes {w t : Nat} {lowered : List Node} {n : Node}
    (h : c.nodeOf w lowered = .ok n) (ht : c.Takes w t) : ∃ d, n.children[0]? = some d := by
  obtain ⟨loc, -, ⟨-, target, rest, text, -, -, rfl⟩ | ⟨hassign, hkind⟩⟩ := nodeOf_kinds h
  · exact ⟨target, rfl⟩
  obtain ⟨-, target, rest, text, -, -, rfl⟩ | ⟨hstep, -⟩ := hkind
  · exact ⟨target, rfl⟩
  rcases ht with ⟨ha, hsome, -⟩ | ⟨hs, -⟩
  · rw [ha, hsome] at hassign
    cases hassign
  · rw [hs] at hstep
    cases hstep

/-- What an assignment or step takes stands below it in the tree. -/
theorem Traced.originAt_of_takes {tree : Node} (h : c.Traced path tree) {p : Position} {u w t : Nat}
    (hp : c.originAt p = some (.token u w)) (ht : c.Takes w t) :
    ∃ i, c.originAt (p ++ [i]) = some (.token u t) := by
  obtain ⟨n, hn, lowered, hmade⟩ := h.exists_node hp
  -- the node has a child, so its operands could be told
  obtain ⟨d, hd⟩ := exists_child_of_takes hmade ht
  have hchild : tree.nodeAt? (p ++ [0]) = some d := by
    rw [Node.nodeAt?_append hn, Node.nodeAt?_cons hd, Node.nodeAt?_nil]
  obtain ⟨o, ho, -⟩ := h.exists_origin hchild
  rw [originAt_concat hp] at ho
  cases partOf_of_mem (List.mem_of_getElem? ho) with
  | operand hus _ =>
    obtain ⟨i, hi⟩ := List.getElem?_of_mem (mem_opened_of_takes hus ht)
    refine ⟨i, ?_⟩
    rw [originAt_concat hp, parts, hus]
    exact (List.getElem?_map ..).trans (congrArg (Option.map (Origin.token u)) hi)

/-- A token that belongs to `s` and stands in the body of `u` is a statement there, and `u` is `s`,
or it is taken as an operand. -/
theorem own_or_taken {p : Position} {u t s : Nat} (h : c.originAt p = some (.token u t))
    (hs : c.callableAround (c.token t).scope = .ok (some s)) :
    u = s ∨ ∃ q w, c.originAt q = some (.token u w) ∧ c.Takes w t := by
  rcases List.eq_nil_or_concat' p with rfl | ⟨q, i, rfl⟩
  · cases h
  · obtain ⟨above, hq, hi⟩ := exists_above h
    cases partOf_of_mem (List.mem_of_getElem? hi) with
    | statement hr =>
      obtain ⟨-, hown⟩ := isStatement_eq_true hr
      rw [hs] at hown
      exact .inl (Option.some.inj (Except.ok.inj hown)).symm
    | @operand _ w _ _ hus ht =>
      rcases takes_or_owned hus ht hs with htakes | hown
      · exact .inr ⟨q, w, hq, htakes⟩
      · exact .inl hown

end Config

/-- In the tree of a configuration a token keeps to the units of its function or lambda exactly if no
assignment or step in the unit of another one takes it as an operand.  What is reported for such a
token concerns a parameter of its own function or lambda. -/
theorem compilationUnit_kept {c : Config} {path : Datum} {tree : Node}
    (h : c.compilationUnit path = .ok tree) :
    c.Traced path tree
      ∧ (∀ s t, c.callableAround (c.token t).scope = .ok (some s) →
        (c.KeptIn s t ↔ ∀ p u w, c.originAt p = some (.token u w) → c.Takes w t → u = s))
      ∧ ∀ m, ∀ v ∈ (tree.scan m none).violations, ∃ s x r t a, c.Justifies m path v s x r t a
        ∧ ∀ s', c.callableAround (c.token t).scope = .ok (some s') → c.KeptIn s' t → s = s' := by
  have htraced := compilationUnit_traced h
  refine ⟨htraced, ?_, ?_⟩
  · intro s t hs
    rw [Config.keptIn_iff]
    constructor
    · intro hkept p u w hp ht
      obtain ⟨i, hi⟩ := htraced.originAt_of_takes hp ht
      exact hkept _ u hi
    · intro hfree p u hp
      rcases Config.own_or_taken hp hs with hown | ⟨q, w, hq, htakes⟩
      · exact hown
      · exact hfree q u w hq htakes
  · intro m v hv
    obtain ⟨p, s, x, r, t, a, hp, hjustified⟩ := Config.exists_justification h hv
    exact ⟨s, x, r, t, a, hjustified, fun s' _ hkept => Config.keptIn_iff.mp hkept p s hp⟩

/-- `f(p) { x = [] { p++ } }` where the value of the assignment is the step in the lambda. -/
def strayConfig : Config where
  tokens := #[
    { spelling := .text "\x7b", scope := some 0, next := some 1 },
    { spelling := .text "x", varId := .int 2, isName := true, scope := some 0, parent := some 2,
      next := some 2 },
    { spelling := .text "=", isAssignmentOp := true, scope := some 0, op1 := some 1,
      op2 := some 5, next := some 3 },
    { spelling := .text "\x7b", scope := some 1, next := some 4 },
    { spelling := .text "p", varId := .int 1, isName := true, file := .text "a.cpp",
      line := .int 1, scope := some 1, parent := some 5, next := some 5 },
    { spelling := .text "++", scope := some 1, op1 := some 4, parent := some 2, next := some 6 },
    { spelling := .text "\x7d", scope := some 1, next := some 7 },
    { spelling := .text "\x7d", scope := some 0 }]
  scopes := #[
    { kind := .text "Function", function := some 0, bodyStart := some 0, bodyEnd := some 7 },
    { kind := .text "Lambda", nestedIn := some 0, bodyStart := some 3, bodyEnd := some 6 }]
  functions := #[{ name := .text "f", arguments := some (.numbered [(.text "1", some 0)]) }]
  vars := #[{ isArgument := true, nameToken := some 4 }]
  tokenList := [0, 1, 2, 3, 4, 5, 6, 7]
  scopeList := [0, 1]
  functionList := [0]

namespace strayConfig

/-- The assignment lies above the step and the step above `p`. -/
theorem acyclic (t : Nat) :
    ¬ TransGen (fun t u => u ∈ (strayConfig.token t).operands) t t :=
  Config.acyclic_of_height (fun t => if t = 2 then 2 else if t = 5 then 1 else 0) (by decide) t

theorem exists_tree :
    ∃ tree, strayConfig.compilationUnit (.text "a.cpp") = .ok tree
      ∧ (tree.scan {} none).violations.map (fun v => (v.ident, v.loc, v.op))
        = [(⟨.text "p", .int 1⟩, ⟨.text "a.cpp", .int 1, .int 0⟩, .text "++")] := by
  have hfound : (strayConfig.compilationUnit (.text "a.cpp")).map (fun tree =>
      (tree.scan {} none).violations.map fun v => (v.ident, v.loc, v.op))
        = .ok [(⟨.text "p", .int 1⟩, ⟨.text "a.cpp", .int 1, .int 0⟩, .text "++")] := by
    decide +kernel
  exact exists_of_map_ok hfound

end strayConfig

/-- The step belongs to the lambda, which has no parameters, and it is reported for the parameter of
the function. -/
theorem strayConfig_reported :
    (∀ t, ¬ TransGen (fun t u => u ∈ (strayConfig.token t).operands) t t)
      ∧ (strayConfig.token 5).isStep = true
      ∧ strayConfig.callableAround (strayConfig.token 5).scope = .ok (some 1)
      ∧ strayConfig.scopeParameters 1 = .ok (some [])
      ∧ ¬ strayConfig.KeptIn 1 5
      ∧ ∃ tree, strayConfig.compilationUnit (.text "a.cpp") = .ok tree
        ∧ (tree.scan {} none).violations.map (fun v => (v.ident, v.loc, v.op))
          = [(⟨.text "p", .int 1⟩, ⟨.text "a.cpp", .int 1, .int 0⟩, .text "++")] := by
  refine ⟨strayConfig.acyclic, rfl, rfl, rfl, ?_, strayConfig.exists_tree⟩
  intro hkept
  have hat : strayConfig.originAt [0, 0, 0, 1] = some (.token 0 5) := by decide +kernel
  exact absurd (Config.keptIn_iff.mp hkept _ _ hat) Nat.zero_ne_one

theorem compilationUnit_kept_strayConfig :
    ∃ tree, strayConfig.compilationUnit (.text "a.cpp") = .ok tree
      ∧ strayConfig.Traced (.text "a.cpp") tree
      ∧ (∀ s t, strayConfig.callableAround (strayConfig.token t).scope = .ok (some s) →
        (strayConfig.KeptIn s t ↔ ∀ p u w, strayConfig.originAt p = some (.token u w) →
          strayConfig.Takes w t → u = s))
      ∧ ∀ m, ∀ v ∈ (tree.scan m none).violations, ∃ s x r t a,
        strayConfig.Justifies m (.text "a.cpp") v s x r t a
          ∧ ∀ s', strayConfig.callableAround (strayConfig.token t).scope = .ok (some s') →
            strayConfig.KeptIn s' t → s = s' := by
  obtain ⟨tree, htree, -⟩ := strayConfig.exists_tree
  exact ⟨tree, htree, compilationUnit_kept htree⟩

end FinalParams
