import FinalParams.Proofs.Lowering.Parameters

/-!
# What holds everywhere in the tree of a configuration

The tree of a configuration is made node by node: for the configuration itself, for a function or
lambda, for its body, and for a token that could be opened.  `compilationUnit_everywhere` says that
what holds of each node of these four kinds, whatever stands below it, holds everywhere in the tree.
Nothing is asked of the configuration but that it has a tree.
-/

namespace FinalParams

open Node

namespace Config

/-- All nodes that are made for parts of the configuration are like this, whatever their children
are.  The parameters of a function or lambda are variables of the configuration. -/
structure AllMade (c : Config) (path : Datum) (P : Node → Prop) : Prop where
  file : ∀ children, P (.file (c.shownPath path) children { file := c.shownPath path })
  unit : ∀ (head : Heading) body, (∀ p ∈ head.params.getD [], ∃ v, p = c.parameterOf v) →
    P (head.node body)
  body : ∀ statements loc, P (.block statements loc)
  token : ∀ owner t us lowered n, c.openedOperands owner t = .ok us → c.nodeOf t lowered = .ok n →
    P n

namespace AllMade

variable {c : Config} {path : Datum} {P : Node → Prop}

theorem expression_everywhere (h : c.AllMade path P) {owner : Option Nat} {t : Nat} {n : Node}
    (hn : c.expression owner (some t) = .ok n) : n.Everywhere P :=
  Config.expression_everywhere (h.token owner) hn

theorem unit_everywhere (h : c.AllMade path P) {head : Heading}
    (hp : ∀ p ∈ head.params.getD [], ∃ v, p = c.parameterOf v) {body : Option Node}
    (hb : ∀ n ∈ body, n.Everywhere P) : (head.node body).Everywhere P := by
  rw [everywhere_iff]
  refine ⟨h.unit head body hp, ?_⟩
  intro d hd
  exact hb d (Option.mem_toList.mp hd)

theorem statements_everywhere (h : c.AllMade path P) {index : List Nat}
    {descend : Nat → Except LowerError Node} {s : Nat}
    (hd : ∀ u n, descend u = .ok n → n.Everywhere P) {steps : Nat} {t : Option Nat}
    {ns : List Node} (hns : c.statements index descend s steps t = .ok ns) :
    ∀ n ∈ ns, n.Everywhere P := by
  induction steps generalizing t ns with
  | zero =>
    cases t with
    | none =>
      obtain rfl := Except.ok.inj hns
      exact fun n hn => absurd hn List.not_mem_nil
    | some t => cases hns
  | succ steps ih =>
    cases t with
    | none =>
      obtain rfl := Except.ok.inj hns
      exact fun n hn => absurd hn List.not_mem_nil
    | some t =>
      rw [statements] at hns
      split at hns
      · obtain rfl := Except.ok.inj hns
        exact fun n hn => absurd hn List.not_mem_nil
      obtain ⟨o, -, hns⟩ := exists_of_bind_ok hns
      cases o with
      | some u =>
        obtain ⟨unit, hunit, hns⟩ := exists_of_bind_ok hns
        obtain ⟨rest, hrest, hns⟩ := exists_of_bind_ok hns
        obtain rfl := Except.ok.inj hns
        exact List.forall_mem_cons.mpr ⟨hd u unit hunit, ih hrest⟩
      | none =>
        obtain ⟨b, -, hns⟩ := exists_of_bind_ok hns
        cases b with
        | true =>
          obtain ⟨statement, hstatement, hns⟩ := exists_of_bind_ok hns
          obtain ⟨rest, hrest, hns⟩ := exists_of_bind_ok hns
          obtain rfl := Except.ok.inj hns
          exact List.forall_mem_cons.mpr ⟨h.expression_everywhere hstatement, ih hrest⟩
        | false => exact ih hns

theorem unitWithin_everywhere (h : c.AllMade path P) {index : List Nat} {depth s : Nat} {n : Node}
    (hn : c.unitWithin index depth s = .ok n) : n.Everywhere P := by
  induction depth generalizing s n with
  | zero => cases hn
  | succ depth ih =>
    rw [unitWithin] at hn
    split at hn
    · contradiction
    rename_i head hhead
    have hparams := fun p => exists_parameter_of_heading hhead (p := p)
    split at hn
    · obtain rfl := Except.ok.inj hn
      exact h.unit_everywhere hparams fun d hd => nomatch hd
    · obtain ⟨body, hbody, hn⟩ := exists_of_bind_ok hn
      obtain rfl := Except.ok.inj hn
      apply h.unit_everywhere hparams
      intro d hd
      obtain rfl := Option.some.inj hd
      rw [everywhere_iff]
      exact ⟨h.body _ _, h.statements_everywhere (fun u n hu => ih hu) hbody⟩

theorem outermostUnit_everywhere (h : c.AllMade path P) {t : Nat} {n : Node}
    (hn : c.outermostUnit t = .ok (some n)) : n.Everywhere P := by
  obtain ⟨o, -, hn⟩ := exists_of_bind_ok hn
  cases o with
  | none => cases hn
  | some s =>
    obtain ⟨unit, hunit, hn⟩ := exists_of_bind_ok hn
    obtain rfl := Option.some.inj (Except.ok.inj hn)
    exact h.unitWithin_everywhere hunit

theorem declaration_everywhere (h : c.AllMade path P) {f : Nat} {n : Node}
    (hn : c.declaration f = .ok n) : n.Everywhere P := by
  obtain ⟨head, rfl, hparams⟩ := exists_heading hn
  exact h.unit_everywhere hparams fun d hd => nomatch hd

end AllMade

/-- What all made nodes are like, all nodes of the tree are like. -/
theorem compilationUnit_everywhere {c : Config} {path : Datum} {P : Node → Prop}
    (h : c.AllMade path P) {tree : Node} (ht : c.compilationUnit path = .ok tree) :
    tree.Everywhere P := by
  unfold compilationUnit at ht
  split at ht
  · contradiction
  obtain ⟨units, hunits, ht⟩ := exists_of_bind_ok ht
  obtain ⟨declarations, hdeclarations, ht⟩ := exists_of_bind_ok ht
  obtain rfl := Except.ok.inj ht
  rw [everywhere_iff]
  refine ⟨h.file _, ?_⟩
  intro d hd
  rcases List.mem_append.mp hd with hd | hd
  · obtain ⟨o, ho, rfl⟩ := List.mem_filterMap.mp hd
    obtain ⟨t, -, ht⟩ := exists_of_mem_mapM hunits ho
    exact h.outermostUnit_everywhere ht
  · obtain ⟨f, -, hf⟩ := exists_of_mem_mapM hdeclarations hd
    exact h.declaration_everywhere hf

end Config
end FinalParams
