import FinalParams.Proofs.Lowering.Justified
import FinalParams.Proofs.Lowering.Outline

/-!
# Everything is lowered at most once

A damaged dump may leave out where a body ends, let bodies cross or share their first brace, and
nest scopes in one another in a circle.  As long as the chain of tokens runs forward through the
list, `compilationUnit_once` says that the lowering ends, that each function or lambda has at most
one unit in the tree, and that each top of an expression is a statement at most once, in the unit of
the function or lambda that it belongs to.

Two things carry this.  In a body the tokens at which statements begin come one after the other in
the list, so no statement stands there twice.  And where a unit stands is decided by its own scope:
in the body of the nearest function or lambda around it.
-/

namespace FinalParams

open Relation

namespace Config

/-- Each token is followed by a later one of the list if by any, no token is reached from itself
through operands, and no body ends at an earlier token of the list than it begins.  Scopes may refer
to each other and to tokens in any way. -/
structure Onward (c : Config) : Prop where
  distinct : c.tokenList.Nodup
  next : ∀ t u, (c.token t).next = some u →
    t ∈ c.tokenList ∧ u ∈ c.tokenList ∧ c.order t < c.order u
  acyclic : ∀ t, ¬ TransGen (fun t u => u ∈ (c.token t).operands) t t
  body : ∀ s ∈ c.callableScopes, ∀ b e, (c.scope s).bodyStart = some b →
    (c.scope s).bodyEnd = some e → b ∈ c.tokenList → e ∈ c.tokenList → c.order b ≤ c.order e

/-- The node at `p` is made for the token `t` as a statement in the body of `s`. -/
def StatementAt (c : Config) (s t : Nat) (p : Position) : Prop :=
  ∃ q i, p = q ++ [i] ∧ c.originAt q = some (.body s) ∧ c.originAt p = some (.token s t)

/-- An argument table has a key that is no number. -/
def Misnumbered (c : Config) (e : LowerError) : Prop :=
  ∃ n f entries, e = .number n ∧ (c.function f).arguments = some (.numbered entries)
    ∧ ∃ a ∈ entries, a.1.toInt = .error n

/-- No function or lambda and no top of an expression is lowered twice in this tree. -/
structure LoweredOnce (c : Config) (path : Datum) (tree : Node) : Prop where
  traced : c.Traced path tree
  /-- The units of the tree are those of functions and lambdas and of functions that are only
  declared. -/
  callable : ∀ p n, tree.nodeAt? p = some n → n.IsCallable →
    (∃ s ∈ c.callableScopes, c.originAt p = some (.unit s))
      ∨ ∃ f, c.originAt p = some (.declaration f)
  unit : ∀ p s, c.originAt p = some (.unit s) →
    ∃ n, tree.nodeAt? p = some n ∧ c.unit c.callableScopes s = .ok n
  statement : ∀ p s t, c.StatementAt s t p →
    ∃ n, tree.nodeAt? p = some n ∧ c.expression (some s) (some t) = .ok n
  /-- A function or lambda has at most one unit. -/
  unit_once : ∀ p q s, c.originAt p = some (.unit s) → c.originAt q = some (.unit s) → p = q
  /-- A token is a statement at most once, in whatever body. -/
  statement_once : ∀ p q s u t, c.StatementAt s t p → c.StatementAt u t q → p = q
  /-- A statement is the top of an expression.  It belongs to the function or lambda of the nearest
  unit around it. -/
  own : ∀ p s t, c.StatementAt s t p →
    (c.token t).isRoot = true ∧ c.callableAround (c.token t).scope = .ok (some s)
      ∧ ∃ q, q <+: p ∧ c.originAt q = some (.unit s)
        ∧ ∀ q' u, q' <+: p → c.originAt q' = some (.unit u) → q' <+: q

variable {c : Config} {path : Datum}

/-! ## The order of statements -/

/-- The order of the list is one in which the lowering goes on. -/
theorem Onward.ongoing (h : c.Onward) : c.Ongoing c.order where
  next := fun t u hu => (h.next t u hu).2.2
  body := by
    intro s hs t b e hnext hb he
    have hlisted := (h.next t b hnext).2.1
    by_cases hmem : e ∈ c.tokenList
    · exact h.body s hs b e hb he hlisted hmem
    · have hlast : c.order e = c.tokenList.length := List.idxOf_eq_length hmem
      rw [hlast]
      exact List.idxOf_le_length

theorem Onward.grounded (h : c.Onward) (t : Nat) : c.Grounded t := fun u _ => h.acyclic u

/-- Where in the list a statement of a body begins. -/
def beginning (c : Config) (place : Nat → Nat) : Origin → Nat
  | .unit u => c.startPlace place u
  | .token _ t => place t
  | _ => 0

/-- The statements of a body begin one after the other, none before the token `t`. -/
theorem statementOrigins_increasing {place : Nat → Nat} (h : c.Ongoing place) {s steps : Nat}
    {t : Option Nat} (ht : ∀ x ∈ t, ∃ y, (c.token y).next = some x) :
    (c.statementOrigins s steps t).Pairwise
        (fun o o' => c.beginning place o < c.beginning place o')
      ∧ ∀ o ∈ c.statementOrigins s steps t, ∀ x ∈ t, place x ≤ c.beginning place o := by
  induction steps generalizing t with
  | zero => cases t <;> exact ⟨List.Pairwise.nil, fun o ho => absurd ho List.not_mem_nil⟩
  | succ steps ih =>
    cases t with
    | none => exact ⟨List.Pairwise.nil, fun o ho => absurd ho List.not_mem_nil⟩
    | some t =>
      obtain ⟨y, hy⟩ := ht t rfl
      -- what is read behind a token that does not come before `t` begins behind `t`
      have hrest : ∀ v : Option Nat, (∀ z ∈ v, ∃ x, (c.token x).next = some z ∧ place t ≤ place x) →
          (c.statementOrigins s steps v).Pairwise
              (fun o o' => c.beginning place o < c.beginning place o')
            ∧ ∀ o ∈ c.statementOrigins s steps v, place t < c.beginning place o := by
        intro v hv
        obtain ⟨hpairwise, hbegin⟩ := ih fun z hz => (hv z hz).imp fun x hx => hx.1
        refine ⟨hpairwise, ?_⟩
        intro o ho
        cases v with
        | none =>
          rw [statementOrigins_none] at ho
          exact absurd ho List.not_mem_nil
        | some z =>
          obtain ⟨x, hx, hle⟩ := hv z rfl
          exact (hle.trans_lt (h.next x z hx)).trans_le (hbegin o ho z rfl)
      have hnext := hrest (c.token t).next fun z hz => ⟨t, hz, Nat.le_refl _⟩
      rcases c.statementOrigins_cases s steps t with hnil | ⟨u, hu, hcons⟩ | ⟨-, hcons⟩ | hsame
      · rw [hnil]
        exact ⟨List.Pairwise.nil, fun o ho => absurd ho List.not_mem_nil⟩
      · obtain ⟨hmem, hstart, -⟩ := nestedAt_eq_some hu
        obtain ⟨hpairwise, hlt⟩ := hrest (c.behindBody u t)
          fun z hz => h.behindBody_cases hmem hy hstart hz
        have hbegin : c.beginning place (.unit u) = place t := by
          rw [beginning, startPlace, hstart]
          rfl
        rw [hcons]
        refine ⟨List.pairwise_cons.mpr ⟨fun o ho => hbegin ▸ hlt o ho, hpairwise⟩, ?_⟩
        rintro o ho x ⟨⟩
        rcases List.mem_cons.mp ho with rfl | ho
        · exact hbegin.ge
        · exact (hlt o ho).le
      · obtain ⟨hpairwise, hlt⟩ := hnext
        rw [hcons]
        refine ⟨List.pairwise_cons.mpr ⟨hlt, hpairwise⟩, ?_⟩
        rintro o ho x ⟨⟩
        rcases List.mem_cons.mp ho with rfl | ho
        · exact Nat.le_refl _
        · exact (hlt o ho).le
      · rw [hsame]
        refine ⟨hnext.1, ?_⟩
        rintro o ho x ⟨⟩
        exact (hnext.2 o ho).le

theorem nodup_parts_body (h : c.Onward) (s : Nat) : (c.parts (.body s)).Nodup := by
  rw [parts]
  split
  · rename_i start _
    have hstart : ∀ x ∈ (c.token start).next, ∃ y, (c.token y).next = some x :=
      fun x hx => ⟨start, hx⟩
    refine (statementOrigins_increasing h.ongoing hstart).1.imp ?_
    rintro o o' hlt rfl
    exact Nat.lt_irrefl _ hlt
  · exact List.Pairwise.nil

theorem nodup_outermost (h : c.Onward) : (c.tokenList.filterMap c.outermostOrigin).Nodup := by
  refine h.distinct.filterMap ?_
  intro t t' o ho ho'
  obtain ⟨s, hs, rfl⟩ := outermostOrigin_eq_some ho
  obtain ⟨s', hs', he⟩ := outermostOrigin_eq_some ho'
  obtain rfl := Origin.unit.inj he
  exact Option.some.inj ((outermostAt_eq_some hs).2.1.symm.trans (outermostAt_eq_some hs').2.1)

/-! ## Where units stand -/

/-- The root is part of nothing. -/
theorem eq_nil_of_originAt_root {p : Position} (h : c.originAt p = some .root) : p = [] := by
  rcases List.eq_nil_or_concat' p with rfl | ⟨p, i, rfl⟩
  · rfl
  · obtain ⟨above, -, hi⟩ := exists_above h
    cases partOf_of_mem (List.mem_of_getElem? hi)

/-- A body stands below its unit, which has nothing else below. -/
theorem unit_of_body {p : Position} {s : Nat} (h : c.originAt p = some (.body s)) :
    ∃ q, p = q ++ [0] ∧ c.originAt q = some (.unit s) := by
  rcases List.eq_nil_or_concat' p with rfl | ⟨p, i, rfl⟩
  · cases h
  · obtain ⟨above, hp, hi⟩ := exists_above h
    cases partOf_of_mem (List.mem_of_getElem? hi) with
    | body =>
      refine ⟨p, ?_, hp⟩
      cases i with
      | zero => rfl
      | succ i =>
        rw [parts] at hi
        split at hi <;> cases hi

/-- A unit stands among the outermost ones or in the body of another unit, depending on what lies
around its scope. -/
theorem unit_cases {p : Position} {s : Nat} (h : c.originAt p = some (.unit s)) :
    (∃ i, p = [i] ∧ (c.tokenList.filterMap c.outermostOrigin)[i]? = some (.unit s)
        ∧ c.callableAround (c.scope s).nestedIn = .ok none)
      ∨ ∃ q u i, p = q ++ [0] ++ [i] ∧ c.originAt q = some (.unit u)
        ∧ (c.parts (.body u))[i]? = some (.unit s)
        ∧ c.callableAround (c.scope s).nestedIn = .ok (some u) := by
  rcases List.eq_nil_or_concat' p with rfl | ⟨p, i, rfl⟩
  · cases h
  · obtain ⟨above, hp, hi⟩ := exists_above h
    cases partOf_of_mem (List.mem_of_getElem? hi) with
    | outermost hs =>
      obtain rfl := eq_nil_of_originAt_root hp
      refine .inl ⟨i, rfl, ?_, (outermostAt_eq_some hs).2.2⟩
      rw [parts, List.getElem?_append] at hi
      split at hi
      · exact hi
      · obtain ⟨f, -, he⟩ := List.mem_map.mp (List.mem_of_getElem? hi)
        cases he
    | nested hs =>
      obtain ⟨q, rfl, hq⟩ := unit_of_body hp
      exact .inr ⟨q, _, i, rfl, hq, hi, (nestedAt_eq_some hs).2.2⟩

/-- Of a function or lambda there is one unit at most.  The induction is on the position, as the unit
around stands above. -/
theorem unit_inj (h : c.Onward) {p q : Position} {s : Nat} (hp : c.originAt p = some (.unit s))
    (hq : c.originAt q = some (.unit s)) : p = q := by
  induction hn : p.length using Nat.strongRecOn generalizing p q s with
  | ind n ih =>
    subst hn
    rcases unit_cases hp with ⟨i, rfl, hi, hpa⟩ | ⟨p', u, i, rfl, hp', hi, hpa⟩
    · rcases unit_cases hq with ⟨j, rfl, hj, -⟩ | ⟨q', v, j, rfl, -, -, hqa⟩
      · have hlt := (List.getElem?_eq_some_iff.mp hi).1
        rw [(List.getElem?_inj hlt (nodup_outermost h)).mp (hi.trans hj.symm)]
      · cases hpa.symm.trans hqa
    · rcases unit_cases hq with ⟨j, rfl, -, hqa⟩ | ⟨q', v, j, rfl, hq', hj, hqa⟩
      · cases hpa.symm.trans hqa
      · obtain rfl : u = v := Option.some.inj (Except.ok.inj (hpa.symm.trans hqa))
        obtain rfl := ih p'.length (by simp) hp' hq' rfl
        have hlt := (List.getElem?_eq_some_iff.mp hi).1
        rw [(List.getElem?_inj hlt (nodup_parts_body h u)).mp (hi.trans hj.symm)]

/-! ## Where statements stand -/

theorem StatementAt.isStatement {s t : Nat} {p : Position} (h : c.StatementAt s t p) :
    c.isStatement s t = .ok true := by
  obtain ⟨q, i, rfl, hq, hp⟩ := h
  rw [originAt_concat hq] at hp
  cases partOf_of_mem (List.mem_of_getElem? hp) with
  | statement ht => exact ht

/-- A token is one statement at most, as its scope decides in whose body it stands. -/
theorem statement_inj (h : c.Onward) {p q : Position} {s u t : Nat} (hp : c.StatementAt s t p)
    (hq : c.StatementAt u t q) : p = q := by
  have hs := (isStatement_eq_true hp.isStatement).2
  have hu := (isStatement_eq_true hq.isStatement).2
  obtain rfl : s = u := Option.some.inj (Except.ok.inj (hs.symm.trans hu))
  obtain ⟨p', i, rfl, hbody, hi⟩ := hp
  obtain ⟨q', j, rfl, hbody', hj⟩ := hq
  obtain ⟨pu, rfl, hpu⟩ := unit_of_body hbody
  obtain ⟨qu, rfl, hqu⟩ := unit_of_body hbody'
  obtain rfl := unit_inj h hpu hqu
  rw [originAt_concat hbody] at hi hj
  have hlt := (List.getElem?_eq_some_iff.mp hi).1
  rw [(List.getElem?_inj hlt (nodup_parts_body h s)).mp (hi.trans hj.symm)]

/-! ## Argument tables -/

theorem functionParameters_error (h : c.Readable) {f : Nat} {n : IntegerError}
    (he : c.functionParameters f = .error n) : c.Misnumbered (.number n) := by
  unfold functionParameters at he
  split at he
  · cases he
  rename_i table htable
  rcases bind_error_cases he with hin | ⟨arguments, -, he⟩
  · cases table with
    | listed arguments => cases hin
    | numbered entries =>
      rcases bind_error_cases hin with hm | ⟨numbered, -, hin⟩
      · obtain ⟨a, ha, hkey⟩ := exists_of_mapM_error hm
        rcases bind_error_cases hkey with hkey | ⟨k, -, hkey⟩
        · exact ⟨n, f, entries, rfl, htable, a, ha, hkey⟩
        · cases hkey
      · cases hin
  · rcases bind_error_cases he with hm | ⟨params, -, he⟩
    · obtain ⟨v, -, hv⟩ := exists_of_mapM_error hm
      rw [parameter_ok h] at hv
      cases hv
    · cases he

theorem scopeParameters_error (h : c.Readable) {s : Nat} {n : IntegerError}
    (he : c.scopeParameters s = .error n) : c.Misnumbered (.number n) := by
  unfold scopeParameters at he
  split at he
  · exact functionParameters_error h he
  · rcases bind_error_cases he with hm | ⟨params, -, he⟩
    · obtain ⟨v, -, hv⟩ := exists_of_mapM_error hm
      rw [parameter_ok h] at hv
      cases hv
    · cases he

/-- Of a heading nothing but the parameters can be wrong. -/
theorem heading_parameters_error (h : c.Readable) {name : Datum}
    {params : Except IntegerError (Option (List Parameter))} {kind : Except Misfit String}
    (hkind : ∃ k, kind = .ok k) {t : Option Nat} {e : LowerError}
    (he : heading name params kind (c.tokenIfAny t) = .error e) :
    ∃ n, params = .error n ∧ e = .number n := by
  cases params with
  | error n => exact ⟨n, rfl, (Except.error.inj he).symm⟩
  | ok ps =>
    obtain ⟨k, rfl⟩ := hkind
    obtain ⟨loc, hloc⟩ := heading_ok h name ps k t
    rw [hloc] at he
    cases he

/-- Where all values are of the right kinds, each part fails only with an argument table. -/
theorem failsWith_misnumbered (h : c.Readable) (hg : ∀ t, c.Grounded t) :
    c.FailsWith c.Misnumbered where
  scopes := by
    intro e he
    rw [scopeMisfit?_none h] at he
    cases he
  outermost := by
    intro t e he
    rw [outermostAt_ok h] at he
    cases he
  nested := by
    intro s t e he
    rw [nestedAt_ok h] at he
    cases he
  statement := by
    intro s t e he
    rw [isStatement_ok h] at he
    cases he
  expression := by
    intro s t e he
    obtain ⟨n, hn⟩ := exists_expression h (hg t) (some s)
    rw [hn] at he
    cases he
  heading := by
    intro s e he
    obtain ⟨n, hn, rfl⟩ := heading_parameters_error h (unitKind_ok h s) he
    exact scopeParameters_error h hn
  declaration := by
    intro f e he
    obtain ⟨name, he⟩ := heading_of_declaration_error he
    obtain ⟨n, hn, rfl⟩ := heading_parameters_error h (functionKind_ok (h.functionKind f)) he
    exact functionParameters_error h hn

/-! ## The whole tree -/

/-- In the tree of an expression and in a body there is no unit but the ones of nested scopes. -/
theorem origin_of_callable {o : Origin} {n : Node} (h : c.Makes path o n) (hn : n.IsCallable) :
    (∃ s, o = .unit s) ∨ ∃ f, o = .declaration f := by
  cases o with
  | root =>
    obtain ⟨children, rfl⟩ := h
    exact hn.elim
  | unit s => exact .inl ⟨s, rfl⟩
  | body s =>
    obtain ⟨statements, loc, rfl⟩ := h
    exact hn.elim
  | token s t =>
    obtain ⟨lowered, hnode⟩ := h
    obtain ⟨loc, -, ⟨target, rest, text, -, rfl⟩ | ⟨target, rest, leading, text, -, rfl⟩ | rfl |
      rfl⟩ := nodeOf_cases hnode <;> exact hn.elim
  | declaration f => exact .inr ⟨f, rfl⟩

theorem loweredOnce (h : c.Onward) {tree : Node} (htree : c.compilationUnit path = .ok tree) :
    c.LoweredOnce path tree where
  traced := compilationUnit_traced htree
  callable := by
    intro p n hn hcallable
    obtain ⟨o, ho, hmade⟩ := (compilationUnit_traced htree).exists_origin hn
    rcases origin_of_callable hmade hcallable with ⟨s, rfl⟩ | ⟨f, rfl⟩
    · exact .inl ⟨s, rooted_of_originAt ho, ho⟩
    · exact .inr ⟨f, ho⟩
  unit := fun p s hp => exists_given htree hp
  statement := by
    intro p s t hp
    obtain ⟨q, i, -, -, ho⟩ := hp
    exact exists_given htree ho
  unit_once := fun p q s hp hq => unit_inj h hp hq
  statement_once := fun p q s u t hp hq => statement_inj h hp hq
  own := by
    intro p s t hp
    obtain ⟨hroot, howner⟩ := isStatement_eq_true hp.isStatement
    obtain ⟨q, i, -, -, ho⟩ := hp
    exact ⟨hroot, howner, exists_nearest ho rfl⟩

end Config

/-- Where tokens are followed by later ones, no operands go in a circle and no body ends before it
begins, a configuration has a tree, in which nothing is lowered twice, or a value in it does not
fit.  If all values are of the right kinds, that can only be a key of an argument table. -/
theorem compilationUnit_once {c : Config} (h : c.Onward) (path : Datum) :
    (∃ tree, c.compilationUnit path = .ok tree ∧ c.LoweredOnce path tree)
      ∨ ∃ e, c.compilationUnit path = .error e ∧ e.isUnreadable = true
        ∧ (c.Readable → c.Misnumbered e) := by
  cases hc : c.compilationUnit path with
  | ok tree => exact .inl ⟨tree, rfl, Config.loweredOnce h hc⟩
  | error e =>
    refine .inr ⟨e, rfl, ?_, ?_⟩
    · exact Config.compilationUnit_failsWith h.ongoing (Config.failsWith_unreadable h.grounded) hc
    · intro hr
      exact Config.compilationUnit_failsWith h.ongoing
        (Config.failsWith_misnumbered hr h.grounded) hc

/-- A function and a lambda in it, both without an end, and a scope that is nested in itself.  The
function reads the body of the lambda again. -/
def unclosedConfig : Config where
  tokens := #[
    { spelling := .text "\x7b", scope := some 0, next := some 1 },
    { spelling := .text "\x7b", scope := some 1, next := some 2 },
    { spelling := .text "++", scope := some 1, op1 := some 3, next := some 3 },
    { spelling := .text "x", varId := .int 1, isName := true, scope := some 1, parent := some 2,
      next := some 4 },
    { spelling := .text "\x7d", scope := some 2 }]
  scopes := #[
    { kind := .text "Function", bodyStart := some 0 },
    { kind := .text "Lambda", nestedIn := some 0, bodyStart := some 1 },
    { kind := .text "If", nestedIn := some 2 }]
  tokenList := [0, 1, 2, 3, 4]
  scopeList := [0, 1, 2]

namespace unclosedConfig

theorem onward : unclosedConfig.Onward where
  distinct := by decide
  next := by
    intro t u h
    match t with
    | 0 | 1 | 2 | 3 =>
      obtain rfl := Option.some.inj h
      decide
    | 4 => cases h
    | _ + 5 => cases h
  acyclic := Config.acyclic_of_height (fun t => if t = 2 then 1 else 0) (by decide)
  body := by
    intro s _ b e _ he
    match s with
    | 0 | 1 | 2 => cases he
    | _ + 3 => cases he

end unclosedConfig

theorem compilationUnit_once_unclosedConfig :
    unclosedConfig.Onward ∧ ∃ tree, unclosedConfig.compilationUnit (.text "a.cpp") = .ok tree
      ∧ unclosedConfig.LoweredOnce (.text "a.cpp") tree
      ∧ unclosedConfig.StatementAt 1 2 [0, 0, 0, 0, 0] := by
  have hok : (unclosedConfig.compilationUnit (.text "a.cpp")).map (fun _ => ()) = .ok () := by
    decide +kernel
  refine ⟨unclosedConfig.onward, ?_⟩
  rcases compilationUnit_once unclosedConfig.onward (.text "a.cpp") with
    ⟨tree, htree, honce⟩ | ⟨e, he, -, -⟩
  · refine ⟨tree, htree, honce, ?_⟩
    exact ⟨[0, 0, 0, 0], 0, rfl, by decide +kernel, by decide +kernel⟩
  · rw [he] at hok
    cases hok

end FinalParams
