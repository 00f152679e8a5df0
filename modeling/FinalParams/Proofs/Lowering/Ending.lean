import FinalParams.Proofs.Lowering.Spread
import FinalParams.Proofs.Lowering.Tree

/-!
# The lowering ends

The lowering follows the chain of tokens, the nesting of bodies and the operands of each token.
Where none of them goes in a circle it comes to an end, whatever else is wrong with the
configuration: there is a tree, or a value that does not fit.  Only bodies that are reached along
the chain of tokens count, and what is an operand of itself matters only below the token in
question.
-/

namespace FinalParams

open Relation

/-- Whether a lowering goes in a circle. -/
def LowerError.isCircular : LowerError → Bool
  | endless | bottomless => true
  | number _ | misfit _ | missingOperand => false

/-- Whether a value of the configuration does not fit where it is used. -/
def LowerError.isUnreadable : LowerError → Bool
  | number _ | misfit _ => true
  | endless | bottomless | missingOperand => false

theorem LowerError.isCircular_of_isUnreadable {e : LowerError} (h : e.isUnreadable = true) :
    e.isCircular = false := by
  cases e with
  | number e => rfl
  | misfit e => rfl
  | endless => cases h
  | bottomless => cases h
  | missingOperand => cases h

/-- The numbers below `n` for which `f` is at least `k`, counted. -/
def countFrom (n : Nat) (f : Nat → Nat) (k : Nat) : Nat :=
  ((Finset.range n).filter fun x => k ≤ f x).card

theorem countFrom_le (n : Nat) (f : Nat → Nat) (k : Nat) : countFrom n f k ≤ n :=
  (Finset.card_filter_le _ _).trans (Finset.card_range n).le

theorem countFrom_lt {n : Nat} {f : Nat → Nat} {k l x : Nat} (hx : x < n) (hk : k ≤ f x)
    (hl : f x < l) : countFrom n f l < countFrom n f k := by
  unfold countFrom
  apply Finset.card_lt_card
  rw [Finset.ssubset_iff_of_subset]
  · refine ⟨x, Finset.mem_filter.mpr ⟨Finset.mem_range.mpr hx, hk⟩, ?_⟩
    intro hmem
    have hle := (Finset.mem_filter.mp hmem).2
    omega
  · intro y hy
    obtain ⟨hyn, hyl⟩ := Finset.mem_filter.mp hy
    exact Finset.mem_filter.mpr ⟨hyn, by omega⟩

namespace Config

/-- In some order of the tokens each comes before the next one, and no body ends before it begins;
and no token is reached from itself through operands. -/
structure Forward (c : Config) : Prop where
  order : ∃ place : Nat → Nat, (∀ t u, (c.token t).next = some u → place t < place u)
    ∧ ∀ s, c.Callable s → ∀ b e, (c.scope s).bodyStart = some b → (c.scope s).bodyEnd = some e →
      place b ≤ place e
  acyclic : ∀ t, ¬ TransGen (fun t u => u ∈ (c.token t).operands) t t

/-- In this order each token comes before the next one, and the body of a listed function or lambda
whose first brace follows on some token does not end before it begins. -/
structure Ongoing (c : Config) (place : Nat → Nat) : Prop where
  next : ∀ t u, (c.token t).next = some u → place t < place u
  body : ∀ s ∈ c.callableScopes, ∀ t b e, (c.token t).next = some b →
    (c.scope s).bodyStart = some b → (c.scope s).bodyEnd = some e → place b ≤ place e

/-- No token that is reached from `t` through operands is reached from itself. -/
def Grounded (c : Config) (t : Nat) : Prop :=
  ∀ u, ReflTransGen (fun t u => u ∈ (c.token t).operands) t u →
    ¬ TransGen (fun t u => u ∈ (c.token t).operands) u u

/-- Whatever a part of the lowering fails with has the property `P`. -/
structure FailsWith (c : Config) (P : LowerError → Prop) : Prop where
  scopes : ∀ e, c.scopeMisfit? = some e → P (.misfit e)
  outermost : ∀ t e, c.outermostAt t = .error e → P (.misfit e)
  nested : ∀ s t e, c.nestedAt c.callableScopes s t = .error e → P (.misfit e)
  statement : ∀ s t e, c.isStatement s t = .error e → P (.misfit e)
  expression : ∀ s t e, c.expression (some s) (some t) = .error e → P e
  heading : ∀ s e, c.unitHeading s = .error e → P e
  declaration : ∀ f e, c.declaration f = .error e → P e

variable {c : Config}

theorem callable_of_mem_callableScopes {s : Nat} (h : s ∈ c.callableScopes) : c.Callable s :=
  (List.mem_filter.mp h).2

theorem lt_size_of_mem_callableScopes {s : Nat} (h : s ∈ c.callableScopes) :
    s < c.scopes.size := by
  by_contra hlt
  have hcallable := callable_of_mem_callableScopes h
  rw [Callable, scope_of_size_le (Nat.not_lt.mp hlt)] at hcallable
  exact absurd hcallable (by decide)

theorem Forward.exists_ongoing (h : c.Forward) : ∃ place, c.Ongoing place := by
  obtain ⟨place, hnext, hbody⟩ := h.order
  refine ⟨place, hnext, ?_⟩
  intro s hs _ b e _ hb he
  exact hbody s (callable_of_mem_callableScopes hs) b e hb he

theorem Forward.grounded (h : c.Forward) (t : Nat) : c.Grounded t := fun u _ => h.acyclic u

/-! ## Expressions -/

theorem Grounded.operand {t u : Nat} (h : c.Grounded t) (hu : u ∈ (c.token t).operands) :
    c.Grounded u := fun v hv => h v (hv.head hu)

theorem Grounded.rank_lt {t u : Nat} (h : c.Grounded t) (hu : u ∈ (c.token t).operands) :
    c.rank u < c.rank t := rank_lt_of_acyclic (h t ReflTransGen.refl) hu

theorem isUnreadable_of_mapError {ε α : Type} {f : ε → LowerError}
    (hf : ∀ x, (f x).isUnreadable = true) {x : Except ε α} {e : LowerError}
    (h : x.mapError f = .error e) : e.isUnreadable = true := by
  cases x with
  | error y => exact Except.error.inj h ▸ hf y
  | ok a => cases h

theorem openedOperands_error {owner : Option Nat} {t : Nat} {e : LowerError}
    (h : c.openedOperands owner t = .error e) : e.isUnreadable = true := by
  unfold openedOperands at h
  split at h
  · rename_i hopen
    obtain rfl := Except.error.inj h
    unfold openable at hopen
    simp only at hopen
    split at hopen
    · cases hopen
    · rcases bind_error_cases hopen with hl | ⟨u, -, hopen⟩
      · exact isUnreadable_of_mapError (fun _ => rfl) hl
      · split at hopen
        · cases hv : (c.token t).variableId? with
          | error n =>
            rw [hv] at hopen
            obtain rfl := Except.error.inj hopen
            rfl
          | ok n =>
            rw [hv] at hopen
            cases hopen
        · cases hopen
  · obtain rfl := Except.error.inj h
    rfl
  · cases h

/-- A node cannot be made only where a value does not fit, if there is a tree for each operand. -/
theorem nodeOf_error {owner : Option Nat} {t : Nat} {us : List Nat} {lowered : List Node}
    {e : LowerError} (ho : c.openedOperands owner t = .ok us) (hl : lowered.length = us.length)
    (h : c.nodeOf t lowered = .error e) : e.isUnreadable = true := by
  have htarget : lowered = [] → ¬ ((c.token t).isAssignment && (c.token t).op1.isSome) = true
      ∧ ¬ (c.token t).isStep = true := by
    rintro rfl
    obtain rfl := List.eq_nil_of_length_eq_zero hl.symm
    obtain ⟨hassign, hnil⟩ | ⟨hassign, ⟨hstep, hnil⟩ | ⟨hstep, -⟩⟩ := opened_kinds ho
    · obtain ⟨a, ha⟩ := Option.isSome_iff_exists.mp (Bool.and_eq_true_iff.mp hassign).2
      rw [Token.operands_of_op1 ha] at hnil
      cases hnil
    · obtain ⟨a, ha⟩ := Option.isSome_iff_exists.mp (Bool.and_eq_true_iff.mp hstep).2
      rw [ha] at hnil
      cases hnil
    · exact ⟨Bool.eq_false_iff.mp hassign, Bool.eq_false_iff.mp hstep⟩
  unfold nodeOf at h
  rcases bind_error_cases h with hl | ⟨loc, -, h⟩
  · exact isUnreadable_of_mapError (fun _ => rfl) hl
  split at h
  · rename_i hassign
    rcases bind_error_cases h with ht | ⟨text, -, h⟩
    · exact isUnreadable_of_mapError (fun _ => rfl) ht
    · split at h
      · cases h
      · exact absurd hassign (htarget rfl).1
  split at h
  · rename_i hstep
    rcases bind_error_cases h with ht | ⟨text, -, h⟩
    · exact isUnreadable_of_mapError (fun _ => rfl) ht
    · split at h
      · cases h
      · exact absurd hstep (htarget rfl).2
  split at h <;> cases h

theorem mem_operands_of_opened {owner : Option Nat} {t u : Nat} {us : List Nat}
    (h : c.openedOperands owner t = .ok us) (hu : u ∈ us) : u ∈ (c.token t).operands := by
  obtain ⟨-, rfl⟩ | ⟨-, ⟨-, rfl⟩ | ⟨-, ⟨-, rfl⟩ | ⟨-, ⟨-, rfl⟩ | ⟨s, -, hown⟩⟩⟩⟩ := opened_kinds h
  · exact hu
  · exact List.mem_append_left _ hu
  · exact absurd hu List.not_mem_nil
  · exact hu
  · exact (ownTokens_sublist hown).subset hu

theorem treeWithin_error {owner : Option Nat} {budget t : Nat} (h : c.Grounded t)
    (hb : c.rank t < budget) {e : LowerError} (he : c.treeWithin owner budget t = .error e) :
    e.isUnreadable = true := by
  induction budget generalizing t with
  | zero => exact absurd hb (Nat.not_lt_zero _)
  | succ b ih =>
    rw [treeWithin] at he
    rcases bind_error_cases he with ho | ⟨us, ho, he⟩
    · exact openedOperands_error ho
    · rcases bind_error_cases he with hm | ⟨lowered, hm, he⟩
      · obtain ⟨u, hu, hue⟩ := exists_of_mapM_error hm
        have hoperand := mem_operands_of_opened ho hu
        have hlt := h.rank_lt hoperand
        exact ih (h.operand hoperand) (by omega) hue
      · exact nodeOf_error ho (mapM_ok_iff.mp hm).length_eq.symm he

theorem expression_error {owner : Option Nat} {t : Nat} (h : c.Grounded t) {e : LowerError}
    (he : c.expression owner (some t) = .error e) : e.isUnreadable = true := by
  rw [expression_eq] at he
  exact treeWithin_error h (Nat.lt_succ_of_le (c.rank_le t)) he

/-! ## Bodies -/

theorem bodyAt_eq_some {index : List Nat} {t u : Nat} (h : c.bodyAt index t = some u) :
    u ∈ index ∧ (c.scope u).bodyStart = some t :=
  ⟨List.mem_reverse.mp (List.mem_of_find?_eq_some h), by simpa using List.find?_some h⟩

/-- A body that is recognised inside `s` belongs to a scope that lies nearest to `s`. -/
theorem nestedAt_eq_some {index : List Nat} {s t u : Nat}
    (h : c.nestedAt index s t = .ok (some u)) :
    u ∈ index ∧ (c.scope u).bodyStart = some t
      ∧ c.callableAround (c.scope u).nestedIn = .ok (some s) := by
  unfold nestedAt at h
  split at h
  · rename_i v hv
    split at h
    · cases h
    · obtain ⟨inside, hinside, h⟩ := exists_of_map_ok h
      split at h
      · rename_i htrue
        obtain rfl := Option.some.inj h
        obtain ⟨hmem, hstart⟩ := bodyAt_eq_some hv
        obtain ⟨around, haround, hs⟩ := exists_of_map_ok hinside
        rw [htrue, beq_iff_eq] at hs
        exact ⟨hmem, hstart, hs ▸ haround⟩
      · cases h
  · cases h

theorem lt_size_of_next {t u : Nat} (h : (c.token t).next = some u) : t < c.tokens.size := by
  by_contra hlt
  rw [token_of_size_le (Nat.not_lt.mp hlt)] at h
  cases h

/-- Where reading goes on behind a body there are fewer tokens ahead. -/
theorem Ongoing.behindBody_cases {place : Nat → Nat} (h : c.Ongoing place) {u t v y : Nat}
    (hu : u ∈ c.callableScopes) (ht : (c.token y).next = some t)
    (hb : (c.scope u).bodyStart = some t) (hv : c.behindBody u t = some v) :
    ∃ x, (c.token x).next = some v ∧ place t ≤ place x := by
  unfold behindBody at hv
  split at hv
  · rename_i e he
    exact ⟨e, hv, h.body u hu y t e ht hb he⟩
  · exact ⟨t, hv, Nat.le_refl _⟩

/-- Reading a body does not go in a circle where the bodies inside do not.  Every step passes a token
of the pool that the steps before did not pass. -/
theorem statements_error {place : Nat → Nat} (h : c.Ongoing place) {P : LowerError → Prop}
    (hP : c.FailsWith P) {descend : Nat → Except LowerError Node} {k : Nat}
    (hd : ∀ u ∈ c.callableScopes, ∀ b, (c.scope u).bodyStart = some b → k ≤ place b →
      ∀ e, descend u = .error e → P e)
    {s steps : Nat} {t : Option Nat}
    (ht : ∀ x ∈ t, ∃ y, (c.token y).next = some x ∧ k ≤ place x
      ∧ countFrom c.tokens.size place (place x) < steps)
    {e : LowerError} (he : c.statements c.callableScopes descend s steps t = .error e) : P e := by
  induction steps generalizing t with
  | zero =>
    cases t with
    | none => cases he
    | some t =>
      obtain ⟨y, -, -, hlt⟩ := ht t rfl
      exact absurd hlt (Nat.not_lt_zero _)
  | succ steps ih =>
    cases t with
    | none => cases he
    | some t =>
      obtain ⟨y, hy, hk, hcount⟩ := ht t rfl
      have hrest : ∀ x v, (c.token x).next = some v → place t ≤ place x →
          ∃ y, (c.token y).next = some v ∧ k ≤ place v
            ∧ countFrom c.tokens.size place (place v) < steps := by
        intro x v hv hle
        have hxv := h.next x v hv
        have hlt := countFrom_lt (lt_size_of_next hv) hle hxv
        exact ⟨x, hv, by omega, by omega⟩
      rw [statements] at he
      split at he
      · cases he
      rcases bind_error_cases he with hn | ⟨nested, hn, he⟩
      · obtain ⟨m, hm, rfl⟩ := error_of_mapError hn
        exact hP.nested s t m hm
      cases nested with
      | some u =>
        obtain ⟨hu, hstart, -⟩ := nestedAt_eq_some (ok_of_mapError hn)
        rcases bind_error_cases he with hunit | ⟨unit, -, he⟩
        · exact hd u hu t hstart hk e hunit
        rcases bind_error_cases he with hr | ⟨rest, -, he⟩
        · refine ih ?_ hr
          intro v hv
          obtain ⟨x, hx, hle⟩ := h.behindBody_cases hu hy hstart hv
          exact hrest x v hx hle
        · cases he
      | none =>
        rcases bind_error_cases he with hs | ⟨own, -, he⟩
        · obtain ⟨m, hm, rfl⟩ := error_of_mapError hs
          exact hP.statement s t m hm
        split at he
        · rcases bind_error_cases he with hx | ⟨statement, -, he⟩
          · exact hP.expression s t e hx
          rcases bind_error_cases he with hr | ⟨rest, -, he⟩
          · exact ih (fun v hv => hrest t v hv (Nat.le_refl _)) hr
          · cases he
        · exact ih (fun v hv => hrest t v hv (Nat.le_refl _)) he

/-! ## Functions and lambdas -/

/-- Where the body of a scope begins in an order of the tokens. -/
def startPlace (c : Config) (place : Nat → Nat) (s : Nat) : Nat :=
  (c.scope s).bodyStart.elim 0 place

/-- A body inside another one begins behind it, so the nesting has an end. -/
theorem unitWithin_error {place : Nat → Nat} (h : c.Ongoing place) {P : LowerError → Prop}
    (hP : c.FailsWith P) {depth s : Nat}
    (hs : countFrom c.scopes.size (c.startPlace place) (c.startPlace place s + 1) < depth)
    {e : LowerError} (he : c.unitWithin c.callableScopes depth s = .error e) : P e := by
  induction depth generalizing s e with
  | zero => exact absurd hs (Nat.not_lt_zero _)
  | succ depth ih =>
    rw [unitWithin] at he
    split at he
    · rename_i hhead
      obtain rfl := Except.error.inj he
      exact hP.heading s _ hhead
    split at he
    · cases he
    rename_i start hstart
    have hplace : c.startPlace place s = place start := by rw [startPlace, hstart]; rfl
    rcases bind_error_cases he with hst | ⟨body, -, he⟩
    · refine statements_error h hP (k := place start + 1) ?_ ?_ hst
      · intro u hu b hb hle e hue
        have hub : c.startPlace place u = place b := by rw [startPlace, hb]; rfl
        have hlt := countFrom_lt (f := c.startPlace place) (lt_size_of_mem_callableScopes hu)
          (k := place start + 1) (l := place b + 1) (by omega) (by omega)
        rw [hplace] at hs
        exact ih (by rw [hub]; omega) hue
      · intro x hx
        exact ⟨start, hx, h.next start x hx, Nat.lt_succ_of_le (countFrom_le _ _ _)⟩
    · cases he

theorem unit_error {place : Nat → Nat} (h : c.Ongoing place) {P : LowerError → Prop}
    (hP : c.FailsWith P) {s : Nat} {e : LowerError}
    (he : c.unit c.callableScopes s = .error e) : P e :=
  unitWithin_error h hP (Nat.lt_succ_of_le (countFrom_le _ _ _)) he

/-! ## The compilation unit -/

/-- Where no links go in a circle, the lowering fails only with what one of its parts fails with. -/
theorem compilationUnit_failsWith {place : Nat → Nat} (h : c.Ongoing place)
    {P : LowerError → Prop} (hP : c.FailsWith P) {path : Datum} {e : LowerError}
    (he : c.compilationUnit path = .error e) : P e := by
  unfold compilationUnit at he
  split at he
  · rename_i m hm
    obtain rfl := Except.error.inj he
    exact hP.scopes m hm
  rcases bind_error_cases he with hu | ⟨units, -, he⟩
  · obtain ⟨t, -, ht⟩ := exists_of_mapM_error hu
    unfold outermostUnit at ht
    rcases bind_error_cases ht with ho | ⟨outermost, -, ht⟩
    · obtain ⟨m, hm, rfl⟩ := error_of_mapError ho
      exact hP.outermost t m hm
    cases outermost with
    | none => cases ht
    | some s =>
      rcases bind_error_cases ht with hs | ⟨n, -, ht⟩
      · exact unit_error h hP hs
      · cases ht
  rcases bind_error_cases he with hd | ⟨declarations, -, he⟩
  · obtain ⟨f, -, hf⟩ := exists_of_mapM_error hd
    exact hP.declaration f e hf
  · cases he

theorem heading_error {name : Datum} {params : Except IntegerError (Option (List Parameter))}
    {kind : Except Misfit String} {token : Token} {e : LowerError}
    (h : heading name params kind token = .error e) : e.isUnreadable = true := by
  unfold heading at h
  rcases bind_error_cases h with hp | ⟨params, -, h⟩
  · exact isUnreadable_of_mapError (fun _ => rfl) hp
  rcases bind_error_cases h with hk | ⟨kind, -, h⟩
  · exact isUnreadable_of_mapError (fun _ => rfl) hk
  rcases bind_error_cases h with hl | ⟨loc, -, h⟩
  · exact isUnreadable_of_mapError (fun _ => rfl) hl
  · cases h

/-- A function that is declared only fails where its heading fails. -/
theorem heading_of_declaration_error {f : Nat} {e : LowerError}
    (h : c.declaration f = .error e) :
    ∃ name, heading name (c.functionParameters f) (functionKind (c.function f))
      (c.tokenIfAny ((c.function f).declaredAt <|> (c.function f).definedAt)) = .error e := by
  unfold declaration at h
  simp only [Except.map] at h
  split at h
  · rename_i hh
    obtain rfl := Except.error.inj h
    exact ⟨_, hh⟩
  · cases h

/-- If no operands go in a circle, each part fails only where a value does not fit. -/
theorem failsWith_unreadable (hg : ∀ t, c.Grounded t) :
    c.FailsWith fun e => e.isUnreadable = true where
  scopes := fun _ _ => rfl
  outermost := fun _ _ _ => rfl
  nested := fun _ _ _ _ => rfl
  statement := fun _ _ _ _ => rfl
  expression := fun _ t _ he => expression_error (hg t) he
  heading := fun _ _ he => heading_error he
  declaration := fun _ _ he => by
    obtain ⟨name, hh⟩ := heading_of_declaration_error he
    exact heading_error hh

/-- Where no links go in a circle, the lowering of a configuration does not either. -/
theorem compilationUnit_error (h : c.Forward) {path : Datum} {e : LowerError}
    (he : c.compilationUnit path = .error e) : e.isCircular = false := by
  obtain ⟨place, hplace⟩ := h.exists_ongoing
  exact LowerError.isCircular_of_isUnreadable
    (compilationUnit_failsWith hplace (failsWith_unreadable h.grounded) he)

end Config
end FinalParams
