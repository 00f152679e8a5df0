import FinalParams.Proofs.Lowering.Roots

/-!
# What is reported for a configuration

A token is reported if it belongs to a function or lambda, mutates a variable in a way that counts,
and this variable is an assignable parameter of that function or lambda.

The main statement is `compilationUnit_exact`: a coherent configuration has a tree, and a search of
this tree yields one violation for each reported token and nothing else, statement by statement in
source order.
-/

namespace FinalParams

open Relation

namespace Config

variable {c : Config} {m : Mutations}

/-- The token `t` mutates the variable that the token `a` names, in a way that counts. -/
def Mutates (c : Config) (m : Mutations) (t a : Nat) : Prop :=
  (c.token t).op1 = some a ∧ (c.token a).isVariable = true
    ∧ ((c.token t).isAssignment = true ∧ ((c.token t).spelling = .text "=" ∨ m.compound = true)
      ∨ (c.token t).isAssignment = false ∧ (c.token t).isStep = true ∧ m.steps = true)

/-- There is a violation at the token `t`. -/
def Reported (c : Config) (m : Mutations) (t : Nat) : Prop :=
  t ∈ c.tokenList ∧ ∃ s a, c.tokenOwner t = some s ∧ c.Mutates m t a ∧ c.NamesParameter s a

/-- The violation is the one at the token `t`.  It names the first operand and lies there. -/
def Describes (c : Config) (path : Datum) (t : Nat) (v : Violation) : Prop :=
  ∃ a, (c.token t).op1 = some a ∧ v.loc = (c.token a).place.inFile path
    ∧ v.ident = (c.token a).ident ∧ c.textOf t = .ok v.text ∧ v.op = (c.token t).spelling

/-- The whole expression at the token `r` contains the token `t`. -/
def WholeAround (c : Config) (t r : Nat) : Prop :=
  r ∈ c.tokenList ∧ (c.token r).isRoot = true
    ∧ ReflTransGen (fun t u => u ∈ (c.token t).operands) r t

/-! ## Reaching tokens from the tops of expressions -/

theorem not_brace_of_operand (h : c.Coherent) {t u : Nat} (hu : u ∈ (c.token t).operands) :
    ¬ ∃ s, c.Callable s ∧ c.IsBrace s t := by
  rintro ⟨s, hs, hb⟩
  obtain ⟨h1, h2⟩ := h.brace s hs t hb
  rw [Token.operands, h1, h2] at hu
  exact absurd hu List.not_mem_nil

/-- A token with operands belongs where its operator belongs, and it is a child there. -/
theorem below_of_operand (h : c.Coherent) {s p t u : Nat} (hp : p ∈ c.tokenList)
    (ht : t ∈ (c.token p).operands) (hu : u ∈ (c.token t).operands)
    (ho : c.tokenOwner t = some s) : c.tokenOwner p = some s ∧ c.Below s p t := by
  have howner : c.tokenOwner p = some s := by
    by_contra hne
    exact not_brace_of_operand h hu (h.foreign p hp t ht fun he => hne (he.trans ho)).1
  refine ⟨howner, ?_⟩
  unfold Below ownOperands
  simp only
  split
  · exact ht
  split
  · rename_i hstep
    rw [Token.operands, h.step p hp hstep, Option.toList_none, List.append_nil] at ht
    exact ht
  split
  · rename_i hv
    rw [Token.isVariable, Token.isBareName] at hv
    simp only [Bool.and_eq_true, Option.isNone_iff_eq_none] at hv
    rw [Token.operands, hv.1.1.1, hv.1.1.2] at ht
    exact absurd ht List.not_mem_nil
  · refine List.mem_filter.mpr ⟨ht, ?_⟩
    rw [ho, beq_self_eq_true, Bool.or_true]

/-- A token with operands is reached from the top of an expression that belongs where it belongs. -/
theorem exists_top (h : c.Coherent) {s t u : Nat} (ht : t ∈ c.tokenList)
    (hu : u ∈ (c.token t).operands) (ho : c.tokenOwner t = some s) :
    ∃ r ∈ c.tokenList, (c.token r).isRoot = true ∧ c.tokenOwner r = some s
      ∧ ReflTransGen (c.Below s) r t := by
  -- operators have higher ranks than their operands, and ranks are bounded
  induction hn : c.tokens.size - c.rank t using Nat.strongRecOn generalizing t u with
  | ind n ih =>
    cases hp : (c.token t).parent with
    | none =>
      refine ⟨t, ht, ?_, ho, ReflTransGen.refl⟩
      rw [Token.isRoot, hp, Option.isNone_none, Bool.true_and, Bool.or_eq_true,
        Option.isSome_iff_exists, Option.isSome_iff_exists]
      rw [Token.operands, List.mem_append, Option.mem_toList, Option.mem_toList] at hu
      exact hu.imp (fun h1 => ⟨u, h1⟩) fun h2 => ⟨u, h2⟩
    | some p =>
      have hpm := h.parent_mem t ht p hp
      have htp := (h.links p hpm t ht).mpr hp
      obtain ⟨hpo, hbelow⟩ := below_of_operand h hpm htp hu ho
      have hlt := rank_lt h hpm htp
      have hle := c.rank_le p
      obtain ⟨r, hr, hroot, hro, hrp⟩ :=
        ih (c.tokens.size - c.rank p) (by omega) hpm htp hpo rfl
      exact ⟨r, hr, hroot, hro, hrp.tail hbelow⟩

/-- What is reached from a token of a function or lambda and has operands belongs there too. -/
theorem owner_of_reached (h : c.Coherent) {s r t u : Nat} (hr : r ∈ c.tokenList)
    (ho : c.tokenOwner r = some s) (hrt : ReflTransGen (c.Below s) r t)
    (hu : u ∈ (c.token t).operands) : c.tokenOwner t = some s := by
  induction hrt generalizing u with
  | refl => exact ho
  | tail hrp hpt ih =>
    have hpo := ih hpt.operand
    by_contra hne
    have hforeign := h.foreign _ (mem_of_reached h hr hrp).1 _ hpt.operand
      fun he => hne (he.symm.trans hpo)
    exact not_brace_of_operand h hu hforeign.1

theorem wholeAround_unique (h : c.Coherent) {t r r' : Nat} (hr : c.WholeAround t r)
    (hr' : c.WholeAround t r') : r = r' := by
  obtain ⟨hrm, hroot, hrt⟩ := hr
  obtain ⟨hrm', hroot', hrt'⟩ := hr'
  have hparent : ∀ {r p : Nat}, r ∈ c.tokenList → p ∈ c.tokenList → (c.token r).isRoot = true →
      r ∉ (c.token p).operands := by
    intro r p hr hp hroot hop
    rw [Token.isRoot, (h.links p hp r hr).mp hop, Option.isNone_some, Bool.false_and] at hroot
    exact absurd hroot Bool.false_ne_true
  have hlisted : ∀ {r t : Nat}, r ∈ c.tokenList →
      ReflTransGen (fun t u => u ∈ (c.token t).operands) r t → t ∈ c.tokenList := by
    intro r t hr hrt
    induction hrt with
    | refl => exact hr
    | tail _ hop ih => exact h.operand_mem _ ih _ hop
  induction hrt with
  | refl =>
    rcases hrt'.cases_tail with he | ⟨p, hrp, hop⟩
    · exact he
    · exact absurd hop (hparent hrm (hlisted hrm' hrp) hroot)
  | tail hrp hop ih =>
    have hpm := hlisted hrm hrp
    rcases hrt'.cases_tail with rfl | ⟨p', hrp', hop'⟩
    · exact absurd hop (hparent hrm' hpm hroot')
    · have htm := h.operand_mem _ hpm _ hop
      have hp := (h.links _ hpm _ htm).mp hop
      have hp' := (h.links _ (hlisted hrm' hrp') _ htm).mp hop'
      rw [hp, Option.some.injEq] at hp'
      exact ih (hp' ▸ hrp')

/-! ## Reports -/

/-- What is reported at a token. -/
def report (c : Config) (m : Mutations) (path : Datum) (t : Nat) : Option Violation :=
  match c.tokenOwner t with
  | some s => c.finding m path (c.scopeWatched s) t
  | none => none

theorem counts_iff {t : Token} : t.counts m = true
    ↔ t.isAssignment = true ∧ (t.spelling = .text "=" ∨ m.compound = true)
      ∨ t.isAssignment = false ∧ t.isStep = true ∧ m.steps = true := by
  unfold Token.counts Token.isSpelled
  cases t.isAssignment <;> simp [Datum.isText_iff]

theorem finding_isSome_iff (h : c.Coherent) {path : Datum} {s t : Nat} :
    (c.finding m path (c.scopeWatched s) t).isSome = true
      ↔ ∃ a, c.Mutates m t a ∧ c.NamesParameter s a := by
  obtain ⟨-, -, -, -, hwatched⟩ := scopeWatched_ok h s
  unfold finding Mutates
  cases ho : (c.token t).op1 with
  | none => simp
  | some a =>
    simp only [Option.some.injEq, ← counts_iff]
    cases hv : (c.token a).isVariable with
    | false =>
      rw [Bool.and_false, Bool.false_and, if_neg Bool.false_ne_true, Option.isSome_none]
      constructor
      · intro he
        exact absurd he Bool.false_ne_true
      · rintro ⟨a', ⟨rfl, hv', -⟩, -⟩
        rw [hv] at hv'
        exact absurd hv' Bool.false_ne_true
    | true =>
      rw [Bool.and_true, Option.isSome_ite, Bool.and_eq_true, hwatched a hv]
      constructor
      · rintro ⟨hc, hn⟩
        exact ⟨a, ⟨rfl, hv, hc⟩, hn⟩
      · rintro ⟨a', ⟨rfl, -, hc⟩, hn⟩
        exact ⟨hc, hn⟩

theorem report_isSome_iff (h : c.Coherent) {path : Datum} {t : Nat} (ht : t ∈ c.tokenList) :
    (c.report m path t).isSome = true ↔ c.Reported m t := by
  unfold report Reported
  cases ho : c.tokenOwner t with
  | none => simp
  | some s =>
    simp only [finding_isSome_iff h]
    constructor
    · rintro ⟨a, hm, hn⟩
      exact ⟨ht, s, a, rfl, hm, hn⟩
    · rintro ⟨-, s', a, hs', hm, hn⟩
      obtain rfl := Option.some.inj hs'
      exact ⟨a, hm, hn⟩

theorem describes_of_report (h : c.Readable) {path : Datum} {t : Nat} {v : Violation}
    (hv : c.report m path t = some v) : c.Describes path t v := by
  unfold report at hv
  split at hv
  · rename_i s _
    unfold finding at hv
    split at hv
    · contradiction
    · rename_i a ha
      split at hv
      · obtain ⟨text, htext, -⟩ := h.textOf_ok ha
        obtain rfl := Option.some.inj hv
        refine ⟨a, ha, rfl, rfl, ?_, rfl⟩
        rw [shownText, htext]
      · contradiction
  · contradiction

/-! ## Statements -/

/-- The tokens of the expression at `r` that belong where `r` belongs. -/
def statementTokens (c : Config) (r : Nat) : List Nat :=
  match c.tokenOwner r with
  | some s => c.spread s r
  | none => []

theorem mem_statementTokens_iff (h : c.Coherent) {r t : Nat} (hr : r ∈ c.tokenList) :
    t ∈ c.statementTokens r
      ↔ ∃ s, c.tokenOwner r = some s ∧ ReflTransGen (c.Below s) r t := by
  unfold statementTokens
  cases c.tokenOwner r with
  | none => simp
  | some s =>
    rw [mem_spread_iff h hr]
    simp

theorem wholeAround_of_mem (h : c.Coherent) {r t : Nat} (hr : r ∈ c.tokenList)
    (htop : c.isTop r = true) (ht : t ∈ c.statementTokens r) : c.WholeAround t r := by
  obtain ⟨s, -, hrt⟩ := (mem_statementTokens_iff h hr).mp ht
  rw [isTop, Bool.and_eq_true] at htop
  exact ⟨hr, htop.1, ReflTransGen.mono (fun _ _ hb => Below.operand hb) _ _ hrt⟩

theorem foundAt_eq (h : c.Coherent) {path : Datum} {r : Nat} (hr : r ∈ c.tokenList) :
    c.foundAt m path r = (c.statementTokens r).filterMap (c.report m path) := by
  unfold foundAt statementTokens
  cases ho : c.tokenOwner r with
  | none => rfl
  | some s =>
    apply List.filterMap_congr
    intro t ht
    have hrt := (mem_spread_iff h hr).mp ht
    unfold report
    cases ha : (c.token t).op1 with
    | none =>
      have hnone : ∀ w, c.finding m path w t = none := by
        intro w
        simp only [finding, ha]
      cases c.tokenOwner t <;> simp only [hnone]
    | some a =>
      have hat : a ∈ (c.token t).operands := by
        rw [Token.operands_of_op1 ha]
        exact List.mem_cons_self ..
      simp only [owner_of_reached h hr ho hrt hat]

/-- The tokens of all expressions that belong to functions and lambdas, in the order of the
tree. -/
def treeTokens (c : Config) : List Nat := (c.tokenList.filter c.isTop).flatMap c.statementTokens

theorem treeTokens_nodup (h : c.Coherent) : c.treeTokens.Nodup := by
  unfold treeTokens
  rw [List.nodup_flatMap]
  constructor
  · intro r hr
    unfold statementTokens
    split
    · exact c.spread_nodup h _ (List.mem_of_mem_filter hr)
    · exact List.nodup_nil
  · refine (h.distinct.filter _).imp_of_mem ?_
    intro r r' hr hr' hne t ht ht'
    obtain ⟨hrm, htop⟩ := List.mem_filter.mp hr
    obtain ⟨hrm', htop'⟩ := List.mem_filter.mp hr'
    exact hne (wholeAround_unique h (wholeAround_of_mem h hrm htop ht)
      (wholeAround_of_mem h hrm' htop' ht'))

theorem treeTokens_pairwise (h : c.Coherent) :
    c.treeTokens.Pairwise fun t u => ∀ r r', c.WholeAround t r → c.WholeAround u r' →
      c.order r ≤ c.order r' := by
  unfold treeTokens
  rw [List.pairwise_flatMap]
  constructor
  · intro r hr
    obtain ⟨hrm, htop⟩ := List.mem_filter.mp hr
    refine List.pairwise_of_forall_mem_list ?_
    intro t ht u hu r₁ r₂ h₁ h₂
    rw [wholeAround_unique h h₁ (wholeAround_of_mem h hrm htop ht),
      wholeAround_unique h h₂ (wholeAround_of_mem h hrm htop hu)]
  · refine ((pairwise_tokenList h).filter _).imp_of_mem ?_
    intro r r' hr hr' hlt t ht u hu r₁ r₂ h₁ h₂
    obtain ⟨hrm, htop⟩ := List.mem_filter.mp hr
    obtain ⟨hrm', htop'⟩ := List.mem_filter.mp hr'
    rw [wholeAround_unique h h₁ (wholeAround_of_mem h hrm htop ht),
      wholeAround_unique h h₂ (wholeAround_of_mem h hrm' htop' hu)]
    exact hlt.le

theorem mem_treeTokens_of_reported (h : c.Coherent) {t : Nat} (ht : c.Reported m t) :
    t ∈ c.treeTokens := by
  obtain ⟨htm, s, a, ho, ⟨ha, -⟩, -⟩ := ht
  have hat : a ∈ (c.token t).operands := by
    rw [Token.operands_of_op1 ha]
    exact List.mem_cons_self ..
  obtain ⟨r, hr, hroot, hro, hrt⟩ := exists_top h htm hat ho
  refine List.mem_flatMap.mpr ⟨r, List.mem_filter.mpr ⟨hr, ?_⟩, ?_⟩
  · rw [isTop, hroot, hro]
    rfl
  · exact (mem_statementTokens_iff h hr).mpr ⟨s, hro, hrt⟩

theorem mem_tokenList_of_mem_treeTokens (h : c.Coherent) {t : Nat} (ht : t ∈ c.treeTokens) :
    t ∈ c.tokenList := by
  obtain ⟨r, hr, hrt⟩ := List.mem_flatMap.mp ht
  have hrm := List.mem_of_mem_filter hr
  obtain ⟨s, -, hrt⟩ := (mem_statementTokens_iff h hrm).mp hrt
  exact (mem_of_reached h hrm hrt).1

end Config

/-- `f(x) { x = [](y) { ++y } }`: a function with a lambda in the value of an assignment. -/
def lambdaSample : Config where
  tokens := #[
    { spelling := .text "\x7b", scope := some 0, next := some 1 },
    { spelling := .text "x", varId := .text "1", isName := true, scope := some 0,
      parent := some 2, next := some 2 },
    { spelling := .text "=", isAssignmentOp := true, scope := some 0, op1 := some 1,
      op2 := some 3, next := some 3 },
    { spelling := .text "[", scope := some 0, op1 := some 4, parent := some 2, next := some 4 },
    { spelling := .text "\x7b", scope := some 1, parent := some 3, next := some 5 },
    { spelling := .text "++", scope := some 1, op1 := some 6, next := some 6 },
    { spelling := .text "y", varId := .text "2", isName := true, scope := some 1,
      parent := some 5, next := some 7 },
    { spelling := .text "\x7d", scope := some 1, next := some 8 },
    { spelling := .text "\x7d", scope := some 0 }]
  scopes := #[
    { kind := .text "Function", function := some 0, bodyStart := some 0, bodyEnd := some 8 },
    { kind := .text "Lambda", nestedIn := some 0, bodyStart := some 4, bodyEnd := some 7,
      vars := [1] }]
  functions := #[{ name := .text "f", arguments := some (.numbered [(.text "1", some 0)]) }]
  vars := #[{ nameToken := some 1 }, { isArgument := true, nameToken := some 6 }]
  tokenList := [0, 1, 2, 3, 4, 5, 6, 7, 8]
  scopeList := [0, 1]
  functionList := [0]

namespace lambdaSample

theorem mem_tokenList {t : Nat} : t ∈ lambdaSample.tokenList ↔ t < 9 := List.mem_range (n := 9)

theorem token_all {P : Token → Prop} (h : ∀ t ∈ List.range 9, P (lambdaSample.token t))
    (hblank : P {}) (t : Nat) : P (lambdaSample.token t) := by
  rcases Nat.lt_or_ge t 9 with hlt | hle
  · exact h t (List.mem_range.mpr hlt)
  · rw [Config.token_of_size_le hle]
    exact hblank

theorem readable : lambdaSample.Readable where
  spelling := by
    intro t
    match t with
    | 0 | 1 | 2 | 3 | 4 | 5 | 6 | 7 | 8 => exact ⟨_, rfl⟩
    | _ + 9 => exact ⟨_, rfl⟩
  varId := token_all (P := fun t => t.varId.isInfinite = false) (by decide) rfl
  line := token_all (P := fun t => t.line.isInfinite = false) (by decide) rfl
  column := token_all (P := fun t => t.column.isInfinite = false) (by decide) rfl
  scopeKind := by
    intro s
    match s with
    | 0 | 1 => exact ⟨_, rfl⟩
    | _ + 2 => exact ⟨_, rfl⟩
  className := by
    intro s
    match s with
    | 0 | 1 => exact .inl rfl
    | _ + 2 => exact .inl rfl
  functionName := by
    intro f
    match f with
    | 0 => exact .inr ⟨_, rfl⟩
    | _ + 1 => exact .inl rfl
  functionKind := by
    intro f
    match f with
    | 0 => exact .inl rfl
    | _ + 1 => exact .inl rfl

theorem callable_cases {s : Nat} (hs : lambdaSample.Callable s) : s = 0 ∨ s = 1 := by
  have hlt : s < 2 := Config.lt_size_of_callable hs
  omega

theorem tokenOwner_eq : ∀ t < 9,
    lambdaSample.tokenOwner t = if 4 ≤ t ∧ t ≤ 7 then some 1 else some 0 := by
  decide +kernel

theorem order_eq : ∀ t < 9, lambdaSample.order t = t := by
  decide +kernel

theorem holds_zero {t : Nat} : lambdaSample.Holds 0 t ↔ t < 9 := by
  rw [Config.holds_iff rfl rfl, mem_tokenList]
  constructor
  · rintro ⟨ht, -⟩
    exact ht
  · intro ht
    rw [order_eq 0 (by omega), order_eq 8 (by omega), order_eq t ht]
    omega

theorem holds_one {t : Nat} : lambdaSample.Holds 1 t ↔ 4 ≤ t ∧ t ≤ 7 := by
  rw [Config.holds_iff rfl rfl, mem_tokenList]
  constructor
  · rintro ⟨ht, hge, hle⟩
    rw [order_eq 4 (by omega), order_eq t ht] at hge
    rw [order_eq 7 (by omega), order_eq t ht] at hle
    exact ⟨hge, hle⟩
  · rintro ⟨hge, hle⟩
    rw [order_eq 4 (by omega), order_eq 7 (by omega), order_eq t (by omega)]
    omega

theorem callable_zero : lambdaSample.Callable 0 := rfl

theorem callable_one : lambdaSample.Callable 1 := rfl

theorem inside_iff {u s : Nat} (hu : lambdaSample.Callable u) (hs : lambdaSample.Callable s) :
    lambdaSample.Inside u s ↔ u = 1 ∧ s = 0 := by
  constructor
  · rintro ⟨hne, hin⟩
    rcases callable_cases hu with rfl | rfl <;> rcases callable_cases hs with rfl | rfl
    · exact absurd rfl hne
    · have h0 := holds_one.mp (hin 0 (holds_zero.mpr (by omega)))
      omega
    · exact ⟨rfl, rfl⟩
    · exact absurd rfl hne
  · rintro ⟨rfl, rfl⟩
    refine ⟨by decide, fun t ht => holds_zero.mpr ?_⟩
    have h1 := holds_one.mp ht
    omega

theorem directly_iff {u : Nat} (hu : lambdaSample.Callable u) {k : Option Nat} :
    lambdaSample.Directly u k ↔ k = if u = 0 then none else some 0 := by
  cases k with
  | none =>
    rcases callable_cases hu with rfl | rfl
    · refine iff_of_true ?_ rfl
      intro s hs hin
      have h := (inside_iff callable_zero hs).mp hin
      omega
    · refine iff_of_false ?_ (by decide)
      intro hd
      exact hd 0 callable_zero ((inside_iff callable_one callable_zero).mpr ⟨rfl, rfl⟩)
  | some s =>
    rcases callable_cases hu with rfl | rfl
    · refine iff_of_false ?_ (by simp)
      intro hd
      have h := (inside_iff callable_zero hd.1).mp hd.2.1
      omega
    · rw [if_neg (by decide), Option.some.injEq]
      constructor
      · intro hd
        exact ((inside_iff callable_one hd.1).mp hd.2.1).2
      · rintro rfl
        refine ⟨callable_zero, (inside_iff callable_one callable_zero).mpr ⟨rfl, rfl⟩, ?_⟩
        intro s hs hin
        exact .inl ((inside_iff callable_one hs).mp hin).2

theorem innermost_iff {s t : Nat} (ht : t < 9) :
    lambdaSample.Innermost s t ↔ (if 4 ≤ t ∧ t ≤ 7 then some 1 else some 0) = some s := by
  constructor
  · rintro ⟨hs, hst, hleast⟩
    rcases callable_cases hs with rfl | rfl
    · rw [if_neg]
      intro h1
      rcases hleast 1 callable_one (holds_one.mpr h1) with h | h
      · omega
      · have := (inside_iff callable_zero callable_one).mp h
        omega
    · rw [if_pos (holds_one.mp hst)]
  · intro h
    split at h
    · rename_i h1
      obtain rfl := Option.some.inj h
      refine ⟨callable_one, holds_one.mpr h1, ?_⟩
      intro s' hs' _
      rcases callable_cases hs' with rfl | rfl
      · exact .inr ((inside_iff callable_one callable_zero).mpr ⟨rfl, rfl⟩)
      · exact .inl rfl
    · rename_i h1
      obtain rfl := Option.some.inj h
      refine ⟨callable_zero, holds_zero.mpr ht, ?_⟩
      intro s' hs' hst'
      rcases callable_cases hs' with rfl | rfl
      · exact .inl rfl
      · exact absurd (holds_one.mp hst') h1

theorem acyclic (t : Nat) : ¬ TransGen (fun t u => u ∈ (lambdaSample.token t).operands) t t :=
  Config.acyclic_of_height (fun t => if t = 2 then 2 else if t = 3 ∨ t = 5 then 1 else 0)
    (by decide) t

theorem coherent : lambdaSample.Coherent where
  readable := readable
  distinct := by decide
  next := by
    intro i t hi
    obtain ⟨hlt, -⟩ := List.getElem?_eq_some_iff.mp hi
    have hnext : ∀ i < 9, (lambdaSample.token i).next = lambdaSample.tokenList[i + 1]? := by decide
    have hget : ∀ i < 9, lambdaSample.tokenList[i]? = some i := by decide
    obtain rfl := Option.some.inj (hi.symm.trans (hget i hlt))
    exact hnext t hlt
  numbered := by
    intro f arguments hf
    match f with
    | 0 =>
      cases hf
      intro a ha
      obtain rfl := List.mem_singleton.mp ha
      exact ⟨1, by decide +kernel⟩
    | _ + 1 => cases hf
  operand_mem := by decide
  parent_mem := by decide
  links := by decide
  once := by decide
  acyclic := fun t _ => acyclic t
  step := by decide
  listed := by
    intro s hs
    rcases callable_cases hs with rfl | rfl <;> decide
  body := by
    intro s hs
    rcases callable_cases hs with rfl | rfl
    · exact ⟨0, 8, rfl, rfl, by decide, by decide, by decide⟩
    · exact ⟨4, 7, rfl, rfl, by decide, by decide, by decide⟩
  start := by
    intro s s' hs hs' hne
    rcases callable_cases hs with rfl | rfl <;> rcases callable_cases hs' with rfl | rfl
    · exact absurd rfl hne
    · decide
    · decide
    · exact absurd rfl hne
  nested := by
    intro s s' hs hs' hne
    rw [inside_iff hs hs', inside_iff hs' hs]
    have h1 := callable_cases hs
    have h2 := callable_cases hs'
    omega
  around := by
    intro u hu k
    rw [directly_iff hu]
    rcases callable_cases hu with rfl | rfl <;> exact eq_comm
  innermost := by
    intro t ht s
    rw [tokenOwner_eq t (mem_tokenList.mp ht), innermost_iff (mem_tokenList.mp ht)]
  brace := by
    intro s hs t ht
    rcases callable_cases hs with rfl | rfl <;> rcases ht with ht | ht <;> cases ht <;> decide
  foreign := by
    have hlink : ∀ t ∈ lambdaSample.tokenList, ∀ u ∈ (lambdaSample.token t).operands,
        lambdaSample.tokenOwner t ≠ lambdaSample.tokenOwner u → t = 3 ∧ u = 4 := by decide +kernel
    intro t ht u hu hne
    obtain ⟨rfl, rfl⟩ := hlink t ht u hu hne
    exact ⟨⟨1, callable_one, .inl rfl⟩, rfl, rfl⟩

end lambdaSample

end FinalParams
