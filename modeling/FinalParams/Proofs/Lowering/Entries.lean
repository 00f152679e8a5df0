import FinalParams.Proofs.Lowering.Recursion
import FinalParams.Proofs.Lowering.Units

/-!
# What stands in a body

Where bodies share no braces, a body holds bodies directly inside it and tops of expressions of its
own.  Each of them is an entry at the token where it begins.  The tree of a function or lambda has one
statement for each entry, in source order: `exists_units` says this of all functions and lambdas
at once, and `compilationUnit_entries` of the whole configuration.
-/

namespace FinalParams
namespace Config

variable {c : Config}

/-- The token `t` is the top of an expression between the braces of `s` and outside of all functions
and lambdas inside. -/
def OwnTop (c : Config) (s t : Nat) : Prop :=
  c.Within s t ∧ (c.token t).isRoot = true ∧ ∀ u, c.Callable u → c.Inside u s → ¬ c.Holds u t

/-- At the token `t` begins the body of a function or lambda that belongs to `k`, or an expression
of `k` has its top there. -/
def Entry (c : Config) (k : Option Nat) (t : Nat) : Prop :=
  (∃ u, c.Callable u ∧ c.owner (c.scope u).nestedIn = k ∧ (c.scope u).bodyStart = some t)
    ∨ ∃ s, k = some s ∧ c.OwnTop s t

open Classical in
/-- The entries of `k` in source order. -/
noncomputable def entries (c : Config) (k : Option Nat) : List Nat :=
  c.tokenList.filter fun t => c.Entry k t

/-- What stands at an entry, given what the functions and lambdas and the expressions are. -/
def entryNode (c : Config) (k : Option Nat) (unit tree : Nat → Node) (t : Nat) : Node :=
  match c.nestedOf k t with
  | some u => unit u
  | none => tree t

/-! ## Entries -/

theorem entry_iff (h : c.Layered) {k : Option Nat} {t : Nat} :
    c.Entry k t ↔ (∃ u, c.nestedOf k t = some u) ∨ ∃ s, k = some s ∧ c.OwnTop s t := by
  simp only [Entry, nestedOf_eq_some_iff h]
  constructor
  · rintro (⟨u, hu, hk, hb⟩ | hown)
    · exact .inl ⟨u, hu, hb, (h.around u hu k).mp hk⟩
    · exact .inr hown
  · rintro (⟨u, hu, hb, hk⟩ | hown)
    · exact .inl ⟨u, hu, (h.around u hu k).mpr hk, hb⟩
    · exact .inr hown

/-- The top of an expression of `s` is in none of the bodies directly inside. -/
theorem nestedOf_of_ownTop (h : c.Layered) {s t : Nat} (ht : c.OwnTop s t) :
    c.nestedOf (some s) t = none := by
  cases hn : c.nestedOf (some s) t with
  | none => rfl
  | some u =>
    obtain ⟨hu, hb, hus⟩ := (nestedOf_eq_some_iff h).mp hn
    exact absurd (h.holds_start hu hb) (ht.2.2 u hu hus.2.1)

theorem mem_entries_iff {k : Option Nat} {t : Nat} :
    t ∈ c.entries k ↔ t ∈ c.tokenList ∧ c.Entry k t := by
  classical rw [entries, List.mem_filter, decide_eq_true_iff]

theorem mem_entries_of_start (h : c.Layered) {u b : Nat} (hu : c.Callable u)
    (hb : (c.scope u).bodyStart = some b) : b ∈ c.entries (c.owner (c.scope u).nestedIn) :=
  mem_entries_iff.mpr ⟨(h.holds_start hu hb).1, .inl ⟨u, hu, rfl, hb⟩⟩

theorem entryNode_of_start (h : c.Layered) {u b : Nat} (hu : c.Callable u)
    (hb : (c.scope u).bodyStart = some b) (unit tree : Nat → Node) :
    c.entryNode (c.owner (c.scope u).nestedIn) unit tree b = unit u := by
  have hn : c.nestedOf (c.owner (c.scope u).nestedIn) b = some u :=
    (nestedOf_eq_some_iff h).mpr ⟨hu, hb, (h.around u hu _).mp rfl⟩
  rw [entryNode, hn]

theorem entryNode_of_ownTop (h : c.Layered) {s t : Nat} (ht : c.OwnTop s t)
    (unit tree : Nat → Node) : c.entryNode (some s) unit tree t = tree t := by
  rw [entryNode, nestedOf_of_ownTop h ht]

/-- A body inside another one lies between the braces of that one. -/
theorem Layered.within_start (h : c.Layered) {s u b : Nat} (hs : c.Callable s)
    (hu : c.Callable u) (hus : c.Inside u s) (hb : (c.scope u).bodyStart = some b) :
    c.Within s b := by
  obtain ⟨b', e', hb', he', -⟩ := h.body s hs
  obtain ⟨e, he, hbm, -, hlt⟩ := h.exists_end hu hb
  obtain ⟨-, -, hle⟩ := (holds_iff hb' he').mp (hus.2 e (h.holds_end hu he))
  exact (within_iff hb' he').mpr ⟨hbm, h.start_lt hs hu hus hb' hb, by omega⟩

theorem Bracketed.within_end (h : c.Bracketed) {s u e : Nat} (hs : c.Callable s)
    (hu : c.Callable u) (hus : c.Inside u s) (he : (c.scope u).bodyEnd = some e) :
    c.Within s e := by
  obtain ⟨b, e', hb, he', -, hem', -⟩ := h.body s hs
  obtain ⟨b', hb', -, hem, hlt⟩ := h.exists_start hu he
  obtain ⟨-, -, hle⟩ := (holds_iff hb he').mp (hus.2 e (h.holds_end hu he))
  refine (within_iff hb he').mpr
    ⟨hem, (h.start_lt hs hu hus hb hb').trans hlt, lt_of_le_of_ne hle ?_⟩
  intro heq
  obtain rfl := order_inj hem hem' heq
  exact h.close u s hu hs hus.1 e he (.inr he')

theorem Within.holds {s t : Nat} (ht : c.Within s t) : c.Holds s t := by
  obtain ⟨htm, b, e, hb, he, hlt, hlt'⟩ := ht
  exact ⟨htm, b, e, hb, he, hlt.le, hlt'.le⟩

theorem within_of_entry (h : c.Layered) {s t : Nat} (hs : c.Callable s)
    (ht : c.Entry (some s) t) : c.Within s t := by
  rcases (entry_iff h).mp ht with ⟨u, hn⟩ | ⟨s', hs', hown⟩
  · obtain ⟨hu, hb, hus⟩ := (nestedOf_eq_some_iff h).mp hn
    exact h.within_start hs hu hus.2.1 hb
  · obtain rfl := Option.some.inj hs'
    exact hown.1

/-- Between the braces of `s` the tops of its own expressions are the ones that belong to it. -/
theorem isStatementOf_iff (h : c.WellNested) {s t : Nat} (hs : c.Callable s) (ht : c.Within s t) :
    c.isStatementOf (some s) t = true ↔ c.OwnTop s t := by
  have hholds := ht.holds
  constructor
  · intro hst
    obtain ⟨hr, s', hs', ho⟩ := tokenOwner_of_isStatementOf hst
    obtain rfl := Option.some.inj hs'
    refine ⟨ht, hr, ?_⟩
    intro u hu hus hut
    rcases ((h.innermost s t hs ht s).mp ho).2.2 u hu hut with rfl | hsu
    · exact hus.1 rfl
    · exact h.inside_asymm hs hu hus hsu
  · rintro ⟨-, hr, hout⟩
    have ho : c.tokenOwner t = some s := by
      refine (h.innermost s t hs ht s).mpr ⟨hs, hholds, ?_⟩
      intro s' hs' hst'
      by_cases hne : s' = s
      · exact .inl hne
      · rcases h.nested s' s hs' hs hne with hd | hin | hin
        · exact absurd ⟨hst', hholds⟩ (hd t)
        · exact absurd hst' (hout s' hs' hin)
        · exact .inr hin
    simp [isStatementOf, hr, ho]

/-! ## Statements -/

open Classical in
/-- What stands at a token of the body of `s`: one node at an entry, and none elsewhere. -/
noncomputable def standing (c : Config) (s : Nat) (unit tree : Nat → Node) (t : Nat) : List Node :=
  if c.Entry (some s) t then [c.entryNode (some s) unit tree t] else []

theorem standing_of_entry {s t : Nat} {unit tree : Nat → Node} (ht : c.Entry (some s) t) :
    c.standing s unit tree t = [c.entryNode (some s) unit tree t] := by
  classical exact if_pos ht

theorem standing_of_not_entry {s t : Nat} {unit tree : Nat → Node} (ht : ¬ c.Entry (some s) t) :
    c.standing s unit tree t = [] := by
  classical exact if_neg ht

theorem flatMap_standing (c : Config) (s : Nat) (unit tree : Nat → Node) :
    c.tokenList.flatMap (c.standing s unit tree)
      = (c.entries (some s)).map (c.entryNode (some s) unit tree) := by
  classical
  rw [entries]
  generalize c.tokenList = ts
  induction ts with
  | nil => rfl
  | cons t rest ih =>
    rw [List.flatMap_cons, ih, List.filter_cons]
    by_cases ht : c.Entry (some s) t
    · rw [standing_of_entry ht, if_pos (decide_eq_true ht), List.map_cons]
      rfl
    · rw [standing_of_not_entry ht, if_neg (by simpa using ht)]
      rfl

theorem standing_of_passed (h : c.Layered) {s t u x : Nat} {unit tree : Nat → Node}
    (hn : c.nestedOf (some s) t = some u) (hx : c.Holds u x) (hxt : x ≠ t) :
    c.standing s unit tree x = [] := by
  obtain ⟨hu, hstart, hus⟩ := (nestedOf_eq_some_iff h).mp hn
  apply standing_of_not_entry
  rw [entry_iff h]
  rintro (⟨v, hv⟩ | ⟨s', hs', hown⟩)
  · have hstart' := start_of_nestedOf h hu hus hx hv
    exact hxt (Option.some.inj (hstart'.symm.trans hstart))
  · obtain rfl := Option.some.inj hs'
    exact hown.2.2 u hu hus.2.1 hx

theorem standing_of_nestedOf_none (h : c.WellNested) {s t : Nat} {unit tree : Nat → Node}
    (hs : c.Callable s) (ht : c.Within s t) (hn : c.nestedOf (some s) t = none) :
    c.standing s unit tree t = if c.isStatementOf (some s) t then [tree t] else [] := by
  by_cases hown : c.OwnTop s t
  · rw [if_pos ((isStatementOf_iff h hs ht).mpr hown), standing_of_entry (.inr ⟨s, rfl, hown⟩),
      entryNode, hn]
  · rw [if_neg (mt (isStatementOf_iff h hs ht).mp hown), standing_of_not_entry]
    rw [entry_iff h.toLayered]
    rintro (⟨v, hv⟩ | ⟨s', hs', hown'⟩)
    · rw [hn] at hv
      cases hv
    · exact hown (Option.some.inj hs' ▸ hown')

/-- The token `t` is behind the brace that begins the body of `s`, up to the one that ends it. -/
def Reached (c : Config) (s t : Nat) : Prop :=
  t ∈ c.tokenList ∧ ∃ b e, (c.scope s).bodyStart = some b ∧ (c.scope s).bodyEnd = some e
    ∧ c.order b < c.order t ∧ c.order t ≤ c.order e

theorem Reached.within (h : c.Layered) {s t : Nat} (hs : c.Callable s) (ht : c.Reached s t)
    (hne : (c.scope s).bodyEnd ≠ some t) : c.Within s t := by
  obtain ⟨htm, b, e, hb, he, hlt, hle⟩ := ht
  refine ⟨htm, b, e, hb, he, hlt, lt_of_le_of_ne hle ?_⟩
  intro heq
  obtain ⟨b', -, -, hem, -⟩ := h.exists_start hs he
  exact hne (he.trans (congrArg some (order_inj htm hem heq).symm))

theorem Within.reached_next (h : c.Layered) {s t x : Nat} (ht : c.Within s t)
    (hx : (c.token t).next = some x) : c.Reached s x := by
  obtain ⟨htm, b, e, hb, he, hlt, hlt'⟩ := ht
  have hget := (h.next _ t (getElem?_order htm)).symm.trans hx
  have hord := order_eq_of_getElem? h hget
  exact ⟨List.mem_of_getElem? hget, b, e, hb, he, by omega, by omega⟩

/-- While a body is read, each token that is reached contributes what stands there. -/
theorem reads_standing (h : c.Bracketed) {s : Nat} (hs : c.Callable s) (unit tree : Nat → Node) :
    c.Reads s (c.Reached s) unit tree (c.standing s unit tree) where
  stop := by
    intro t _ hend
    rw [List.flatMap_eq_nil_iff]
    intro x hx
    apply standing_of_not_entry
    intro hentry
    obtain ⟨b, hb, -⟩ := h.exists_start hs hend
    obtain ⟨-, -, hlt⟩ := (within_iff hb hend).mp (within_of_entry h.toLayered hs hentry)
    have hge := ((mem_drop_iff h.toLayered).mp hx).2
    omega
  nested := by
    intro t u e _ _ hn he
    obtain ⟨hu, -, hus⟩ := (nestedOf_eq_some_iff h.toLayered).mp hn
    refine ⟨?_, fun x hx hxt => standing_of_passed h.toLayered hn hx hxt, ?_⟩
    · rw [standing_of_entry ((entry_iff h.toLayered).mpr (.inl ⟨u, hn⟩)), entryNode, hn]
    · intro x hx
      exact (h.within_end hs hu hus.2.1 he).reached_next h.toLayered hx
  own := by
    intro t ht hne hn
    have hw := ht.within h.toLayered hs hne
    exact ⟨standing_of_nestedOf_none h.toWellNested hs hw hn,
      fun x hx => hw.reached_next h.toLayered hx⟩

/-- The statements of a body are what stands at its entries. -/
theorem statements_entries (h : c.Bracketed) {s b : Nat} (hs : c.Callable s)
    (hb : (c.scope s).bodyStart = some b) {unit tree : Nat → Node}
    {descend : Nat → Except LowerError Node}
    (hunit : ∀ u, c.Callable u → c.Directly u (some s) → descend u = .ok (unit u))
    (htree : ∀ t, c.expression (some s) (some t) = .ok (tree t)) :
    c.statements c.callableScopes descend s (c.tokens.size + 1) (c.token b).next
      = .ok ((c.entries (some s)).map (c.entryNode (some s) unit tree)) := by
  obtain ⟨e, he, hbm, hem, hlt⟩ := h.exists_end hs hb
  have hlen := length_tokenList_le h.toLayered
  have hpassed : (c.tokenList.drop 0).flatMap (c.standing s unit tree)
      = (c.tokenList.drop (c.order b + 1)).flatMap (c.standing s unit tree) := by
    apply flatMap_drop_of_passed h.toLayered (Nat.zero_le _)
    intro t _ _ hle
    apply standing_of_not_entry
    intro hentry
    obtain ⟨-, hlt', -⟩ := (within_iff hb he).mp (within_of_entry h.toLayered hs hentry)
    omega
  have hreached : ∀ t, c.tokenList[c.order b + 1]? = some t → c.Reached s t := by
    intro t ht
    have hord := order_eq_of_getElem? h.toLayered ht
    exact ⟨List.mem_of_getElem? ht, b, e, hb, he, by omega, by omega⟩
  rw [h.next _ _ (getElem?_order hbm),
    statements_ok h.toLayered h.readable (reads_standing h hs unit tree) hunit
      (fun t _ => htree t) (by omega) hreached, ← hpassed, List.drop_zero, flatMap_standing]

/-! ## Functions and lambdas -/

/-- Each function or lambda has its heading, and in its body what stands at its entries. -/
def Composed (c : Config) (unit : Nat → Node) (tree : Nat → Nat → Node) (s : Nat) : Prop :=
  ∃ head, c.unitHeading s = .ok head
    ∧ unit s = head.node (some (.block
        ((c.entries (some s)).map (c.entryNode (some s) unit (tree s))) head.loc))

/-- The tree of a function or lambda, given those of the ones directly inside. -/
theorem unitWithin_entries (h : c.Bracketed) {s depth : Nat} (hs : c.Callable s)
    {unit tree : Nat → Node}
    (hunit : ∀ u, c.Callable u → c.Directly u (some s) →
      c.unitWithin c.callableScopes depth u = .ok (unit u))
    (htree : ∀ t, c.expression (some s) (some t) = .ok (tree t)) :
    ∃ head, c.unitHeading s = .ok head ∧ c.unitWithin c.callableScopes (depth + 1) s
      = .ok (head.node (some (.block
          ((c.entries (some s)).map (c.entryNode (some s) unit tree)) head.loc))) := by
  obtain ⟨b, -, hb, -⟩ := h.body s hs
  obtain ⟨ps, hps, -⟩ := scopeParameters_ok h.readable h.numbered s
  obtain ⟨x, kind, loc, hhead⟩ := unitHeading_of_parameters h.readable hps
  refine ⟨_, hhead, ?_⟩
  rw [unitWithin, hhead, hb]
  simp only [statements_entries h hs hb hunit htree, bind, Except.bind, pure, Except.pure]

/-- The depth does not matter where it is larger than the number of bodies inside. -/
theorem exists_unitWithin (h : c.Bracketed) {tree : Nat → Nat → Node}
    (htree : ∀ s t, c.expression (some s) (some t) = .ok (tree s t)) {s : Nat}
    (hs : c.Callable s) :
    ∃ n, ∀ depth, c.inner s < depth → c.unitWithin c.callableScopes depth s = .ok n := by
  induction hi : c.inner s using Nat.strongRecOn generalizing s with
  | ind i ih =>
    subst hi
    have hnested : ∀ u, c.Callable u → c.Directly u (some s) →
        ∃ n, ∀ depth, c.inner u < depth → c.unitWithin c.callableScopes depth u = .ok n :=
      fun u hu hus => ih _ (h.inner_lt hu hus) hu rfl
    choose! unit hunit using hnested
    have hstep : ∀ depth, c.inner s ≤ depth → ∀ u, c.Callable u → c.Directly u (some s) →
        c.unitWithin c.callableScopes depth u = .ok (unit u) := by
      intro depth hd u hu hus
      exact hunit u hu hus depth ((h.inner_lt hu hus).trans_le hd)
    obtain ⟨head, hhead, -⟩ := unitWithin_entries h hs (hstep _ (Nat.le_refl _)) (htree s)
    refine ⟨head.node (some (.block
      ((c.entries (some s)).map (c.entryNode (some s) unit (tree s))) head.loc)), ?_⟩
    rintro (_ | depth) hd
    · exact absurd hd (Nat.not_lt_zero _)
    · obtain ⟨head', hhead', hn⟩ := unitWithin_entries h hs (hstep depth (by omega)) (htree s)
      obtain rfl := Except.ok.inj (hhead'.symm.trans hhead)
      exact hn

/-- Every function or lambda has a tree, with one statement for each entry of its body. -/
theorem exists_units (h : c.Bracketed) :
    ∃ (unit : Nat → Node) (tree : Nat → Nat → Node),
      (∀ s t, c.expression (some s) (some t) = .ok (tree s t))
        ∧ ∀ s, c.Callable s →
          c.unit c.callableScopes s = .ok (unit s) ∧ c.Composed unit tree s := by
  have hexpression : ∀ s t, ∃ n, c.expression (some s) (some t) = .ok n :=
    fun s t => exists_expression h.readable (fun u _ => h.acyclic u) (some s)
  choose tree htree using hexpression
  have hunits : ∀ s, c.Callable s →
      ∃ n, ∀ depth, c.inner s < depth → c.unitWithin c.callableScopes depth s = .ok n :=
    fun s hs => exists_unitWithin h htree hs
  choose! unit hunit using hunits
  refine ⟨unit, tree, htree, ?_⟩
  intro s hs
  refine ⟨hunit s hs _ (Nat.lt_succ_of_le (c.inner_le s)), ?_⟩
  have hnested : ∀ u, c.Callable u → c.Directly u (some s) →
      c.unitWithin c.callableScopes (c.inner s) u = .ok (unit u) :=
    fun u hu hus => hunit u hu _ (h.inner_lt hu hus)
  obtain ⟨head, hhead, hn⟩ := unitWithin_entries h hs hnested (htree s)
  exact ⟨head, hhead, Except.ok.inj ((hunit s hs _ (Nat.lt_succ_self _)).symm.trans hn)⟩

/-! ## The whole configuration -/

/-- The functions and lambdas in no other one are what stands at the outermost entries. -/
theorem filterMap_outermost (h : c.Layered) (unit tree : Nat → Node) :
    (c.tokenList.map fun t => (c.nestedOf none t).map unit).filterMap id
      = (c.entries none).map (c.entryNode none unit tree) := by
  classical
  rw [entries]
  generalize c.tokenList = ts
  induction ts with
  | nil => rfl
  | cons t rest ih =>
    rw [List.map_cons, List.filterMap_cons, ih, List.filter_cons]
    cases hn : c.nestedOf none t with
    | none =>
      have hno : ¬ c.Entry none t := by
        rw [entry_iff h, hn]
        rintro (⟨u, hu⟩ | ⟨s, hs, -⟩)
        · cases hu
        · cases hs
      rw [if_neg (by simpa using hno)]
      rfl
    | some u =>
      rw [if_pos (decide_eq_true ((entry_iff h).mpr (.inl ⟨u, hn⟩))), List.map_cons, entryNode, hn]
      rfl

/-- The tree with what stands at the outermost entries, and behind it these declarations. -/
noncomputable def assembled (c : Config) (path : Datum) (unit tree : Nat → Node)
    (declarations : List Node) : Node :=
  .file (c.shownPath path) ((c.entries none).map (c.entryNode none unit tree) ++ declarations)
    { file := c.shownPath path }

/-- The tree of the configuration has the outermost functions and lambdas in source order, and then
the functions that are only declared. -/
theorem compilationUnit_entries (h : c.Bracketed) {unit : Nat → Node}
    (hunit : ∀ u, c.Callable u → c.unit c.callableScopes u = .ok (unit u)) (tree : Nat → Node)
    (path : Datum) :
    ∃ declarations, c.declaredFunctions.mapM c.declaration = .ok declarations
      ∧ c.compilationUnit path = .ok (c.assembled path unit tree declarations) := by
  choose name params kind loc hdecl _ using declaration_eq h.readable h.numbered
  have hdeclared := mapM_eq_map fun f (_ : f ∈ c.declaredFunctions) => hdecl f
  refine ⟨_, hdeclared, ?_⟩
  have houtermost : c.tokenList.mapM c.outermostUnit
      = .ok (c.tokenList.map fun t => (c.nestedOf none t).map unit) :=
    mapM_eq_map fun t _ => outermostUnit_ok h.readable h.toLayered hunit t
  simp only [compilationUnit, scopeMisfit?_none h.readable, houtermost, hdeclared, bind,
    Except.bind, pure, Except.pure, filterMap_outermost h.toLayered unit tree, assembled]

end Config
end FinalParams
