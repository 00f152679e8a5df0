import FinalParams.Proofs.Config.Bodies
import FinalParams.Lowering.Unit

/-!
# Reading a body

The body of a function or lambda is read token by token, with jumps over the bodies directly inside.
`statements_ok` says what is read, given what each token that is reached contributes and that what
is jumped over contributes nothing.  In a coherent configuration nothing outside of the body
contributes either.  So what is read is a piece for each token of the configuration, most of them
empty, put together in source order.
-/

namespace FinalParams
namespace Config

variable {c : Config}

/-- The function or lambda whose body begins at `t` directly inside that of `k`. -/
def nestedOf (c : Config) (k : Option Nat) (t : Nat) : Option Nat :=
  (c.bodyAt c.callableScopes t).filter fun u => some u != k && c.owner (c.scope u).nestedIn == k

/-- Whether `t` is the top of an expression that belongs to the function or lambda `k`. -/
def isStatementOf (c : Config) (k : Option Nat) (t : Nat) : Bool :=
  (c.token t).isRoot && k.isSome && c.tokenOwner t == k

theorem nestedAt_ok (h : c.Readable) (s t : Nat) :
    c.nestedAt c.callableScopes s t = .ok (c.nestedOf (some s) t) := by
  unfold nestedAt nestedOf
  cases c.bodyAt c.callableScopes t with
  | none => rfl
  | some u =>
    by_cases hus : u = s
    · subst hus
      rw [Option.filter_some, bne_self_eq_false, Bool.false_and]
      exact if_pos rfl
    · have hne : (some u != some s) = true := by simpa using hus
      simp only [if_neg hus, h.belongsTo_ok, Except.map, Option.filter_some, hne, Bool.true_and]

theorem outermostAt_ok (h : c.Readable) (t : Nat) :
    c.outermostAt t = .ok (c.nestedOf none t) := by
  unfold outermostAt nestedOf
  cases c.bodyAt c.callableScopes t with
  | none => rfl
  | some u =>
    simp only [h.callableAround_ok, Except.map, Option.filter_some]
    cases c.owner (c.scope u).nestedIn <;> rfl

theorem isStatement_ok (h : c.Readable) (s t : Nat) :
    c.isStatement s t = .ok (c.isStatementOf (some s) t) := by
  unfold isStatement isStatementOf tokenOwner
  rw [h.belongsTo_ok]
  cases (c.token t).isRoot <;> rfl

theorem mem_callableScopes (h : c.Layered) {s : Nat} :
    s ∈ c.callableScopes ↔ c.Callable s := by
  rw [callableScopes, List.mem_filter]
  exact ⟨fun hs => hs.2, fun hs => ⟨h.listed s hs, hs⟩⟩

theorem bodyAt_eq_some_iff (h : c.Layered) {t u : Nat} :
    c.bodyAt c.callableScopes t = some u
      ↔ c.Callable u ∧ (c.scope u).bodyStart = some t := by
  unfold bodyAt
  constructor
  · intro hu
    have hmem := List.mem_reverse.mp (List.mem_of_find?_eq_some hu)
    have hstart := List.find?_some hu
    exact ⟨(mem_callableScopes h).mp hmem, by simpa using hstart⟩
  · rintro ⟨hu, hstart⟩
    cases hf : c.callableScopes.reverse.find? fun s => (c.scope s).bodyStart == some t with
    | none =>
      have hno := List.find?_eq_none.mp hf u (List.mem_reverse.mpr ((mem_callableScopes h).mpr hu))
      simp [hstart] at hno
    | some v =>
      have hv := (mem_callableScopes h).mp (List.mem_reverse.mp (List.mem_of_find?_eq_some hf))
      have hvstart : (c.scope v).bodyStart = some t := by simpa using List.find?_some hf
      by_contra hne
      exact h.start v u hv hu (fun he => hne (congrArg some he)) (hvstart.trans hstart.symm)

theorem nestedOf_eq_some_iff (h : c.Layered) {k : Option Nat} {t u : Nat} :
    c.nestedOf k t = some u
      ↔ c.Callable u ∧ (c.scope u).bodyStart = some t ∧ c.Directly u k := by
  unfold nestedOf
  rw [Option.filter_eq_some_iff, bodyAt_eq_some_iff h, Bool.and_eq_true, beq_iff_eq, bne_iff_ne]
  constructor
  · rintro ⟨⟨hu, ht⟩, -, ho⟩
    exact ⟨hu, ht, (h.around u hu k).mp ho⟩
  · rintro ⟨hu, ht, hk⟩
    exact ⟨⟨hu, ht⟩, hk.ne, (h.around u hu k).mpr hk⟩

/-- Where a body begins directly inside `k`, no other one directly inside `k` holds the token. -/
theorem start_of_nestedOf (h : c.Layered) {k : Option Nat} {t u v : Nat} (hu : c.Callable u)
    (huk : c.Directly u k) (ht : c.Holds u t) (hn : c.nestedOf k t = some v) :
    (c.scope u).bodyStart = some t := by
  obtain ⟨hv, hstart, hvk⟩ := (nestedOf_eq_some_iff h).mp hn
  obtain rfl := h.directly_apart hu hv huk hvk ht (h.holds_start hv hstart)
  exact hstart

/-! ## Pieces -/

variable {α : Type}

/-- What the token `t` contributes to the body of `k`, given what the bodies directly inside and the
expressions contribute. -/
def pieces (c : Config) (k : Option Nat) (nested top : Nat → List α) (t : Nat) : List α :=
  match c.nestedOf k t with
  | some u => nested u
  | none => if c.isStatementOf k t then top t else []

theorem isRoot_of_brace (h : c.Coherent) {s t : Nat} (hs : c.Callable s) (ht : c.IsBrace s t) :
    (c.token t).isRoot = false := by
  obtain ⟨h1, h2⟩ := h.brace s hs t ht
  rw [Token.isRoot, h1, h2]
  exact Bool.and_false _

theorem tokenOwner_of_isStatementOf {k : Option Nat} {t : Nat}
    (h : c.isStatementOf k t = true) :
    (c.token t).isRoot = true ∧ ∃ s, k = some s ∧ c.tokenOwner t = some s := by
  simp only [isStatementOf, Bool.and_eq_true, beq_iff_eq] at h
  obtain ⟨⟨hr, hk⟩, ho⟩ := h
  obtain ⟨s, rfl⟩ := Option.isSome_iff_exists.mp hk
  exact ⟨hr, s, rfl, ho⟩

/-- What a body directly inside holds contributes nothing, except for the token where it begins. -/
theorem pieces_of_jumped (h : c.Coherent) {k : Option Nat} {nested top : Nat → List α} {t u : Nat}
    (hu : c.Callable u) (huk : c.Directly u k) (ht : c.Holds u t)
    (hne : (c.scope u).bodyStart ≠ some t) : c.pieces k nested top t = [] := by
  have hnone : c.nestedOf k t = none := by
    cases hn : c.nestedOf k t with
    | none => rfl
    | some v => exact absurd (start_of_nestedOf h.toLayered hu huk ht hn) hne
  rw [pieces, hnone]
  refine if_neg ?_
  intro hst
  obtain ⟨-, s, rfl, ho⟩ := tokenOwner_of_isStatementOf hst
  exact h.toLayered.not_holds_of_innermost hu huk ((h.innermost t ht.1 s).mp ho) ht

/-- What lies outside of a body, and its braces, contribute nothing to it. -/
theorem pieces_of_outside (h : c.Coherent) {s t : Nat} {nested top : Nat → List α}
    (hs : c.Callable s) (ht : t ∈ c.tokenList) (hout : c.IsBrace s t ∨ ¬ c.Holds s t) :
    c.pieces (some s) nested top t = [] := by
  have hnone : c.nestedOf (some s) t = none := by
    cases hn : c.nestedOf (some s) t with
    | none => rfl
    | some v =>
      obtain ⟨hv, hstart, hvs⟩ := (nestedOf_eq_some_iff h.toLayered).mp hn
      rcases hout with (hb | he) | hout
      · exact absurd (hstart.trans hb.symm) (h.start v s hv hs hvs.2.1.1)
      · obtain ⟨e, he', -, -, hlt⟩ := h.toLayered.exists_end hv hstart
        obtain ⟨b, hb, -, -, -⟩ := h.toLayered.exists_start hs he
        have hle := ((holds_iff hb he).mp (hvs.2.1.2 e (h.toLayered.holds_end hv he'))).2.2
        omega
      · exact absurd (hvs.2.1.2 t (h.toLayered.holds_start hv hstart)) hout
  rw [pieces, hnone]
  refine if_neg ?_
  intro hst
  obtain ⟨hr, s', hs', ho⟩ := tokenOwner_of_isStatementOf hst
  obtain rfl := Option.some.inj hs'
  rcases hout with hb | hout
  · rw [isRoot_of_brace h hs hb] at hr
    exact absurd hr Bool.false_ne_true
  · exact hout ((h.innermost t ht s).mp ho).2.1

/-! ## The statements of a body -/

theorem mem_drop_iff (h : c.Layered) {i t : Nat} :
    t ∈ c.tokenList.drop i ↔ t ∈ c.tokenList ∧ i ≤ c.order t := by
  rw [List.mem_drop_iff_getElem]
  constructor
  · rintro ⟨j, hj, rfl⟩
    refine ⟨List.getElem_mem _, ?_⟩
    rw [order_eq_of_getElem? h (List.getElem?_eq_getElem _)]
    exact Nat.le_add_right _ _
  · rintro ⟨ht, hi⟩
    have hlt := order_lt_length ht
    refine ⟨c.order t - i, by omega, ?_⟩
    have hj : i + (c.order t - i) = c.order t := by omega
    simp only [hj]
    exact List.getElem_idxOf hlt

theorem flatMap_drop_of_passed (h : c.Layered) {f : Nat → List α} {i j : Nat} (hij : i ≤ j)
    (hf : ∀ t ∈ c.tokenList, i ≤ c.order t → c.order t < j → f t = []) :
    (c.tokenList.drop i).flatMap f = (c.tokenList.drop j).flatMap f := by
  induction j, hij using Nat.le_induction with
  | base => rfl
  | succ j hij ih =>
    rw [ih fun t ht hi hj => hf t ht hi (by omega)]
    cases ht : c.tokenList[j]? with
    | none =>
      have hle := List.getElem?_eq_none_iff.mp ht
      rw [List.drop_eq_nil_of_le hle, List.drop_eq_nil_of_le (by omega)]
    | some t =>
      have ho := order_eq_of_getElem? h ht
      rw [List.drop_eq_getElem?_toList_append, ht, Option.toList_some, List.singleton_append,
        List.flatMap_cons, hf t (List.mem_of_getElem? ht) (by omega) (by omega)]
      rfl

theorem drop_of_getElem? {i t : Nat} (ht : c.tokenList[i]? = some t) :
    c.tokenList.drop i = t :: c.tokenList.drop (i + 1) := by
  rw [List.drop_eq_getElem?_toList_append, ht]
  rfl

/-- Where the body of `u` begins reading goes on behind it, and what is passed over contributes
nothing. -/
theorem flatMap_nested (h : c.Layered) {t u e : Nat} {f : Nat → List α} (hu : c.Callable u)
    (hstart : (c.scope u).bodyStart = some t) (hend : (c.scope u).bodyEnd = some e)
    (hf : ∀ x, c.Holds u x → x ≠ t → f x = []) :
    ∃ j, c.order t < j ∧ c.behindBody u t = c.tokenList[j]? ∧ (c.token e).next = c.tokenList[j]?
      ∧ (c.tokenList.drop (c.order t + 1)).flatMap f = (c.tokenList.drop j).flatMap f := by
  obtain ⟨b, hb, -, hem, hlt⟩ := h.exists_start hu hend
  obtain rfl : b = t := Option.some.inj (hb.symm.trans hstart)
  have hnext : (c.token e).next = c.tokenList[c.order e + 1]? := h.next _ _ (getElem?_order hem)
  refine ⟨c.order e + 1, by omega, ?_, hnext, ?_⟩
  · rw [behindBody, hend]
    exact hnext
  · apply flatMap_drop_of_passed h (by omega)
    intro x hx hix hxj
    apply hf x ((holds_iff hb hend).mpr ⟨hx, by omega, by omega⟩)
    rintro rfl
    omega

/-- While the body of `s` is read, each token that is reached contributes what `f` says, and behind
its closing brace nothing contributes.  A body directly inside contributes where it begins. -/
structure Reads (c : Config) (s : Nat) (reached : Nat → Prop) (unit tree : Nat → Node)
    (f : Nat → List Node) : Prop where
  stop : ∀ t, reached t → (c.scope s).bodyEnd = some t →
    (c.tokenList.drop (c.order t)).flatMap f = []
  nested : ∀ t u e, reached t → (c.scope s).bodyEnd ≠ some t → c.nestedOf (some s) t = some u →
    (c.scope u).bodyEnd = some e →
    f t = [unit u] ∧ (∀ x, c.Holds u x → x ≠ t → f x = [])
      ∧ ∀ x, (c.token e).next = some x → reached x
  own : ∀ t, reached t → (c.scope s).bodyEnd ≠ some t → c.nestedOf (some s) t = none →
    f t = (if c.isStatementOf (some s) t then [tree t] else [])
      ∧ ∀ x, (c.token t).next = some x → reached x

/-- The statements of a body from the token of number `i` on are what the tokens from there on
contribute. -/
theorem statements_ok (h : c.Layered) (hr : c.Readable) {s : Nat} {reached : Nat → Prop}
    {unit tree : Nat → Node} {f : Nat → List Node} (hf : c.Reads s reached unit tree f)
    {descend : Nat → Except LowerError Node}
    (hunit : ∀ u, c.Callable u → c.Directly u (some s) → descend u = .ok (unit u))
    (htree : ∀ t ∈ c.tokenList, c.expression (some s) (some t) = .ok (tree t)) {steps i : Nat}
    (hi : c.tokenList.length ≤ i + steps) (hreached : ∀ t, c.tokenList[i]? = some t → reached t) :
    c.statements c.callableScopes descend s steps c.tokenList[i]?
      = .ok ((c.tokenList.drop i).flatMap f) := by
  induction steps generalizing i with
  | zero =>
    rw [Nat.add_zero] at hi
    rw [List.getElem?_eq_none hi, List.drop_eq_nil_of_le hi, statements]
    rfl
  | succ steps ih =>
    cases ht : c.tokenList[i]? with
    | none =>
      rw [List.drop_eq_nil_of_le (List.getElem?_eq_none_iff.mp ht), statements]
      rfl
    | some t =>
      have hrt := hreached t ht
      obtain rfl : c.order t = i := order_eq_of_getElem? h ht
      rw [statements]
      by_cases hend : (c.scope s).bodyEnd = some t
      · rw [if_pos hend, hf.stop t hrt hend]
      · rw [if_neg hend, nestedAt_ok hr, drop_of_getElem? ht, List.flatMap_cons]
        cases hn : c.nestedOf (some s) t with
        | some u =>
          obtain ⟨hu, hstart, hus⟩ := (nestedOf_eq_some_iff h).mp hn
          obtain ⟨-, e, -, he, -⟩ := h.body u hu
          obtain ⟨hft, hinside, hreach⟩ := hf.nested t u e hrt hend hn he
          obtain ⟨j, hj, hbehind, hnext, hpassed⟩ := flatMap_nested h hu hstart he hinside
          have hrest := ih (i := j) (by omega) fun x hx => hreach x (hnext.trans hx)
          rw [hpassed, hft]
          simp only [Except.mapError, bind, Except.bind, hunit u hu hus, hbehind, hrest, pure,
            Except.pure]
          rfl
        | none =>
          have htm := List.mem_of_getElem? ht
          have hnext : (c.token t).next = c.tokenList[c.order t + 1]? := h.next _ t ht
          obtain ⟨hft, hreach⟩ := hf.own t hrt hend hn
          have hrest := ih (i := c.order t + 1) (by omega) fun x hx => hreach x (hnext.trans hx)
          rw [isStatement_ok hr, hft]
          cases hst : c.isStatementOf (some s) t with
          | true =>
            simp only [Except.mapError, bind, Except.bind, htree t htm, hnext, hrest, pure,
              Except.pure, if_true]
            rfl
          | false =>
            simp only [Except.mapError, bind, Except.bind, hnext, hrest, Bool.false_eq_true,
              if_false, List.nil_append]

theorem length_tokenList_le (h : c.Layered) : c.tokenList.length ≤ c.tokens.size + 1 := by
  have hlt : ∀ t ∈ c.tokenList.dropLast, t ∈ List.range c.tokens.size := by
    intro t ht
    rw [List.mem_range]
    obtain ⟨i, hi⟩ := List.getElem?_of_mem ht
    obtain ⟨hlen, -⟩ := List.getElem?_eq_some_iff.mp hi
    rw [List.length_dropLast] at hlen
    rw [List.getElem?_dropLast, if_pos (by omega)] at hi
    have hnext := h.next i t hi
    rw [List.getElem?_eq_getElem (by omega)] at hnext
    by_contra hle
    rw [token_of_size_le (Nat.not_lt.mp hle)] at hnext
    exact absurd hnext (by simp)
  have hnodup : c.tokenList.dropLast.Nodup := h.distinct.sublist (List.dropLast_sublist _)
  have hle := (hnodup.subperm hlt).length_le
  rw [List.length_dropLast, List.length_range] at hle
  omega

/-- In a coherent configuration all tokens contribute their pieces. -/
theorem reads_pieces (h : c.Coherent) {s : Nat} (hs : c.Callable s) (unit tree : Nat → Node) :
    c.Reads s (fun _ => True) unit tree
      (c.pieces (some s) (fun u => [unit u]) fun t => [tree t]) where
  stop := by
    intro t _ hend
    obtain ⟨b, hb, -, htm, -⟩ := h.toLayered.exists_start hs hend
    rw [List.flatMap_eq_nil_iff]
    intro x hx
    obtain ⟨hxm, hxi⟩ := (mem_drop_iff h.toLayered).mp hx
    apply pieces_of_outside h hs hxm
    by_cases hxt : x = t
    · exact .inl (.inr (hxt ▸ hend))
    · refine .inr ?_
      intro hx
      have hle := ((holds_iff hb hend).mp hx).2.2
      exact hxt (order_inj hxm htm (by omega))
  nested := by
    intro t u e _ _ hn _
    obtain ⟨hu, hstart, hus⟩ := (nestedOf_eq_some_iff h.toLayered).mp hn
    refine ⟨by rw [pieces, hn], ?_, fun x _ => trivial⟩
    intro x hx hxt
    apply pieces_of_jumped h hu hus hx
    intro hx'
    exact hxt (Option.some.inj (hx'.symm.trans hstart))
  own := by
    intro t _ _ hn
    exact ⟨by rw [pieces, hn], fun x _ => trivial⟩

/-- The statements of a body are the pieces of all tokens. -/
theorem body_ok (h : c.Coherent) {s b : Nat} (hs : c.Callable s)
    (hb : (c.scope s).bodyStart = some b) {unit tree : Nat → Node}
    {descend : Nat → Except LowerError Node}
    (hunit : ∀ u, c.Callable u → c.Directly u (some s) → descend u = .ok (unit u))
    (htree : ∀ t ∈ c.tokenList, c.expression (some s) (some t) = .ok (tree t)) :
    c.statements c.callableScopes descend s (c.tokens.size + 1) (c.token b).next
      = .ok (c.tokenList.flatMap (c.pieces (some s) (fun u => [unit u]) fun t => [tree t])) := by
  obtain ⟨e, he, hbm, -, -⟩ := h.toLayered.exists_end hs hb
  have hlen := length_tokenList_le h.toLayered
  rw [h.next _ _ (getElem?_order hbm),
    statements_ok h.toLayered h.readable (reads_pieces h hs unit tree) hunit htree (by omega)
      fun _ _ => trivial,
    ← flatMap_drop_of_passed h.toLayered (Nat.zero_le _), List.drop_zero]
  rintro t ht - hle
  apply pieces_of_outside h hs ht
  by_cases htb : t = b
  · exact .inl (.inl (htb ▸ hb))
  · refine .inr ?_
    intro hin
    have hge := ((holds_iff hb he).mp hin).2.1
    exact htb (order_inj ht hbm (by omega))

end Config
end FinalParams
