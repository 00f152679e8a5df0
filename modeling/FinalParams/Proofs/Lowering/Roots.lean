import FinalParams.Proofs.Lowering.Units

/-!
# The tops of expressions

Every token with operands that belongs to a function or lambda is reached from the top of one
expression of that function or lambda.  `roots_eq` says that these tops are read in source order,
each of them once, however bodies are nested.
-/

namespace FinalParams
namespace Config

open Relation

variable {c : Config}

/-! ## The order of the tops -/

/-- A bound on the number of bodies inside that of `k`, or in the whole configuration. -/
noncomputable def innerOf (c : Config) (k : Option Nat) : Nat :=
  match k with
  | some s => c.inner s
  | none => c.scopes.size + 1

/-- The bodies directly inside one have fewer bodies inside. -/
theorem innerOf_lt (h : c.Coherent) {u depth : Nat} {k : Option Nat} (hu : c.Callable u)
    (hk : c.Directly u k) (hd : c.innerOf k < depth + 1) :
    (∀ s, some u = some s → c.Callable s) ∧ c.innerOf (some u) < depth := by
  have hlt : c.inner u < c.innerOf k := by
    cases k with
    | none => exact Nat.lt_succ_of_le (c.inner_le u)
    | some s => exact h.toLayered.inner_lt hu hk
  refine ⟨fun s hs => Option.some.inj hs ▸ hu, ?_⟩
  show c.inner u < depth
  omega

/-- A piece with a token in it either begins a body that holds this token or is this token. -/
theorem mem_pieces {k : Option Nat} {nested : Nat → List Nat} {t r : Nat}
    (hr : r ∈ c.pieces k nested (fun t => [t]) t) :
    (∃ u, c.nestedOf k t = some u ∧ r ∈ nested u)
      ∨ r = t ∧ c.isStatementOf k t = true ∧ c.nestedOf k t = none := by
  unfold pieces at hr
  split at hr
  · rename_i u hu
    exact .inl ⟨u, hu, hr⟩
  split at hr
  · rename_i hn hst
    exact .inr ⟨List.mem_singleton.mp hr, hst, hn⟩
  · exact absurd hr List.not_mem_nil

/-- The top of an expression that belongs to `s` is a piece of the body of `s`. -/
theorem pieces_of_own (h : c.Coherent) {s r : Nat} {nested : Nat → List Nat}
    (hroot : (c.token r).isRoot = true) (ho : c.tokenOwner r = some s) :
    c.pieces (some s) nested (fun t => [t]) r = [r] := by
  have hnone : c.nestedOf (some s) r = none := by
    cases hn : c.nestedOf (some s) r with
    | none => rfl
    | some u =>
      obtain ⟨hu, hstart, -⟩ := (nestedOf_eq_some_iff h.toLayered).mp hn
      rw [isRoot_of_brace h hu (.inl hstart)] at hroot
      exact absurd hroot Bool.false_ne_true
  have hst : c.isStatementOf (some s) r = true := by
    rw [isStatementOf, hroot, ho]
    exact beq_self_eq_true _
  rw [pieces, hnone]
  simp only [hst, if_true]

/-- What belongs to a function or lambda further inside is held by a body directly inside. -/
theorem exists_nested (h : c.Coherent) {k : Option Nat} {s r : Nat}
    (hk : ∀ s', k = some s' → c.Callable s') (hr : r ∈ c.tokenList)
    (ho : c.tokenOwner r = some s) (hholds : ∀ s', k = some s' → c.Holds s' r)
    (hks : k ≠ some s) :
    ∃ v, ∃ b ∈ c.tokenList, c.nestedOf k b = some v ∧ c.Holds v r := by
  obtain ⟨hs, hsr, hleast⟩ := (h.innermost r hr s).mp ho
  have hinside : ∀ s', k = some s' → c.Callable s' ∧ c.Inside s s' := by
    intro s' hs'
    refine ⟨hk s' hs', ?_⟩
    rcases hleast s' (hk s' hs') (hholds s' hs') with he | hin
    · exact absurd (he ▸ hs') hks
    · exact hin
  obtain ⟨v, hv, hvk, hsv⟩ := h.toLayered.exists_directly hs hinside
  obtain ⟨b, e, hb, -, hbm, -, -⟩ := h.body v hv
  refine ⟨v, b, hbm, (nestedOf_eq_some_iff h.toLayered).mpr ⟨hv, hb, hvk⟩, ?_⟩
  rcases hsv with rfl | hsv
  · exact hsr
  · exact hsv.2 r hsr

/-- A token is a top in a body if it is the top of an expression that some function or lambda owns,
and the body holds it. -/
theorem mem_rootsWithin_iff (h : c.Coherent) {k : Option Nat} {depth r : Nat}
    (hk : ∀ s, k = some s → c.Callable s) (hd : c.innerOf k < depth) :
    r ∈ c.rootsWithin depth k ↔ r ∈ c.tokenList ∧ (c.token r).isRoot = true
      ∧ (∃ s, c.tokenOwner r = some s) ∧ ∀ s, k = some s → c.Holds s r := by
  induction depth generalizing k with
  | zero => exact absurd hd (Nat.not_lt_zero _)
  | succ depth ih =>
    rw [rootsWithin, List.mem_flatMap]
    constructor
    · rintro ⟨t, ht, hr⟩
      rcases mem_pieces hr with ⟨u, hu, hr⟩ | ⟨rfl, hst, -⟩
      · obtain ⟨hcu, -, huk⟩ := (nestedOf_eq_some_iff h.toLayered).mp hu
        obtain ⟨hcallable, hlt⟩ := innerOf_lt h hcu huk hd
        obtain ⟨hrm, hroot, howner, hholds⟩ := (ih hcallable hlt).mp hr
        refine ⟨hrm, hroot, howner, ?_⟩
        rintro s rfl
        exact huk.2.1.2 r (hholds u rfl)
      · obtain ⟨hroot, s, rfl, ho⟩ := tokenOwner_of_isStatementOf hst
        refine ⟨ht, hroot, ⟨s, ho⟩, ?_⟩
        intro s' hs'
        obtain rfl := Option.some.inj hs'
        exact ((h.innermost r ht s).mp ho).2.1
    · rintro ⟨hrm, hroot, ⟨s, ho⟩, hholds⟩
      by_cases hks : k = some s
      · refine ⟨r, hrm, ?_⟩
        rw [hks, pieces_of_own h hroot ho]
        exact List.mem_singleton.mpr rfl
      · obtain ⟨v, b, hbm, hn, hvr⟩ := exists_nested h hk hrm ho hholds hks
        obtain ⟨hv, -, hvk⟩ := (nestedOf_eq_some_iff h.toLayered).mp hn
        obtain ⟨hcallable, hlt⟩ := innerOf_lt h hv hvk hd
        refine ⟨b, hbm, ?_⟩
        rw [pieces, hn]
        refine (ih hcallable hlt).mpr ⟨hrm, hroot, ⟨s, ho⟩, ?_⟩
        intro s' hs'
        exact Option.some.inj hs' ▸ hvr

theorem pairwise_tokenList (h : c.Coherent) :
    c.tokenList.Pairwise fun t u => c.order t < c.order u := by
  rw [List.pairwise_iff_getElem]
  intro i j hi hj hij
  rw [order_eq_of_getElem? h.toLayered (List.getElem?_eq_getElem hi),
    order_eq_of_getElem? h.toLayered (List.getElem?_eq_getElem hj)]
  exact hij

/-- The tops in a body that begins at `t` lie in that body. -/
theorem mem_nested (h : c.Coherent) {k : Option Nat} {depth t u r : Nat}
    (hd : c.innerOf k < depth + 1) (hn : c.nestedOf k t = some u)
    (hr : r ∈ c.rootsWithin depth (some u)) :
    c.Callable u ∧ c.Directly u k ∧ ∃ e, (c.scope u).bodyStart = some t
      ∧ (c.scope u).bodyEnd = some e ∧ c.order t ≤ c.order r ∧ c.order r ≤ c.order e := by
  obtain ⟨hu, hstart, huk⟩ := (nestedOf_eq_some_iff h.toLayered).mp hn
  obtain ⟨b, e, -, he, -⟩ := h.body u hu
  obtain ⟨hcallable, hlt⟩ := innerOf_lt h hu huk hd
  have hholds := ((mem_rootsWithin_iff h hcallable hlt).mp hr).2.2.2 u rfl
  obtain ⟨-, hle, hle'⟩ := (holds_iff hstart he).mp hholds
  exact ⟨hu, huk, e, hstart, he, hle, hle'⟩

/-- The tops in a body come in source order. -/
theorem pairwise_rootsWithin (h : c.Coherent) {k : Option Nat} {depth : Nat}
    (hk : ∀ s, k = some s → c.Callable s) (hd : c.innerOf k < depth) :
    (c.rootsWithin depth k).Pairwise fun t u => c.order t < c.order u := by
  induction depth generalizing k with
  | zero => exact absurd hd (Nat.not_lt_zero _)
  | succ depth ih =>
    -- no token of a piece stands before the token that contributes it
    have later : ∀ t r, r ∈ c.pieces k (fun u => c.rootsWithin depth (some u)) (fun t => [t]) t →
        c.order t ≤ c.order r := by
      intro t r hr
      rcases mem_pieces hr with ⟨u, hu, hru⟩ | ⟨rfl, -⟩
      · obtain ⟨-, -, e, -, -, hle, -⟩ := mem_nested h hd hu hru
        exact hle
      · exact Nat.le_refl _
    rw [rootsWithin, List.pairwise_flatMap]
    constructor
    · intro t _
      unfold pieces
      split
      · rename_i u hu
        obtain ⟨hcu, -, huk⟩ := (nestedOf_eq_some_iff h.toLayered).mp hu
        obtain ⟨hcallable, hlt⟩ := innerOf_lt h hcu huk hd
        exact ih hcallable hlt
      split
      · exact List.pairwise_singleton _ _
      · exact List.Pairwise.nil
    · refine (pairwise_tokenList h).imp_of_mem ?_
      intro t t' ht ht' htt' r hr r' hr'
      have hle' := later t' r' hr'
      rcases mem_pieces hr with ⟨u, hu, hru⟩ | ⟨rfl, -⟩
      · obtain ⟨hcu, huk, e, hb, he, -, hre⟩ := mem_nested h hd hu hru
        have hbehind : c.order e < c.order t' := by
          by_contra hle
          have hempty : c.pieces k (fun u => c.rootsWithin depth (some u)) (fun t => [t]) t'
              = [] := by
            apply pieces_of_jumped h hcu huk
            · exact (holds_iff hb he).mpr ⟨ht', htt'.le, Nat.not_lt.mp hle⟩
            · intro he'
              obtain rfl : t = t' := Option.some.inj (hb.symm.trans he')
              exact absurd htt' (lt_irrefl _)
          rw [hempty] at hr'
          exact absurd hr' List.not_mem_nil
        omega
      · omega

/-- Whether a token is the top of an expression that belongs to a function or lambda. -/
def isTop (c : Config) (t : Nat) : Bool := (c.token t).isRoot && (c.tokenOwner t).isSome

/-- The bodies are read in source order, and each top of an expression is read once. -/
theorem roots_eq (h : c.Coherent) : c.roots = c.tokenList.filter c.isTop := by
  have hk : ∀ s, (none : Option Nat) = some s → c.Callable s := fun s hs => nomatch hs
  have hd : c.innerOf none < c.scopes.size + 2 := Nat.lt_succ_self _
  have hsorted := pairwise_rootsWithin h hk hd
  have hsorted' := (pairwise_tokenList h).filter c.isTop
  have hne : ∀ {t u : Nat}, c.order t < c.order u → t ≠ u := by
    rintro t u hlt rfl
    exact lt_irrefl _ hlt
  rw [roots]
  refine List.Perm.eq_of_pairwise (fun t u _ _ htu hut => absurd htu hut.asymm) hsorted hsorted' ?_
  rw [List.perm_ext_iff_of_nodup (hsorted.imp hne) (hsorted'.imp hne)]
  intro r
  rw [mem_rootsWithin_iff h hk hd, List.mem_filter, isTop, Bool.and_eq_true,
    Option.isSome_iff_exists]
  constructor
  · rintro ⟨hr, hroot, howner, -⟩
    exact ⟨hr, hroot, howner⟩
  · rintro ⟨hr, hroot, howner⟩
    exact ⟨hr, hroot, howner, fun s hs => nomatch hs⟩

end Config
end FinalParams
