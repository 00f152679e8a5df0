import FinalParams.Proofs.Config.Coherent
import Mathlib.Data.Finset.Card

/-!
# The tokens of an expression

The tree of an expression has one node for each token that is reached from its top without leaving
the function or lambda it is lowered for.  `spread` lists these tokens in pre-order, each of them
once.
-/

namespace FinalParams

open Relation

namespace Config

variable {c : Config}

/-- The operands of `t` that become children in the function or lambda `s`. -/
def ownOperands (c : Config) (s t : Nat) : List Nat :=
  let tok := c.token t
  if tok.isAssignment && tok.op1.isSome then tok.operands
  else if tok.isStep then tok.op1.toList
  else if tok.isVariable then []
  else tok.operands.filter fun u => (c.token u).scope.isNone || c.tokenOwner u == some s

theorem ownTokens_ok (h : c.Readable) (s : Nat) (us : List Nat) :
    c.ownTokens s us
      = .ok (us.filter fun u => (c.token u).scope.isNone || c.tokenOwner u == some s) := by
  induction us with
  | nil => rfl
  | cons u rest ih =>
    have hlies : c.liesIn s u
        = .ok ((c.token u).scope.isNone || c.tokenOwner u == some s) := by
      unfold liesIn tokenOwner
      cases (c.token u).scope with
      | none => rfl
      | some r => exact h.belongsTo_ok (some r) s
    rw [ownTokens, hlies, ih, List.filter_cons]
    rfl

theorem openable_ok (h : c.Readable) (t : Nat) : c.openable t = .ok () := by
  unfold openable
  simp only [h.lookUp_ok, h.variableId?_ok]
  split
  · rfl
  · cases (c.token t).isBareName <;> rfl

theorem openedOperands_ok (h : c.Readable) (s t : Nat) :
    c.openedOperands (some s) t = .ok (c.ownOperands s t) := by
  have hopen := openable_ok h t
  have hlow : c.loweredOperands (some s) t = .ok (c.ownOperands s t) := by
    unfold loweredOperands ownOperands
    simp only [ownTokens_ok h]
    split
    · rfl
    split
    · rfl
    split <;> rfl
  simp only [openedOperands, hopen, hlow]

theorem ownOperands_sublist (c : Config) (s t : Nat) :
    (c.ownOperands s t).Sublist (c.token t).operands := by
  unfold ownOperands
  simp only
  split
  · exact List.Sublist.refl _
  split
  · exact List.sublist_append_left _ _
  split
  · exact List.nil_sublist _
  · exact List.filter_sublist

/-- The tokens of the expression at `t` that belong to the function or lambda `s`, in pre-order, of
which no path is as long as the budget. -/
def spreadWithin (c : Config) (s : Nat) : Nat → Nat → List Nat
  | 0, _ => []
  | budget + 1, t => t :: (c.ownOperands s t).flatMap (c.spreadWithin s budget)

/-! ## Ranks -/

open Classical in
/-- The tokens with operands that are reached from `t`, counted.  Operands have lower ranks. -/
noncomputable def rank (c : Config) (t : Nat) : Nat :=
  ((Finset.range c.tokens.size).filter
    fun u => ReflTransGen (fun t u => u ∈ (c.token t).operands) t u).card

open Classical in
theorem rank_le (c : Config) (t : Nat) : c.rank t ≤ c.tokens.size :=
  (Finset.card_filter_le _ _).trans (Finset.card_range _).le

theorem lt_size_of_operand {t u : Nat} (hu : u ∈ (c.token t).operands) : t < c.tokens.size := by
  by_contra hlt
  rw [token_of_size_le (Nat.not_lt.mp hlt)] at hu
  exact absurd hu List.not_mem_nil

/-- Where operands lie lower than what they are operands of, no operands go in a circle. -/
theorem acyclic_of_height (height : Nat → Nat)
    (h : ∀ t < c.tokens.size, ∀ u ∈ (c.token t).operands, height u < height t) (t : Nat) :
    ¬ TransGen (fun t u => u ∈ (c.token t).operands) t t := by
  intro ht
  have hlt : TransGen (fun i j : Nat => j < i) (height t) (height t) :=
    ht.lift height fun v u hu => h v (lt_size_of_operand hu) u hu
  rw [transGen_eq_self] at hlt
  exact Nat.lt_irrefl _ hlt

open Classical in
theorem rank_lt_of_acyclic {t u : Nat}
    (h : ¬ TransGen (fun t u => u ∈ (c.token t).operands) t t)
    (hu : u ∈ (c.token t).operands) : c.rank u < c.rank t := by
  unfold rank
  apply Finset.card_lt_card
  rw [Finset.ssubset_iff_of_subset]
  · refine ⟨t, ?_, ?_⟩
    · exact Finset.mem_filter.mpr
        ⟨Finset.mem_range.mpr (lt_size_of_operand hu), ReflTransGen.refl⟩
    · intro hmem
      exact h (TransGen.head' hu (Finset.mem_filter.mp hmem).2)
  · intro x hx
    obtain ⟨hr, hux⟩ := Finset.mem_filter.mp hx
    exact Finset.mem_filter.mpr ⟨hr, hux.head hu⟩

theorem rank_lt (h : c.Coherent) {t u : Nat} (ht : t ∈ c.tokenList)
    (hu : u ∈ (c.token t).operands) : c.rank u < c.rank t :=
  rank_lt_of_acyclic (h.acyclic t ht) hu

/-! ## Spreads -/

/-- `u` is one of the operands of `t` that become children in the function or lambda `s`. -/
def Below (c : Config) (s t u : Nat) : Prop := u ∈ c.ownOperands s t

/-- The tokens of the expression at `t` that belong to the function or lambda `s`, in pre-order. -/
def spread (c : Config) (s t : Nat) : List Nat := c.spreadWithin s (c.tokens.size + 1) t

theorem Below.operand {s t u : Nat} (h : c.Below s t u) : u ∈ (c.token t).operands :=
  (c.ownOperands_sublist s t).subset h

/-- Whatever is reached from a listed token is listed, and its rank is not higher. -/
theorem mem_of_reached (h : c.Coherent) {s t u : Nat} (ht : t ∈ c.tokenList)
    (hu : ReflTransGen (c.Below s) t u) : u ∈ c.tokenList ∧ c.rank u ≤ c.rank t := by
  induction hu with
  | refl => exact ⟨ht, Nat.le_refl _⟩
  | tail _ hvu ih =>
    exact ⟨h.operand_mem _ ih.1 _ hvu.operand,
      ((rank_lt h ih.1 hvu.operand).le).trans ih.2⟩

theorem mem_spreadWithin_iff (h : c.Coherent) {s t x budget : Nat} (ht : t ∈ c.tokenList)
    (hb : c.rank t < budget) :
    x ∈ c.spreadWithin s budget t ↔ ReflTransGen (c.Below s) t x := by
  induction budget generalizing t with
  | zero => exact absurd hb (Nat.not_lt_zero _)
  | succ b ih =>
    have hbelow : ∀ u ∈ c.ownOperands s t,
        x ∈ c.spreadWithin s b u ↔ ReflTransGen (c.Below s) u x := by
      intro u hu
      have hlt := rank_lt h ht (Below.operand hu)
      exact ih (h.operand_mem t ht u (Below.operand hu)) (by omega)
    rw [spreadWithin, List.mem_cons, List.mem_flatMap, ReflTransGen.cases_head_iff, eq_comm]
    constructor
    · rintro (rfl | ⟨u, hu, hx⟩)
      · exact .inl rfl
      · exact .inr ⟨u, hu, (hbelow u hu).mp hx⟩
    · rintro (rfl | ⟨u, hu, hx⟩)
      · exact .inl rfl
      · exact .inr ⟨u, hu, (hbelow u hu).mpr hx⟩

theorem mem_spread_iff (h : c.Coherent) {s t x : Nat} (ht : t ∈ c.tokenList) :
    x ∈ c.spread s t ↔ ReflTransGen (c.Below s) t x :=
  mem_spreadWithin_iff h ht (Nat.lt_succ_of_le (c.rank_le t))

/-- Two tokens with a common token below them lie one below the other. -/
theorem reached_total (h : c.Coherent) {s t u x : Nat} (ht : t ∈ c.tokenList)
    (hu : u ∈ c.tokenList) (htx : ReflTransGen (c.Below s) t x)
    (hux : ReflTransGen (c.Below s) u x) :
    ReflTransGen (c.Below s) t u ∨ ReflTransGen (c.Below s) u t := by
  induction htx generalizing u with
  | refl => exact .inr hux
  | tail htv hvx ih =>
    rcases hux.cases_tail with rfl | ⟨v', huv', hv'x⟩
    · exact .inl (htv.tail hvx)
    · have hv := (mem_of_reached h ht htv).1
      have hv' := (mem_of_reached h hu huv').1
      have hx := h.operand_mem _ hv _ hvx.operand
      have hp := (h.links _ hv _ hx).mp hvx.operand
      have hp' := (h.links _ hv' _ hx).mp hv'x.operand
      rw [hp, Option.some.injEq] at hp'
      exact ih hu (hp' ▸ huv')

/-- No token lies below two operands of one token. -/
theorem operand_unique (h : c.Coherent) {s t u v x : Nat} (ht : t ∈ c.tokenList)
    (hu : c.Below s t u) (hv : c.Below s t v) (hux : ReflTransGen (c.Below s) u x)
    (hvx : ReflTransGen (c.Below s) v x) : u = v := by
  have same : ∀ {u v}, c.Below s t u → c.Below s t v → ReflTransGen (c.Below s) u v → u = v := by
    intro u v hu hv huv
    rcases huv.cases_tail with rfl | ⟨p, hup, hpv⟩
    · rfl
    · have hum := h.operand_mem t ht u hu.operand
      have hvm := h.operand_mem t ht v hv.operand
      have hpm := mem_of_reached h hum hup
      have hp := (h.links _ hpm.1 _ hvm).mp hpv.operand
      have hp' := (h.links _ ht _ hvm).mp hv.operand
      rw [hp, Option.some.injEq] at hp'
      subst hp'
      have hlt := rank_lt h ht hu.operand
      omega
  have hum := h.operand_mem t ht u hu.operand
  have hvm := h.operand_mem t ht v hv.operand
  rcases reached_total h hum hvm hux hvx with huv | hvu
  · exact same hu hv huv
  · exact (same hv hu hvu).symm

theorem spreadWithin_nodup (h : c.Coherent) {s t budget : Nat} (ht : t ∈ c.tokenList)
    (hb : c.rank t < budget) : (c.spreadWithin s budget t).Nodup := by
  induction budget generalizing t with
  | zero => exact absurd hb (Nat.not_lt_zero _)
  | succ b ih =>
    have hbelow : ∀ u ∈ c.ownOperands s t, u ∈ c.tokenList ∧ c.rank u < c.rank t := fun u hu =>
      ⟨h.operand_mem t ht u (Below.operand hu), rank_lt h ht (Below.operand hu)⟩
    rw [spreadWithin, List.nodup_cons, List.nodup_flatMap]
    refine ⟨?_, ?_, ?_⟩
    · intro hmem
      obtain ⟨u, hu, htu⟩ := List.mem_flatMap.mp hmem
      obtain ⟨hum, hlt⟩ := hbelow u hu
      rw [mem_spreadWithin_iff h hum (by omega)] at htu
      have hle := (mem_of_reached h hum htu).2
      omega
    · intro u hu
      obtain ⟨hum, hlt⟩ := hbelow u hu
      exact ih hum (by omega)
    · have hnodup := (h.once t ht).sublist (c.ownOperands_sublist s t)
      refine hnodup.imp_of_mem ?_
      intro u v hu hv huv x hxu hxv
      obtain ⟨hum, hltu⟩ := hbelow u hu
      obtain ⟨hvm, hltv⟩ := hbelow v hv
      rw [mem_spreadWithin_iff h hum (by omega)] at hxu
      rw [mem_spreadWithin_iff h hvm (by omega)] at hxv
      exact huv (operand_unique h ht hu hv hxu hxv)

theorem spread_nodup (h : c.Coherent) (s : Nat) {t : Nat} (ht : t ∈ c.tokenList) :
    (c.spread s t).Nodup :=
  spreadWithin_nodup h ht (Nat.lt_succ_of_le (c.rank_le t))

end Config
end FinalParams
