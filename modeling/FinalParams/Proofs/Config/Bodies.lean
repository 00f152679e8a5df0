import FinalParams.Proofs.Config.Coherent
import Mathlib.Data.Finset.Card

/-!
# Bodies of functions and lambdas

Bodies that lie directly inside the same body have no token in common, and a body that lies anywhere
inside another one lies in one that is directly inside.  `depth` counts the bodies inside a body,
and it falls from each body to the ones directly inside.
-/

namespace FinalParams
namespace Config

variable {c : Config}

theorem order_lt_length {t : Nat} (ht : t ∈ c.tokenList) : c.order t < c.tokenList.length :=
  List.idxOf_lt_length_of_mem ht

theorem getElem?_order {t : Nat} (ht : t ∈ c.tokenList) :
    c.tokenList[c.order t]? = some t := List.getElem?_idxOf ht

theorem order_eq_of_getElem? (h : c.Layered) {i t : Nat} (hi : c.tokenList[i]? = some t) :
    c.order t = i := by
  obtain ⟨hlt, rfl⟩ := List.getElem?_eq_some_iff.mp hi
  exact h.distinct.idxOf_getElem i hlt

theorem order_inj {t u : Nat} (ht : t ∈ c.tokenList) (hu : u ∈ c.tokenList)
    (h : c.order t = c.order u) : t = u := by
  have hget := getElem?_order ht
  rw [h, getElem?_order hu] at hget
  exact (Option.some.inj hget).symm

/-! ## What a body holds -/

theorem Layered.exists_end (h : c.Layered) {s b : Nat} (hs : c.Callable s)
    (hb : (c.scope s).bodyStart = some b) :
    ∃ e, (c.scope s).bodyEnd = some e ∧ b ∈ c.tokenList ∧ e ∈ c.tokenList
      ∧ c.order b < c.order e := by
  obtain ⟨b', e, hb', he, hbm, hem, hlt⟩ := h.body s hs
  obtain rfl : b' = b := Option.some.inj (hb'.symm.trans hb)
  exact ⟨e, he, hbm, hem, hlt⟩

theorem Layered.exists_start (h : c.Layered) {s e : Nat} (hs : c.Callable s)
    (he : (c.scope s).bodyEnd = some e) :
    ∃ b, (c.scope s).bodyStart = some b ∧ b ∈ c.tokenList ∧ e ∈ c.tokenList
      ∧ c.order b < c.order e := by
  obtain ⟨b, e', hb, he', hbm, hem, hlt⟩ := h.body s hs
  obtain rfl : e' = e := Option.some.inj (he'.symm.trans he)
  exact ⟨b, hb, hbm, hem, hlt⟩

theorem holds_iff {s b e t : Nat} (hb : (c.scope s).bodyStart = some b)
    (he : (c.scope s).bodyEnd = some e) :
    c.Holds s t ↔ t ∈ c.tokenList ∧ c.order b ≤ c.order t ∧ c.order t ≤ c.order e := by
  simp [Holds, hb, he]

theorem within_iff {s b e t : Nat} (hb : (c.scope s).bodyStart = some b)
    (he : (c.scope s).bodyEnd = some e) :
    c.Within s t ↔ t ∈ c.tokenList ∧ c.order b < c.order t ∧ c.order t < c.order e := by
  simp [Within, hb, he]

theorem Layered.holds_start (h : c.Layered) {s b : Nat} (hs : c.Callable s)
    (hb : (c.scope s).bodyStart = some b) : c.Holds s b := by
  obtain ⟨e, he, hbm, -, hlt⟩ := h.exists_end hs hb
  exact (holds_iff hb he).mpr ⟨hbm, Nat.le_refl _, hlt.le⟩

theorem Layered.holds_end (h : c.Layered) {s e : Nat} (hs : c.Callable s)
    (he : (c.scope s).bodyEnd = some e) : c.Holds s e := by
  obtain ⟨b, hb, -, hem, hlt⟩ := h.exists_start hs he
  exact (holds_iff hb he).mpr ⟨hem, hlt.le, Nat.le_refl _⟩

theorem Layered.inside_asymm (h : c.Layered) {s u : Nat} (hs : c.Callable s)
    (hu : c.Callable u) (hus : c.Inside u s) : ¬ c.Inside s u := by
  intro hsu
  obtain ⟨b, e, hb, he, hbm, -, -⟩ := h.body s hs
  obtain ⟨b', e', hb', he', hbm', -, -⟩ := h.body u hu
  have hle := ((holds_iff hb he).mp (hus.2 b' (h.holds_start hu hb'))).2.1
  have hge := ((holds_iff hb' he').mp (hsu.2 b (h.holds_start hs hb))).2.1
  obtain rfl := order_inj hbm hbm' (Nat.le_antisymm hle hge)
  exact h.start u s hu hs hus.1 (hb'.trans hb.symm)

theorem Layered.inside_trans (h : c.Layered) {s u v : Nat} (hu : c.Callable u)
    (hv : c.Callable v) (hvu : c.Inside v u) (hus : c.Inside u s) : c.Inside v s := by
  refine ⟨?_, fun t ht => hus.2 t (hvu.2 t ht)⟩
  rintro rfl
  exact h.inside_asymm hu hv hvu hus

theorem Layered.start_lt (h : c.Layered) {s u b b' : Nat} (hs : c.Callable s)
    (hu : c.Callable u) (hus : c.Inside u s) (hb : (c.scope s).bodyStart = some b)
    (hb' : (c.scope u).bodyStart = some b') : c.order b < c.order b' := by
  obtain ⟨e, he, hbm, -, -⟩ := h.exists_end hs hb
  obtain ⟨hm, hle, -⟩ := (holds_iff hb he).mp (hus.2 b' (h.holds_start hu hb'))
  refine lt_of_le_of_ne hle ?_
  intro heq
  obtain rfl := order_inj hbm hm heq
  exact h.start u s hu hs hus.1 (hb'.trans hb.symm)

/-! ## Bodies directly inside another one -/

theorem Directly.ne {u : Nat} {k : Option Nat} (hk : c.Directly u k) : some u ≠ k := by
  rintro rfl
  exact hk.2.1.1 rfl

/-- Distinct bodies directly inside the same one have no token in common. -/
theorem Layered.directly_apart (h : c.Layered) {u v t : Nat} {k : Option Nat}
    (hu : c.Callable u) (hv : c.Callable v) (huk : c.Directly u k) (hvk : c.Directly v k)
    (hut : c.Holds u t) (hvt : c.Holds v t) : u = v := by
  have apart : ∀ {u v}, c.Callable u → c.Callable v → c.Directly u k → c.Directly v k →
      ¬ c.Inside u v := by
    intro u v hu hv huk hvk huv
    cases k with
    | none => exact huk v hv huv
    | some s =>
      rcases huk.2.2 v hv huv with rfl | hsv
      · exact hvk.ne rfl
      · exact h.inside_asymm hvk.1 hv hvk.2.1 hsv
  by_contra hne
  rcases h.nested u v hu hv hne with hd | huv | hvu
  · exact hd t ⟨hut, hvt⟩
  · exact apart hu hv huk hvk huv
  · exact apart hv hu hvk huk hvu

/-- Every body inside another one lies in a body that is directly inside that one. -/
theorem Layered.exists_directly (h : c.Layered) {u : Nat} {k : Option Nat} (hu : c.Callable u)
    (hk : ∀ s, k = some s → c.Callable s ∧ c.Inside u s) :
    ∃ v, c.Callable v ∧ c.Directly v k ∧ (v = u ∨ c.Inside u v) := by
  obtain ⟨b, e, hb, he, hbm, -, -⟩ := h.body u hu
  -- the induction is on the place where the body begins, as larger bodies begin earlier
  induction hn : c.order b using Nat.strongRecOn generalizing u b e with
  | ind n ih =>
    subst hn
    have larger : ∀ v, c.Callable v → c.Inside u v → (∀ s, k = some s → c.Inside v s) →
        ∃ w, c.Callable w ∧ c.Directly w k ∧ (w = u ∨ c.Inside u w) := by
      intro v hv huv hvk
      obtain ⟨b', e', hb', he', hbm', -, -⟩ := h.body v hv
      obtain ⟨w, hw, hwk, hvw⟩ := ih (c.order b') (h.start_lt hv hu huv hb' hb) hv
        (fun s hs => ⟨(hk s hs).1, hvk s hs⟩) b' e' hb' he' hbm' rfl
      refine ⟨w, hw, hwk, .inr ?_⟩
      rcases hvw with rfl | hvw
      · exact huv
      · exact h.inside_trans hv hu huv hvw
    by_cases hd : c.Directly u k
    · exact ⟨u, hu, hd, .inl rfl⟩
    cases k with
    | none =>
      have hex : ∃ v, c.Callable v ∧ c.Inside u v := by
        by_contra hno
        exact hd fun v hv huv => hno ⟨v, hv, huv⟩
      obtain ⟨v, hv, huv⟩ := hex
      exact larger v hv huv (fun s hs => nomatch hs)
    | some s =>
      obtain ⟨hs, hus⟩ := hk s rfl
      have hex : ∃ v, c.Callable v ∧ c.Inside u v ∧ v ≠ s ∧ ¬ c.Inside s v := by
        by_contra hno
        refine hd ⟨hs, hus, ?_⟩
        intro v hv huv
        by_contra hboth
        rw [not_or] at hboth
        exact hno ⟨v, hv, huv, hboth⟩
      obtain ⟨v, hv, huv, hvs, hsv⟩ := hex
      have hstart := h.holds_start hu hb
      rcases h.nested v s hv hs hvs with hdisjoint | hin | hin
      · exact absurd ⟨huv.2 b hstart, hus.2 b hstart⟩ (hdisjoint b)
      · exact larger v hv huv (fun s' hs' => Option.some.inj hs' ▸ hin)
      · exact absurd hin hsv

/-- What lies innermost in a body lies in none of the bodies directly inside. -/
theorem Layered.not_holds_of_innermost (h : c.Layered) {s u t : Nat} (hu : c.Callable u)
    (hus : c.Directly u (some s)) (ht : c.Innermost s t) : ¬ c.Holds u t := by
  intro hut
  rcases ht.2.2 u hu hut with rfl | hsu
  · exact hus.ne rfl
  · exact h.inside_asymm ht.1 hu hus.2.1 hsu

/-! ## Depth -/

theorem lt_size_of_callable {s : Nat} (hs : c.Callable s) : s < c.scopes.size := by
  by_contra hlt
  rw [Callable, scope_of_size_le (Nat.not_lt.mp hlt)] at hs
  exact absurd hs (by decide)

open Classical in
/-- The number of functions and lambdas whose bodies lie inside that of `s`. -/
noncomputable def inner (c : Config) (s : Nat) : Nat :=
  ((Finset.range c.scopes.size).filter fun u => c.Callable u ∧ c.Inside u s).card

open Classical in
theorem inner_le (c : Config) (s : Nat) : c.inner s ≤ c.scopes.size :=
  (Finset.card_filter_le _ _).trans (Finset.card_range _).le

open Classical in
theorem Layered.inner_lt (h : c.Layered) {s u : Nat} (hu : c.Callable u)
    (hus : c.Directly u (some s)) : c.inner u < c.inner s := by
  unfold inner
  apply Finset.card_lt_card
  rw [Finset.ssubset_iff_of_subset]
  · refine ⟨u, ?_, ?_⟩
    · exact Finset.mem_filter.mpr
        ⟨Finset.mem_range.mpr (lt_size_of_callable hu), hu, hus.2.1⟩
    · intro hmem
      exact (Finset.mem_filter.mp hmem).2.2.1 rfl
  · intro v hv
    obtain ⟨hr, hcv, hvu⟩ := Finset.mem_filter.mp hv
    exact Finset.mem_filter.mpr ⟨hr, hcv, h.inside_trans hu hcv hvu hus.2.1⟩

end Config
end FinalParams
