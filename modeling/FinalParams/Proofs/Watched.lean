import FinalParams.Proofs.FirstOccurrences
import FinalParams.Proofs.Sequence
import FinalParams.Watched

/-!
# What a set of watched names covers

A set is made from a parameter list by leaving out what cannot be assigned and what is there
already.  `ofParameterList_covers` says that none of this can be seen from outside: a name is
covered exactly if it agrees with that of some parameter that is named and not immutable.
-/

namespace FinalParams

namespace Datum

/-- Values that can be looked up. -/
def IsKey (d : Datum) : Prop := ∃ k, d.key? = .ok k

theorem isKey_text (s : String) : (text s).IsKey := ⟨_, rfl⟩

theorem isKey_int (n : Int) : (int n).IsKey := ⟨_, rfl⟩

theorem isKey_null : null.IsKey := ⟨_, rfl⟩

theorem agrees_iff {a b : Datum} :
    a.agrees b = true ↔ ∃ k, a.key? = .ok k ∧ b.key? = .ok k := by
  unfold agrees
  cases a.key? with
  | error e => simp
  | ok k =>
    cases b.key? with
    | error e => simp
    | ok l =>
      simp only [beq_iff_eq, Except.ok.injEq, exists_eq_left']
      exact eq_comm

theorem agrees_symm {a b : Datum} (h : a.agrees b = true) : b.agrees a = true := by
  obtain ⟨k, ha, hb⟩ := agrees_iff.mp h
  exact agrees_iff.mpr ⟨k, hb, ha⟩

theorem agrees_trans {a b c : Datum} (hab : a.agrees b = true) (hbc : b.agrees c = true) :
    a.agrees c = true := by
  obtain ⟨k, ha, hb⟩ := agrees_iff.mp hab
  obtain ⟨l, hb', hc⟩ := agrees_iff.mp hbc
  rw [hb] at hb'
  obtain rfl : k = l := Except.ok.inj hb'
  exact agrees_iff.mpr ⟨k, ha, hc⟩

theorem truthy_of_agrees {a b : Datum} (h : a.agrees b = true) : a.truthy = b.truthy := by
  have hkey : ∀ {d k : Datum}, d.key? = .ok k → k.truthy = d.truthy := by
    intro d k hk
    unfold key? at hk
    split at hk
    · cases hk
    · cases hk
    · exact Except.ok.inj hk ▸ truthy_canonical d
  obtain ⟨k, ha, hb⟩ := agrees_iff.mp h
  exact (hkey ha).symm.trans (hkey hb)

end Datum

namespace Identifier

theorem agrees_trans {a b c : Identifier} (hab : a.agrees b = true) (hbc : b.agrees c = true) :
    a.agrees c = true := by
  simp only [agrees, Bool.and_eq_true] at *
  exact ⟨Datum.agrees_trans hab.1 hbc.1, Datum.agrees_trans hab.2 hbc.2⟩

theorem keys?_of_isKey {i : Identifier} (hn : i.name.IsKey) (hb : i.binding.IsKey) :
    ∃ k, i.keys? = .ok k := by
  obtain ⟨k, hk⟩ := hn
  obtain ⟨l, hl⟩ := hb
  exact ⟨(k, l), by simp [keys?, hk, hl, bind, Except.bind, pure, Except.pure]⟩

end Identifier

namespace Watched

theorem ofIdentifiers_ok {ids : List Identifier} (h : ∀ i ∈ ids, ∃ k, i.keys? = .ok k) :
    ofIdentifiers ids = .ok (ids.eraseDupsBy Identifier.agrees) := by
  have hall : (ids.forM fun i => do discard i.keys? : Except Misfit Unit) = .ok () := by
    rw [forM_ok_iff]
    intro i hi
    obtain ⟨k, hk⟩ := h i hi
    rw [hk]
    rfl
  unfold ofIdentifiers
  rw [hall]
  rfl

/-- In a set of names that can be looked up every such name is covered or not. -/
theorem covers_ok {i : Identifier} (h : ∃ k, i.keys? = .ok k) (w : Watched) :
    w.covers i = .ok (w.any i.agrees) := by
  obtain ⟨k, hk⟩ := h
  cases w with
  | nil => rfl
  | cons a rest => simp [covers, hk, Except.map]

/-- A parameter that can be assigned and whose name agrees with `i`. -/
def Assignable (params : Option (List (Option Parameter))) (i : Identifier) : Prop :=
  ∃ p, some p ∈ params.getD [] ∧ p.immutable.truthy = false ∧ p.name.truthy = true
    ∧ i.agrees ⟨p.name, p.binding⟩ = true

theorem watched?_eq_some {p : Parameter} {j : Identifier} :
    p.watched? = some j ↔
      p.immutable.truthy = false ∧ p.name.truthy = true ∧ j = ⟨p.name, p.binding⟩ := by
  unfold Parameter.watched? Parameter.ident?
  cases p.immutable.truthy <;> cases p.name.truthy <;> simp [eq_comm]

theorem mem_identifiers {params : List (Option Parameter)} {j : Identifier} :
    j ∈ params.filterMap (Option.bind · Parameter.watched?)
      ↔ ∃ p, some p ∈ params ∧ p.watched? = some j := by
  rw [List.mem_filterMap]
  constructor
  · rintro ⟨_ | p, hp, hj⟩
    · contradiction
    · exact ⟨p, hp, hj⟩
  · rintro ⟨p, hp, hj⟩
    exact ⟨some p, hp, hj⟩

/-- A set that is made from a list of parameters covers the names of those that can be assigned. -/
theorem any_iff_assignable {params : Option (List (Option Parameter))} {w : Watched}
    (h : ofParameterList params = .ok w) (i : Identifier) :
    w.any i.agrees = true ↔ Assignable params i := by
  obtain ⟨u, -, h⟩ := exists_of_bind_ok h
  rw [← Except.ok.inj h, any_eraseDupsBy fun a b hba hb => Identifier.agrees_trans hb hba,
    List.any_eq_true]
  constructor
  · rintro ⟨j, hj, hi⟩
    obtain ⟨p, hp, hw⟩ := mem_identifiers.mp hj
    obtain ⟨him, hn, rfl⟩ := watched?_eq_some.mp hw
    exact ⟨p, hp, him, hn, hi⟩
  · rintro ⟨p, hp, him, hn, hi⟩
    exact ⟨_, mem_identifiers.mpr ⟨p, hp, watched?_eq_some.mpr ⟨him, hn, rfl⟩⟩, hi⟩

theorem any_of_covers {w : Watched} {i : Identifier} (h : w.covers i = .ok true) :
    w.any i.agrees = true := by
  unfold covers at h
  split at h
  · cases h
  · obtain ⟨k, -, h⟩ := exists_of_map_ok h
    exact h

/-- A set is made from every list of parameters whose names can be looked up, and it covers the
names of those that can be assigned. -/
theorem ofParameterList_covers {params : Option (List (Option Parameter))}
    (h : ∀ p, some p ∈ params.getD [] → p.name.IsKey ∧ p.binding.IsKey) :
    ∃ w, ofParameterList params = .ok w ∧
      ∀ i, w.any i.agrees = true ↔ Assignable params i := by
  have hkeys : ∀ j ∈ (params.getD []).filterMap (Option.bind · Parameter.watched?),
      ∃ k, j.keys? = .ok k := by
    intro j hj
    obtain ⟨p, hp, hw⟩ := mem_identifiers.mp hj
    obtain ⟨-, -, rfl⟩ := watched?_eq_some.mp hw
    exact Identifier.keys?_of_isKey (h p hp).1 (h p hp).2
  exact ⟨_, ofIdentifiers_ok hkeys, any_iff_assignable (ofIdentifiers_ok hkeys)⟩

end Watched
end FinalParams
