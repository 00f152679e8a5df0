import FinalParams.Config.Ownership
import FinalParams.Proofs.Watched

/-!
# The owner of a scope

The way out from a scope leads to the scope that it is nested in, and on from there.  The owner of a
scope is the first function or lambda on this way.  In a damaged dump the way may run into a circle,
and the search for the owner stops where it comes to a scope that it has been at before.
`callableAround_nearest` says that this hides no function or lambda, wherever the circle is entered:
what is found is the first one on the way, however far the way is followed.

Two searches that begin at a scope and behind it have passed different scopes when they come to the
same one.  So the induction is over a search that has passed some scopes already.  It keeps the
invariant that a way out of these scopes leads to one of them or to where the search goes on.
-/

namespace FinalParams

theorem Scope.isCallable?_of_isKey {s : Scope} (h : s.kind.IsKey) :
    s.isCallable? = .ok s.isCallable := by
  obtain ⟨k, hk⟩ := h
  rw [isCallable?, hk]
  rfl

namespace Config

variable {c : Config}

/-- Where `k` steps on the way out lead, if the way begins at `s`. -/
def outward (c : Config) : Nat → Option Nat → Option Nat
  | 0, s => s
  | k + 1, s => c.outward k (s.bind fun a => (c.scope a).nestedIn)

/-- A search for an owner goes on behind the scope `a`, which is known to be no function or lambda. -/
def Passes (c : Config) (a : Nat) : Prop := (c.scope a).isCallable? = .ok false

/-- On the way out from `s` the scope `a` is the first one behind which a search does not go on. -/
def FirstStop (c : Config) (s : Option Nat) (a : Nat) : Prop :=
  ¬ c.Passes a ∧ ∃ k, c.outward k s = some a ∧ ∀ j < k, ∀ b, c.outward j s = some b → c.Passes b

/-- A search goes on behind all scopes on the way out from `s`. -/
def PassesAll (c : Config) (s : Option Nat) : Prop :=
  ∀ k b, c.outward k s = some b → c.Passes b

/-- The owner of the scope `s` is the first function or lambda on the way out from it. -/
structure OwnedByNearest (c : Config) (s : Nat) : Prop where
  /-- A function or lambda is found exactly if it is the first one on the way out. -/
  found : ∀ a, c.callableAround (some s) = .ok (some a)
    ↔ c.FirstStop (some s) a ∧ (c.scope a).isCallable = true
  /-- Nothing is found exactly if there is none, however far the way out is followed. -/
  missing : c.callableAround (some s) = .ok none ↔ c.PassesAll (some s)
  /-- The search fails exactly if it comes to a scope of which it cannot be told what it is. -/
  failing : ∀ e, c.callableAround (some s) = .error e
    ↔ ∃ a, c.FirstStop (some s) a ∧ (c.scope a).isCallable? = .error e
  /-- So it does not fail where all kinds on the way out can be looked up. -/
  readable : (∀ k a, c.outward k (some s) = some a → (c.scope a).kind.IsKey) →
    ∃ o, c.callableAround (some s) = .ok o
  /-- A function or lambda is its own owner. -/
  callable : (c.scope s).isCallable = true → c.callableAround (some s) = .ok (some s)
  /-- Every other scope has the owner of the scope that it is nested in, also on a circle. -/
  inherited : (c.scope s).isCallable? = .ok false →
    c.callableAround (some s) = c.callableAround (c.scope s).nestedIn
  /-- The owner of an owner is the owner itself. -/
  settled : ∀ o, c.callableAround (some s) = .ok o → c.callableAround o = .ok o

/-! ## The way out -/

@[simp] theorem outward_none (c : Config) (k : Nat) : c.outward k none = none := by
  induction k with
  | zero => rfl
  | succ k ih => exact ih

theorem outward_succ (c : Config) (k s : Nat) :
    c.outward (k + 1) (some s) = c.outward k (c.scope s).nestedIn := rfl

theorem passesAll_none (c : Config) : c.PassesAll none := by
  intro k b hb
  rw [outward_none] at hb
  cases hb

theorem passesAll_some {s : Nat} :
    c.PassesAll (some s) ↔ c.Passes s ∧ c.PassesAll (c.scope s).nestedIn := by
  constructor
  · exact fun h => ⟨h 0 s rfl, fun k b hb => h (k + 1) b hb⟩
  · rintro ⟨hs, hrest⟩ k b hb
    cases k with
    | zero =>
      obtain rfl := Option.some.inj hb
      exact hs
    | succ k => exact hrest k b hb

/-- Scopes that all are passed, and out of which no way leads to others, are never left. -/
theorem passesAll_of_closed {passed : List Nat}
    (h : ∀ p ∈ passed, c.Passes p ∧ ∀ q, (c.scope p).nestedIn = some q → q ∈ passed) {s : Nat}
    (hs : s ∈ passed) : c.PassesAll (some s) := by
  intro k
  induction k generalizing s with
  | zero =>
    intro b hb
    obtain rfl := Option.some.inj hb
    exact (h s hs).1
  | succ k ih =>
    intro b hb
    rw [outward_succ] at hb
    cases hq : (c.scope s).nestedIn with
    | none =>
      rw [hq, outward_none] at hb
      cases hb
    | some q =>
      rw [hq] at hb
      exact ih ((h s hs).2 q hq) b hb

theorem firstStop_self {s : Nat} (h : ¬ c.Passes s) : c.FirstStop (some s) s :=
  ⟨h, 0, rfl, fun _ hj => absurd hj (Nat.not_lt_zero _)⟩

theorem FirstStop.behind {s a : Nat} (h : c.FirstStop (c.scope s).nestedIn a) (hs : c.Passes s) :
    c.FirstStop (some s) a := by
  obtain ⟨ha, k, hk, hbefore⟩ := h
  refine ⟨ha, k + 1, hk, ?_⟩
  intro j hj b hb
  cases j with
  | zero =>
    obtain rfl := Option.some.inj hb
    exact hs
  | succ j => exact hbefore j (Nat.lt_of_succ_lt_succ hj) b hb

theorem FirstStop.unique {s : Option Nat} {a b : Nat} (ha : c.FirstStop s a)
    (hb : c.FirstStop s b) : a = b := by
  obtain ⟨hna, k, hk, hka⟩ := ha
  obtain ⟨hnb, l, hl, hlb⟩ := hb
  rcases Nat.lt_trichotomy k l with hlt | rfl | hlt
  · exact absurd (hlb k hlt a hk) hna
  · exact Option.some.inj (hk.symm.trans hl)
  · exact absurd (hka l hlt b hl) hnb

theorem FirstStop.not_passesAll {s : Option Nat} {a : Nat} (h : c.FirstStop s a) :
    ¬ c.PassesAll s := by
  obtain ⟨ha, k, hk, -⟩ := h
  exact fun hall => ha (hall k a hk)

/-! ## The search -/

/-- A search that has passed some scopes ends at the first scope on the way out behind which it does
not go on, or it finds nothing because there is no such scope. -/
theorem nearestCallable_cases {passed : List Nat} {s : Option Nat}
    (h : ∀ p ∈ passed, c.Passes p ∧ ∀ q, (c.scope p).nestedIn = some q → q ∈ passed ∨ s = some q) :
    (∃ a, c.FirstStop s a
        ∧ c.nearestCallable passed s = (c.scope a).isCallable?.map fun _ => some a)
      ∨ c.PassesAll s ∧ c.nearestCallable passed s = .ok none := by
  induction passed, s using nearestCallable.induct (c := c) with
  | case1 passed => exact .inr ⟨c.passesAll_none, by rw [nearestCallable]⟩
  | case2 passed s hs =>
    -- the way out from `s` has led back to `s`, so it never leaves what has been passed
    refine .inr ⟨passesAll_of_closed ?_ hs, by rw [nearestCallable, if_pos hs]⟩
    intro p hp
    refine ⟨(h p hp).1, ?_⟩
    intro q hq
    rcases (h p hp).2 q hq with hmem | hnext
    · exact hmem
    · exact Option.some.inj hnext ▸ hs
  | case3 passed s hs e he =>
    have hstop : ¬ c.Passes s := by simp [Passes, he]
    refine .inl ⟨s, firstStop_self hstop, ?_⟩
    rw [nearestCallable, if_neg hs, he]
    rfl
  | case4 passed s hs hcallable =>
    have hstop : ¬ c.Passes s := by simp [Passes, hcallable]
    refine .inl ⟨s, firstStop_self hstop, ?_⟩
    rw [nearestCallable, if_neg hs, hcallable]
    rfl
  | case5 passed s hs hpasses ih =>
    have hnext : ∀ p ∈ s :: passed, c.Passes p
        ∧ ∀ q, (c.scope p).nestedIn = some q → q ∈ s :: passed ∨ (c.scope s).nestedIn = some q := by
      intro p hp
      rcases List.mem_cons.mp hp with rfl | hp
      · exact ⟨hpasses, fun q hq => .inr hq⟩
      · refine ⟨(h p hp).1, ?_⟩
        intro q hq
        rcases (h p hp).2 q hq with hmem | hnext
        · exact .inl (List.mem_cons_of_mem _ hmem)
        · exact .inl (Option.some.inj hnext ▸ List.mem_cons_self ..)
    rw [nearestCallable, if_neg hs, hpasses]
    rcases ih hnext with ⟨a, ha, hfound⟩ | ⟨hall, hnone⟩
    · exact .inl ⟨a, ha.behind hpasses, hfound⟩
    · exact .inr ⟨passesAll_some.mpr ⟨hpasses, hall⟩, hnone⟩

theorem callableAround_cases (c : Config) (s : Option Nat) :
    (∃ a, c.FirstStop s a ∧ c.callableAround s = (c.scope a).isCallable?.map fun _ => some a)
      ∨ c.PassesAll s ∧ c.callableAround s = .ok none :=
  nearestCallable_cases fun _ hp => absurd hp List.not_mem_nil

theorem callableAround_of_firstStop {s : Option Nat} {a : Nat} (h : c.FirstStop s a) :
    c.callableAround s = (c.scope a).isCallable?.map fun _ => some a := by
  rcases c.callableAround_cases s with ⟨b, hb, hfound⟩ | ⟨hall, -⟩
  · rw [h.unique hb]
    exact hfound
  · exact absurd hall h.not_passesAll

theorem callableAround_of_passesAll {s : Option Nat} (h : c.PassesAll s) :
    c.callableAround s = .ok none := by
  rcases c.callableAround_cases s with ⟨a, ha, -⟩ | ⟨-, hnone⟩
  · exact absurd h ha.not_passesAll
  · exact hnone

/-- A scope that is passed has the owner of the scope that it is nested in.  The search that begins
there has not passed `s`, but what it finds depends on the way out alone. -/
theorem callableAround_of_passes {s : Nat} (h : c.Passes s) :
    c.callableAround (some s) = c.callableAround (c.scope s).nestedIn := by
  rcases c.callableAround_cases (c.scope s).nestedIn with ⟨a, ha, hfound⟩ | ⟨hall, hnone⟩
  · rw [callableAround_of_firstStop (ha.behind h), hfound]
  · rw [callableAround_of_passesAll (passesAll_some.mpr ⟨h, hall⟩), hnone]

theorem callableAround_callableAround {s o : Option Nat} (h : c.callableAround s = .ok o) :
    c.callableAround o = .ok o := by
  cases o with
  | none => exact c.callableAround_none
  | some a => exact callableAround_self (callableAround_isCallable h)

theorem callableAround_eq_some_iff {s : Option Nat} {a : Nat} :
    c.callableAround s = .ok (some a) ↔ c.FirstStop s a ∧ (c.scope a).isCallable = true := by
  constructor
  · intro h
    rcases c.callableAround_cases s with ⟨b, hb, hfound⟩ | ⟨-, hnone⟩
    · rw [h] at hfound
      obtain ⟨-, -, hba⟩ := exists_of_map_ok hfound.symm
      obtain rfl := Option.some.inj hba
      exact ⟨hb, callableAround_isCallable h⟩
    · rw [h] at hnone
      cases hnone
  · rintro ⟨ha, hcallable⟩
    rw [callableAround_of_firstStop ha, Scope.isCallable?_of_isCallable hcallable]
    rfl

theorem callableAround_eq_none_iff {s : Option Nat} :
    c.callableAround s = .ok none ↔ c.PassesAll s := by
  constructor
  · intro h
    rcases c.callableAround_cases s with ⟨b, -, hfound⟩ | ⟨hall, -⟩
    · rw [h] at hfound
      obtain ⟨-, -, hb⟩ := exists_of_map_ok hfound.symm
      cases hb
    · exact hall
  · exact callableAround_of_passesAll

theorem callableAround_eq_error_iff {s : Option Nat} {e : Misfit} :
    c.callableAround s = .error e
      ↔ ∃ a, c.FirstStop s a ∧ (c.scope a).isCallable? = .error e := by
  constructor
  · intro h
    rcases c.callableAround_cases s with ⟨b, hb, hfound⟩ | ⟨-, hnone⟩
    · refine ⟨b, hb, ?_⟩
      rw [h] at hfound
      cases hcallable : (c.scope b).isCallable? with
      | error e' =>
        rw [hcallable] at hfound
        exact congrArg Except.error (Except.error.inj hfound).symm
      | ok callable =>
        rw [hcallable] at hfound
        cases hfound
    · rw [h] at hnone
      cases hnone
  · rintro ⟨a, ha, he⟩
    rw [callableAround_of_firstStop ha, he]
    rfl

theorem exists_callableAround {s : Option Nat}
    (h : ∀ k a, c.outward k s = some a → (c.scope a).kind.IsKey) :
    ∃ o, c.callableAround s = .ok o := by
  rcases c.callableAround_cases s with ⟨a, ⟨-, k, hk, -⟩, hfound⟩ | ⟨-, hnone⟩
  · rw [Scope.isCallable?_of_isKey (h k a hk)] at hfound
    exact ⟨some a, hfound⟩
  · exact ⟨none, hnone⟩

end Config

/-- On every way out, also on one that runs into a circle, the search for the owner of a scope finds
the first function or lambda if there is one, and nothing otherwise. -/
theorem callableAround_nearest (c : Config) (s : Nat) : c.OwnedByNearest s where
  found := fun _ => Config.callableAround_eq_some_iff
  missing := Config.callableAround_eq_none_iff
  failing := fun _ => Config.callableAround_eq_error_iff
  readable := Config.exists_callableAround
  callable := Config.callableAround_self
  inherited := Config.callableAround_of_passes
  settled := fun _ h => Config.callableAround_callableAround h

/-- Of three loops, each nested in the one before it, the first lies in the last one. -/
example : ({ scopes := #[{ kind := .text "For", nestedIn := some 2 },
    { kind := .text "While", nestedIn := some 0 }, { kind := .text "Do", nestedIn := some 1 },
    { kind := .text "If", nestedIn := some 1 }] } : Config).callableAround (some 3) = .ok none :=
  rfl

end FinalParams
