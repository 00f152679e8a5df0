import Mathlib.Data.List.Forall2

/-! Results of steps one after the other, of which each may fail or have none, and orders in which
some steps come first. -/

namespace FinalParams

variable {α β ε σ : Type}

theorem run_bind_of_ok {x : EStateM ε σ α} {f : α → EStateM ε σ β} {s s' : σ} {a : α}
    (hx : x.run s = .ok a s') : (x >>= f).run s = (f a).run s' := by
  have hx' : x s = .ok a s' := hx
  show EStateM.bind x f s = f a s'
  unfold EStateM.bind
  rw [hx']

theorem run_bind_of_error {x : EStateM ε σ α} {f : α → EStateM ε σ β} {s s' : σ} {e : ε}
    (hx : x.run s = .error e s') : (x >>= f).run s = .error e s' := by
  have hx' : x s = .error e s' := hx
  show EStateM.bind x f s = .error e s'
  unfold EStateM.bind
  rw [hx']

theorem exists_of_run_bind_ok {x : EStateM ε σ α} {f : α → EStateM ε σ β} {s s'' : σ} {b : β}
    (h : (x >>= f).run s = .ok b s'') :
    ∃ a s', x.run s = .ok a s' ∧ (f a).run s' = .ok b s'' := by
  cases hx : x.run s with
  | ok a s' =>
    rw [run_bind_of_ok hx] at h
    exact ⟨a, s', rfl, h⟩
  | error e s' =>
    rw [run_bind_of_error hx] at h
    contradiction

theorem exists_of_run' {x : EStateM ε σ α} {s : σ} {a : α} (h : x.run' s = some a) :
    ∃ s', x.run s = .ok a s' := by
  unfold EStateM.run' at h
  split at h
  · obtain rfl := Option.some.inj h
    exact ⟨_, by assumption⟩
  · contradiction

theorem exists_of_isSome_run' {x : EStateM ε σ α} {s : σ} (h : (x.run' s).isSome = true) :
    ∃ a s', x.run s = .ok a s' := by
  obtain ⟨a, ha⟩ := Option.isSome_iff_exists.mp h
  exact ⟨a, exists_of_run' ha⟩

theorem bind_error_cases {x : Except ε α} {f : α → Except ε β} {e : ε}
    (h : (x >>= f) = .error e) : x = .error e ∨ ∃ a, x = .ok a ∧ f a = .error e := by
  cases x with
  | error e' =>
    obtain rfl : e' = e := Except.error.inj h
    exact .inl rfl
  | ok a => exact .inr ⟨a, rfl, h⟩

theorem exists_of_bind_ok {x : Except ε α} {f : α → Except ε β} {b : β}
    (h : (x >>= f) = .ok b) : ∃ a, x = .ok a ∧ f a = .ok b := by
  cases x with
  | error e => cases h
  | ok a => exact ⟨a, rfl, h⟩

theorem exists_of_map_ok {x : Except ε α} {f : α → β} {b : β} (h : x.map f = .ok b) :
    ∃ a, x = .ok a ∧ f a = b := by
  cases x with
  | error e => cases h
  | ok a => exact ⟨a, rfl, Except.ok.inj h⟩

theorem ok_of_mapError {x : Except ε α} {f : ε → σ} {a : α} (h : x.mapError f = .ok a) :
    x = .ok a := by
  cases x with
  | error e => cases h
  | ok b => exact congrArg Except.ok (Except.ok.inj h)

theorem error_of_mapError {x : Except ε α} {f : ε → σ} {e : σ} (h : x.mapError f = .error e) :
    ∃ y, x = .error y ∧ f y = e := by
  cases x with
  | error y => exact ⟨y, rfl, Except.error.inj h⟩
  | ok a => cases h

theorem ok_of_toOption {x : Except ε α} {a : α} (h : x.toOption = some a) : x = .ok a := by
  cases x with
  | error e => cases h
  | ok b => exact congrArg Except.ok (Option.some.inj h)

theorem mapM_ok_iff {f : α → Except ε β} {as : List α} {bs : List β} :
    as.mapM f = .ok bs ↔ List.Forall₂ (fun a b => f a = .ok b) as bs := by
  induction as generalizing bs with
  | nil =>
    rw [List.mapM_nil, List.forall₂_nil_left_iff]
    show Except.ok [] = Except.ok bs ↔ bs = []
    rw [Except.ok.injEq, eq_comm]
  | cons a rest ih =>
    rw [List.mapM_cons, List.forall₂_cons_left_iff]
    cases ha : f a with
    | error e => simp [bind, Except.bind]
    | ok b =>
      cases hr : rest.mapM f with
      | error e =>
        have hnone : ∀ cs, ¬ List.Forall₂ (fun a b => f a = .ok b) rest cs := by
          intro cs hcs
          rw [← ih, hr] at hcs
          cases hcs
        simp [hnone, bind, Except.bind]
      | ok cs =>
        simp only [bind, Except.bind, pure, Except.pure, Except.ok.injEq]
        constructor
        · rintro rfl
          exact ⟨b, cs, rfl, ih.mp hr, rfl⟩
        · rintro ⟨b', cs', rfl, hcs', rfl⟩
          rw [← ih, hr] at hcs'
          rw [Except.ok.inj hcs']

theorem mapM_eq_map {f : α → Except ε β} {g : α → β} {as : List α}
    (h : ∀ a ∈ as, f a = .ok (g a)) : as.mapM f = .ok (as.map g) := by
  rw [mapM_ok_iff, List.forall₂_map_right_iff, List.forall₂_same]
  exact h

theorem mapM_congr_of_mem {f g : α → Except ε β} {as : List α} (h : ∀ a ∈ as, f a = g a) :
    as.mapM f = as.mapM g := by
  induction as with
  | nil => rfl
  | cons a rest ih =>
    rw [List.mapM_cons, List.mapM_cons, h a (List.mem_cons_self ..),
      ih fun b hb => h b (List.mem_cons_of_mem _ hb)]

theorem exists_of_mem_mapM {f : α → Except ε β} {as : List α} {bs : List β}
    (h : as.mapM f = .ok bs) {b : β} (hb : b ∈ bs) : ∃ a ∈ as, f a = .ok b := by
  have hall := mapM_ok_iff.mp h
  clear h
  induction hall with
  | nil => exact absurd hb List.not_mem_nil
  | cons ha _ ih =>
    rcases List.mem_cons.mp hb with rfl | hb
    · exact ⟨_, List.mem_cons_self .., ha⟩
    · obtain ⟨a, ham, hab⟩ := ih hb
      exact ⟨a, List.mem_cons_of_mem _ ham, hab⟩

theorem forM_ok_iff {f : α → Except ε Unit} {as : List α} :
    as.forM f = .ok () ↔ ∀ a ∈ as, f a = .ok () := by
  induction as with
  | nil => exact iff_of_true rfl fun a ha => absurd ha List.not_mem_nil
  | cons a rest ih =>
    rw [List.forall_mem_cons, ← ih]
    show (f a >>= fun _ => rest.forM f) = .ok () ↔ _
    cases f a with
    | error e => exact iff_of_false (fun h => nomatch h) fun h => nomatch h.1
    | ok u => exact ⟨fun h => ⟨rfl, h⟩, fun h => h.2⟩

theorem exists_of_mapM_error {f : α → Except ε β} {as : List α} {e : ε}
    (h : as.mapM f = .error e) : ∃ a ∈ as, f a = .error e := by
  induction as with
  | nil => cases h
  | cons a rest ih =>
    rw [List.mapM_cons] at h
    cases ha : f a with
    | error e' =>
      rw [ha] at h
      obtain rfl : e' = e := Except.error.inj h
      exact ⟨a, List.mem_cons_self .., ha⟩
    | ok b =>
      cases hr : rest.mapM f with
      | error e' =>
        rw [ha, hr] at h
        obtain rfl : e' = e := Except.error.inj h
        obtain ⟨x, hx, hfx⟩ := ih hr
        exact ⟨x, List.mem_cons_of_mem _ hx, hfx⟩
      | ok bs =>
        rw [ha, hr] at h
        cases h

theorem exists_mapM_ok {f : α → Except ε β} {as : List α} (h : ∀ a ∈ as, ∃ b, f a = .ok b) :
    ∃ bs, as.mapM f = .ok bs := by
  cases hm : as.mapM f with
  | ok bs => exact ⟨bs, rfl⟩
  | error e =>
    obtain ⟨a, ha, he⟩ := exists_of_mapM_error hm
    obtain ⟨b, hb⟩ := h a ha
    rw [hb] at he
    cases he

theorem exists_of_rel_some {r : α → β → Prop} {a : α} {b : Option β}
    (h : Option.Rel r (some a) b) : ∃ x, b = some x ∧ r a x := by
  cases h with
  | some h => exact ⟨_, rfl, h⟩

/-- Lists that are related element by element have related elements at each place. -/
theorem forall₂_getElem? {r : α → β → Prop} {as : List α} {bs : List β}
    (h : List.Forall₂ r as bs) (i : Nat) : Option.Rel r as[i]? bs[i]? := by
  induction h generalizing i with
  | nil => exact Option.Rel.none
  | cons hab _ ih =>
    cases i with
    | zero => exact Option.Rel.some hab
    | succ i => exact ih i

/-- Lists with equal images are related element by element if equal images are. -/
theorem forall₂_of_map_eq {f : α → β} {r : α → α → Prop} {as bs : List α}
    (h : as.map f = bs.map f) (hr : ∀ a ∈ as, ∀ b ∈ bs, f a = f b → r a b) :
    List.Forall₂ r as bs := by
  induction as generalizing bs with
  | nil =>
    rw [List.map_nil, eq_comm, List.map_eq_nil_iff] at h
    rw [h]
    exact List.Forall₂.nil
  | cons a as ih =>
    cases bs with
    | nil => cases h
    | cons b bs =>
      obtain ⟨hab, hrest⟩ := List.cons.inj h
      exact List.Forall₂.cons (hr a (List.mem_cons_self ..) b (List.mem_cons_self ..) hab)
        (ih hrest fun x hx y hy => hr x (List.mem_cons_of_mem _ hx) y (List.mem_cons_of_mem _ hy))

/-- The results of a partial function belong to the elements on which it is defined. -/
theorem forall₂_filterMap (f : α → Option β) (as : List α) :
    List.Forall₂ (fun a b => f a = some b) (as.filter fun a => (f a).isSome) (as.filterMap f) := by
  induction as with
  | nil => exact List.Forall₂.nil
  | cons a rest ih =>
    rw [List.filter_cons, List.filterMap_cons]
    cases ha : f a with
    | none => exact ih
    | some b => exact List.Forall₂.cons ha ih

/-- The elements of a list can be put in an order in which those with a property come first. -/
theorem exists_perm_front (f : α → Bool) (as : List α) :
    ∃ bs : List α, bs.Perm as ∧ bs.Pairwise fun a b => f b = true → f a = true := by
  refine ⟨as.filter f ++ as.filter fun a => !f a, List.filter_append_perm f as, ?_⟩
  rw [List.pairwise_append]
  refine ⟨?_, ?_, ?_⟩
  · apply List.pairwise_of_forall_mem_list
    intro a ha b _ _
    exact (List.mem_filter.mp ha).2
  · apply List.pairwise_of_forall_mem_list
    intro a _ b hb hfb
    have hnot := (List.mem_filter.mp hb).2
    rw [hfb] at hnot
    exact absurd hnot (by decide)
  · intro a ha b _ _
    exact (List.mem_filter.mp ha).2

end FinalParams
