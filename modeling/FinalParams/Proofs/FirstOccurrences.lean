import Mathlib.Data.List.Basic

/-!
# The first elements of each kind

A list from which everything is dropped that repeats something before it.  What holds of such lists
is proved along their recursion, `eraseDupsBy_induction`: the head stays, what repeats it goes, and
the rest is treated in the same way.
-/

namespace FinalParams

variable {α β : Type} {r : α → α → Bool}

theorem eraseDupsBy_induction {P : List α → List α → Prop} (nil : P [] [])
    (cons : ∀ a as, P (as.filter fun b => r b a = false)
        ((as.filter fun b => r b a = false).eraseDupsBy r) →
      P (a :: as) (a :: (as.filter fun b => r b a = false).eraseDupsBy r)) (as : List α) :
    P as (as.eraseDupsBy r) := by
  induction hs : as.length using Nat.strongRecOn generalizing as with
  | ind n ih =>
    cases as with
    | nil => exact nil
    | cons a as =>
      have hlt : (as.filter fun b => r b a = false).length < n := by
        rw [← hs, List.length_cons]
        exact Nat.lt_succ_of_le (List.length_filter_le ..)
      rw [List.eraseDupsBy_cons]
      exact cons a as (ih _ hlt _ rfl)

/-- The elements kept after another one came in, which is dropped if it repeats one of them. -/
def keepNew (r : α → α → Bool) (kept : List α) (a : α) : List α :=
  if kept.any (r a) then kept else kept ++ [a]

/-- Keeping what is new, one after the other, keeps the first element of each kind. -/
theorem foldl_keepNew (as : List α) : as.foldl (keepNew r) [] = as.eraseDupsBy r := by
  have hloop : ∀ kept, List.eraseDupsBy.loop r as kept = as.foldl (keepNew r) kept.reverse := by
    induction as with
    | nil => exact fun kept => rfl
    | cons a as ih =>
      intro kept
      rw [List.eraseDupsBy.loop, List.foldl_cons, keepNew, List.any_reverse]
      cases kept.any (r a) with
      | true => exact ih kept
      | false => rw [if_neg Bool.false_ne_true, ← List.reverse_cons, ← ih]
  exact (hloop []).symm

theorem foldl_keepNew_of_kept {kept as : List α} (h : ∀ a ∈ as, kept.any (r a) = true) :
    as.foldl (keepNew r) kept = kept := by
  induction as with
  | nil => rfl
  | cons a as ih =>
    rw [List.foldl_cons, keepNew, if_pos (h a (List.mem_cons_self ..))]
    exact ih fun b hb => h b (List.mem_cons_of_mem _ hb)

theorem eraseDupsBy_sublist (as : List α) : (as.eraseDupsBy r).Sublist as := by
  refine eraseDupsBy_induction (P := fun as firsts => firsts.Sublist as) List.Sublist.slnil ?_ as
  intro a as ih
  exact (ih.trans List.filter_sublist).cons_cons a

theorem pairwise_eraseDupsBy (as : List α) :
    (as.eraseDupsBy r).Pairwise fun a b => r b a = false := by
  refine eraseDupsBy_induction (P := fun _ firsts => firsts.Pairwise fun a b => r b a = false)
    List.Pairwise.nil ?_ as
  intro a as ih
  refine List.pairwise_cons.mpr ⟨?_, ih⟩
  intro b hb
  simpa using (List.mem_filter.mp ((eraseDupsBy_sublist _).subset hb)).2

theorem eraseDupsBy_of_pairwise {as : List α} (h : as.Pairwise fun a b => r b a = false) :
    as.eraseDupsBy r = as := by
  induction as with
  | nil => rfl
  | cons a as ih =>
    obtain ⟨ha, has⟩ := List.pairwise_cons.mp h
    have hall : (as.filter fun b => r b a = false) = as :=
      List.filter_eq_self.mpr fun b hb => decide_eq_true (ha b hb)
    rw [List.eraseDupsBy_cons, hall, ih has]

theorem map_eraseDupsBy {s : β → β → Bool} (f : α → β) (as : List α) :
    (as.map f).eraseDupsBy s = (as.eraseDupsBy fun a b => s (f a) (f b)).map f := by
  refine eraseDupsBy_induction
    (P := fun as firsts => (as.map f).eraseDupsBy s = firsts.map f) rfl ?_ as
  intro a as ih
  rw [List.map_cons, List.map_cons, List.eraseDupsBy_cons, ← ih, List.filter_map]
  rfl

/-- Every element repeats one of the first of each kind, if it repeats itself. -/
theorem exists_first {as : List α} (h : ∀ a ∈ as, r a a = true) {a : α} (ha : a ∈ as) :
    ∃ b ∈ as.eraseDupsBy r, r a b = true := by
  revert h ha
  refine eraseDupsBy_induction
    (P := fun as firsts => (∀ a ∈ as, r a a = true) → a ∈ as → ∃ b ∈ firsts, r a b = true)
    (fun _ ha => absurd ha List.not_mem_nil) ?_ as
  intro b as ih h ha
  cases hab : r a b with
  | true => exact ⟨b, List.mem_cons_self .., hab⟩
  | false =>
    rcases List.mem_cons.mp ha with rfl | ha
    · rw [h a (List.mem_cons_self ..)] at hab
      cases hab
    · have hmem : a ∈ as.filter fun b' => r b' b = false :=
        List.mem_filter.mpr ⟨ha, decide_eq_true hab⟩
      obtain ⟨c, hc, hac⟩ := ih
        (fun x hx => h x (List.mem_cons_of_mem _ (List.mem_filter.mp hx).1)) hmem
      exact ⟨c, List.mem_cons_of_mem _ hc, hac⟩

/-- Dropping repetitions does not change whether something has a property that carries over to what
stays. -/
theorem any_eraseDupsBy {p : α → Bool} (h : ∀ a b, r b a = true → p b = true → p a = true)
    (as : List α) : (as.eraseDupsBy r).any p = as.any p := by
  refine eraseDupsBy_induction (P := fun as firsts => firsts.any p = as.any p) rfl ?_ as
  intro a as ih
  rw [List.any_cons, List.any_cons, ih]
  cases ha : p a with
  | true => rfl
  | false =>
    rw [Bool.false_or, Bool.false_or, List.any_filter]
    congr 1
    funext b
    cases hr : r b a with
    | false => simp
    | true =>
      have hb : p b = false := by
        cases hb : p b with
        | false => rfl
        | true => rw [h a b hr hb] at ha; exact ha
      simp [hb]

end FinalParams
