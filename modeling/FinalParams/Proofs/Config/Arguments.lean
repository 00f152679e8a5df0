import FinalParams.Proofs.Config.Elision
import FinalParams.Proofs.Lowering.Steps
import Mathlib.Computability.StateTransition

/-!
# The arguments of a call

The second operand of a call is a tree of commas.  It may lean to either side, and each comma may
lack any of its operands.  The arguments are what hangs on these commas: no commas themselves, with
nothing but commas above them.  `callArguments_leftToRight` says that the arguments of a call are
listed from left to right, once for each place in the tree, and that taking the tree apart comes to
an end by itself, without a bound on the commas above a token.

A tree is taken apart with a list of subtrees that are still to come, where the second operand of a
comma waits behind the first one.  Whatever else there is to come, a subtree leaves just its own
arguments.  The induction is on the tree, which `Splits` describes.
-/

namespace FinalParams

open Relation StateTransition

/-- One of the two operands of a token. -/
inductive Side where
  | first
  | second

/-- The operand on one side, which may be missing. -/
def Token.operand (t : Token) : Side → Option Nat
  | .first => t.op1
  | .second => t.op2

/-- Where the two places part, `p` lies in the first operand and `q` in the second one. -/
def LeftOf (p q : List Side) : Prop :=
  ∃ r p' q', p = r ++ .first :: p' ∧ q = r ++ .second :: q'

theorem LeftOf.cons {p q : List Side} (h : LeftOf p q) (side : Side) :
    LeftOf (side :: p) (side :: q) := by
  obtain ⟨r, p', q', rfl, rfl⟩ := h
  exact ⟨side :: r, p', q', rfl, rfl⟩

theorem LeftOf.ne {p q : List Side} (h : LeftOf p q) : p ≠ q := by
  obtain ⟨r, p', q', rfl, rfl⟩ := h
  intro he
  cases List.append_cancel_left he

/-- The arguments found so far, the latest first, and the subtrees still to come, which may be
missing. -/
structure Gathering where
  found : List Nat
  pending : List (Option Nat)

namespace Config

def IsComma (c : Config) (t : Nat) : Prop := (c.token t).isSpelled "," = true

instance decidableIsComma (c : Config) (t : Nat) : Decidable (c.IsComma t) :=
  inferInstanceAs (Decidable (_ = true))

/-- One turn of the work.  A comma gives way to its operands, and every other token is an argument.
No turn is left when nothing is pending. -/
def turn (c : Config) (g : Gathering) : Option Gathering :=
  match g.pending with
  | [] => none
  | none :: rest => some ⟨g.found, rest⟩
  | some t :: rest =>
    if c.IsComma t then some ⟨g.found, (c.token t).op1 :: (c.token t).op2 :: rest⟩
    else some ⟨t :: g.found, rest⟩

/-- The token at a place of the tree of operands with the top `t`. -/
def tokenAt (c : Config) (t : Option Nat) : List Side → Option Nat
  | [] => t
  | side :: p => c.tokenAt (t.bind fun u => (c.token u).operand side) p

/-- At the place `p` of the tree stands the argument `x`: it is no comma, and all tokens above it
are commas. -/
structure ArgumentAt (c : Config) (t : Option Nat) (p : List Side) (x : Nat) : Prop where
  token : c.tokenAt t p = some x
  plain : ¬ c.IsComma x
  above : ∀ q, q <+: p → q ≠ p → ∃ u, c.tokenAt t q = some u ∧ c.IsComma u

/-- These are all arguments in the tree, each with its place, from left to right. -/
structure LeftToRight (c : Config) (t : Option Nat) (stops : List (List Side × Nat)) : Prop where
  sorted : stops.Pairwise fun s s' => LeftOf s.1 s'.1
  mem : ∀ p x, (p, x) ∈ stops ↔ c.ArgumentAt t p x

/-- The token is written between its operands. -/
def StandsBetween (c : Config) (t : Nat) : Prop :=
  (∀ a, (c.token t).op1 = some a → c.WrittenBehind t a)
    ∧ ∀ b, (c.token t).op2 = some b → c.WrittenBefore t b

/-- The second operand of `t` is taken apart at its commas. -/
structure Flattened (c : Config) (t : Nat) : Prop where
  /-- Turn by turn the work comes to an end, though nothing bounds it, and has found then what is
  listed. -/
  ends : ⟨(c.callArguments t).reverse, []⟩ ∈ eval c.turn ⟨[], [(c.token t).op2]⟩
  /-- They are listed from left to right, one for each place. -/
  ordered : ∃ stops, c.LeftToRight (c.token t).op2 stops ∧ stops.map (·.2) = c.callArguments t
  /-- No argument is lost, and nothing else is listed. -/
  mem : ∀ x, x ∈ c.callArguments t ↔ ∃ p, c.ArgumentAt (c.token t).op2 p x
  /-- A comma is never listed. -/
  plain : ∀ x ∈ c.callArguments t, ¬ c.IsComma x
  /-- Every token of the tree that is no comma lies in the subtree of exactly one argument. -/
  covers : ∀ q y, c.tokenAt (c.token t).op2 q = some y → ¬ c.IsComma y →
    ∃! p, p <+: q ∧ ∃ x, c.ArgumentAt (c.token t).op2 p x
  /-- No argument is listed twice exactly if none stands at two places, as in a tree none does. -/
  once : (c.callArguments t).Nodup
    ↔ ∀ p q x, c.ArgumentAt (c.token t).op2 p x → c.ArgumentAt (c.token t).op2 q x → p = q
  /-- The arguments are in source order if the commas are written between their operands. -/
  source : (∀ p u, c.tokenAt (c.token t).op2 p = some u → c.IsComma u → c.StandsBetween u) →
    (c.callArguments t).Pairwise fun x y => c.order x < c.order y

variable {c : Config} {t u : Nat} {top : Option Nat} {p q : List Side} {args : List Nat}

/-! ## The work -/

/-- Taken apart at its commas, the tree with the top `t` leaves these arguments. -/
inductive Splits (c : Config) : Option Nat → List Nat → Prop
  | missing : Splits c none []
  | argument {t : Nat} : ¬ c.IsComma t → Splits c (some t) [t]
  | comma {t : Nat} {xs ys : List Nat} : c.IsComma t → Splits c (c.token t).op1 xs →
    Splits c (c.token t).op2 ys → Splits c (some t) (xs ++ ys)

theorem gatherArguments_comma (h : c.IsComma t) (b : Nat) (found : List Nat)
    (rest : List (Nat × Nat)) :
    c.gatherArguments found ((b + 1, t) :: rest)
      = c.gatherArguments found
        ((c.token t).op1.toList.map (b, ·) ++ ((c.token t).op2.toList.map (b, ·) ++ rest)) := by
  have hturn : c.gatherArguments found ((b + 1, t) :: rest)
      = c.gatherArguments found ((c.token t).operands.map (b, ·) ++ rest) := by
    rw [gatherArguments]
    exact if_pos h
  rw [hturn, Token.operands, List.map_append, List.append_assoc]

theorem gatherArguments_argument (h : ¬ c.IsComma t) (b : Nat) (found : List Nat)
    (rest : List (Nat × Nat)) :
    c.gatherArguments found ((b, t) :: rest) = c.gatherArguments (t :: found) rest := by
  rw [gatherArguments.eq_def]
  exact if_neg h

/-- A subtree with enough budget leaves its arguments, whatever there is to come behind it. -/
theorem exists_splits {b : Nat} (h : ∀ t, top = some t → c.Grounded t ∧ c.rank t < b) :
    ∃ args, c.Splits top args ∧ ∀ found rest,
      c.gatherArguments found (top.toList.map (b, ·) ++ rest)
        = c.gatherArguments (args.reverse ++ found) rest := by
  -- operands have lower ranks, so they get by with one less
  induction b generalizing top with
  | zero =>
    cases top with
    | none => exact ⟨[], .missing, fun _ _ => rfl⟩
    | some t => exact absurd (h t rfl).2 (Nat.not_lt_zero _)
  | succ b ih =>
    cases top with
    | none => exact ⟨[], .missing, fun _ _ => rfl⟩
    | some t =>
      obtain ⟨hg, hrank⟩ := h t rfl
      by_cases hcomma : c.IsComma t
      · have hbelow : ∀ u ∈ (c.token t).operands, c.Grounded u ∧ c.rank u < b := by
          intro u hu
          have hlt := hg.rank_lt hu
          exact ⟨hg.operand hu, by omega⟩
        obtain ⟨xs, hxs, hleft⟩ := ih fun u hu => hbelow u (mem_operands_of_op1 hu)
        obtain ⟨ys, hys, hright⟩ := ih fun u hu => hbelow u (mem_operands_of_op2 hu)
        refine ⟨xs ++ ys, .comma hcomma hxs hys, ?_⟩
        intro found rest
        show c.gatherArguments found ((b + 1, t) :: rest) = _
        rw [gatherArguments_comma hcomma, hleft, hright, List.reverse_append, List.append_assoc]
      · exact ⟨[t], .argument hcomma, gatherArguments_argument hcomma (b + 1)⟩

theorem callArguments_splits (h : ∀ b, (c.token t).op2 = some b → c.Grounded b) :
    c.Splits (c.token t).op2 (c.callArguments t) := by
  obtain ⟨args, hsplits, hwork⟩ := exists_splits (b := c.tokens.size + 1) fun u hu =>
    ⟨h u hu, Nat.lt_succ_of_le (c.rank_le u)⟩
  have hargs : c.callArguments t = args := by
    have hstart := hwork [] []
    rw [List.append_nil, List.append_nil, gatherArguments, List.reverse_reverse] at hstart
    exact hstart
  rw [hargs]
  exact hsplits

theorem turn_comma (h : c.IsComma t) (found : List Nat) (rest : List (Option Nat)) :
    c.turn ⟨found, some t :: rest⟩
      = some ⟨found, (c.token t).op1 :: (c.token t).op2 :: rest⟩ := if_pos h

theorem turn_argument (h : ¬ c.IsComma t) (found : List Nat) (rest : List (Option Nat)) :
    c.turn ⟨found, some t :: rest⟩ = some ⟨t :: found, rest⟩ := if_neg h

/-- Without any budget a subtree leaves the same. -/
theorem Splits.reaches (h : c.Splits top args) (found : List Nat) (rest : List (Option Nat)) :
    Reaches c.turn ⟨found, top :: rest⟩ ⟨args.reverse ++ found, rest⟩ := by
  induction h generalizing found rest with
  | missing => exact .single rfl
  | argument ht => exact .single (turn_argument ht found rest)
  | @comma t xs ys ht _ _ ihx ihy =>
    have hleft := ihx found ((c.token t).op2 :: rest)
    have hright := ihy (xs.reverse ++ found) rest
    rw [← List.append_assoc, ← List.reverse_append] at hright
    exact (hleft.trans hright).head (turn_comma ht found rest)

/-! ## Places -/

theorem tokenAt_none (c : Config) (p : List Side) : c.tokenAt none p = none := by
  induction p with
  | nil => rfl
  | cons side p ih => exact ih

theorem tokenAt_append (c : Config) (top : Option Nat) (p q : List Side) :
    c.tokenAt top (p ++ q) = c.tokenAt (c.tokenAt top p) q := by
  induction p generalizing top with
  | nil => rfl
  | cons side p ih => exact ih _

theorem operand_mem {side : Side} (h : (c.token t).operand side = some u) :
    u ∈ (c.token t).operands := by
  cases side with
  | first => exact mem_operands_of_op1 h
  | second => exact mem_operands_of_op2 h

/-- Whatever stands in the tree is reached from its top through operands. -/
theorem reached_of_tokenAt (h : c.tokenAt top p = some u) :
    ∃ t, top = some t ∧ ReflTransGen (fun t u => u ∈ (c.token t).operands) t u := by
  induction p generalizing top with
  | nil => exact ⟨u, h, .refl⟩
  | cons side p ih =>
    obtain ⟨v, hv, hreached⟩ := ih h
    obtain ⟨t, ht, hside⟩ := Option.bind_eq_some_iff.mp hv
    exact ⟨t, ht, hreached.head (operand_mem hside)⟩

theorem not_argumentAt_none {x : Nat} : ¬ c.ArgumentAt none p x := by
  intro h
  have htoken := h.token
  rw [tokenAt_none] at htoken
  cases htoken

theorem argumentAt_self (h : ¬ c.IsComma t) : c.ArgumentAt (some t) [] t where
  token := rfl
  plain := h
  above := fun _ hq hne => absurd (List.prefix_nil.mp hq) hne

/-- Below an argument there is no other one. -/
theorem ArgumentAt.eq_of_above {x y : Nat} (hp : c.ArgumentAt top p x)
    (hq : c.ArgumentAt top q y) (h : p <+: q) : p = q := by
  by_contra hne
  obtain ⟨u, hu, hcomma⟩ := hq.above p h hne
  obtain rfl := Option.some.inj (hp.token.symm.trans hu)
  exact hp.plain hcomma

theorem ArgumentAt.under {side : Side} {x : Nat}
    (h : c.ArgumentAt ((c.token t).operand side) p x) (ht : c.IsComma t) :
    c.ArgumentAt (some t) (side :: p) x where
  token := h.token
  plain := h.plain
  above := by
    intro q hq hne
    cases q with
    | nil => exact ⟨t, rfl, ht⟩
    | cons side' q =>
      obtain ⟨rfl, hbelow⟩ := List.cons_prefix_cons.mp hq
      exact h.above q hbelow fun he => hne (he ▸ rfl)

/-- The arguments below a comma are those in its operands. -/
theorem ArgumentAt.cases_comma {x : Nat} (h : c.ArgumentAt (some t) p x) (ht : c.IsComma t) :
    ∃ side q, p = side :: q ∧ c.ArgumentAt ((c.token t).operand side) q x := by
  cases p with
  | nil => exact absurd (Option.some.inj h.token ▸ ht) h.plain
  | cons side q =>
    refine ⟨side, q, rfl, h.token, h.plain, ?_⟩
    intro r hr hne
    exact h.above (side :: r) (List.cons_prefix_cons.mpr ⟨rfl, hr⟩) fun he =>
      hne (List.cons.inj he).2

theorem exists_argument_above {y : Nat} (h : c.tokenAt top q = some y) (hy : ¬ c.IsComma y) :
    ∃ p x, p <+: q ∧ c.ArgumentAt top p x := by
  induction q generalizing top with
  | nil =>
    have htop : top = some y := h
    subst htop
    exact ⟨[], y, List.prefix_rfl, argumentAt_self hy⟩
  | cons side q ih =>
    cases top with
    | none =>
      rw [tokenAt_none] at h
      cases h
    | some t =>
      by_cases ht : c.IsComma t
      · obtain ⟨p, x, hp, hx⟩ := ih h
        exact ⟨side :: p, x, List.cons_prefix_cons.mpr ⟨rfl, hp⟩, ArgumentAt.under hx ht⟩
      · exact ⟨[], t, List.nil_prefix, argumentAt_self ht⟩

/-- A token that is no comma lies in the subtree of one argument. -/
theorem existsUnique_argument_above {y : Nat} (h : c.tokenAt top q = some y)
    (hy : ¬ c.IsComma y) : ∃! p, p <+: q ∧ ∃ x, c.ArgumentAt top p x := by
  obtain ⟨p, x, hp, hx⟩ := exists_argument_above h hy
  refine ⟨p, ⟨hp, x, hx⟩, ?_⟩
  intro p' hp'
  obtain ⟨habove, x', hx'⟩ := hp'
  rcases List.prefix_or_prefix_of_prefix habove hp with hle | hle
  · exact hx'.eq_of_above hx hle
  · exact (hx.eq_of_above hx' hle).symm

/-! ## From left to right -/

/-- The same argument, seen from a token that has the tree as its operand on this side. -/
def stopUnder (side : Side) (s : List Side × Nat) : List Side × Nat := (side :: s.1, s.2)

theorem map_stopUnder (side : Side) (stops : List (List Side × Nat)) :
    (stops.map (stopUnder side)).map (·.2) = stops.map (·.2) := by
  rw [List.map_map]
  rfl

theorem LeftToRight.under {stops : List (List Side × Nat)} (h : c.LeftToRight top stops)
    (side : Side) :
    (stops.map (stopUnder side)).Pairwise fun s s' => LeftOf s.1 s'.1 :=
  List.pairwise_map.mpr (h.sorted.imp fun hs => hs.cons side)

theorem leftToRight_none : c.LeftToRight none [] where
  sorted := List.Pairwise.nil
  mem := fun _ _ => iff_of_false List.not_mem_nil not_argumentAt_none

theorem leftToRight_argument (h : ¬ c.IsComma t) : c.LeftToRight (some t) [([], t)] where
  sorted := List.pairwise_singleton _ _
  mem := by
    intro p x
    rw [List.mem_singleton, Prod.mk.injEq]
    constructor
    · intro he
      rw [he.1, he.2]
      exact argumentAt_self h
    · intro hx
      have hp : [] = p := (argumentAt_self h).eq_of_above hx List.nil_prefix
      subst hp
      exact ⟨rfl, (Option.some.inj hx.token).symm⟩

theorem leftToRight_comma {ps qs : List (List Side × Nat)} (h : c.IsComma t)
    (hp : c.LeftToRight (c.token t).op1 ps) (hq : c.LeftToRight (c.token t).op2 qs) :
    c.LeftToRight (some t) (ps.map (stopUnder .first) ++ qs.map (stopUnder .second)) where
  sorted := by
    refine List.pairwise_append.mpr ⟨hp.under .first, hq.under .second, ?_⟩
    intro s hs s' hs'
    obtain ⟨l, -, rfl⟩ := List.mem_map.mp hs
    obtain ⟨r, -, rfl⟩ := List.mem_map.mp hs'
    exact ⟨[], l.1, r.1, rfl, rfl⟩
  mem := by
    intro p x
    rw [List.mem_append, List.mem_map, List.mem_map]
    constructor
    · rintro (⟨⟨q, y⟩, hy, he⟩ | ⟨⟨q, y⟩, hy, he⟩)
      · cases he
        have hfirst : c.ArgumentAt ((c.token t).operand .first) q y := (hp.mem q y).mp hy
        exact hfirst.under h
      · cases he
        have hsecond : c.ArgumentAt ((c.token t).operand .second) q y := (hq.mem q y).mp hy
        exact hsecond.under h
    · intro hx
      obtain ⟨side, q, rfl, hbelow⟩ := hx.cases_comma h
      cases side with
      | first => exact .inl ⟨(q, x), (hp.mem q x).mpr hbelow, rfl⟩
      | second => exact .inr ⟨(q, x), (hq.mem q x).mpr hbelow, rfl⟩

theorem Splits.exists_stops (h : c.Splits top args) :
    ∃ stops, c.LeftToRight top stops ∧ stops.map (·.2) = args := by
  induction h with
  | missing => exact ⟨[], leftToRight_none, rfl⟩
  | @argument t ht => exact ⟨[([], t)], leftToRight_argument ht, rfl⟩
  | comma ht _ _ ihx ihy =>
    obtain ⟨ps, hp, hxs⟩ := ihx
    obtain ⟨qs, hq, hys⟩ := ihy
    refine ⟨_, leftToRight_comma ht hp hq, ?_⟩
    rw [List.map_append, map_stopUnder, map_stopUnder, hxs, hys]

/-! ## What is listed -/

variable {stops : List (List Side × Nat)}

theorem LeftToRight.mem_map_iff (h : c.LeftToRight top stops) (x : Nat) :
    x ∈ stops.map (·.2) ↔ ∃ p, c.ArgumentAt top p x := by
  rw [List.mem_map]
  constructor
  · rintro ⟨⟨p, y⟩, hy, rfl⟩
    exact ⟨p, (h.mem p y).mp hy⟩
  · rintro ⟨p, hp⟩
    exact ⟨(p, x), (h.mem p x).mpr hp, rfl⟩

/-- Arguments at different places are listed in the order of a relation that holds from left to
right. -/
theorem LeftToRight.pairwise_map (h : c.LeftToRight top stops) {R : Nat → Nat → Prop}
    (hR : ∀ p q x y, LeftOf p q → c.ArgumentAt top p x → c.ArgumentAt top q y → R x y) :
    (stops.map (·.2)).Pairwise R := by
  refine List.pairwise_map.mpr (h.sorted.imp_of_mem ?_)
  intro s s' hs hs' hleft
  exact hR s.1 s'.1 s.2 s'.2 hleft ((h.mem s.1 s.2).mp hs) ((h.mem s'.1 s'.2).mp hs')

theorem LeftToRight.nodup_iff (h : c.LeftToRight top stops) :
    (stops.map (·.2)).Nodup
      ↔ ∀ p q x, c.ArgumentAt top p x → c.ArgumentAt top q x → p = q := by
  constructor
  · intro hnodup p q x hp hq
    have hstop : (p, x) = (q, x) :=
      List.inj_on_of_nodup_map hnodup ((h.mem p x).mpr hp) ((h.mem q x).mpr hq) rfl
    exact (Prod.mk.inj hstop).1
  · intro honce
    apply h.pairwise_map
    intro p q x y hleft hp hq he
    subst he
    exact hleft.ne (honce p q x hp hq)

/-! ## Source order -/

/-- Where commas stand between their operands, what lies left in the tree is written before what
lies right of it. -/
theorem order_lt_of_leftOf (hbetween : ∀ p u, c.tokenAt top p = some u → c.IsComma u →
    c.StandsBetween u) {x y : Nat} (hleft : LeftOf p q) (hp : c.ArgumentAt top p x)
    (hq : c.ArgumentAt top q y) : c.order x < c.order y := by
  obtain ⟨r, p', q', rfl, rfl⟩ := hleft
  obtain ⟨u, hu, hcomma⟩ := hp.above r (List.prefix_append _ _) (by simp)
  obtain ⟨hbehind, hbefore⟩ := hbetween r u hu hcomma
  have hx : c.tokenAt (c.token u).op1 p' = some x := by
    rw [← hp.token, tokenAt_append, hu]
    rfl
  have hy : c.tokenAt (c.token u).op2 q' = some y := by
    rw [← hq.token, tokenAt_append, hu]
    rfl
  obtain ⟨a, ha, hax⟩ := reached_of_tokenAt hx
  obtain ⟨b, hb, hby⟩ := reached_of_tokenAt hy
  exact (hbehind a ha x hax).2.trans (hbefore b hb y hby).2

/-- A token stands between its operands if all that lies in them is listed and is written before it
or behind it. -/
theorem standsBetween_of_closed (left right : List Nat)
    (hleft : (∀ a ∈ (c.token t).op1.toList, a ∈ left)
      ∧ (∀ v ∈ left, ∀ u ∈ (c.token v).operands, u ∈ left)
      ∧ ∀ u ∈ left, u ∈ c.tokenList ∧ c.order u < c.order t)
    (hright : (∀ b ∈ (c.token t).op2.toList, b ∈ right)
      ∧ (∀ v ∈ right, ∀ u ∈ (c.token v).operands, u ∈ right)
      ∧ ∀ u ∈ right, u ∈ c.tokenList ∧ c.order t < c.order u) : c.StandsBetween t := by
  constructor
  · intro a ha
    exact writtenBehind_of_closed left hleft.2.1 (hleft.1 a (Option.mem_toList.mpr ha)) hleft.2.2
  · intro b hb
    exact writtenBefore_of_closed right hright.2.1 (hright.1 b (Option.mem_toList.mpr hb))
      hright.2.2

end Config

/-- If no operands below the second operand of a call go in a circle, its commas are taken apart to
the end, and the arguments are listed from left to right. -/
theorem callArguments_leftToRight {c : Config} {t : Nat}
    (h : ∀ b, (c.token t).op2 = some b → c.Grounded b) : c.Flattened t := by
  have hsplits := Config.callArguments_splits h
  obtain ⟨stops, hstops, hlisted⟩ := hsplits.exists_stops
  have hmem := hstops.mem_map_iff
  have honce := hstops.nodup_iff
  rw [hlisted] at hmem honce
  refine ⟨?_, ⟨stops, hstops, hlisted⟩, hmem, ?_, ?_, honce, ?_⟩
  · have hend := hsplits.reaches [] []
    rw [List.append_nil] at hend
    exact mem_eval.mpr ⟨hend, rfl⟩
  · intro x hx
    obtain ⟨p, hp⟩ := (hmem x).mp hx
    exact hp.plain
  · exact fun _ _ => Config.existsUnique_argument_above
  · intro hbetween
    rw [← hlisted]
    apply hstops.pairwise_map
    intro p q x y
    exact Config.order_lt_of_leftOf hbetween

/-- `f(, a, b, g(x, y),)` -/
def raggedCallConfig : Config where
  tokens := #[
    { spelling := .text "f", isName := true },
    { spelling := .text "(", op1 := some 0, op2 := some 4 },
    { spelling := .text ",", op2 := some 3 },
    { spelling := .text "a", isName := true },
    { spelling := .text ",", op1 := some 2, op2 := some 6 },
    { spelling := .text "b", isName := true },
    { spelling := .text ",", op1 := some 5, op2 := some 13 },
    { spelling := .text "g", isName := true },
    { spelling := .text "(", op1 := some 7, op2 := some 10 },
    { spelling := .text "x", isName := true },
    { spelling := .text ",", op1 := some 9, op2 := some 11 },
    { spelling := .text "y", isName := true },
    { spelling := .text ")" },
    { spelling := .text ",", op1 := some 8 },
    { spelling := .text ")" }]
  tokenList := List.range 15

namespace raggedCallConfig

theorem grounded (t : Nat) : raggedCallConfig.Grounded t := fun u _ =>
  Config.acyclic_of_height (fun t => [0, 6, 1, 0, 5, 0, 4, 0, 2, 0, 1, 0, 0, 3, 0].getD t 0)
    (by decide) u

theorem mem_commas {u : Nat} (h : raggedCallConfig.IsComma u) : u ∈ [2, 4, 6, 10, 13] := by
  have hall : ∀ u < 15, raggedCallConfig.IsComma u → u ∈ [2, 4, 6, 10, 13] := by decide
  by_cases hlt : u < 15
  · exact hall u hlt h
  · rw [Config.IsComma, Config.token_of_size_le (Nat.not_lt.mp hlt)] at h
    exact absurd h (by decide)

theorem standsBetween {u : Nat} (h : raggedCallConfig.IsComma u) :
    raggedCallConfig.StandsBetween u := by
  have hu := mem_commas h
  simp only [List.mem_cons, List.not_mem_nil, or_false] at hu
  rcases hu with rfl | rfl | rfl | rfl | rfl
  · exact Config.standsBetween_of_closed [] [3] (by decide) (by decide)
  · exact Config.standsBetween_of_closed [2, 3] [5, 6, 7, 8, 9, 10, 11, 13] (by decide) (by decide)
  · exact Config.standsBetween_of_closed [5] [7, 8, 9, 10, 11, 13] (by decide) (by decide)
  · exact Config.standsBetween_of_closed [9] [11] (by decide) (by decide)
  · exact Config.standsBetween_of_closed [7, 8, 9, 10, 11] [] (by decide) (by decide)

end raggedCallConfig

/-- The comma between `x` and `y` lies in an argument, so it is left alone. -/
theorem callArguments_leftToRight_raggedCallConfig :
    (∀ b, (raggedCallConfig.token 1).op2 = some b → raggedCallConfig.Grounded b)
      ∧ raggedCallConfig.callArguments 1 = [3, 5, 8]
      ∧ raggedCallConfig.Flattened 1
      ∧ (raggedCallConfig.callArguments 1).Pairwise fun x y =>
          raggedCallConfig.order x < raggedCallConfig.order y := by
  have hgrounded : ∀ b, (raggedCallConfig.token 1).op2 = some b → raggedCallConfig.Grounded b :=
    fun b _ => raggedCallConfig.grounded b
  have hflat := callArguments_leftToRight hgrounded
  refine ⟨hgrounded, ?_, hflat, hflat.source fun _ _ _ => raggedCallConfig.standsBetween⟩
  decide +kernel

end FinalParams
