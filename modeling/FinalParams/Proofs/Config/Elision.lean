import FinalParams.Config.ExprText
import FinalParams.Proofs.Sequence
import Mathlib.Logic.Relation

/-!
# Texts that are not elided

The text of an expression is made down to a number of levels, and three dots stand for what lies
deeper.  `exprText_unelided` says that a limit that covers the expression elides nothing: any two
such limits give the same text, and it is the text that is put together without a limit.

One level of the limit is spent on a token, whatever it is.  A token never spends less than what its
parts lie below it, but the arguments of a call lie below all commas between them and the call, and
the branches of a choice below its colon.  So the induction is on the levels of the expression, and
all that is asked of the parts of a token is that they are reached through its operands.
-/

namespace FinalParams

open Relation

namespace Config

variable {c : Config}

/-- The expression at `t` has at most so many levels, of which a token without operands is one. -/
def WithinLevels (c : Config) : Nat → Nat → Prop
  | 0, _ => False
  | levels + 1, t => ∀ u ∈ (c.token t).operands, c.WithinLevels levels u

instance decidableWithinLevels (c : Config) : ∀ levels t, Decidable (c.WithinLevels levels t)
  | 0, _ => inferInstanceAs (Decidable False)
  | levels + 1, t =>
    have := decidableWithinLevels c levels
    inferInstanceAs (Decidable (∀ u ∈ (c.token t).operands, c.WithinLevels levels u))

/-- The text of `t`, where `text` tells the texts of its parts. -/
def textFrom (c : Config) (text : Option Nat → Except Misfit Datum) (t : Nat) :
    Except Misfit Datum :=
  let tok := c.token t
  match tok.op1, tok.op2 with
  | none, none => .ok tok.spelling
  | some a, none => do
    tok.lookUp
    let operand ← text (some a)
    unaryText tok operand
  | none, some b => do
    let operand ← text (some b)
    tok.spelling.plus operand
  | some a, some b => do
    let left ← text (some a)
    if tok.isCall then
      let arguments ← (c.callArguments t).mapM fun x => text (some x)
      let listed ← Datum.joined ", " arguments
      return .text ((← left.shown?) ++ "(" ++ listed ++ ")")
    else if tok.isSpelled "?" && (c.token b).isSpelled ":" then
      let first ← text (c.token b).op1
      let second ← text (c.token b).op2
      return .text ("(" ++ (← left.shown?) ++ " ? " ++ (← first.shown?) ++ " : "
        ++ (← second.shown?) ++ ")")
    else
      let right ← text (some b)
      binaryText tok left right

/-- These are the texts of the tokens of the expression at `t` without any limit: each is put together
from those of its parts, and what is missing has an empty one. -/
structure TellsTexts (c : Config) (t : Nat) (text : Option Nat → Except Misfit Datum) : Prop where
  missing : text none = .ok (.text "")
  token : ∀ u, ReflTransGen (fun t u => u ∈ (c.token t).operands) t u →
    text (some u) = c.textFrom text u

/-- The expression at `t` is elided only below this number of levels. -/
structure Unelided (c : Config) (levels t : Nat) : Prop where
  /-- All limits from there on give the same text. -/
  same : ∀ d e, levels ≤ d → levels ≤ e → c.exprText d (some t) = c.exprText e (some t)
  /-- Each of them gives the texts that there are without a limit. -/
  full : ∀ d, levels ≤ d → c.TellsTexts t (c.exprText d)
  /-- There is only one such text of the expression. -/
  only : ∀ d, levels ≤ d → ∀ text, c.TellsTexts t text → text (some t) = c.exprText d (some t)
  /-- So an expression of at most fifty levels is always shown in full. -/
  shown : levels ≤ 50 → ∀ text, c.TellsTexts t text → c.textOf t = text (some t)

/-! ## The parts of a token -/

theorem mem_operands_of_op1 {t a : Nat} (h : (c.token t).op1 = some a) :
    a ∈ (c.token t).operands :=
  List.mem_append_left _ (Option.mem_toList.mpr h)

theorem mem_operands_of_op2 {t b : Nat} (h : (c.token t).op2 = some b) :
    b ∈ (c.token t).operands :=
  List.mem_append_right _ (Option.mem_toList.mpr h)

theorem mem_gatherArguments {found : List Nat} {pending : List (Nat × Nat)} {x : Nat}
    (h : x ∈ c.gatherArguments found pending) :
    x ∈ found ∨ ∃ p ∈ pending, ReflTransGen (fun t u => u ∈ (c.token t).operands) p.2 x := by
  induction found, pending using gatherArguments.induct (c := c) with
  | case1 found =>
    rw [gatherArguments] at h
    exact .inl (List.mem_reverse.mp h)
  | case2 found t rest hcomma ih =>
    rw [gatherArguments, if_pos hcomma] at h
    rcases ih h with hfound | ⟨p, hp, hx⟩
    · exact .inl hfound
    · exact .inr ⟨p, List.mem_cons_of_mem _ hp, hx⟩
  | case3 found t rest hcomma b ih =>
    rw [gatherArguments, if_pos hcomma] at h
    rcases ih h with hfound | ⟨p, hp, hx⟩
    · exact .inl hfound
    · rcases List.mem_append.mp hp with hp | hp
      · obtain ⟨u, hu, rfl⟩ := List.mem_map.mp hp
        exact .inr ⟨(b + 1, t), List.mem_cons_self .., hx.head hu⟩
      · exact .inr ⟨p, List.mem_cons_of_mem _ hp, hx⟩
  | case4 found budget t rest hcomma ih =>
    rw [gatherArguments.eq_def] at h
    simp only [if_neg hcomma] at h
    rcases ih h with hfound | ⟨p, hp, hx⟩
    · rcases List.mem_cons.mp hfound with rfl | hfound
      · exact .inr ⟨(budget, x), List.mem_cons_self .., ReflTransGen.refl⟩
      · exact .inl hfound
    · exact .inr ⟨p, List.mem_cons_of_mem _ hp, hx⟩

/-- The arguments of a call lie below it. -/
theorem below_of_mem_callArguments {t x : Nat} (h : x ∈ c.callArguments t) :
    TransGen (fun t u => u ∈ (c.token t).operands) t x := by
  rcases mem_gatherArguments h with hfound | ⟨p, hp, hx⟩
  · exact absurd hfound List.not_mem_nil
  · obtain ⟨b, hb, rfl⟩ := List.mem_map.mp hp
    exact TransGen.head' (List.mem_append_right _ hb) hx

/-- The text of a token depends on the texts of what lies below it alone. -/
theorem textFrom_congr {f g : Option Nat → Except Misfit Datum} {t : Nat} (hnone : f none = g none)
    (h : ∀ u, TransGen (fun t u => u ∈ (c.token t).operands) t u → f (some u) = g (some u)) :
    c.textFrom f t = c.textFrom g t := by
  cases ha : (c.token t).op1 with
  | none =>
    cases hb : (c.token t).op2 with
    | none => simp only [textFrom, ha, hb]
    | some b => simp only [textFrom, ha, hb, h b (.single (mem_operands_of_op2 hb))]
  | some a =>
    have hleft := h a (.single (mem_operands_of_op1 ha))
    cases hb : (c.token t).op2 with
    | none => simp only [textFrom, ha, hb, hleft]
    | some b =>
      have hbelow := mem_operands_of_op2 hb
      have harguments : ((c.callArguments t).mapM fun x => f (some x))
          = (c.callArguments t).mapM fun x => g (some x) :=
        mapM_congr_of_mem fun x hx => h x (below_of_mem_callArguments hx)
      have hbranch : ∀ o : Option Nat, (∀ x, o = some x → x ∈ (c.token b).operands) →
          f o = g o := by
        intro o ho
        cases o with
        | none => exact hnone
        | some x => exact h x ((TransGen.single hbelow).tail (ho x rfl))
      have hyes := hbranch (c.token b).op1 fun _ => mem_operands_of_op1
      have hno := hbranch (c.token b).op2 fun _ => mem_operands_of_op2
      simp only [textFrom, ha, hb, hleft, h b (.single hbelow), harguments, hyes, hno]

/-! ## Levels -/

theorem WithinLevels.mono {k l t : Nat} (h : c.WithinLevels k t) (hkl : k ≤ l) :
    c.WithinLevels l t := by
  induction k generalizing l t with
  | zero => exact h.elim
  | succ k ih =>
    obtain ⟨l, rfl⟩ := Nat.exists_eq_succ_of_ne_zero (Nat.ne_zero_of_lt hkl)
    exact fun u hu => ih (h u hu) (Nat.le_of_succ_le_succ hkl)

/-- What lies below a token has one level less. -/
theorem WithinLevels.below {levels t u : Nat} (h : c.WithinLevels (levels + 1) t)
    (hu : TransGen (fun t u => u ∈ (c.token t).operands) t u) : c.WithinLevels levels u := by
  induction hu with
  | single hu => exact h _ hu
  | tail _ huv ih => exact (ih.mono (Nat.le_succ _)) _ huv

theorem WithinLevels.reached {levels t u : Nat} (h : c.WithinLevels levels t)
    (hu : ReflTransGen (fun t u => u ∈ (c.token t).operands) t u) : c.WithinLevels levels u := by
  rcases reflTransGen_iff_eq_or_transGen.mp hu with rfl | hu
  · exact h
  · exact (h.mono (Nat.le_succ _)).below hu

/-! ## Limits -/

theorem exprText_none (c : Config) (d : Nat) : c.exprText d none = .ok (.text "") := by
  unfold exprText
  rfl

theorem exprText_succ (c : Config) (d t : Nat) :
    c.exprText (d + 1) (some t) = c.textFrom (c.exprText d) t := by
  rw [exprText]
  rfl

theorem exprText_congr {levels t d e : Nat} (h : c.WithinLevels levels t) (hd : levels ≤ d)
    (he : levels ≤ e) : c.exprText d (some t) = c.exprText e (some t) := by
  induction levels generalizing t d e with
  | zero => exact h.elim
  | succ levels ih =>
    obtain ⟨d, rfl⟩ := Nat.exists_eq_succ_of_ne_zero (Nat.ne_zero_of_lt hd)
    obtain ⟨e, rfl⟩ := Nat.exists_eq_succ_of_ne_zero (Nat.ne_zero_of_lt he)
    rw [exprText_succ, exprText_succ]
    apply textFrom_congr
    · rw [exprText_none, exprText_none]
    · exact fun u hu => ih (h.below hu) (Nat.le_of_succ_le_succ hd) (Nat.le_of_succ_le_succ he)

/-- A token is shown within a limit as if nothing of the limit were spent on it. -/
theorem exprText_eq_textFrom {levels t d : Nat} (h : c.WithinLevels levels t) (hd : levels ≤ d) :
    c.exprText d (some t) = c.textFrom (c.exprText d) t := by
  cases levels with
  | zero => exact h.elim
  | succ levels =>
    obtain ⟨d, rfl⟩ := Nat.exists_eq_succ_of_ne_zero (Nat.ne_zero_of_lt hd)
    rw [exprText_succ]
    apply textFrom_congr
    · rw [exprText_none, exprText_none]
    · exact fun u hu => exprText_congr (h.below hu) (Nat.le_of_succ_le_succ hd)
        (Nat.le_of_succ_le hd)

theorem tellsTexts_exprText {levels t d : Nat} (h : c.WithinLevels levels t) (hd : levels ≤ d) :
    c.TellsTexts t (c.exprText d) where
  missing := c.exprText_none d
  token := fun _ hu => exprText_eq_textFrom (h.reached hu) hd

theorem TellsTexts.eq_exprText {levels t d : Nat} {text : Option Nat → Except Misfit Datum}
    (ht : c.TellsTexts t text) (h : c.WithinLevels levels t) (hd : levels ≤ d) :
    text (some t) = c.exprText d (some t) := by
  induction levels generalizing t d with
  | zero => exact h.elim
  | succ levels ih =>
    rw [exprText_eq_textFrom h hd, ht.token t ReflTransGen.refl]
    apply textFrom_congr
    · rw [ht.missing, exprText_none]
    · intro u hu
      have hbelow : c.TellsTexts u text :=
        ⟨ht.missing, fun v hv => ht.token v (hu.to_reflTransGen.trans hv)⟩
      exact ih hbelow (h.below hu) (Nat.le_of_succ_le hd)

end Config

/-- An expression is elided only past the limit: from its number of levels on the limit makes no
difference, and the text is the one that is put together without any. -/
theorem exprText_unelided {c : Config} {levels t : Nat} (h : c.WithinLevels levels t) :
    c.Unelided levels t where
  same := fun _ _ => Config.exprText_congr h
  full := fun _ => Config.tellsTexts_exprText h
  only := fun _ hd _ ht => ht.eq_exprText h hd
  shown := fun hdefault _ ht => (ht.eq_exprText h hdefault).symm

/-- `f((a ? b : c), d)` -/
def choiceCallConfig : Config where
  tokens := #[
    { spelling := .text "f", isName := true, next := some 1 },
    { spelling := .text "(", op1 := some 0, op2 := some 7, next := some 2 },
    { spelling := .text "a", isName := true, next := some 3 },
    { spelling := .text "?", op1 := some 2, op2 := some 5, next := some 4 },
    { spelling := .text "b", isName := true, next := some 5 },
    { spelling := .text ":", op1 := some 4, op2 := some 6, next := some 6 },
    { spelling := .text "c", isName := true, next := some 7 },
    { spelling := .text ",", op1 := some 3, op2 := some 8, next := some 8 },
    { spelling := .text "d", isName := true }]
  tokenList := [0, 1, 2, 3, 4, 5, 6, 7, 8]

/-- The expression has five levels.  A limit of two elides the parts of the choice, but neither the
comma nor the colon takes a level of its own. -/
theorem exprText_unelided_choiceCallConfig :
    choiceCallConfig.WithinLevels 5 1
      ∧ ¬ choiceCallConfig.WithinLevels 4 1
      ∧ choiceCallConfig.exprText 2 (some 1) = .ok (.text "f((... ? ... : ...), d)")
      ∧ choiceCallConfig.exprText 5 (some 1) = .ok (.text "f((a ? b : c), d)")
      ∧ choiceCallConfig.Unelided 5 1 := by
  have hlevels : choiceCallConfig.WithinLevels 5 1 := by decide
  refine ⟨hlevels, by decide, ?_, ?_, exprText_unelided hlevels⟩
  · decide +kernel
  · decide +kernel

end FinalParams
