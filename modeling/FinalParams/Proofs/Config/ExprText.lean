import FinalParams.Config.ExprText
import FinalParams.Proofs.Sequence

/-!
# The text of an operator is not empty

Whatever values a token and its operands are made of, a token with a first operand is shown by a text
with at least one character, if it can be shown at all: that of an operator, of a parenthesis or of
the blanks between its parts.  So a node that quotes its token never has to be shown by its operands
instead.
-/

namespace FinalParams

namespace Datum

/-- A text with at least one character. -/
def IsWords (d : Datum) : Prop := ∃ s, d = .text s ∧ s ≠ ""

theorem IsWords.truthy {d : Datum} (h : d.IsWords) : d.truthy = true := by
  obtain ⟨s, rfl, hs⟩ := h
  exact bne_iff_ne.mpr hs

/-- Only a text can be put behind a text. -/
theorem exists_of_text_plus {s : String} {d r : Datum} (h : (text s).plus d = .ok r) :
    ∃ t, r = text (s ++ t) := by
  cases d with
  | text t => exact ⟨t, (Except.ok.inj h).symm⟩
  | _ => cases h

theorem exists_of_plus_text {s : String} {d r : Datum} (h : d.plus (text s) = .ok r) :
    ∃ t, r = text (t ++ s) := by
  cases d with
  | text t => exact ⟨t, (Except.ok.inj h).symm⟩
  | null => cases h
  | bool b => cases h
  | int n => cases h
  | real x => cases h
  | list items => cases h
  | record fields => cases h

theorem isAmong_iff {d : Datum} {words : List String} :
    d.isAmong words = true ↔ ∃ s ∈ words, d = text s := by
  cases d <;> simp [isAmong]

end Datum

namespace Config

open Datum

/-- An operator that is no empty text, written before or behind its operand, leaves no empty text. -/
theorem isWords_of_beside {op operand d : Datum} {words : List String} (hw : "" ∉ words)
    (hop : op.isAmong words = true) (h : op.plus operand = .ok d ∨ operand.plus op = .ok d) :
    d.IsWords := by
  obtain ⟨s, hs, rfl⟩ := isAmong_iff.mp hop
  have hne : s ≠ "" := fun he => hw (he ▸ hs)
  rcases h with h | h
  · obtain ⟨t, rfl⟩ := exists_of_text_plus h
    exact ⟨s ++ t, rfl, by simp [hne]⟩
  · obtain ⟨t, rfl⟩ := exists_of_plus_text h
    exact ⟨t ++ s, rfl, by simp [hne]⟩

theorem unaryText_isWords {t : Token} {operand d : Datum} (h : unaryText t operand = .ok d) :
    d.IsWords := by
  unfold unaryText at h
  split at h
  · rename_i hop
    split at h
    · exact isWords_of_beside (by decide) hop (.inl h)
    · exact isWords_of_beside (by decide) hop (.inr h)
  split at h
  · obtain ⟨o, -, h⟩ := exists_of_bind_ok h
    obtain rfl := Except.ok.inj h
    refine ⟨_, rfl, ?_⟩
    split <;> simp
  split at h
  · rename_i hop
    exact isWords_of_beside (by decide) hop (.inl h)
  · obtain ⟨s, -, h⟩ := exists_of_bind_ok h
    obtain ⟨o, -, h⟩ := exists_of_bind_ok h
    exact ⟨_, (Except.ok.inj h).symm, by simp⟩

theorem binaryText_isWords {t : Token} {left right d : Datum}
    (h : binaryText t left right = .ok d) : d.IsWords := by
  unfold binaryText at h
  generalize hmember : (if t.originalName.truthy then t.originalName else t.spelling) = member at h
  simp only at h
  split at h
  · obtain ⟨l, -, h⟩ := exists_of_bind_ok h
    obtain ⟨r, -, h⟩ := exists_of_bind_ok h
    exact ⟨_, (Except.ok.inj h).symm, by simp⟩
  split at h
  · rename_i hdot
    obtain ⟨l, -, h⟩ := exists_of_bind_ok h
    obtain ⟨r, -, h⟩ := exists_of_bind_ok h
    refine ⟨_, (Except.ok.inj h).symm, ?_⟩
    rw [Bool.or_eq_true, isText_iff, isText_iff] at hdot
    rcases hdot with rfl | rfl <;> simp
  split at h
  · obtain ⟨l, -, h⟩ := exists_of_bind_ok h
    obtain ⟨r, -, h⟩ := exists_of_bind_ok h
    exact ⟨_, (Except.ok.inj h).symm, by simp⟩
  · -- whether the spelling is looked up makes no difference to the text
    have hshown : (do
        let inner := (← left.shown?) ++ " " ++ (← t.spelling.shown?) ++ " " ++ (← right.shown?)
        return text (if t.isAssignment then inner else "(" ++ inner ++ ")")) = Except.ok d := by
      split at h
      · exact h
      · obtain ⟨-, -, h⟩ := exists_of_bind_ok h
        exact h
    obtain ⟨l, -, h⟩ := exists_of_bind_ok hshown
    obtain ⟨s, -, h⟩ := exists_of_bind_ok h
    obtain ⟨r, -, h⟩ := exists_of_bind_ok h
    refine ⟨_, (Except.ok.inj h).symm, ?_⟩
    split <;> simp

/-- With a first operand a token has no empty text above the limit. -/
theorem exprText_isWords {c : Config} {depth t a : Nat} {d : Datum}
    (ha : (c.token t).op1 = some a) (h : c.exprText (depth + 1) (some t) = .ok d) : d.IsWords := by
  rw [exprText] at h
  simp only [ha] at h
  cases hb : (c.token t).op2 with
  | none =>
    simp only [hb] at h
    obtain ⟨-, -, h⟩ := exists_of_bind_ok h
    obtain ⟨operand, -, h⟩ := exists_of_bind_ok h
    exact unaryText_isWords h
  | some b =>
    simp only [hb] at h
    obtain ⟨left, -, h⟩ := exists_of_bind_ok h
    split at h
    · obtain ⟨arguments, -, h⟩ := exists_of_bind_ok h
      obtain ⟨listed, -, h⟩ := exists_of_bind_ok h
      obtain ⟨l, -, h⟩ := exists_of_bind_ok h
      exact ⟨_, (Except.ok.inj h).symm, by simp⟩
    split at h
    · obtain ⟨first, -, h⟩ := exists_of_bind_ok h
      obtain ⟨second, -, h⟩ := exists_of_bind_ok h
      obtain ⟨l, -, h⟩ := exists_of_bind_ok h
      obtain ⟨x, -, h⟩ := exists_of_bind_ok h
      obtain ⟨y, -, h⟩ := exists_of_bind_ok h
      exact ⟨_, (Except.ok.inj h).symm, by simp⟩
    · obtain ⟨right, -, h⟩ := exists_of_bind_ok h
      exact binaryText_isWords h

theorem textOf_isWords {c : Config} {t a : Nat} {d : Datum} (ha : (c.token t).op1 = some a)
    (h : c.textOf t = .ok d) : d.IsWords :=
  exprText_isWords ha h

end Config
end FinalParams
