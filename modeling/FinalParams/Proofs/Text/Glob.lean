import FinalParams.Text.Glob
import Mathlib.Data.List.Infix

/-!
# Literal patterns

A pattern in which no character stands for others matches itself and no other text.
-/

namespace FinalParams
namespace Glob

/-- No character begins a piece that stands for other characters. -/
def Literal (cs : List Char) : Prop := ∀ c ∈ cs, c ≠ '*' ∧ c ≠ '?' ∧ c ≠ '['

instance (cs : List Char) : Decidable (Literal cs) := List.decidableBAll _ cs

theorem parse_literal {cs : List Char} (h : Literal cs) : parse cs = cs.map Piece.char := by
  induction cs with
  | nil => unfold parse; rfl
  | cons c rest ih =>
    have hc := h c (List.mem_cons_self ..)
    have hrest : parse rest = rest.map Piece.char := ih fun d hd => h d (List.mem_cons_of_mem _ hd)
    unfold parse
    split
    · contradiction
    · rename_i heq
      exact absurd (List.cons.inj heq).1 hc.1
    · rename_i heq
      exact absurd (List.cons.inj heq).1 hc.2.1
    · rename_i heq
      exact absurd (List.cons.inj heq).1 hc.2.2
    · rename_i heq
      rw [← (List.cons.inj heq).1, ← (List.cons.inj heq).2, hrest, List.map_cons]

theorem tails_eq_cons (text : List Char) : text.tails = text :: text.tails.tail := by
  cases text <;> rfl

/-- In front of the endings that equal `cs`, a character accepts those that equal `d :: cs`. -/
theorem extend_char (d : Char) (text cs : List Char) :
    (Piece.char d).extend text (text.tails.map (· == cs)) = text.tails.map (· == d :: cs) := by
  have hzip : List.zipWith (fun c b => (Piece.char d).allows c && b) text
      (text.tails.map (· == cs)).tail ++ [false] = text.tails.map (· == d :: cs) := by
    induction text with
    | nil => rfl
    | cons c rest ih =>
      have hhead : ((Piece.char d).allows c && rest == cs) = (c :: rest == d :: cs) := rfl
      rw [List.tails_cons, List.map_cons, List.map_cons, List.tail_cons, tails_eq_cons rest,
        List.map_cons, List.zipWith_cons_cons, List.cons_append, hhead]
      rw [← List.map_tail] at ih
      rw [ih, ← tails_eq_cons]
  exact hzip

theorem acceptedEndings_chars (text cs : List Char) :
    acceptedEndings text (cs.map Piece.char) = text.tails.map (· == cs) := by
  induction cs with
  | nil =>
    induction text with
    | nil => rfl
    | cons c rest ih =>
      rw [List.tails_cons, List.map_cons, ← ih]
      rfl
  | cons d rest ih =>
    have hextend : acceptedEndings text ((d :: rest).map Piece.char)
        = (Piece.char d).extend text (acceptedEndings text (rest.map Piece.char)) := rfl
    rw [hextend, ih, extend_char]

theorem accepts_chars (cs text : List Char) : accepts (cs.map Piece.char) text = (text == cs) := by
  rw [accepts, acceptedEndings_chars, tails_eq_cons]
  rfl

end Glob

theorem globMatches_literal {pattern : String} (h : Glob.Literal pattern.toList) (text : String) :
    globMatches pattern text = true ↔ text = pattern := by
  rw [globMatches, Glob.parse_literal h, Glob.accepts_chars, beq_iff_eq, String.toList_inj]

end FinalParams
