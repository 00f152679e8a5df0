import FinalParams.Proofs.Lowering.Everywhere
import FinalParams.Proofs.Scan.Placed

/-!
# Where the names of a configuration lie

Every name in the tree of a configuration lies where its token lies.  Where all tokens name their
files by texts all these places are plain, however damaged the configuration is otherwise.
-/

namespace FinalParams

open Node

/-- All tokens name their files by texts. -/
def Config.FilesNamed (c : Config) : Prop := ∀ t, ∃ s, (c.token t).file = .text s

namespace Config

variable {c : Config}

theorem loc?_plain (h : c.FilesNamed) {t : Nat} {loc : Loc} (hl : (c.token t).loc? = .ok loc) :
    loc.Plain := by
  obtain ⟨s, hs⟩ := h t
  unfold Token.loc? at hl
  cases hm : (c.token t).line.finiteInt with
  | error e => simp [hm, bind, Except.bind] at hl
  | ok m =>
    cases hn : (c.token t).column.finiteInt with
    | error e => simp [hm, hn, bind, Except.bind] at hl
    | ok n =>
      simp only [hm, hn, bind, Except.bind, pure, Except.pure, Except.ok.injEq] at hl
      exact ⟨s, m, n, by rw [← hl, hs]⟩

theorem nodeOf_placed (h : c.FilesNamed) (t : Nat) (lowered : List Node) (n : Node)
    (hn : c.nodeOf t lowered = .ok n) : n.Placed := by
  obtain ⟨loc, hl, ⟨target, rest, text, -, rfl⟩ | ⟨target, rest, leading, text, -, rfl⟩ | rfl |
    rfl⟩ := nodeOf_cases hn
  · trivial
  · trivial
  · exact loc?_plain h hl
  · trivial

theorem shownPath_text (h : c.FilesNamed) (path : String) :
    ∃ s, c.shownPath (.text path) = .text s := by
  unfold shownPath
  split
  · exact ⟨path, rfl⟩
  split
  · rename_i t _
    exact h t
  · exact ⟨path, rfl⟩

theorem allMade_placed (h : c.FilesNamed) (path : String) :
    c.AllMade (.text path) Placed where
  file := fun _ => shownPath_text h path
  unit := fun _ _ _ => trivial
  body := fun _ _ => trivial
  token := fun _ t _ lowered n _ hn => nodeOf_placed h t lowered n hn

/-- All names in the tree of a configuration lie in plain places. -/
theorem compilationUnit_placed (h : c.FilesNamed) {path : String} {tree : Node}
    (ht : c.compilationUnit (.text path) = .ok tree) : tree.Everywhere Placed :=
  compilationUnit_everywhere (allMade_placed h path) ht

end Config
end FinalParams
