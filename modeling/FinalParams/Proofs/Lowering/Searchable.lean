import FinalParams.Proofs.Config.ExprText
import FinalParams.Proofs.Lowering.Everywhere
import FinalParams.Proofs.Scan.PlainOnly

/-!
# What is found in a configuration when less is looked for

Whatever a configuration is made of, the mutations in its tree quote their tokens, which are shown
by texts that are not empty, and the names in it could be looked up, or there would be no tree.  So
nothing that a search passes over can disturb what it finds: `compilationUnit_plainOnly` says that a
search for plain assignments alone finds exactly those that a search for all mutations finds.
-/

namespace FinalParams

open Node

namespace Config

variable {c : Config} {t : Nat} {lowered : List Node}

/-- A step is not written like a plain assignment. -/
theorem isText_of_isStep {t : Token} (h : t.isStep = true) : t.spelling.isText "=" = false := by
  rw [Token.isStep, Bool.and_eq_true, Datum.isAmong_iff] at h
  obtain ⟨⟨s, hs, hspelling⟩, -⟩ := h
  rw [hspelling, Datum.isText_text, beq_eq_false_iff_ne]
  rintro rfl
  exact absurd hs (by decide)

/-- The spelling of a name has been looked up before the name is opened. -/
theorem lookUp_of_opened {owner : Option Nat} {us : List Nat}
    (h : c.openedOperands owner t = .ok us) (hv : (c.token t).isVariable = true) :
    (c.token t).spelling.IsKey := by
  have hopen : c.openable t = .ok () := by
    unfold openedOperands at h
    split at h
    · cases h
    · assumption
    · assumption
  have hbare : (c.token t).op1.isSome = false := by
    simp only [Token.isVariable, Token.isBareName, Bool.and_eq_true,
      Option.isNone_iff_eq_none] at hv
    rw [hv.1.1.1]
    rfl
  unfold openable at hopen
  simp only [hbare, Bool.and_false, Bool.false_eq_true, if_false] at hopen
  obtain ⟨_, hlook, -⟩ := exists_of_bind_ok hopen
  obtain ⟨k, hk, -⟩ := exists_of_map_ok (ok_of_mapError hlook)
  exact ⟨k, hk⟩

theorem nodeOf_searchable {owner : Option Nat} {us : List Nat} {n : Node}
    (ho : c.openedOperands owner t = .ok us) (hn : c.nodeOf t lowered = .ok n) : n.Searchable := by
  obtain ⟨loc, -, ⟨hassign, target, rest, text, -, htext, rfl⟩ |
    ⟨-, ⟨hstep, target, rest, text, -, htext, rfl⟩ | ⟨-, ⟨hv, rfl⟩ | ⟨-, rfl⟩⟩⟩⟩ :=
    nodeOf_kinds hn
  · obtain ⟨a, ha⟩ := Option.isSome_iff_exists.mp (Bool.and_eq_true_iff.mp hassign).2
    exact (textOf_isWords ha htext).truthy
  · obtain ⟨a, ha⟩ := Option.isSome_iff_exists.mp (Bool.and_eq_true_iff.mp hstep).2
    exact ⟨(textOf_isWords ha htext).truthy, isText_of_isStep hstep⟩
  · exact Identifier.keys?_of_isKey (lookUp_of_opened ho hv) (Datum.isKey_int _)
  · trivial

theorem allMade_searchable (c : Config) (path : Datum) : c.AllMade path Searchable where
  file := fun _ => trivial
  unit := fun _ _ _ => trivial
  body := fun _ _ => trivial
  token := fun _ _ _ _ _ ho hn => nodeOf_searchable ho hn

end Config

/-- A search for plain assignments alone finds exactly the plain assignments that a search for more
finds, with their places, names and texts and in their order, and it ends in the same way. -/
theorem compilationUnit_plainOnly {c : Config} {path : Datum} {tree : Node}
    (h : c.compilationUnit path = .ok tree) (m : Mutations) (inherited : Option Watched) :
    tree.scan .plainOnly inherited
      = { violations := (tree.scan m inherited).violations.filter fun v => v.op.isText "="
          error := (tree.scan m inherited).error } :=
  Scan.scan_plainOnly (Config.compilationUnit_everywhere (c.allMade_searchable path) h) m inherited

/-- `f(n) { n += n = n++; }` -/
def chainedConfig : Config where
  tokens := #[
    { spelling := .text "\x7b", scope := some 0, next := some 1 },
    { spelling := .text "n", varId := .int 1, isName := true, scope := some 0, parent := some 2,
      next := some 2 },
    { spelling := .text "+=", isAssignmentOp := true, scope := some 0, op1 := some 1,
      op2 := some 4, next := some 3 },
    { spelling := .text "n", varId := .int 1, isName := true, scope := some 0, parent := some 4,
      next := some 4 },
    { spelling := .text "=", isAssignmentOp := true, scope := some 0, op1 := some 3,
      op2 := some 6, parent := some 2, next := some 5 },
    { spelling := .text "n", varId := .int 1, isName := true, scope := some 0, parent := some 6,
      next := some 6 },
    { spelling := .text "++", scope := some 0, op1 := some 5, parent := some 4, next := some 7 },
    { spelling := .text "\x7d", scope := some 0 }]
  scopes := #[
    { kind := .text "Function", function := some 0, bodyStart := some 0, bodyEnd := some 7 }]
  functions := #[{ name := .text "f", arguments := some (.listed [some 0]) }]
  vars := #[{ isArgument := true, nameToken := some 1 }]
  tokenList := [0, 1, 2, 3, 4, 5, 6, 7]
  scopeList := [0]
  functionList := [0]

theorem chainedConfig.exists_tree :
    ∃ tree, chainedConfig.compilationUnit (.text "a.c") = .ok tree
      ∧ (tree.scan {} none).violations.map (·.op) = [.text "+=", .text "=", .text "++"] := by
  have hfound : (chainedConfig.compilationUnit (.text "a.c")).map (fun tree =>
      (tree.scan {} none).violations.map (·.op)) = .ok [.text "+=", .text "=", .text "++"] := by
    decide +kernel
  exact exists_of_map_ok hfound

theorem compilationUnit_plainOnly_chainedConfig :
    ∃ tree, chainedConfig.compilationUnit (.text "a.c") = .ok tree
      ∧ (tree.scan {} none).violations.map (·.op) = [.text "+=", .text "=", .text "++"]
      ∧ tree.scan .plainOnly none
        = { violations := (tree.scan {} none).violations.filter fun v => v.op.isText "="
            error := (tree.scan {} none).error } := by
  obtain ⟨tree, htree, hfound⟩ := chainedConfig.exists_tree
  exact ⟨tree, htree, hfound, compilationUnit_plainOnly htree {} none⟩

end FinalParams
