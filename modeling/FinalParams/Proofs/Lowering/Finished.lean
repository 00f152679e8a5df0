import FinalParams.Proofs.Lowering.Searchable

/-!
# Searches that come to their end

A search stops early at a stray value, at names that cannot be looked up, and at a mutation that
cannot be quoted.  The tree of a configuration has none of these but names of parameters, so where
the spellings of the tokens can be looked up every search of it comes to its end:
`compilationUnit_finishes`.
-/

namespace FinalParams

open Node

namespace Node

/-- The value is a node, and the names of its parameters can be watched. -/
def Watchable : Node → Prop
  | callable _ params _ _ _ => ∃ w, Watched.ofParameterList params = .ok w
  | stray _ => False
  | _ => True

end Node

namespace Scan

theorem visit_finishes {n : Node} (hn : n.Searchable) (hw : n.Watchable)
    (hc : ∀ c ∈ n.children, c.Searchable) (m : Mutations) (path : Datum)
    (watched : Option Watched) : ∃ v, visit m path watched n = .ok v := by
  cases n with
  | file own cs loc => exact ⟨_, rfl⟩
  | callable name params body kind loc =>
    obtain ⟨w, hw⟩ := hw
    exact ⟨_, by simp only [visit, hw]; rfl⟩
  | stray value => exact hw.elim
  | _ =>
    obtain ⟨o, ho, -⟩ := Node.violation?_plainOnly hn hc m path watched
    exact ⟨_, by simp only [visit, ho]; rfl⟩

theorem scan_finishes {n : Node} (hn : n.Everywhere Searchable) (hw : n.Everywhere Watchable)
    (m : Mutations) (inherited : Option Watched) : (n.scan m inherited).error = none := by
  have hvisited : ∀ f ∈ n.frames none, ∀ path,
      ∃ v, visit m path (f.watched inherited) f.node = .ok v := by
    intro f hf path
    have hat := (Node.mem_frames_iff.mp hf).1
    obtain ⟨hnode, hchildren⟩ := everywhere_iff.mp (hn.of_nodeAt? hat)
    exact visit_finishes hnode (hw f.pos f.node hat)
      (fun c hc => (everywhere_iff.mp (hchildren c hc)).1) m path _
  rw [scan_eq_sweep, sweep_of_visited hvisited]

end Scan

namespace Config

/-- The spellings of all tokens can be looked up. -/
def Spelled (c : Config) : Prop := ∀ t, (c.token t).spelling.IsKey

theorem parameterOf_isKey {c : Config} (h : c.Spelled) (v : Nat) :
    (c.parameterOf v).name.IsKey := by
  obtain ⟨t, ht⟩ := c.exists_tokenIfAny (c.variableAt v).nameToken
  show Datum.IsKey (if (c.nameToken v).spelling.truthy = true then _ else _)
  rw [nameToken, ht]
  split
  · exact h t
  · exact Datum.isKey_null

theorem allMade_watchable {c : Config} (h : c.Spelled) (path : Datum) :
    c.AllMade path Watchable where
  file := fun _ => trivial
  unit := by
    intro head body hparams
    have hkeys : ∀ p, some p ∈ (head.params.map (·.map some)).getD [] →
        p.name.IsKey ∧ p.binding.IsKey := by
      intro p hp
      have hmem : p ∈ head.params.getD [] := by
        cases hps : head.params with
        | none => simp [hps] at hp
        | some ps => simpa [hps] using hp
      obtain ⟨v, rfl⟩ := hparams p hmem
      exact ⟨parameterOf_isKey h v, parameterOf_binding v⟩
    obtain ⟨w, hw, -⟩ := Watched.ofParameterList_covers hkeys
    exact ⟨w, hw⟩
  body := fun _ _ => trivial
  token := by
    intro owner t us lowered n _ hn
    obtain ⟨loc, -, ⟨target, rest, text, -, rfl⟩ | ⟨target, rest, leading, text, -, rfl⟩ | rfl |
      rfl⟩ := nodeOf_cases hn
    all_goals trivial

/-- Where spellings can be looked up every search of the tree comes to its end. -/
theorem compilationUnit_finishes {c : Config} (h : c.Spelled) {path : Datum} {tree : Node}
    (ht : c.compilationUnit path = .ok tree) (m : Mutations) (inherited : Option Watched) :
    (tree.scan m inherited).error = none :=
  Scan.scan_finishes (compilationUnit_everywhere (c.allMade_searchable path) ht)
    (compilationUnit_everywhere (allMade_watchable h path) ht) m inherited

end Config
end FinalParams
