import FinalParams.Proofs.Lowering.Justified

/-!
# Violations quote their tokens

A node can be shown in two ways: by its own text, or by a text that is put together from its
operands.  For most expressions the two differ, and in the tree of a configuration only the first
one is ever taken.  An assignment or step quotes the text of its token, and that text is not empty,
whatever the token and its operands are spelled like and however deep they nest.
`compilationUnit_quoted` says so, and that each violation quotes the token at whose position it is
found.
-/

namespace FinalParams

open Node

namespace Node

/-- The own text of an assignment or step. -/
def quote? : Node → Option Datum
  | assign _ _ _ text _ => some text
  | update _ _ _ text _ => some text
  | _ => none

/-- A node with a text of its own is shown by it and by nothing else. -/
theorem sourceText_of_quote {n : Node} {text : Datum} (h : n.quote? = some text)
    (ht : text.truthy = true) : n.sourceText = .ok text := by
  cases n with
  | assign target value op own loc =>
    obtain rfl := Option.some.inj h
    rw [sourceText, if_pos ht]
  | update target op leading own loc =>
    obtain rfl := Option.some.inj h
    rw [sourceText, if_pos ht]
  | _ => cases h

/-- A search for everything looks at each node that has a quote. -/
theorem written?_of_quote {n : Node} {text : Datum} (h : n.quote? = some text) :
    ∃ target op, n.written? {} = some (target, op) := by
  cases n with
  | assign target value op own loc => exact ⟨target, op, by simp [written?]⟩
  | update target op leading own loc => exact ⟨target, op, rfl⟩
  | _ => cases h

theorem exists_quote_of_written {m : Mutations} {n : Node} {w : Node × Datum}
    (h : n.written? m = some w) : ∃ text, n.quote? = some text := by
  cases n with
  | assign target value op text loc => exact ⟨text, rfl⟩
  | update target op leading text loc => exact ⟨text, rfl⟩
  | _ => cases h

/-- A violation quotes what its node is shown by. -/
theorem sourceText_of_violation {m : Mutations} {path : Datum} {watched : Option Watched} {n : Node}
    {v : Violation} (h : n.violation? m path watched = .ok (some v)) : n.sourceText = .ok v.text := by
  obtain ⟨o, -, h⟩ := exists_of_bind_ok h
  cases o with
  | none => cases h
  | some offence =>
    obtain ⟨text, htext, h⟩ := exists_of_bind_ok h
    obtain rfl := Option.some.inj (Except.ok.inj h)
    exact htext

end Node

namespace Config

/-- What is found at the position `p` comes from the token `t`: the node there is made for it, and it
is the assignment or step that the violation names. -/
structure ComesFrom (c : Config) (m : Mutations) (tree : Node) (p : Position) (v : Violation)
    (t : Nat) : Prop where
  origin : ∃ s, c.originAt p = some (.token s t)
  node : ∃ n loc lowered, tree.nodeAt? p = some n ∧ c.nodeOf t lowered = .ok n
    ∧ n.Writes m v.ident loc v.op
  kind : (c.token t).op1.isSome = true
    ∧ ((c.token t).isAssignment = true ∨ (c.token t).isStep = true)

/-- Texts in the tree of a configuration are those of its tokens. -/
structure QuotesTokens (c : Config) (tree : Node) : Prop where
  /-- What is found, by whatever search, is found at positions in pre-order, and each violation
  quotes the token that it comes from. -/
  violations : ∀ m inherited, ∃ rows : List (Position × Violation),
    (tree.scan m inherited).violations = rows.map (·.2)
      ∧ rows.Pairwise (fun a b => a.1 < b.1)
      ∧ ∀ p v, (p, v) ∈ rows → ∃ t, c.ComesFrom m tree p v t ∧ c.textOf t = .ok v.text
  /-- No assignment or step is shown by its operands: its own text is not empty, it is that of the
  token for which the node is made, and it is what the node is shown by. -/
  mutations : ∀ p n text, tree.nodeAt? p = some n → n.quote? = some text →
    text.IsWords ∧ n.sourceText = .ok text
      ∧ ∃ s t, c.originAt p = some (.token s t) ∧ c.textOf t = .ok text
  /-- With a first operand no token has an empty text, at any limit. -/
  words : ∀ depth t a text, (c.token t).op1 = some a → c.exprText depth (some t) = .ok text →
    text.IsWords

variable {c : Config} {path : Datum} {tree : Node}

theorem isWords_of_exprText {depth t a : Nat} {text : Datum} (ha : (c.token t).op1 = some a)
    (h : c.exprText depth (some t) = .ok text) : text.IsWords := by
  cases depth with
  | zero =>
    rw [exprText] at h
    exact ⟨"...", (Except.ok.inj h).symm, by decide⟩
  | succ depth => exact exprText_isWords ha h

/-- An assignment or step quotes the token that it is made for, which has a first operand. -/
theorem quote_of_nodeOf {t : Nat} {lowered : List Node} {n : Node} {text : Datum}
    (hn : c.nodeOf t lowered = .ok n) (hq : n.quote? = some text) :
    c.textOf t = .ok text ∧ (c.token t).op1.isSome = true
      ∧ ((c.token t).isAssignment = true ∨ (c.token t).isStep = true) := by
  obtain ⟨loc, -, ⟨hassign, target, rest, own, -, htext, rfl⟩ |
    ⟨-, ⟨hstep, target, rest, own, -, htext, rfl⟩ | ⟨-, ⟨-, rfl⟩ | ⟨-, rfl⟩⟩⟩⟩ := nodeOf_kinds hn
  · obtain rfl := Option.some.inj hq
    obtain ⟨hkind, hsome⟩ := Bool.and_eq_true_iff.mp hassign
    exact ⟨htext, hsome, .inl hkind⟩
  · obtain rfl := Option.some.inj hq
    exact ⟨htext, (Bool.and_eq_true_iff.mp hstep).2, .inr hstep⟩
  · cases hq
  · cases hq

theorem Traced.exists_quoted (h : c.Traced path tree) {p : Position} {n : Node} {text : Datum}
    (hp : tree.nodeAt? p = some n) (hq : n.quote? = some text) :
    ∃ s t lowered, c.originAt p = some (.token s t) ∧ c.nodeOf t lowered = .ok n := by
  obtain ⟨o, ho, hmade⟩ := h.exists_origin hp
  obtain ⟨target, op, hwritten⟩ := written?_of_quote hq
  obtain ⟨s, t, rfl⟩ := token_of_written hmade hwritten
  obtain ⟨lowered, hn⟩ := hmade
  exact ⟨s, t, lowered, ho, hn⟩

theorem Traced.quoted (h : c.Traced path tree) {p : Position} {n : Node} {text : Datum}
    (hp : tree.nodeAt? p = some n) (hq : n.quote? = some text) :
    text.IsWords ∧ n.sourceText = .ok text
      ∧ ∃ s t, c.originAt p = some (.token s t) ∧ c.textOf t = .ok text := by
  obtain ⟨s, t, lowered, ho, hn⟩ := h.exists_quoted hp hq
  obtain ⟨htext, hsome, -⟩ := quote_of_nodeOf hn hq
  obtain ⟨a, ha⟩ := Option.isSome_iff_exists.mp hsome
  have hwords := textOf_isWords ha htext
  exact ⟨hwords, sourceText_of_quote hq hwords.truthy, s, t, ho, htext⟩

/-- What is found at a frame of the tree quotes the token that the frame's node is made for. -/
theorem Traced.exists_comesFrom (h : c.Traced path tree) {m : Mutations} {before : Datum}
    {watched : Option Watched} {f : Frame} (hf : f ∈ tree.frames none) {v : Violation}
    (hv : f.node.violation? m before watched = .ok (some v)) :
    ∃ t, c.ComesFrom m tree f.pos v t ∧ c.textOf t = .ok v.text := by
  have hnode := (mem_frames_iff.mp hf).1
  obtain ⟨w, loc, -, hwritten, -, -⟩ := violation?_eq_some hv
  obtain ⟨text, hq⟩ := exists_quote_of_written hwritten
  obtain ⟨s, t, lowered, ho, hn⟩ := h.exists_quoted hnode hq
  obtain ⟨htext, hsome, hkind⟩ := quote_of_nodeOf hn hq
  have hshown := (h.quoted hnode hq).2.1
  rw [sourceText_of_violation hv] at hshown
  obtain rfl := Except.ok.inj hshown
  refine ⟨t, ⟨⟨s, ho⟩, ⟨f.node, loc, lowered, hnode, hn, ?_⟩, hsome, hkind⟩, htext⟩
  exact written?_eq_some.mp hwritten

end Config

/-- Each violation in the tree of a configuration quotes the token that it comes from.  That text is
never empty, so no node is shown by its operands instead. -/
theorem compilationUnit_quoted {c : Config} {path : Datum} {tree : Node}
    (h : c.compilationUnit path = .ok tree) : c.QuotesTokens tree where
  violations := by
    intro m inherited
    have htraced := compilationUnit_traced h
    obtain ⟨visited, after, error, hframes, -, hsweep, -⟩ :=
      Scan.sweep_split m inherited (.text "") [] (tree.frames none)
    refine ⟨Scan.rows m inherited (.text "") visited, ?_, ?_, ?_⟩
    · rw [Scan.scan_eq_sweep, hsweep]
      rfl
    · have hsorted := tree.frames_pairwise none
      rw [hframes] at hsorted
      exact Scan.rows_pairwise m inherited (.text "") (List.pairwise_append.mp hsorted).1
    · intro p v hrow
      obtain ⟨before, f, rest, rfl, rfl, hv⟩ := Scan.mem_rows_iff.mp hrow
      have hf : f ∈ tree.frames none := by
        rw [hframes]
        exact List.mem_append_left _ (List.mem_append_right _ (List.mem_cons_self ..))
      exact htraced.exists_comesFrom hf hv
  mutations := fun _ _ _ hp hq => (compilationUnit_traced h).quoted hp hq
  words := fun _ _ _ _ ha ht => Config.isWords_of_exprText ha ht

/-- `f(n) { n = n + 1; }` -/
def countingConfig : Config where
  tokens := #[
    { spelling := .text "\x7b", scope := some 0, next := some 1 },
    { spelling := .text "n", varId := .int 1, isName := true, scope := some 0, parent := some 2,
      next := some 2 },
    { spelling := .text "=", isAssignmentOp := true, scope := some 0, op1 := some 1,
      op2 := some 4, next := some 3 },
    { spelling := .text "n", varId := .int 1, isName := true, scope := some 0, parent := some 4,
      next := some 4 },
    { spelling := .text "+", scope := some 0, op1 := some 3, op2 := some 5, parent := some 2,
      next := some 5 },
    { spelling := .text "1", isNumber := true, scope := some 0, parent := some 4, next := some 6 },
    { spelling := .text "\x7d", scope := some 0 }]
  scopes := #[
    { kind := .text "Function", function := some 0, bodyStart := some 0, bodyEnd := some 6 }]
  functions := #[{ name := .text "f", arguments := some (.listed [some 0]) }]
  vars := #[{ isArgument := true, nameToken := some 1 }]
  tokenList := [0, 1, 2, 3, 4, 5, 6]
  scopeList := [0]
  functionList := [0]

theorem countingConfig.exists_tree :
    ∃ tree, countingConfig.compilationUnit (.text "a.c") = .ok tree
      ∧ (tree.scan {} none).violations.map (·.text) = [.text "n = (n + 1)"] := by
  have hfound : (countingConfig.compilationUnit (.text "a.c")).map (fun tree =>
      (tree.scan {} none).violations.map (·.text)) = .ok [.text "n = (n + 1)"] := by
    decide +kernel
  exact exists_of_map_ok hfound

/-- From its operands the assignment would be shown as `n = +`. -/
theorem compilationUnit_quoted_countingConfig :
    ∃ tree, countingConfig.compilationUnit (.text "a.c") = .ok tree
      ∧ (tree.scan {} none).violations.map (·.text) = [.text "n = (n + 1)"]
      ∧ countingConfig.QuotesTokens tree := by
  obtain ⟨tree, htree, hfound⟩ := countingConfig.exists_tree
  exact ⟨tree, htree, hfound, compilationUnit_quoted htree⟩

end FinalParams
