import FinalParams.Proofs.Lowering.Exact
import FinalParams.Proofs.Lowering.Given
import FinalParams.Proofs.Scan.Placed

/-!
# Why something is reported

A violation in the tree of a configuration rests on an assignment or step in an expression of a
function or lambda, which mutates an assignable parameter of that function or lambda.
`compilationUnit_justified` says so for every configuration that has a tree, however its scopes,
tokens and functions refer to each other.
-/

namespace FinalParams

open Relation Node

namespace Config

/-- The violation rests on the token `t` of the expression at `r`, which belongs to the function or
lambda `s`.  The token mutates the variable that `a` names, and this is the parameter `x` of `s`. -/
structure Justifies (c : Config) (m : Mutations) (path : Datum) (v : Violation) (s x r t a : Nat) :
    Prop where
  listed : s ∈ c.scopeList
  callable : c.Callable s
  parameter : c.IsParameter s x
  assignable : (c.variableAt x).isConst = false
  /-- The name is not empty, and the parameter is spelled like it. -/
  named : v.ident.name.truthy = true
  spelled : (c.nameToken x).spelling.agrees v.ident.name = true
  /-- Like a text nothing is spelled but the text itself. -/
  text : ∀ n, v.ident.name = .text n → (c.nameToken x).spelling = .text n
  /-- The key of the name is the number of the parameter, which is known. -/
  numbered : v.ident.binding = .int (c.nameToken x).variableId
  known : (c.nameToken x).variableId ≠ 0
  /-- The expression is a statement of `s`, and `t` is reached in it. -/
  top : (c.token r).isRoot = true
  owned : c.callableAround (c.token r).scope = .ok (some s)
  reached : ReflTransGen (fun t u => u ∈ (c.token t).operands) r t
  mutates : c.Mutates m t a
  ident : v.ident = (c.token a).ident
  place : v.loc = (c.token a).place.inFile (c.shownPath path)

variable {c : Config} {m : Mutations} {path : Datum}

/-! ## Where tokens of the tree come from -/

/-- A unit is listed, and a token is reached from the top of an expression that belongs to its
unit. -/
def Rooted (c : Config) : Origin → Prop
  | .root => True
  | .unit s => s ∈ c.callableScopes
  | .body s => s ∈ c.callableScopes
  | .token s t => s ∈ c.callableScopes ∧ ∃ r, (c.token r).isRoot = true
      ∧ c.callableAround (c.token r).scope = .ok (some s)
      ∧ ReflTransGen (fun t u => u ∈ (c.token t).operands) r t
  | .declaration _ => True

theorem isStatement_eq_true {s r : Nat} (h : c.isStatement s r = .ok true) :
    (c.token r).isRoot = true ∧ c.callableAround (c.token r).scope = .ok (some s) := by
  unfold isStatement at h
  split at h
  · rename_i hroot
    obtain ⟨around, haround, h⟩ := exists_of_map_ok h
    rw [beq_iff_eq] at h
    exact ⟨hroot, h ▸ haround⟩
  · cases h

theorem rooted_of_part {o part : Origin} (h : part ∈ c.parts o) (ho : c.Rooted o) :
    c.Rooted part := by
  cases partOf_of_mem h with
  | outermost hs => exact (outermostAt_eq_some hs).1
  | declaration _ => trivial
  | body => exact ho
  | nested hu => exact (nestedAt_eq_some hu).1
  | statement hr =>
    obtain ⟨hroot, howned⟩ := isStatement_eq_true hr
    exact ⟨ho, _, hroot, howned, ReflTransGen.refl⟩
  | operand hus hu =>
    obtain ⟨hs, r, hroot, howned, hreached⟩ := ho
    exact ⟨hs, r, hroot, howned, hreached.tail (mem_operands_of_opened hus hu)⟩

theorem rooted_of_originAt {p : Position} {o : Origin} (h : c.originAt p = some o) : c.Rooted o :=
  of_originAt trivial (fun _ ho _ hpart => rooted_of_part hpart ho) h

/-! ## Nodes that mutate a name -/

theorem name_of_nodeOf {a : Nat} {lowered : List Node} {name binding : Datum} {loc : Loc}
    (h : c.nodeOf a lowered = .ok (.ref name binding loc)) :
    (c.token a).isVariable = true ∧ ⟨name, binding⟩ = (c.token a).ident
      ∧ loc = (c.token a).place := by
  obtain ⟨loc', hloc, ⟨-, target, rest, text, -, -, he⟩ |
    ⟨-, ⟨-, target, rest, text, -, -, he⟩ | ⟨-, ⟨hv, he⟩ | ⟨-, he⟩⟩⟩⟩ := nodeOf_kinds h
  · cases he
  · cases he
  · cases he
    exact ⟨hv, rfl, Token.loc_eq_place hloc⟩
  · cases he

/-- Where the node of a token mutates something, the token mutates the variable that its first
operand names. -/
theorem mutates_of_nodeOf {t a : Nat} {owner : Option Nat} {us : List Nat} {lowered : List Node}
    {n target : Node} {op : Datum} (hn : c.nodeOf t lowered = .ok n)
    (hw : n.written? m = some (target, op)) (ho : c.openedOperands owner t = .ok us)
    (ha : us[0]? = some a) (hv : (c.token a).isVariable = true) : c.Mutates m t a := by
  have hopened := opened_kinds ho
  obtain ⟨loc, -, ⟨hassign, target', rest, text, -, -, rfl⟩ | ⟨hassign, hkind⟩⟩ :=
    nodeOf_kinds hn
  · simp only [hassign, Bool.true_eq_false, true_and, false_and, or_false] at hopened
    rw [Bool.and_eq_true, Option.isSome_iff_exists] at hassign
    obtain ⟨hassign, b, hb⟩ := hassign
    rw [hopened, Token.operands_of_op1 hb] at ha
    obtain rfl := Option.some.inj ha
    simp only [written?] at hw
    split at hw
    · rename_i hcounts
      rw [Bool.or_eq_true, Datum.isText_iff] at hcounts
      exact ⟨hb, hv, .inl ⟨hassign, hcounts⟩⟩
    · cases hw
  obtain ⟨hstep, target', rest, text, -, -, rfl⟩ | ⟨-, ⟨-, rfl⟩ | ⟨-, rfl⟩⟩ := hkind
  · simp only [hassign, hstep, Bool.false_eq_true, Bool.true_eq_false, false_and, true_and,
      false_or, or_false] at hopened
    have hb : (c.token t).op1 = some a := by
      rw [hopened] at ha
      cases h1 : (c.token t).op1 with
      | none => simp [h1] at ha
      | some b => simpa [h1] using ha
    rw [hb, Option.isSome_some, Bool.and_true] at hassign
    simp only [written?] at hw
    split at hw
    · rename_i hsteps
      exact ⟨hb, hv, .inr ⟨hassign, hstep, hsteps⟩⟩
    · cases hw
  · cases hw
  · cases hw

theorem token_of_written {o : Origin} {n target : Node} {op : Datum} (h : c.Makes path o n)
    (hw : n.written? m = some (target, op)) : ∃ s t, o = .token s t := by
  cases o with
  | token s t => exact ⟨s, t, rfl⟩
  | root =>
    obtain ⟨children, rfl⟩ := h
    cases hw
  | unit s =>
    obtain ⟨head, body, -, rfl⟩ := h
    cases hw
  | body s =>
    obtain ⟨statements, loc, rfl⟩ := h
    cases hw
  | declaration f =>
    obtain ⟨head, rfl, -⟩ := exists_heading h
    cases hw

/-- A node of the tree that mutates a name belongs to a token that mutates a variable, and the name
is that of the variable. -/
theorem Traced.exists_mutates {tree n : Node} (h : c.Traced path tree) {p : Position}
    (hp : tree.nodeAt? p = some n) {name binding op : Datum} {loc : Loc}
    (hw : n.written? m = some (.ref name binding loc, op)) :
    ∃ s t a, c.originAt p = some (.token s t) ∧ c.Mutates m t a
      ∧ ⟨name, binding⟩ = (c.token a).ident ∧ loc = (c.token a).place := by
  obtain ⟨o, ho, hmade⟩ := h.exists_origin hp
  obtain ⟨s, t, rfl⟩ := token_of_written hmade hw
  obtain ⟨lowered, hn⟩ := hmade
  -- the mutated name is the first child, which is made for the first operand
  have hchild : n.children[0]? = some (.ref name binding loc) := by
    rcases written?_eq_some.mp hw with ⟨value, text, l, rfl, -⟩ | ⟨leading, text, l, rfl, -⟩ <;> rfl
  have hbelow : tree.nodeAt? (p ++ [0]) = some (.ref name binding loc) := by
    rw [nodeAt?_append hp, nodeAt?_cons hchild, nodeAt?_nil]
  obtain ⟨o', ho', hmade'⟩ := h.exists_origin hbelow
  obtain ⟨above, habove, hpart⟩ := exists_above ho'
  obtain rfl := Option.some.inj (habove.symm.trans ho)
  rw [parts] at hpart
  split at hpart
  · rename_i us hus
    rw [List.getElem?_map, Option.map_eq_some_iff] at hpart
    obtain ⟨a, ha, rfl⟩ := hpart
    obtain ⟨lowered', hn'⟩ := hmade'
    obtain ⟨hv, hident, hloc⟩ := name_of_nodeOf hn'
    exact ⟨s, t, a, ho, mutates_of_nodeOf hn hw hus ha hv, hident, hloc⟩
  · cases hpart

/-- All compilation units of the tree have the path of the configuration. -/
theorem Traced.path_of_file {tree : Node} (h : c.Traced path tree) {p : Position} {own : Datum}
    {children : List Node} {loc : Loc} (hp : tree.nodeAt? p = some (.file own children loc)) :
    own = c.shownPath path := by
  obtain ⟨o, -, hmade⟩ := h.exists_origin hp
  cases o with
  | root =>
    obtain ⟨children', he⟩ := hmade
    cases he
    rfl
  | unit s =>
    obtain ⟨head, body, -, he⟩ := hmade
    cases he
  | body s =>
    obtain ⟨statements, l, he⟩ := hmade
    cases he
  | token s t =>
    obtain ⟨lowered, hn⟩ := hmade
    obtain ⟨l, -, ⟨target, rest, text, -, he⟩ | ⟨target, rest, leading, text, -, he⟩ | he | he⟩ :=
      nodeOf_cases hn <;> cases he
  | declaration f =>
    obtain ⟨head, he, -⟩ := exists_heading hmade
    cases he

/-- The path of the configuration counts wherever something can be found. -/
theorem Traced.path_before {tree : Node} (h : c.Traced path tree) {before after : List Frame}
    {f : Frame} (hsplit : tree.frames none = before ++ f :: after) {written : Node × Datum}
    (hw : f.node.written? m = some written) :
    Scan.pathAfterAll (.text "") before = c.shownPath path := by
  have hnode : ∀ g ∈ before, tree.nodeAt? g.pos = some g.node := by
    intro g hg
    refine (mem_frames_iff.mp (?_ : g ∈ tree.frames none)).1
    rw [hsplit]
    exact List.mem_append_left _ hg
  rcases Scan.pathAfterAll_cases (.text "") before with
    ⟨front, g, back, children, loc, hbefore, hg, -⟩ | ⟨-, hnone⟩
  · have hmem : g ∈ before := by
      rw [hbefore]
      exact List.mem_append_right _ (List.mem_cons_self ..)
    have hfile := hnode g hmem
    rw [hg] at hfile
    exact h.path_of_file hfile
  · -- the first frame is that of the root, which is a compilation unit and mutates nothing
    obtain ⟨children, hroot⟩ : ∃ children,
        tree = .file (c.shownPath path) children { file := c.shownPath path } := by
      obtain ⟨n, hn, hmade⟩ := h.exists_node (p := []) rfl
      exact Option.some.inj hn ▸ hmade
    rw [frames_eq] at hsplit
    cases before with
    | nil =>
      obtain ⟨hf, -⟩ := List.cons.inj hsplit
      rw [← hf, hroot] at hw
      cases hw
    | cons g before =>
      obtain ⟨hg, -⟩ := List.cons.inj hsplit
      have hfile : g.node = .file (c.shownPath path) children { file := c.shownPath path } := by
        rw [← hg]
        exact hroot
      exact absurd hfile (hnone g (List.mem_cons_self ..) _ _ _)

/-! ## Violations -/

/-- A name that is watched in `s` is that of an assignable parameter of `s`. -/
theorem exists_parameter_of_assignable {s : Nat} {head : Heading} (h : c.unitHeading s = .ok head)
    {i : Identifier} (hi : Watched.Assignable (head.params.map (·.map some)) i) :
    ∃ x, c.IsParameter s x ∧ (c.variableAt x).isConst = false ∧ i.name.truthy = true
      ∧ (c.nameToken x).spelling.agrees i.name = true
      ∧ ∀ k, i.binding = .int k → k ≠ 0 → (c.nameToken x).variableId = k := by
  obtain ⟨p, hp, hassignable, hnamed, hagrees⟩ := hi
  have hmem : p ∈ head.params.getD [] := by
    cases hps : head.params with
    | none => simp [hps] at hp
    | some ps => simpa [hps] using hp
  obtain ⟨x, hx, rfl⟩ := exists_parameter (params_of_unitHeading h) hmem
  rw [Identifier.agrees, Bool.and_eq_true] at hagrees
  obtain ⟨hname, hbinding⟩ := hagrees
  have hspelling : (c.parameterOf x).name = (c.nameToken x).spelling := by
    by_cases ht : (c.nameToken x).spelling.truthy = true
    · exact if_pos ht
    · rw [parameterOf, if_neg ht] at hnamed
      cases hnamed
  refine ⟨x, hx, hassignable, ?_, ?_, ?_⟩
  · rw [Datum.truthy_of_agrees hname, hnamed]
  · exact hspelling ▸ Datum.agrees_symm hname
  · intro k hk hne
    rw [hk] at hbinding
    exact (agrees_binding_iff hne).mp hbinding

/-- Each violation is justified by the token at whose place in the tree it is found. -/
theorem exists_justification {tree : Node} (h : c.compilationUnit path = .ok tree) {v : Violation}
    (hv : v ∈ (tree.scan m none).violations) :
    ∃ p s x r t a, c.originAt p = some (.token s t) ∧ c.Justifies m path v s x r t a := by
  have htraced := compilationUnit_traced h
  rw [Scan.scan_eq_sweep] at hv
  obtain hv | ⟨before, f, after, hsplit, hviolation⟩ := Scan.exists_frame_of_sweep hv
  · exact absurd hv List.not_mem_nil
  obtain ⟨w, loc, hwatched, hwritten, hcovers, hloc⟩ := violation?_eq_some hviolation
  have hframe : f ∈ tree.frames none := by
    rw [hsplit]
    exact List.mem_append_right _ (List.mem_cons_self ..)
  obtain ⟨hnode, haround⟩ := mem_frames_iff.mp hframe
  obtain ⟨s, t, a, horigin, hmutates, hident, rfl⟩ := htraced.exists_mutates hnode hwritten
  obtain ⟨hs, r, hroot, howned, hreached⟩ := rooted_of_originAt horigin
  obtain ⟨hlisted, hcallable⟩ := List.mem_filter.mp hs
  obtain ⟨head, hhead, hparams⟩ := htraced.around_of_home horigin rfl
  have hassignable : Watched.Assignable (head.params.map (·.map some)) v.ident := by
    rw [Frame.watched, ← haround, hparams] at hwatched
    exact (Watched.any_iff_assignable (ok_of_toOption hwatched) _).mp
      (Watched.any_of_covers hcovers)
  obtain ⟨x, hx, hconst, hnamed, hspelled, hnumber⟩ :=
    exists_parameter_of_assignable hhead hassignable
  have hbinding : v.ident.binding = .int (c.token a).variableId :=
    congrArg Identifier.binding hident
  have hvariable := hmutates.2.1
  rw [Token.isVariable, Bool.and_eq_true, bne_iff_ne] at hvariable
  have hid := hnumber _ hbinding hvariable.2
  exact ⟨f.pos, s, x, r, t, a, horigin,
    { listed := hlisted
      callable := hcallable
      parameter := hx
      assignable := hconst
      named := hnamed
      spelled := hspelled
      text := fun n hn => Datum.agrees_text_iff.mp (hn ▸ hspelled)
      numbered := hid ▸ hbinding
      known := hid ▸ hvariable.2
      top := hroot
      owned := howned
      reached := hreached
      mutates := hmutates
      ident := hident
      place := by rw [hloc, htraced.path_before hsplit hwritten] }⟩

end Config

/-- Whatever is found in the tree of a configuration rests on a token of a function or lambda that
mutates an assignable parameter of it. -/
theorem compilationUnit_justified {c : Config} {path : Datum} {tree : Node}
    (h : c.compilationUnit path = .ok tree) (m : Mutations) :
    ∀ v ∈ (tree.scan m none).violations, ∃ s x r t a, c.Justifies m path v s x r t a := by
  intro v hv
  obtain ⟨-, s, x, r, t, a, -, hjustified⟩ := Config.exists_justification h hv
  exact ⟨s, x, r, t, a, hjustified⟩

theorem lambdaSample.exists_violation :
    ∃ tree, lambdaSample.compilationUnit (.text "a.cpp") = .ok tree
      ∧ (tree.scan {} none).violations ≠ [] := by
  have hfound : (lambdaSample.compilationUnit (.text "a.cpp")).map (fun tree =>
      (tree.scan {} none).violations.isEmpty) = .ok false := by decide +kernel
  obtain ⟨tree, htree, hsome⟩ := exists_of_map_ok hfound
  exact ⟨tree, htree, by simpa using hsome⟩

theorem compilationUnit_justified_lambdaSample :
    ∃ tree, lambdaSample.compilationUnit (.text "a.cpp") = .ok tree
      ∧ (tree.scan {} none).violations ≠ []
      ∧ ∀ v ∈ (tree.scan {} none).violations, ∃ s x r t a,
        lambdaSample.Justifies {} (.text "a.cpp") v s x r t a := by
  obtain ⟨tree, htree, hfound⟩ := lambdaSample.exists_violation
  exact ⟨tree, htree, hfound, compilationUnit_justified htree {}⟩

end FinalParams
