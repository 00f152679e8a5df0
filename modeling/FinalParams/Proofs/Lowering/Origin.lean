import FinalParams.Lowering.Unit
import FinalParams.Proofs.Lowering.Ending
import FinalParams.Proofs.Lowering.Parameters
import FinalParams.Proofs.Tree.Frame

/-!
# What the nodes of a configuration stand for

Each node in the tree of a configuration is made for something: for the configuration itself, for a
function or lambda, for its body, for a token of an expression in it, or for a function that is only
declared.  `originAt` tells for what, from the configuration alone.  A tree is `Traced` if it has a
node wherever there is an origin and nowhere else.
-/

namespace FinalParams

/-- What a node is made for. -/
inductive Origin where
  /-- The whole configuration. -/
  | root
  /-- The function or lambda `s`. -/
  | unit (s : Nat)
  /-- The body of `s`. -/
  | body (s : Nat)
  /-- The token `t` in an expression of `s`. -/
  | token (s t : Nat)
  /-- A function that is not defined here. -/
  | declaration (f : Nat)
  deriving DecidableEq, Repr

/-- The function or lambda in whose body a node stands, unless it is one itself. -/
def Origin.home : Origin → Option Nat
  | body s => some s
  | token s _ => some s
  | _ => none

namespace Config

/-- The origins of the statements of `s` from the token `t` on, at most `steps` tokens far. -/
def statementOrigins (c : Config) (s : Nat) : Nat → Option Nat → List Origin
  | _, none => []
  | 0, some _ => []
  | steps + 1, some t =>
    if (c.scope s).bodyEnd = some t then []
    else
      match c.nestedAt c.callableScopes s t with
      | .ok (some u) => .unit u :: c.statementOrigins s steps (c.behindBody u t)
      | _ =>
        match c.isStatement s t with
        | .ok true => .token s t :: c.statementOrigins s steps (c.token t).next
        | _ => c.statementOrigins s steps (c.token t).next

/-- The function or lambda whose body begins at `t` outside of all others. -/
def outermostOrigin (c : Config) (t : Nat) : Option Origin :=
  match c.outermostAt t with
  | .ok (some s) => some (.unit s)
  | _ => none

/-- The origins of the children of a node. -/
def parts (c : Config) : Origin → List Origin
  | .root => c.tokenList.filterMap c.outermostOrigin ++ c.declaredFunctions.map .declaration
  | .unit s =>
    match (c.scope s).bodyStart with
    | some _ => [.body s]
    | none => []
  | .body s =>
    match (c.scope s).bodyStart with
    | some start => c.statementOrigins s (c.tokens.size + 1) (c.token start).next
    | none => []
  | .token s t =>
    match c.openedOperands (some s) t with
    | .ok us => us.map (.token s)
    | .error _ => []
  | .declaration _ => []

/-- What a part of something is, and what makes it one. -/
inductive PartOf (c : Config) : Origin → Origin → Prop
  | outermost {t s : Nat} : c.outermostAt t = .ok (some s) → PartOf c .root (.unit s)
  | declaration {f : Nat} : f ∈ c.declaredFunctions → PartOf c .root (.declaration f)
  | body {s : Nat} : PartOf c (.unit s) (.body s)
  | nested {s t u : Nat} :
    c.nestedAt c.callableScopes s t = .ok (some u) → PartOf c (.body s) (.unit u)
  | statement {s t : Nat} : c.isStatement s t = .ok true → PartOf c (.body s) (.token s t)
  | operand {s t u : Nat} {us : List Nat} :
    c.openedOperands (some s) t = .ok us → u ∈ us → PartOf c (.token s t) (.token s u)

/-- The origin at a position below a node that is made for `o`. -/
def originBelow (c : Config) (o : Origin) : Position → Option Origin
  | [] => some o
  | i :: p =>
    match (c.parts o)[i]? with
    | some part => c.originBelow part p
    | none => none

/-- The origin at a position of the tree. -/
def originAt (c : Config) (p : Position) : Option Origin := c.originBelow .root p

/-- The node is the one that is made for this origin, whatever its children are. -/
def Makes (c : Config) (path : Datum) : Origin → Node → Prop
  | .root, n => ∃ children, n = .file (c.shownPath path) children { file := c.shownPath path }
  | .unit s, n => ∃ head body, c.unitHeading s = .ok head ∧ n = head.node body
  | .body _, n => ∃ statements loc, n = .block statements loc
  | .token _ t, n => ∃ lowered, c.nodeOf t lowered = .ok n
  | .declaration f, n => c.declaration f = .ok n

/-- Below this node each node is made for the origin at its position. -/
def TracedBelow (c : Config) (path : Datum) (o : Origin) (n : Node) : Prop :=
  ∀ p, Option.Rel (c.Makes path) (c.originBelow o p) (n.nodeAt? p)

/-- Each node of the tree is made for the origin at its position. -/
def Traced (c : Config) (path : Datum) (tree : Node) : Prop := c.TracedBelow path .root tree

variable {c : Config} {path : Datum}

/-! ## Origins and what they are part of -/

@[simp] theorem statementOrigins_none (s steps : Nat) : c.statementOrigins s steps none = [] := by
  cases steps <;> rfl

/-- From the token `t` on there is nothing, or a nested body or statement that begins at `t` and what
is read behind it, or just what is read behind `t`. -/
theorem statementOrigins_cases (c : Config) (s steps t : Nat) :
    c.statementOrigins s (steps + 1) (some t) = []
      ∨ (∃ u, c.nestedAt c.callableScopes s t = .ok (some u)
        ∧ c.statementOrigins s (steps + 1) (some t)
          = .unit u :: c.statementOrigins s steps (c.behindBody u t))
      ∨ (c.isStatement s t = .ok true
        ∧ c.statementOrigins s (steps + 1) (some t)
          = .token s t :: c.statementOrigins s steps (c.token t).next)
      ∨ c.statementOrigins s (steps + 1) (some t) = c.statementOrigins s steps (c.token t).next := by
  rw [statementOrigins]
  split
  · exact .inl rfl
  split
  · rename_i u hu
    exact .inr (.inl ⟨u, hu, rfl⟩)
  split
  · rename_i ht
    exact .inr (.inr (.inl ⟨ht, rfl⟩))
  · exact .inr (.inr (.inr rfl))

theorem partOf_body_of_mem {s steps : Nat} {t : Option Nat} {o : Origin}
    (h : o ∈ c.statementOrigins s steps t) : c.PartOf (.body s) o := by
  induction steps generalizing t with
  | zero => cases t <;> exact absurd h List.not_mem_nil
  | succ steps ih =>
    cases t with
    | none => exact absurd h List.not_mem_nil
    | some t =>
      rcases c.statementOrigins_cases s steps t with hnil | ⟨u, hu, hcons⟩ | ⟨ht, hcons⟩ | hsame
      · rw [hnil] at h
        exact absurd h List.not_mem_nil
      · rw [hcons] at h
        rcases List.mem_cons.mp h with rfl | h
        · exact .nested hu
        · exact ih h
      · rw [hcons] at h
        rcases List.mem_cons.mp h with rfl | h
        · exact .statement ht
        · exact ih h
      · rw [hsame] at h
        exact ih h

/-- A body that is recognised outside of all others belongs to a scope that lies in no function or
lambda. -/
theorem outermostAt_eq_some {t s : Nat} (h : c.outermostAt t = .ok (some s)) :
    s ∈ c.callableScopes ∧ (c.scope s).bodyStart = some t
      ∧ c.callableAround (c.scope s).nestedIn = .ok none := by
  unfold outermostAt at h
  split at h
  · rename_i u hu
    obtain ⟨around, haround, h⟩ := exists_of_map_ok h
    cases around with
    | none =>
      obtain rfl := Option.some.inj h
      obtain ⟨hmem, hstart⟩ := bodyAt_eq_some hu
      exact ⟨hmem, hstart, haround⟩
    | some v => cases h
  · cases h

theorem outermostOrigin_eq_some {t : Nat} {o : Origin} (h : c.outermostOrigin t = some o) :
    ∃ s, c.outermostAt t = .ok (some s) ∧ o = .unit s := by
  unfold outermostOrigin at h
  split at h
  · rename_i s hs
    exact ⟨s, hs, (Option.some.inj h).symm⟩
  · cases h

theorem partOf_of_mem {above part : Origin} (h : part ∈ c.parts above) : c.PartOf above part := by
  cases above with
  | root =>
    rcases List.mem_append.mp h with h | h
    · obtain ⟨t, -, ht⟩ := List.mem_filterMap.mp h
      obtain ⟨s, hs, rfl⟩ := outermostOrigin_eq_some ht
      exact .outermost hs
    · obtain ⟨f, hf, rfl⟩ := List.mem_map.mp h
      exact .declaration hf
  | unit s =>
    rw [parts] at h
    split at h
    · obtain rfl := List.mem_singleton.mp h
      exact .body
    · exact absurd h List.not_mem_nil
  | body s =>
    rw [parts] at h
    split at h
    · exact partOf_body_of_mem h
    · exact absurd h List.not_mem_nil
  | token s t =>
    rw [parts] at h
    split at h
    · rename_i us hus
      obtain ⟨u, hu, rfl⟩ := List.mem_map.mp h
      exact .operand hus hu
    · exact absurd h List.not_mem_nil
  | declaration f => exact absurd h List.not_mem_nil

theorem originBelow_cons {o part : Origin} {i : Nat} (h : (c.parts o)[i]? = some part)
    (p : Position) : c.originBelow o (i :: p) = c.originBelow part p := by
  rw [originBelow, h]

theorem part_of_originBelow {o o' : Origin} {i : Nat} {p : Position}
    (h : c.originBelow o (i :: p) = some o') :
    ∃ part, (c.parts o)[i]? = some part ∧ c.originBelow part p = some o' := by
  cases hp : (c.parts o)[i]? with
  | none =>
    rw [originBelow, hp] at h
    cases h
  | some part => exact ⟨part, rfl, originBelow_cons hp p ▸ h⟩

theorem originBelow_append {o o' : Origin} {p : Position} (h : c.originBelow o p = some o')
    (q : Position) : c.originBelow o (p ++ q) = c.originBelow o' q := by
  induction p generalizing o with
  | nil =>
    obtain rfl := Option.some.inj h
    rfl
  | cons i p ih =>
    obtain ⟨part, hp, h⟩ := part_of_originBelow h
    rw [List.cons_append, originBelow_cons hp, ih h]

/-- Where there is an origin there is one at each place above. -/
theorem originBelow_of_append {o o' : Origin} {p q : Position}
    (h : c.originBelow o (p ++ q) = some o') :
    ∃ part, c.originBelow o p = some part ∧ c.originBelow part q = some o' := by
  induction p generalizing o with
  | nil => exact ⟨o, rfl, h⟩
  | cons i p ih =>
    rw [List.cons_append] at h
    obtain ⟨part, hp, h⟩ := part_of_originBelow h
    rw [originBelow_cons hp]
    exact ih h

/-- What is not at the root is part of what is above. -/
theorem exists_above {p : Position} {i : Nat} {o : Origin} (h : c.originAt (p ++ [i]) = some o) :
    ∃ above, c.originAt p = some above ∧ (c.parts above)[i]? = some o := by
  obtain ⟨above, hp, hi⟩ := originBelow_of_append h
  obtain ⟨part, hpart, hnil⟩ := part_of_originBelow hi
  exact ⟨above, hp, hpart.trans hnil⟩

theorem originAt_concat {p : Position} {o : Origin} (h : c.originAt p = some o) (i : Nat) :
    c.originAt (p ++ [i]) = (c.parts o)[i]? := by
  rw [originAt, originBelow_append h, originBelow]
  cases (c.parts o)[i]? with
  | none => rfl
  | some part => rfl

/-- What holds of the root, and of each part of what it holds of, holds of all origins. -/
theorem of_originAt {P : Origin → Prop} (hroot : P .root)
    (hpart : ∀ o, P o → ∀ part ∈ c.parts o, P part) {p : Position} {o : Origin}
    (h : c.originAt p = some o) : P o := by
  induction p using List.reverseRecOn generalizing o with
  | nil => exact Option.some.inj h ▸ hroot
  | append_singleton p i ih =>
    obtain ⟨above, hp, hi⟩ := exists_above h
    exact hpart above (ih hp) o (List.mem_of_getElem? hi)

/-- What stands in a body is the body itself or part of something that stands there. -/
theorem above_of_home {above part : Origin} (h : part ∈ c.parts above) {s : Nat}
    (hs : part.home = some s) :
    above = .unit s ∧ part = .body s ∨ above.home = some s := by
  cases partOf_of_mem h with
  | outermost _ => cases hs
  | declaration _ => cases hs
  | body =>
    obtain rfl := Option.some.inj hs
    exact .inl ⟨rfl, rfl⟩
  | nested _ => cases hs
  | statement _ => exact .inr hs
  | operand _ _ => exact .inr hs

/-- What stands in the body of `s` lies below a unit of `s`, and no other unit is nearer. -/
theorem exists_nearest {p : Position} {o : Origin} (h : c.originAt p = some o) {s : Nat}
    (hs : o.home = some s) :
    ∃ q, q <+: p ∧ c.originAt q = some (.unit s)
      ∧ ∀ q' u, q' <+: p → c.originAt q' = some (.unit u) → q' <+: q := by
  induction p using List.reverseRecOn generalizing o with
  | nil =>
    obtain rfl := Option.some.inj h
    cases hs
  | append_singleton p i ih =>
    have hproper : ∀ q' u, q' <+: p ++ [i] → c.originAt q' = some (.unit u) → q' <+: p := by
      intro q' u hq hu
      rcases List.prefix_concat_iff.mp hq with rfl | hq
      · obtain rfl := Option.some.inj (hu.symm.trans h)
        cases hs
      · exact hq
    obtain ⟨above, hp, hi⟩ := exists_above h
    rcases above_of_home (List.mem_of_getElem? hi) hs with ⟨rfl, -⟩ | hhome
    · exact ⟨p, List.prefix_append .., hp, hproper⟩
    · obtain ⟨q, hq, hunit, hnear⟩ := ih hp hhome
      exact ⟨q, hq.trans (List.prefix_append ..), hunit,
        fun q' u hq' hu => hnear q' u (hproper q' u hq' hu) hu⟩

/-! ## Nodes are made for their origins -/

/-- The node at a position is made for the origin there. -/
theorem Traced.exists_node {tree : Node} (h : c.Traced path tree) {p : Position} {o : Origin}
    (hp : c.originAt p = some o) : ∃ n, tree.nodeAt? p = some n ∧ c.Makes path o n := by
  have hat := h p
  rw [show c.originBelow .root p = some o from hp] at hat
  exact exists_of_rel_some hat

theorem Traced.exists_origin {tree n : Node} (h : c.Traced path tree) {p : Position}
    (hn : tree.nodeAt? p = some n) : ∃ o, c.originAt p = some o ∧ c.Makes path o n := by
  have hat := h p
  rw [hn] at hat
  cases ho : c.originBelow .root p with
  | none =>
    rw [ho] at hat
    cases hat
  | some o =>
    rw [ho] at hat
    obtain ⟨n', hn', hmade⟩ := exists_of_rel_some hat
    exact ⟨o, ho, Option.some.inj hn' ▸ hmade⟩

/-- What stands in a body is no function or lambda itself. -/
theorem aroundBelow_of_home {o : Origin} {n : Node} (h : c.Makes path o n) {s : Nat}
    (hs : o.home = some s) (around : Option ParameterList) : n.aroundBelow around = around := by
  cases o with
  | body u =>
    obtain ⟨statements, loc, rfl⟩ := h
    rfl
  | token u t =>
    obtain ⟨lowered, hn⟩ := h
    obtain ⟨loc, -, ⟨target, rest, text, -, rfl⟩ | ⟨target, rest, leading, text, -, rfl⟩ | rfl |
      rfl⟩ := nodeOf_cases hn <;> rfl
  | root => cases hs
  | unit u => cases hs
  | declaration f => cases hs

/-- Where a node stands in the body of `s`, the parameters of `s` count. -/
theorem Traced.around_of_home {tree : Node} (h : c.Traced path tree) {p : Position} {o : Origin}
    (hp : c.originAt p = some o) {s : Nat} (hs : o.home = some s) :
    ∃ head, c.unitHeading s = .ok head
      ∧ tree.aroundAt none p = some (head.params.map (·.map some)) := by
  induction p using List.reverseRecOn generalizing o with
  | nil =>
    obtain rfl := Option.some.inj hp
    cases hs
  | append_singleton p i ih =>
    obtain ⟨n, hn, -⟩ := h.exists_node hp
    obtain ⟨above, hpa, hi⟩ := exists_above hp
    obtain ⟨d, hd, hmade⟩ := h.exists_node hpa
    rw [Node.nodeAt?_append hd] at hn
    obtain ⟨child, hchild, -⟩ := Node.child_of_nodeAt? hn
    rw [Node.aroundAt_append hd, Node.aroundAt_cons hchild]
    rcases above_of_home (List.mem_of_getElem? hi) hs with ⟨rfl, -⟩ | hhome
    · obtain ⟨head, body, hhead, rfl⟩ := hmade
      exact ⟨head, hhead, rfl⟩
    · obtain ⟨head, hhead, haround⟩ := ih hpa hhome
      exact ⟨head, hhead, (aroundBelow_of_home hmade hhome _).trans haround⟩

/-- The children of the node of a token are the nodes of the operands that are opened for it. -/
theorem children_nodeOf {owner : Option Nat} {t : Nat} {us : List Nat} {lowered : List Node}
    {n : Node} (ho : c.openedOperands owner t = .ok us) (hl : lowered.length = us.length)
    (hn : c.nodeOf t lowered = .ok n) : n.children = lowered := by
  have htwo := openedOperands_length ho
  have hopened := opened_kinds ho
  obtain ⟨loc, -, ⟨-, target, rest, text, rfl, -, rfl⟩ | ⟨hassign, hkind⟩⟩ :=
    nodeOf_kinds hn
  · match rest with
    | [] => rfl
    | [_] => rfl
    | _ :: _ :: _ =>
      simp only [List.length_cons] at hl
      omega
  obtain ⟨hstep, target, rest, text, rfl, -, rfl⟩ | ⟨hstep, hkind⟩ := hkind
  · simp only [hassign, hstep, Bool.false_eq_true, Bool.true_eq_false, false_and, true_and,
      false_or, or_false] at hopened
    have hone : us.length ≤ 1 := by
      rw [hopened]
      cases (c.token t).op1 <;> simp
    match rest with
    | [] => rfl
    | _ :: _ =>
      simp only [List.length_cons] at hl
      omega
  obtain ⟨hvariable, rfl⟩ | ⟨-, rfl⟩ := hkind
  · simp only [hassign, hstep, hvariable, Bool.false_eq_true, Bool.true_eq_false, false_and,
      true_and, false_or, or_false] at hopened
    rw [hopened] at hl
    exact (List.eq_nil_of_length_eq_zero hl).symm
  · rfl

end Config
end FinalParams
