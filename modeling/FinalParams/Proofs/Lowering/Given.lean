import FinalParams.Proofs.Lowering.Origin

/-!
# What the lowering of an origin gives

Each node in the tree of a configuration is what lowering its origin gives on its own: the node of a
function or lambda is its unit, and the node of a token is the tree of its expression, also inside
other units and expressions.  A larger budget and a deeper nesting change nothing.  So the tree has a
node wherever there is an origin and nowhere else, which is `compilationUnit_traced`.

Nothing is asked of the configuration but that it has a tree.  Bodies may overlap, scopes may lie
inside one another in a circle, and a token may be an operand of several others.
-/

namespace FinalParams
namespace Config

/-- The node is what the lowering of this origin gives. -/
def Gives (c : Config) (path : Datum) : Origin → Node → Prop
  | .root, n => c.compilationUnit path = .ok n
  | .unit s, n => c.unit c.callableScopes s = .ok n
  | .body s, n => ∃ unit, c.unit c.callableScopes s = .ok unit ∧ unit.children = [n]
  | .token s t, n => c.expression (some s) (some t) = .ok n
  | .declaration f, n => c.declaration f = .ok n

variable {c : Config} {path : Datum}

/-! ## Expressions and bodies -/

theorem treeWithin_succ {owner : Option Nat} {budget t : Nat} {n : Node}
    (h : c.treeWithin owner budget t = .ok n) : c.treeWithin owner (budget + 1) t = .ok n := by
  induction budget generalizing t n with
  | zero => cases h
  | succ b ih =>
    rw [treeWithin] at h
    obtain ⟨us, ho, h⟩ := exists_of_bind_ok h
    obtain ⟨lowered, hm, hn⟩ := exists_of_bind_ok h
    have hsucc : us.mapM (c.treeWithin owner (b + 1)) = .ok lowered :=
      mapM_ok_iff.mpr ((mapM_ok_iff.mp hm).imp fun u d hu => ih hu)
    rw [treeWithin, ho]
    show (us.mapM (c.treeWithin owner (b + 1)) >>= c.nodeOf t) = .ok n
    rw [hsucc]
    exact hn

/-- The operands that are opened for a token give the children of what the token gives. -/
theorem parts_of_expression {s t : Nat} {n : Node} (h : c.expression (some s) (some t) = .ok n) :
    ∃ us, c.openedOperands (some s) t = .ok us
      ∧ List.Forall₂ (fun u d => c.expression (some s) (some u) = .ok d) us n.children := by
  rw [expression_eq, treeWithin] at h
  obtain ⟨us, ho, h⟩ := exists_of_bind_ok h
  obtain ⟨lowered, hm, hn⟩ := exists_of_bind_ok h
  have hall := mapM_ok_iff.mp hm
  refine ⟨us, ho, ?_⟩
  rw [children_nodeOf ho hall.length_eq.symm hn]
  refine hall.imp ?_
  intro u d hu
  rw [expression_eq]
  exact treeWithin_succ hu

theorem statements_congr {index : List Nat} {descend descend' : Nat → Except LowerError Node}
    (hd : ∀ u n, descend u = .ok n → descend' u = .ok n) {s steps : Nat} {t : Option Nat}
    {ns : List Node} (h : c.statements index descend s steps t = .ok ns) :
    c.statements index descend' s steps t = .ok ns := by
  induction steps generalizing t ns with
  | zero =>
    cases t with
    | none => exact h
    | some t => cases h
  | succ steps ih =>
    cases t with
    | none => exact h
    | some t =>
      rw [statements] at h ⊢
      split at h
      · rename_i hend
        rw [if_pos hend]
        exact h
      rename_i hend
      rw [if_neg hend]
      obtain ⟨o, ho, h⟩ := exists_of_bind_ok h
      rw [ho]
      cases o with
      | some u =>
        obtain ⟨unit, hunit, h⟩ := exists_of_bind_ok h
        obtain ⟨rest, hrest, h⟩ := exists_of_bind_ok h
        simp only [bind, Except.bind, hd u unit hunit, ih hrest]
        exact h
      | none =>
        obtain ⟨own, hown, h⟩ := exists_of_bind_ok h
        simp only [bind, Except.bind, hown]
        cases own with
        | true =>
          obtain ⟨statement, hstatement, h⟩ := exists_of_bind_ok h
          obtain ⟨rest, hrest, h⟩ := exists_of_bind_ok h
          simp only [if_true, hstatement, ih hrest]
          exact h
        | false => exact ih h

theorem unitWithin_succ {index : List Nat} {depth s : Nat} {n : Node}
    (h : c.unitWithin index depth s = .ok n) : c.unitWithin index (depth + 1) s = .ok n := by
  induction depth generalizing s n with
  | zero => cases h
  | succ depth ih =>
    rw [unitWithin] at h ⊢
    split at h
    · cases h
    rename_i head hhead
    split at h
    · exact h
    · obtain ⟨body, hbody, h⟩ := exists_of_bind_ok h
      have hsame := statements_congr (fun u n hu => ih hu) hbody
      simp only [bind, Except.bind, hsame]
      exact h

/-- A unit has its heading, and the statements of its body if it has one. -/
theorem exists_of_unit {s : Nat} {n : Node} (h : c.unit c.callableScopes s = .ok n) :
    ∃ head, c.unitHeading s = .ok head
      ∧ ((c.scope s).bodyStart = none ∧ n = head.node none
        ∨ ∃ start body, (c.scope s).bodyStart = some start
          ∧ c.statements c.callableScopes (c.unit c.callableScopes) s (c.tokens.size + 1)
            (c.token start).next = .ok body
          ∧ n = head.node (some (.block body head.loc))) := by
  rw [unit, unitWithin] at h
  split at h
  · cases h
  rename_i head hhead
  refine ⟨head, hhead, ?_⟩
  split at h
  · rename_i hstart
    exact .inl ⟨hstart, (Except.ok.inj h).symm⟩
  · rename_i start hstart
    obtain ⟨body, hbody, h⟩ := exists_of_bind_ok h
    exact .inr ⟨start, body, hstart, statements_congr (fun u n hu => unitWithin_succ hu) hbody,
      (Except.ok.inj h).symm⟩

/-- Each statement is given by its origin. -/
theorem statements_given {s steps : Nat} {t : Option Nat} {ns : List Node}
    (h : c.statements c.callableScopes (c.unit c.callableScopes) s steps t = .ok ns) :
    List.Forall₂ (c.Gives path) (c.statementOrigins s steps t) ns := by
  induction steps generalizing t ns with
  | zero =>
    cases t with
    | none =>
      obtain rfl := Except.ok.inj h
      exact List.Forall₂.nil
    | some t => cases h
  | succ steps ih =>
    cases t with
    | none =>
      obtain rfl := Except.ok.inj h
      exact List.Forall₂.nil
    | some t =>
      rw [statements] at h
      rw [statementOrigins]
      split at h
      · rename_i hend
        obtain rfl := Except.ok.inj h
        rw [if_pos hend]
        exact List.Forall₂.nil
      rename_i hend
      rw [if_neg hend]
      obtain ⟨o, ho, h⟩ := exists_of_bind_ok h
      rw [ok_of_mapError ho]
      cases o with
      | some u =>
        obtain ⟨unit, hunit, h⟩ := exists_of_bind_ok h
        obtain ⟨rest, hrest, h⟩ := exists_of_bind_ok h
        obtain rfl := Except.ok.inj h
        exact List.Forall₂.cons hunit (ih hrest)
      | none =>
        obtain ⟨b, hb, h⟩ := exists_of_bind_ok h
        simp only [ok_of_mapError hb]
        cases b with
        | true =>
          obtain ⟨statement, hstatement, h⟩ := exists_of_bind_ok h
          obtain ⟨rest, hrest, h⟩ := exists_of_bind_ok h
          obtain rfl := Except.ok.inj h
          exact List.Forall₂.cons hstatement (ih hrest)
        | false => exact ih h

theorem outermostUnits_given {ts : List Nat} {units : List (Option Node)}
    (h : ts.mapM c.outermostUnit = .ok units) :
    List.Forall₂ (c.Gives path) (ts.filterMap c.outermostOrigin) (units.filterMap id) := by
  have hall := mapM_ok_iff.mp h
  clear h
  induction hall with
  | nil => exact List.Forall₂.nil
  | @cons t unit ts units ht _ ih =>
    obtain ⟨o, ho, ht⟩ := exists_of_bind_ok ht
    rw [List.filterMap_cons, List.filterMap_cons, outermostOrigin, ok_of_mapError ho]
    cases o with
    | none =>
      obtain rfl := Except.ok.inj ht
      exact ih
    | some s =>
      obtain ⟨n, hn, ht⟩ := exists_of_bind_ok ht
      obtain rfl := Except.ok.inj ht
      exact List.Forall₂.cons hn ih

theorem exists_of_compilationUnit {tree : Node} (h : c.compilationUnit path = .ok tree) :
    ∃ units declarations, c.tokenList.mapM c.outermostUnit = .ok units
      ∧ c.declaredFunctions.mapM c.declaration = .ok declarations
      ∧ tree = .file (c.shownPath path) (units.filterMap id ++ declarations)
          { file := c.shownPath path } := by
  unfold compilationUnit at h
  split at h
  · cases h
  obtain ⟨units, hunits, h⟩ := exists_of_bind_ok h
  obtain ⟨declarations, hdeclarations, h⟩ := exists_of_bind_ok h
  exact ⟨units, declarations, hunits, hdeclarations, (Except.ok.inj h).symm⟩

/-! ## Parts of what is given -/

/-- What an origin gives has a child for each part of the origin, which gives the child. -/
theorem Gives.parts {o : Origin} {n : Node} (h : c.Gives path o n) :
    List.Forall₂ (c.Gives path) (c.parts o) n.children := by
  cases o with
  | root =>
    obtain ⟨units, declarations, hunits, hdeclarations, rfl⟩ := exists_of_compilationUnit h
    refine List.rel_append (outermostUnits_given hunits) ?_
    rw [List.forall₂_map_left_iff]
    exact mapM_ok_iff.mp hdeclarations
  | unit s =>
    obtain ⟨head, -, ⟨hstart, rfl⟩ | ⟨start, body, hstart, -, rfl⟩⟩ := exists_of_unit h
    · rw [Config.parts, hstart]
      exact List.Forall₂.nil
    · rw [Config.parts, hstart]
      exact List.Forall₂.cons ⟨_, h, rfl⟩ List.Forall₂.nil
  | body s =>
    obtain ⟨unit, hunit, hchildren⟩ := h
    obtain ⟨head, -, ⟨-, rfl⟩ | ⟨start, body, hstart, hbody, rfl⟩⟩ := exists_of_unit hunit
    · cases hchildren
    · obtain rfl := List.singleton_inj.mp hchildren
      rw [Config.parts, hstart]
      exact statements_given hbody
  | token s t =>
    obtain ⟨us, ho, hall⟩ := parts_of_expression h
    rw [Config.parts, ho]
    exact List.forall₂_map_left_iff.mpr hall
  | declaration f =>
    obtain ⟨head, rfl, -⟩ := exists_heading h
    exact List.Forall₂.nil

/-- Below what an origin gives each node is given by the origin at its position. -/
theorem Gives.below {o : Origin} {n : Node} (h : c.Gives path o n) (p : Position) :
    Option.Rel (c.Gives path) (c.originBelow o p) (n.nodeAt? p) := by
  induction p generalizing o n with
  | nil => exact Option.Rel.some h
  | cons i p ih =>
    have hi := forall₂_getElem? h.parts i
    rw [originBelow, Node.nodeAt?]
    generalize (c.parts o)[i]? = part at hi ⊢
    generalize n.children[i]? = child at hi ⊢
    cases hi with
    | none => exact Option.Rel.none
    | some hi => exact ih hi

theorem Gives.makes {o : Origin} {n : Node} (h : c.Gives path o n) : c.Makes path o n := by
  cases o with
  | root =>
    obtain ⟨units, declarations, -, -, rfl⟩ := exists_of_compilationUnit h
    exact ⟨_, rfl⟩
  | unit s =>
    obtain ⟨head, hhead, ⟨-, rfl⟩ | ⟨start, body, -, -, rfl⟩⟩ := exists_of_unit h
    · exact ⟨head, none, hhead, rfl⟩
    · exact ⟨head, _, hhead, rfl⟩
  | body s =>
    obtain ⟨unit, hunit, hchildren⟩ := h
    obtain ⟨head, -, ⟨-, rfl⟩ | ⟨start, body, -, -, rfl⟩⟩ := exists_of_unit hunit
    · cases hchildren
    · obtain rfl := List.singleton_inj.mp hchildren
      exact ⟨body, head.loc, rfl⟩
  | token s t =>
    have htree : c.expression (some s) (some t) = .ok n := h
    rw [expression_eq, treeWithin] at htree
    obtain ⟨us, -, htree⟩ := exists_of_bind_ok htree
    obtain ⟨lowered, -, hn⟩ := exists_of_bind_ok htree
    exact ⟨lowered, hn⟩
  | declaration f => exact h

/-- The origin at a position gives the node there. -/
theorem exists_given {tree : Node} (h : c.compilationUnit path = .ok tree) {p : Position}
    {o : Origin} (hp : c.originAt p = some o) :
    ∃ n, tree.nodeAt? p = some n ∧ c.Gives path o n := by
  have hroot : c.Gives path .root tree := h
  have hbelow := hroot.below p
  rw [show c.originBelow .root p = some o from hp] at hbelow
  exact exists_of_rel_some hbelow

end Config

/-- In the tree of a configuration each node is made for the origin at its position. -/
theorem compilationUnit_traced {c : Config} {path : Datum} {tree : Node}
    (h : c.compilationUnit path = .ok tree) : c.Traced path tree := by
  intro p
  have hroot : c.Gives path .root tree := h
  have hbelow := hroot.below p
  generalize c.originBelow .root p = o at hbelow ⊢
  generalize tree.nodeAt? p = n at hbelow ⊢
  cases hbelow with
  | none => exact Option.Rel.none
  | some hgiven => exact Option.Rel.some hgiven.makes

end FinalParams
