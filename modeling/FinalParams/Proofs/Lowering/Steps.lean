import FinalParams.Proofs.Config.Bodies
import FinalParams.Proofs.Lowering.Recursion

/-!
# Leading and trailing steps

An increment or decrement is meant to be a leading step where it is written before its operand, and
a trailing one where it is written behind.  What decides is whether the token of the operand is the
very next one, and that token is the root of the operand and not its first token.  For a trailing
step this is never so.  For a leading step it is so if the operand begins with its own root, such as
a name or `*p`.

`expression_step` says for every step which of both its node is.  A leading step before an operand
that begins with another token, such as `++a[i]`, is taken for a trailing one, and it is quoted as
`a[i]++`.
-/

namespace FinalParams

open Relation

namespace Config

/-- The listed tokens are distinct, and each of them knows the one behind it. -/
structure Chained (c : Config) : Prop where
  distinct : c.tokenList.Nodup
  next : ∀ i t : Nat, c.tokenList[i]? = some t → (c.token t).next = c.tokenList[i + 1]?

/-- The token is written before every token of the expression at `a`. -/
def WrittenBefore (c : Config) (t a : Nat) : Prop :=
  ∀ u, ReflTransGen (fun t u => u ∈ (c.token t).operands) a u →
    u ∈ c.tokenList ∧ c.order t < c.order u

/-- The token is written behind every token of the expression at `a`. -/
def WrittenBehind (c : Config) (t a : Nat) : Prop :=
  ∀ u, ReflTransGen (fun t u => u ∈ (c.token t).operands) a u →
    u ∈ c.tokenList ∧ c.order u < c.order t

/-- The text of an operator on a level above that of its operands. -/
def operandText (c : Config) (a : Nat) : Except Misfit Datum :=
  c.exprText (defaultDepth - 1) (some a)

/-- The node of a leading or of a trailing step, quoted as it is written then. -/
def stepNode (c : Config) (t : Nat) (leading : Bool) (op operand : String) (target : Node) : Node :=
  .update target (.text op) (.bool leading)
    (.text (if leading then op ++ operand else operand ++ op)) (c.token t).place

/-- The step at `t` has a node, which says whether it leads or trails its operand. -/
structure Stepped (c : Config) (owner : Option Nat) (t a : Nat) (op operand : String)
    (target : Node) : Prop where
  spelled : (c.token t).spelling = .text op
  shown : c.operandText a = .ok (.text operand)
  lowered : c.expression owner (some a) = .ok target
  /-- Behind its operand it trails. -/
  behind : c.WrittenBehind t a →
    c.expression owner (some t) = .ok (c.stepNode t false op operand target)
  /-- Before its operand it leads if the root of the operand comes next. -/
  before : c.WrittenBefore t a → c.order a = c.order t + 1 →
    c.expression owner (some t) = .ok (c.stepNode t true op operand target)
  /-- If another token of the operand comes next, it is taken for a trailing one. -/
  parted : c.WrittenBefore t a → c.order a ≠ c.order t + 1 →
    c.expression owner (some t) = .ok (c.stepNode t false op operand target)

variable {c : Config} {t a : Nat}

/-! ## What decides -/

/-- The next token is the one that is listed behind. -/
theorem Chained.next_eq_some_iff (h : c.Chained) (ht : t ∈ c.tokenList) :
    (c.token t).next = some a ↔ a ∈ c.tokenList ∧ c.order a = c.order t + 1 := by
  rw [h.next _ _ (getElem?_order ht)]
  constructor
  · intro hnext
    obtain ⟨hlt, rfl⟩ := List.getElem?_eq_some_iff.mp hnext
    exact ⟨List.getElem_mem hlt, h.distinct.idxOf_getElem _ hlt⟩
  · rintro ⟨ha, horder⟩
    rw [← horder, getElem?_order ha]

theorem Chained.isLeadingStep_iff (h : c.Chained) (ht : t ∈ c.tokenList)
    (hstep : (c.token t).isStep = true) (ha : (c.token t).op1 = some a) :
    (c.token t).isLeadingStep = true ↔ a ∈ c.tokenList ∧ c.order a = c.order t + 1 := by
  rw [Token.isLeadingStep, hstep, Bool.true_and, beq_iff_eq, ha]
  exact h.next_eq_some_iff ht

theorem Chained.trails_of_writtenBehind (h : c.Chained) (ht : t ∈ c.tokenList)
    (hstep : (c.token t).isStep = true) (ha : (c.token t).op1 = some a)
    (hbehind : c.WrittenBehind t a) : (c.token t).isLeadingStep = false := by
  rw [← Bool.not_eq_true, h.isLeadingStep_iff ht hstep ha]
  rintro ⟨-, horder⟩
  have hlt := (hbehind a ReflTransGen.refl).2
  omega

/-- Whatever is reached from a token of a list that holds the operands of its tokens is in it. -/
theorem mem_of_reached_of_closed {ts : List Nat}
    (hclosed : ∀ v ∈ ts, ∀ u ∈ (c.token v).operands, u ∈ ts) (ha : a ∈ ts) {u : Nat}
    (hu : ReflTransGen (fun t u => u ∈ (c.token t).operands) a u) : u ∈ ts := by
  induction hu with
  | refl => exact ha
  | tail _ hoperand ih => exact hclosed _ ih _ hoperand

theorem writtenBefore_of_closed (ts : List Nat)
    (hclosed : ∀ v ∈ ts, ∀ u ∈ (c.token v).operands, u ∈ ts) (ha : a ∈ ts)
    (hts : ∀ u ∈ ts, u ∈ c.tokenList ∧ c.order t < c.order u) : c.WrittenBefore t a :=
  fun u hu => hts u (mem_of_reached_of_closed hclosed ha hu)

theorem writtenBehind_of_closed (ts : List Nat)
    (hclosed : ∀ v ∈ ts, ∀ u ∈ (c.token v).operands, u ∈ ts) (ha : a ∈ ts)
    (hts : ∀ u ∈ ts, u ∈ c.tokenList ∧ c.order u < c.order t) : c.WrittenBehind t a :=
  fun u hu => hts u (mem_of_reached_of_closed hclosed ha hu)

/-! ## The node of a step -/

theorem unaryText_of_step {tok : Token} {op : String} (hop : tok.spelling = .text op)
    (hstep : tok.isStep = true) (operand : String) :
    unaryText tok (.text operand)
      = .ok (.text (if tok.isLeadingStep then op ++ operand else operand ++ op)) := by
  have hamong : tok.spelling.isAmong Token.stepOps = true := (Bool.and_eq_true_iff.mp hstep).1
  rw [unaryText, if_pos hamong, hop]
  cases tok.isLeadingStep <;> rfl

theorem textOf_of_step (h : c.Readable) {op operand : String}
    (hop : (c.token t).spelling = .text op) (hstep : (c.token t).isStep = true)
    (ha : (c.token t).op1 = some a) (hb : (c.token t).op2 = none)
    (hoperand : c.operandText a = .ok (.text operand)) :
    c.textOf t
      = .ok (.text (if (c.token t).isLeadingStep then op ++ operand else operand ++ op)) := by
  have hbelow : c.exprText 49 (some a) = .ok (.text operand) := hoperand
  rw [textOf, defaultDepth, exprText, ha, hb]
  simp only [h.lookUp_ok, bind, Except.bind, hbelow]
  exact unaryText_of_step hop hstep operand

/-- A step is no assignment, unless the dump says that it is one. -/
theorem isAssignment_of_step {tok : Token} (hstep : tok.isStep = true)
    (hassign : tok.isAssignmentOp = false) : tok.isAssignment = false := by
  obtain ⟨op, hop, hspelling⟩ := Datum.isAmong_iff.mp (Bool.and_eq_true_iff.mp hstep).1
  rw [Token.isAssignment, hassign, hspelling, Bool.false_or]
  rcases List.mem_pair.mp hop with rfl | rfl <;> decide

/-- The node of a step follows from whether the token of its operand comes next. -/
theorem expression_of_step (h : c.Readable) (hg : c.Grounded t) {owner : Option Nat}
    {op operand : String} {target : Node} (hop : (c.token t).spelling = .text op)
    (hassign : (c.token t).isAssignment = false) (hstep : (c.token t).isStep = true)
    (ha : (c.token t).op1 = some a) (hb : (c.token t).op2 = none)
    (hoperand : c.operandText a = .ok (.text operand))
    (htarget : c.expression owner (some a) = .ok target) :
    c.expression owner (some t)
      = .ok (c.stepNode t (c.token t).isLeadingStep op operand target) := by
  obtain ⟨n, hn⟩ := exists_expression h hg owner
  rw [hn]
  cases expression_shaped hg hn with
  | assignment hassign' => rw [hassign] at hassign'; cases hassign'
  | step _ _ ha' htarget' htext hloc =>
    obtain rfl := Option.some.inj (ha.symm.trans ha')
    obtain rfl := Except.ok.inj (htarget.symm.trans htarget')
    rw [textOf_of_step h hop hstep ha hb hoperand] at htext
    rw [← Except.ok.inj htext, Token.loc_eq_place hloc, hop]
    rfl
  | name hvariable => rw [op1_of_isVariable hvariable] at ha; cases ha
  | other _ hstep' => rw [hstep] at hstep'; cases hstep'

end Config

/-- Each increment or decrement of one listed operand has a node.  Behind its operand it trails, and
before its operand it leads exactly if the root of the operand is the next token. -/
theorem expression_step {c : Config} (h : c.Readable) (hc : c.Chained) {t a : Nat}
    (ht : t ∈ c.tokenList) (hg : c.Grounded t) (hstep : (c.token t).isStep = true)
    (hassign : (c.token t).isAssignmentOp = false) (ha : (c.token t).op1 = some a)
    (hb : (c.token t).op2 = none) (owner : Option Nat) :
    ∃ op operand target, c.Stepped owner t a op operand target := by
  obtain ⟨op, hop⟩ := h.spelling t
  obtain ⟨operand, hoperand⟩ := h.exprText_ok (Config.defaultDepth - 1) (some a)
  have hmem : a ∈ (c.token t).operands := by
    rw [Token.operands_of_op1 ha]
    exact List.mem_cons_self ..
  obtain ⟨target, htarget⟩ := Config.exists_expression h (hg.operand hmem) owner
  have hnode := Config.expression_of_step h hg hop (Config.isAssignment_of_step hstep hassign)
    hstep ha hb hoperand htarget
  refine ⟨op, operand, target, hop, hoperand, htarget, ?_, ?_, ?_⟩
  · intro hbehind
    rw [hnode, hc.trails_of_writtenBehind ht hstep ha hbehind]
  · intro hbefore horder
    have hlisted := (hbefore a ReflTransGen.refl).1
    rw [hnode, (hc.isLeadingStep_iff ht hstep ha).mpr ⟨hlisted, horder⟩]
  · intro _ horder
    have htrails : (c.token t).isLeadingStep = false := by
      rw [← Bool.not_eq_true, hc.isLeadingStep_iff ht hstep ha]
      exact fun hnext => horder hnext.2
    rw [hnode, htrails]

/-! ## Steps before a name, behind a name and before a subscript -/

/-- The three expressions `++a[i]`, `b--` and `--b`. -/
def subscriptConfig : Config where
  tokens := #[
    { spelling := .text "++", op1 := some 2, next := some 1 },
    { spelling := .text "a", varId := .int 1, isName := true, parent := some 2, next := some 2 },
    { spelling := .text "[", op1 := some 1, op2 := some 3, parent := some 0, next := some 3 },
    { spelling := .text "i", varId := .int 2, isName := true, parent := some 2, next := some 4 },
    { spelling := .text "]", next := some 5 },
    { spelling := .text "b", varId := .int 3, isName := true, parent := some 6, next := some 6 },
    { spelling := .text "--", op1 := some 5, next := some 7 },
    { spelling := .text "--", op1 := some 8, next := some 8 },
    { spelling := .text "b", varId := .int 3, isName := true, parent := some 7 }]
  tokenList := List.range 9

namespace subscriptConfig

theorem token_all {P : Token → Prop} (h : ∀ t ∈ List.range 9, P (subscriptConfig.token t))
    (hblank : P {}) (t : Nat) : P (subscriptConfig.token t) := by
  rcases Nat.lt_or_ge t 9 with hlt | hle
  · exact h t (List.mem_range.mpr hlt)
  · rw [Config.token_of_size_le hle]
    exact hblank

theorem readable : subscriptConfig.Readable where
  spelling := by
    intro t
    match t with
    | 0 | 1 | 2 | 3 | 4 | 5 | 6 | 7 | 8 => exact ⟨_, rfl⟩
    | _ + 9 => exact ⟨_, rfl⟩
  varId := token_all (P := fun t => t.varId.isInfinite = false) (by decide) rfl
  line := token_all (P := fun t => t.line.isInfinite = false) (by decide) rfl
  column := token_all (P := fun t => t.column.isInfinite = false) (by decide) rfl
  scopeKind := fun _ => ⟨_, rfl⟩
  className := fun _ => .inl rfl
  functionName := fun _ => .inl rfl
  functionKind := fun _ => .inl rfl

theorem chained : subscriptConfig.Chained where
  distinct := by decide
  next := by
    intro i t hi
    obtain ⟨hlt, hget⟩ := List.getElem?_eq_some_iff.mp hi
    obtain rfl : i = t := by rw [← hget]; exact (List.getElem_range ..).symm
    replace hlt : i < 9 := by simpa [subscriptConfig] using hlt
    revert i
    decide

theorem grounded (t : Nat) : subscriptConfig.Grounded t := fun u _ =>
  Config.acyclic_of_height (fun t => [2, 0, 1, 0, 0, 0, 1, 1, 0].getD t 0) (by decide) u

theorem before_subscript : subscriptConfig.WrittenBefore 0 2 :=
  Config.writtenBefore_of_closed [1, 2, 3] (by decide) (by decide) (by decide)

theorem behind_name : subscriptConfig.WrittenBehind 6 5 :=
  Config.writtenBehind_of_closed [5] (by decide) (by decide) (by decide)

theorem before_name : subscriptConfig.WrittenBefore 7 8 :=
  Config.writtenBefore_of_closed [8] (by decide) (by decide) (by decide)

end subscriptConfig

/-- `b--` trails and `--b` leads. -/
theorem expression_step_subscriptConfig :
    subscriptConfig.Readable ∧ subscriptConfig.Chained
      ∧ (∃ target, subscriptConfig.expression none (some 6)
        = .ok (subscriptConfig.stepNode 6 false "--" "b" target))
      ∧ ∃ target, subscriptConfig.expression none (some 7)
        = .ok (subscriptConfig.stepNode 7 true "--" "b" target) := by
  refine ⟨subscriptConfig.readable, subscriptConfig.chained, ?_, ?_⟩
  · obtain ⟨op, operand, target, hstep⟩ := expression_step subscriptConfig.readable
      subscriptConfig.chained (t := 6) (a := 5) (by decide) (subscriptConfig.grounded 6) (by decide)
      (by decide) (by decide) (by decide) none
    obtain rfl := Datum.text.inj hstep.spelled
    obtain rfl := Datum.text.inj (Except.ok.inj hstep.shown)
    exact ⟨target, hstep.behind subscriptConfig.behind_name⟩
  · obtain ⟨op, operand, target, hstep⟩ := expression_step subscriptConfig.readable
      subscriptConfig.chained (t := 7) (a := 8) (by decide) (subscriptConfig.grounded 7) (by decide)
      (by decide) (by decide) (by decide) none
    obtain rfl := Datum.text.inj hstep.spelled
    obtain rfl := Datum.text.inj (Except.ok.inj hstep.shown)
    exact ⟨target, hstep.before subscriptConfig.before_name (by decide)⟩

/-- `++a[i]` is written before its operand, and it is taken for the trailing step `a[i]++`. -/
theorem subscript_step_trails :
    subscriptConfig.Readable ∧ subscriptConfig.Chained ∧ subscriptConfig.Grounded 0
      ∧ (subscriptConfig.token 0).isStep = true ∧ (subscriptConfig.token 0).isAssignmentOp = false
      ∧ (subscriptConfig.token 0).op1 = some 2 ∧ (subscriptConfig.token 0).op2 = none
      ∧ subscriptConfig.WrittenBefore 0 2 ∧ subscriptConfig.operandText 2 = .ok (.text "a[i]")
      ∧ ∃ target, subscriptConfig.expression none (some 0)
        = .ok (.update target (.text "++") (.bool false) (.text "a[i]++")
          (subscriptConfig.token 0).place) := by
  have hop : (subscriptConfig.token 0).spelling = .text "++" := rfl
  have htext : subscriptConfig.operandText 2 = .ok (.text "a[i]") := by decide +kernel
  refine ⟨subscriptConfig.readable, subscriptConfig.chained, subscriptConfig.grounded 0, by decide,
    by decide, by decide, by decide, subscriptConfig.before_subscript, htext, ?_⟩
  obtain ⟨target, htarget⟩ :=
    Config.exists_expression subscriptConfig.readable (subscriptConfig.grounded 2) none
  refine ⟨target, ?_⟩
  exact Config.expression_of_step subscriptConfig.readable (subscriptConfig.grounded 0) hop
    (by decide) (by decide) rfl rfl htext htarget

end FinalParams
