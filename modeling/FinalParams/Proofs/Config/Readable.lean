import FinalParams.Lowering.Parameters
import FinalParams.Proofs.Config.ExprText
import FinalParams.Proofs.Config.Ownership
import FinalParams.Proofs.Sequence

/-!
# Configurations whose values are of the right kinds

A parser of dumps puts texts where texts belong and numbers where numbers belong.  Of such a
configuration everything can be read: each scope has an owner or none, each parameter list is
there, and each expression has a text, which is not empty if the expression has a first operand.
-/

namespace FinalParams

/-- A text, unless it counts as missing. -/
def Datum.IsTextIfAny (d : Datum) : Prop := d.truthy = false ∨ ∃ s, d = .text s

theorem Datum.eq_intOrZero {d : Datum} {n : Int} (h : d.finiteInt = .ok n) : n = d.intOrZero := by
  unfold finiteInt at h
  split at h
  · cases h
  · exact (Except.ok.inj h).symm

/-- Where a token is. -/
def Token.place (t : Token) : Loc := ⟨t.file, .int t.line.intOrZero, .int t.column.intOrZero⟩

theorem Token.loc_eq_place {t : Token} {loc : Loc} (h : t.loc? = .ok loc) : loc = t.place := by
  obtain ⟨line, hline, h⟩ := exists_of_bind_ok h
  obtain ⟨column, hcolumn, h⟩ := exists_of_bind_ok h
  rw [← Except.ok.inj h, place, Datum.eq_intOrZero hline, Datum.eq_intOrZero hcolumn]

namespace Config

/-- The function or lambda that a scope belongs to, if it belongs to one. -/
def owner (c : Config) (s : Option Nat) : Option Nat :=
  match c.callableAround s with
  | .ok o => o
  | .error _ => none

/-- The values of the configuration are of the kinds that a parser of dumps gives them. -/
structure Readable (c : Config) : Prop where
  spelling : ∀ t, ∃ s, (c.token t).spelling = .text s
  varId : ∀ t, (c.token t).varId.isInfinite = false
  line : ∀ t, (c.token t).line.isInfinite = false
  column : ∀ t, (c.token t).column.isInfinite = false
  scopeKind : ∀ s, (c.scope s).kind.IsKey
  className : ∀ s, (c.scope s).className.IsTextIfAny
  functionName : ∀ f, (c.function f).name.IsTextIfAny
  functionKind : ∀ f, (c.function f).kind.IsTextIfAny

namespace Readable

variable {c : Config}

theorem lookUp_ok (h : c.Readable) (t : Nat) : (c.token t).lookUp = .ok () := by
  obtain ⟨s, hs⟩ := h.spelling t
  rw [Token.lookUp, hs]
  rfl

theorem variableId?_ok (h : c.Readable) (t : Nat) :
    (c.token t).variableId? = .ok (c.token t).variableId := by
  simp [Token.variableId?, Datum.finiteInt, h.varId t, Token.variableId]

theorem loc?_ok (h : c.Readable) (t : Nat) : (c.token t).loc? = .ok (c.token t).place := by
  simp [Token.loc?, Datum.finiteInt, h.line t, h.column t, bind, Except.bind, pure, Except.pure,
    Token.place]

theorem callableAround_ok (h : c.Readable) (s : Option Nat) :
    c.callableAround s = .ok (c.owner s) := by
  obtain ⟨o, ho⟩ := exists_callableAround fun _ a (_ : c.outward _ s = some a) => h.scopeKind a
  rw [owner, ho]

theorem belongsTo_ok (h : c.Readable) (s : Option Nat) (owner : Nat) :
    c.belongsTo s owner = .ok (c.owner s == some owner) := by
  rw [belongsTo, h.callableAround_ok]
  rfl

/-! ## Texts -/

theorem unaryText_ok {t : Token} {s : String} (hs : t.spelling = .text s) (o : String) :
    ∃ r, unaryText t (.text o) = .ok (.text r) := by
  unfold unaryText
  rw [Token.isSpelled, hs]
  simp only [Datum.plus_text, Datum.shown?_text, bind, Except.bind, pure, Except.pure]
  split
  · split
    · exact ⟨_, rfl⟩
    · exact ⟨_, rfl⟩
  split
  · exact ⟨_, rfl⟩
  split
  · exact ⟨_, rfl⟩
  · exact ⟨_, rfl⟩

theorem binaryText_ok {t : Token} {s : String} (hs : t.spelling = .text s) (l r : String) :
    ∃ u, binaryText t (.text l) (.text r) = .ok (.text u) := by
  have hlook : t.lookUp = .ok () := by
    rw [Token.lookUp, hs]
    rfl
  unfold binaryText
  generalize (if t.originalName.truthy then t.originalName else t.spelling) = member
  simp only [Datum.shown?_text, hs, bind, Except.bind, pure, Except.pure]
  split
  · exact ⟨_, rfl⟩
  split
  · exact ⟨_, rfl⟩
  split
  · exact ⟨_, rfl⟩
  cases t.isAssignmentOp with
  | true => exact ⟨_, rfl⟩
  | false =>
    simp only [hlook, Bool.false_eq_true, if_false]
    exact ⟨_, rfl⟩

theorem mapM_exprText_ok {depth : Nat}
    (ih : ∀ t, ∃ s, c.exprText depth t = .ok (.text s)) (ts : List Nat) :
    ∃ ss : List String, (ts.mapM fun x => c.exprText depth (some x)) = .ok (ss.map .text) := by
  induction ts with
  | nil => exact ⟨[], rfl⟩
  | cons t rest iht =>
    obtain ⟨s, hs⟩ := ih (some t)
    obtain ⟨ss, hss⟩ := iht
    refine ⟨s :: ss, ?_⟩
    rw [List.mapM_cons, hs]
    simp only [bind, Except.bind, hss, pure, Except.pure, List.map_cons]

theorem exprText_ok (h : c.Readable) (depth : Nat) (t : Option Nat) :
    ∃ s, c.exprText depth t = .ok (.text s) := by
  induction depth generalizing t with
  | zero =>
    cases t with
    | none => exact ⟨"", by unfold exprText; rfl⟩
    | some i => exact ⟨"...", by unfold exprText; rfl⟩
  | succ depth ih =>
    cases t with
    | none => exact ⟨"", by unfold exprText; rfl⟩
    | some i =>
      obtain ⟨s, hs⟩ := h.spelling i
      unfold exprText
      cases ha : (c.token i).op1 with
      | none =>
        simp only [ha]
        cases hb : (c.token i).op2 with
        | none => exact ⟨s, by simp only [hs]⟩
        | some b =>
          obtain ⟨o, ho⟩ := ih (some b)
          exact ⟨s ++ o, by simp only [ho, hs, bind, Except.bind, Datum.plus_text]⟩
      | some a =>
        obtain ⟨l, hl⟩ := ih (some a)
        simp only [ha]
        cases hb : (c.token i).op2 with
        | none =>
          simp only [h.lookUp_ok, hl, bind, Except.bind]
          exact unaryText_ok hs l
        | some b =>
          simp only [hl, Datum.shown?_text, bind, Except.bind, pure, Except.pure]
          split
          · obtain ⟨ss, hss⟩ := mapM_exprText_ok ih (c.callArguments i)
            simp only [hss, Datum.joined, Datum.textsFrom_texts, Except.map]
            exact ⟨_, rfl⟩
          split
          · obtain ⟨x, hx⟩ := ih (c.token b).op1
            obtain ⟨y, hy⟩ := ih (c.token b).op2
            simp only [hx, hy, Datum.shown?_text]
            exact ⟨_, rfl⟩
          · obtain ⟨r, hr⟩ := ih (some b)
            simp only [hr]
            exact binaryText_ok hs l r

/-- The text of an expression with a first operand is not empty. -/
theorem textOf_ok (h : c.Readable) {t a : Nat} (ha : (c.token t).op1 = some a) :
    ∃ s, c.textOf t = .ok (.text s) ∧ s ≠ "" := by
  obtain ⟨r, hr⟩ := h.exprText_ok defaultDepth (some t)
  obtain ⟨s, he, hs⟩ := textOf_isWords ha hr
  exact ⟨s, he ▸ hr, hs⟩

end Readable

end Config
end FinalParams
