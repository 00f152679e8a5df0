import FinalParams.Proofs.Config.Coherent
import FinalParams.Proofs.Lowering.Grown

/-!
# Parameters of functions and lambdas

Each entry of a parameter list stands for a variable of the configuration, whatever else is wrong
with it.  `scopeWatched_ok` says which variables are watched in a function or lambda: those that
name one of its parameters which is not declared constant, by the same spelling and the same number.
-/

namespace FinalParams

/-- The variable is one of the arguments. -/
def ArgumentTable.Lists (v : Nat) : ArgumentTable → Prop
  | listed arguments => some v ∈ arguments
  | numbered arguments => ∃ key, (key, some v) ∈ arguments

theorem ArgumentTable.inOrder_ok {table : ArgumentTable}
    (h : ∀ arguments, table = numbered arguments → ∀ a ∈ arguments, ∃ n, a.1.toInt = .ok n) :
    ∃ arguments, table.inOrder = .ok arguments ∧ ∀ v, some v ∈ arguments ↔ table.Lists v := by
  cases table with
  | listed arguments => exact ⟨arguments, rfl, fun v => Iff.rfl⟩
  | numbered arguments =>
    choose! number hnumber using h arguments rfl
    have hmap : ∀ f : Datum × Option Nat → Except IntegerError (Int × Option Nat),
        (∀ a, f a = a.1.toInt.map (·, a.2)) →
          arguments.mapM f = .ok (arguments.map fun a => (number a, a.2)) := by
      intro f hf
      apply mapM_eq_map
      intro a ha
      rw [hf, hnumber a ha]
      rfl
    have hin : (numbered arguments).inOrder = .ok (((arguments.map fun a => (number a, a.2)).mergeSort
        fun a b => a.1 ≤ b.1).map (·.2)) := by
      rw [inOrder, hmap]
      · rfl
      · intro a
        obtain ⟨key, v⟩ := a
        simp only
        cases key.toInt <;> rfl
    refine ⟨_, hin, ?_⟩
    intro v
    simp only [List.mem_map, List.mem_mergeSort, Lists]
    constructor
    · rintro ⟨-, ⟨⟨key, v'⟩, ha, rfl⟩, rfl⟩
      exact ⟨key, ha⟩
    · rintro ⟨key, ha⟩
      exact ⟨_, ⟨(key, some v), ha, rfl⟩, rfl⟩

/-- What is among the arguments in their order is among the arguments. -/
theorem ArgumentTable.lists_of_inOrder {table : ArgumentTable} {arguments : List (Option Nat)}
    (h : table.inOrder = .ok arguments) {v : Nat} (hv : some v ∈ arguments) : table.Lists v := by
  cases table with
  | listed listed => exact Except.ok.inj h ▸ hv
  | numbered entries =>
    obtain ⟨numbered, hm, h⟩ := exists_of_bind_ok h
    rw [← Except.ok.inj h, List.mem_map] at hv
    obtain ⟨⟨k, o⟩, ho, rfl⟩ := hv
    obtain ⟨⟨key, o⟩, he, hk⟩ := exists_of_mem_mapM hm (List.mem_mergeSort.mp ho)
    obtain ⟨n, -, hk⟩ := exists_of_bind_ok hk
    cases hk
    exact ⟨key, he⟩

namespace Config

variable {c : Config}

theorem exists_tokenIfAny (c : Config) (o : Option Nat) : ∃ t, c.tokenIfAny o = c.token t := by
  cases o with
  | none => exact ⟨c.tokens.size, (token_of_size_le (Nat.le_refl _)).symm⟩
  | some t => exact ⟨t, rfl⟩

/-- The token that names a variable, or a blank one. -/
def nameToken (c : Config) (v : Nat) : Token := c.tokenIfAny (c.variableAt v).nameToken

/-- The parameter that a variable is. -/
def parameterOf (c : Config) (v : Nat) : Parameter :=
  { name := if (c.nameToken v).spelling.truthy then (c.nameToken v).spelling else .null
    immutable := .bool (c.variableAt v).isConst
    binding := if (c.nameToken v).variableId = 0 then .null else .int (c.nameToken v).variableId
    loc := (c.nameToken v).place }

theorem parameter_ok (h : c.Readable) (v : Nat) : c.parameter v = .ok (c.parameterOf v) := by
  obtain ⟨t, ht⟩ := c.exists_tokenIfAny (c.variableAt v).nameToken
  simp only [parameter, parameterOf, nameToken, ht, h.variableId?_ok, h.loc?_ok, bind,
    Except.bind, pure, Except.pure]

theorem parameter_eq {v : Nat} {p : Parameter} (h : c.parameter v = .ok p) :
    p = c.parameterOf v := by
  obtain ⟨id, hid, h⟩ := exists_of_bind_ok h
  obtain ⟨loc, hloc, h⟩ := exists_of_bind_ok h
  obtain rfl := Except.ok.inj h
  rw [Token.loc_eq_place hloc, Datum.eq_intOrZero hid]
  rfl

/-- The variable `v` is a parameter of the function `f`. -/
def HasArgument (c : Config) (f v : Nat) : Prop :=
  ∃ table, (c.function f).arguments = some table ∧ table.Lists v

/-- The variable `v` is a parameter of the function or lambda `s`. -/
def IsParameter (c : Config) (s v : Nat) : Prop :=
  match (c.scope s).function with
  | some f => c.HasArgument f v
  | none => v ∈ (c.scope s).vars ∧ (c.variableAt v).isArgument = true

theorem functionParameters_ok (h : c.Readable) (hkeys : c.Numbered) (f : Nat) :
    ∃ ps, c.functionParameters f = .ok ps
      ∧ ∀ p, p ∈ ps.getD [] ↔ ∃ v, c.HasArgument f v ∧ p = c.parameterOf v := by
  unfold functionParameters HasArgument
  cases ha : (c.function f).arguments with
  | none =>
    refine ⟨none, rfl, ?_⟩
    intro p
    simp
  | some table =>
    have htable : ∀ arguments, table = .numbered arguments →
        ∀ a ∈ arguments, ∃ n, a.1.toInt = .ok n := by
      rintro arguments rfl
      exact hkeys f arguments ha
    obtain ⟨arguments, hin, hlists⟩ := ArgumentTable.inOrder_ok htable
    have hmap : (arguments.filterMap id).mapM c.parameter
        = .ok ((arguments.filterMap id).map c.parameterOf) :=
      mapM_eq_map fun v _ => parameter_ok h v
    refine ⟨some ((arguments.filterMap id).map c.parameterOf), ?_, ?_⟩
    · simp only [hin, bind, Except.bind, hmap, pure, Except.pure]
    · intro p
      simp only [Option.getD_some, List.mem_map, List.mem_filterMap, id, exists_eq_right,
        Option.some.injEq, exists_eq_left', hlists]
      constructor
      · rintro ⟨v, hv, rfl⟩
        exact ⟨v, hv, rfl⟩
      · rintro ⟨v, hv, rfl⟩
        exact ⟨v, hv, rfl⟩

theorem scopeParameters_ok (h : c.Readable) (hkeys : c.Numbered) (s : Nat) :
    ∃ ps, c.scopeParameters s = .ok ps
      ∧ ∀ p, p ∈ ps.getD [] ↔ ∃ v, c.IsParameter s v ∧ p = c.parameterOf v := by
  unfold scopeParameters IsParameter
  cases (c.scope s).function with
  | some f => exact functionParameters_ok h hkeys f
  | none =>
    have hmap : ((c.scope s).vars.filter fun v => (c.variableAt v).isArgument).mapM c.parameter
        = .ok (((c.scope s).vars.filter fun v => (c.variableAt v).isArgument).map c.parameterOf) :=
      mapM_eq_map fun v _ => parameter_ok h v
    refine ⟨_, by simp only [hmap, bind, Except.bind, pure, Except.pure]; rfl, ?_⟩
    intro p
    simp only [Option.getD_some, List.mem_map, List.mem_filter]
    constructor
    · rintro ⟨v, hv, rfl⟩
      exact ⟨v, hv, rfl⟩
    · rintro ⟨v, hv, rfl⟩
      exact ⟨v, hv, rfl⟩

theorem exists_argument {f : Nat} {ps : Option (List Parameter)}
    (h : c.functionParameters f = .ok ps) {p : Parameter} (hp : p ∈ ps.getD []) :
    ∃ v, c.HasArgument f v ∧ p = c.parameterOf v := by
  unfold functionParameters at h
  split at h
  · obtain rfl := Except.ok.inj h
    exact absurd hp List.not_mem_nil
  · rename_i table htable
    obtain ⟨arguments, hin, h⟩ := exists_of_bind_ok h
    obtain ⟨params, hm, h⟩ := exists_of_bind_ok h
    obtain rfl := Except.ok.inj h
    obtain ⟨v, hv, hvp⟩ := exists_of_mem_mapM hm hp
    obtain ⟨_, hmem, rfl⟩ := List.mem_filterMap.mp hv
    exact ⟨v, ⟨table, htable, ArgumentTable.lists_of_inOrder hin hmem⟩, parameter_eq hvp⟩

/-- Each entry of a parameter list is a parameter, whatever the configuration. -/
theorem exists_parameter {s : Nat} {ps : Option (List Parameter)}
    (h : c.scopeParameters s = .ok ps) {p : Parameter} (hp : p ∈ ps.getD []) :
    ∃ v, c.IsParameter s v ∧ p = c.parameterOf v := by
  unfold IsParameter
  unfold scopeParameters at h
  cases hf : (c.scope s).function with
  | some f =>
    rw [hf] at h
    exact exists_argument h hp
  | none =>
    rw [hf] at h
    obtain ⟨params, hm, h⟩ := exists_of_bind_ok h
    obtain rfl := Except.ok.inj h
    obtain ⟨v, hv, hvp⟩ := exists_of_mem_mapM hm hp
    exact ⟨v, List.mem_filter.mp hv, parameter_eq hvp⟩

theorem params_of_unitHeading {s : Nat} {head : Heading} (h : c.unitHeading s = .ok head) :
    c.scopeParameters s = .ok head.params := by
  unfold unitHeading heading at h
  obtain ⟨params, hparams, h⟩ := exists_of_bind_ok h
  obtain ⟨kind, -, h⟩ := exists_of_bind_ok h
  obtain ⟨loc, -, h⟩ := exists_of_bind_ok h
  rw [← Except.ok.inj h]
  exact ok_of_mapError hparams

theorem exists_parameter_of_heading {s : Nat} {head : Heading} (h : c.unitHeading s = .ok head)
    {p : Parameter} (hp : p ∈ head.params.getD []) : ∃ v, p = c.parameterOf v := by
  obtain ⟨v, -, hv⟩ := exists_parameter (params_of_unitHeading h) hp
  exact ⟨v, hv⟩

/-- A function without a body has a heading, too, and it lists parameters. -/
theorem exists_heading {f : Nat} {n : Node} (h : c.declaration f = .ok n) :
    ∃ head : Heading, n = head.node none
      ∧ ∀ p ∈ head.params.getD [], ∃ v, p = c.parameterOf v := by
  unfold declaration at h
  obtain ⟨head, hhead, rfl⟩ := exists_of_map_ok h
  refine ⟨head, rfl, ?_⟩
  intro p hp
  unfold heading at hhead
  obtain ⟨params, hparams, hhead⟩ := exists_of_bind_ok hhead
  obtain ⟨kind, -, hhead⟩ := exists_of_bind_ok hhead
  obtain ⟨loc, -, hhead⟩ := exists_of_bind_ok hhead
  obtain rfl := Except.ok.inj hhead
  obtain ⟨v, -, hv⟩ := exists_argument (ok_of_mapError hparams) hp
  exact ⟨v, hv⟩

/-! ## What is watched -/

/-- The token `a` names an assignable parameter of the function or lambda `s`. -/
def NamesParameter (c : Config) (s a : Nat) : Prop :=
  ∃ v, c.IsParameter s v ∧ (c.variableAt v).isConst = false
    ∧ (c.token a).spelling ≠ .text "" ∧ (c.nameToken v).spelling = (c.token a).spelling
    ∧ (c.nameToken v).variableId = (c.token a).variableId

theorem parameterOf_name (h : c.Readable) (v : Nat) :
    (c.parameterOf v).name = .null ∨ ∃ s, (c.parameterOf v).name = .text s := by
  obtain ⟨t, ht⟩ := c.exists_tokenIfAny (c.variableAt v).nameToken
  obtain ⟨s, hs⟩ := h.spelling t
  show (if (c.nameToken v).spelling.truthy = true then _ else _) = _
    ∨ ∃ s, (if (c.nameToken v).spelling.truthy = true then _ else _) = _
  rw [nameToken, ht, hs]
  split
  · exact .inr ⟨s, rfl⟩
  · exact .inl rfl

theorem parameterOf_binding (v : Nat) : (c.parameterOf v).binding.IsKey := by
  show (if (c.nameToken v).variableId = 0 then Datum.null else _).IsKey
  split
  · exact Datum.isKey_null
  · exact Datum.isKey_int _

/-- A number that is not zero is the key of the parameters with this number. -/
theorem agrees_binding_iff {v : Nat} {k : Int} (hk : k ≠ 0) :
    (Datum.int k).agrees (c.parameterOf v).binding = true ↔ (c.nameToken v).variableId = k := by
  show (Datum.int k).agrees (if (c.nameToken v).variableId = 0 then Datum.null else _) = true ↔ _
  by_cases hz : (c.nameToken v).variableId = 0
  · rw [if_pos hz, hz]
    simp [Datum.agrees, Datum.key?, Datum.canonical, BEq.beq, hk.symm]
  · rw [if_neg hz, Datum.agrees_int, beq_iff_eq, eq_comm]

/-- A variable has the name and key of a parameter exactly if it has its spelling and number. -/
theorem agrees_parameterOf (h : c.Readable) {a v : Nat} (ha : (c.token a).isVariable = true) :
    (c.parameterOf v).name.truthy = true
        ∧ (c.token a).ident.agrees ⟨(c.parameterOf v).name, (c.parameterOf v).binding⟩ = true
      ↔ (c.token a).spelling ≠ .text "" ∧ (c.nameToken v).spelling = (c.token a).spelling
        ∧ (c.nameToken v).variableId = (c.token a).variableId := by
  obtain ⟨t, ht⟩ := c.exists_tokenIfAny (c.variableAt v).nameToken
  obtain ⟨s, hs⟩ := h.spelling t
  obtain ⟨x, hx⟩ := h.spelling a
  have hid : (c.token a).variableId ≠ 0 := by
    rw [Token.isVariable, Bool.and_eq_true] at ha
    simpa using ha.2
  have hname : (c.parameterOf v).name = if s = "" then .null else .text s := by
    show (if (c.nameToken v).spelling.truthy = true then _ else _) = _
    rw [nameToken, ht, hs]
    by_cases he : s = "" <;> simp [Datum.truthy, he]
  have hspelling : (c.nameToken v).spelling = .text s := by rw [nameToken, ht, hs]
  rw [Identifier.agrees, Bool.and_eq_true]
  show _ ∧ (c.token a).spelling.agrees (c.parameterOf v).name = true
    ∧ (Datum.int (c.token a).variableId).agrees (c.parameterOf v).binding = true ↔ _
  rw [agrees_binding_iff hid, hname, hspelling, hx]
  by_cases he : s = ""
  · subst he
    simp only [if_pos, Datum.truthy, Bool.false_eq_true, false_and, false_iff, Datum.text.injEq]
    rintro ⟨hne, rfl, -⟩
    exact hne rfl
  · simp only [if_neg he, Datum.truthy, Datum.agrees_text, beq_iff_eq, bne_iff_ne, ne_eq,
      Datum.text.injEq]
    constructor
    · rintro ⟨-, rfl, hv⟩
      exact ⟨he, rfl, hv⟩
    · rintro ⟨-, rfl, hv⟩
      exact ⟨he, rfl, hv⟩

/-- The names that are watched in a function or lambda. -/
def scopeWatched (c : Config) (s : Nat) : Watched :=
  match c.scopeParameters s with
  | .error _ => []
  | .ok ps =>
    match Watched.ofParameterList (ps.map (·.map some)) with
    | .error _ => []
    | .ok w => w

/-- The names watched in a function or lambda are those of its assignable parameters. -/
theorem scopeWatched_ok (h : c.Coherent) (s : Nat) :
    ∃ ps, c.scopeParameters s = .ok ps
      ∧ (∀ p, p ∈ ps.getD [] → (p.name = .null ∨ ∃ s, p.name = .text s) ∧ p.binding.IsKey)
      ∧ Watched.ofParameterList (ps.map (·.map some)) = .ok (c.scopeWatched s)
      ∧ ∀ a, (c.token a).isVariable = true →
        ((c.scopeWatched s).any (c.token a).ident.agrees = true ↔ c.NamesParameter s a) := by
  obtain ⟨ps, hps, hmem⟩ := scopeParameters_ok h.readable h.numbered s
  have hgetD : ∀ p, some p ∈ (ps.map (·.map some)).getD [] ↔ p ∈ ps.getD [] := by
    intro p
    cases ps <;> simp
  have hkeys : ∀ p, p ∈ ps.getD [] →
      (p.name = .null ∨ ∃ s, p.name = .text s) ∧ p.binding.IsKey := by
    intro p hp
    obtain ⟨v, -, rfl⟩ := (hmem p).mp hp
    exact ⟨parameterOf_name h.readable v, parameterOf_binding v⟩
  have hwatched : ∀ p, some p ∈ (ps.map (·.map some)).getD [] →
      p.name.IsKey ∧ p.binding.IsKey := by
    intro p hp
    obtain ⟨hname, hb⟩ := hkeys p ((hgetD p).mp hp)
    refine ⟨?_, hb⟩
    rcases hname with hn | ⟨s, hs⟩
    · exact hn ▸ Datum.isKey_null
    · exact hs ▸ Datum.isKey_text s
  obtain ⟨w, hw, hcovers⟩ := Watched.ofParameterList_covers hwatched
  have hwatched : c.scopeWatched s = w := by simp only [scopeWatched, hps, hw]
  rw [hwatched]
  refine ⟨ps, hps, hkeys, hw, ?_⟩
  intro a ha
  rw [hcovers]
  constructor
  · rintro ⟨p, hp, himm, hname, hagrees⟩
    obtain ⟨v, hv, rfl⟩ := (hmem p).mp ((hgetD p).mp hp)
    exact ⟨v, hv, himm, (agrees_parameterOf h.readable ha).mp ⟨hname, hagrees⟩⟩
  · rintro ⟨v, hv, himm, hsame⟩
    obtain ⟨hname, hagrees⟩ := (agrees_parameterOf h.readable ha).mpr hsame
    exact ⟨c.parameterOf v, (hgetD _).mpr ((hmem _).mpr ⟨v, hv, rfl⟩), himm, hname, hagrees⟩

end Config
end FinalParams
