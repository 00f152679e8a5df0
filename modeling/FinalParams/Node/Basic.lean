import FinalParams.Identifier

/-! The tree that is checked.

It keeps only what the rule about parameters looks at: compilation units, functions and lambdas with
their parameters, assignments, increments and decrements, and names.  Everything else is `other`,
which only contributes its children.  A child may also be a value that is no node at all, as a
careless producer of trees can leave one anywhere.

Names, operators, texts and paths are taken over as they are found, and so any value may stand for
one. -/

namespace FinalParams

/-- A value in the place of a node. -/
inductive Stray where
  | datum (d : Datum)
  | parameter (p : Parameter)
  deriving Inhabited, Repr

def Stray.typeName : Stray → String
  | datum d => d.typeName
  | parameter _ => "Parameter"

inductive Node where
  | file (path : Datum) (children : List Node) (loc : Loc)
  /-- A function, method, constructor or lambda.  Without a body it is only declared. -/
  | callable (name : Datum) (params : Option (List (Option Parameter))) (body : Option Node)
      (kind : Datum) (loc : Loc)
  | block (statements : List Node) (loc : Loc)
  | assign (target : Node) (value : Option Node) (op text : Datum) (loc : Loc)
  /-- `leading` tells `++x` from `x++`. -/
  | update (target : Node) (op leading text : Datum) (loc : Loc)
  | ref (name binding : Datum) (loc : Loc)
  | other (kind : Datum) (children : List Node) (text : Datum) (loc : Loc)
  | stray (value : Stray)
  deriving Inhabited, Repr

namespace Node

/-- The nodes directly below, in source order.  Parameters are not among them. -/
def children : Node → List Node
  | file _ cs _ => cs
  | callable _ _ body _ _ => body.toList
  | block ss _ => ss
  | assign target value _ _ _ => target :: value.toList
  | update target _ _ _ _ => [target]
  | ref _ _ _ => []
  | other _ cs _ _ => cs
  | stray _ => []

def typeName : Node → String
  | file _ _ _ => "CompilationUnit"
  | callable _ _ _ _ _ => "CallableUnit"
  | block _ _ => "Block"
  | assign _ _ _ _ _ => "Assignment"
  | update _ _ _ _ _ => "Update"
  | ref _ _ _ => "NameRef"
  | other _ _ _ _ => "Other"
  | stray value => value.typeName

mutual

/-- The number of nodes of a tree. -/
def size : Node → Nat
  | file _ cs _ => sizeAll cs + 1
  | callable _ _ body _ _ => sizeIfAny body + 1
  | block ss _ => sizeAll ss + 1
  | assign target value _ _ _ => target.size + sizeIfAny value + 1
  | update target _ _ _ _ => target.size + 1
  | ref _ _ _ => 1
  | other _ cs _ _ => sizeAll cs + 1
  | stray _ => 1

def sizeAll : List Node → Nat
  | [] => 0
  | n :: rest => n.size + sizeAll rest

def sizeIfAny : Option Node → Nat
  | none => 0
  | some n => n.size

end

theorem sizeAll_append (a b : List Node) : sizeAll (a ++ b) = sizeAll a + sizeAll b := by
  induction a with
  | nil => simp [sizeAll]
  | cons n rest ih => simp only [List.cons_append, sizeAll, ih]; omega

theorem sizeAll_toList (o : Option Node) : sizeAll o.toList = sizeIfAny o := by
  cases o <;> simp [sizeAll, sizeIfAny]

theorem size_eq (n : Node) : n.size = sizeAll n.children + 1 := by
  cases n <;> simp [size, children, sizeAll, sizeAll_toList]

theorem size_lt_of_mem_children {c n : Node} (h : c ∈ n.children) : c.size < n.size := by
  rw [size_eq n]
  generalize n.children = cs at h
  induction cs with
  | nil => simp at h
  | cons d rest ih =>
    rcases List.mem_cons.mp h with rfl | h
    · simp only [sizeAll]; omega
    · have := ih h
      simp only [sizeAll]; omega

end Node
end FinalParams
