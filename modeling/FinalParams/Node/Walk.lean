import FinalParams.Node.Basic

/-! A tree written out from top to bottom, a node before its children and the children from left to
right, each node with its depth.

A value that is no node cannot be written out, nor can a reference whose name is no text.

The list is built from its end, so that no part of it is copied. -/

namespace FinalParams
namespace Node

mutual

/-- The tree, followed by `tail`. -/
def walkOnto (tail : List (Nat × Node)) (depth : Nat) : Node → List (Nat × Node)
  | file path cs loc => (depth, file path cs loc) :: walkAllOnto tail (depth + 1) cs
  | callable name params body kind loc =>
    (depth, callable name params body kind loc) :: walkIfAnyOnto tail (depth + 1) body
  | block ss loc => (depth, block ss loc) :: walkAllOnto tail (depth + 1) ss
  | assign target value op text loc =>
    (depth, assign target value op text loc)
      :: walkOnto (walkIfAnyOnto tail (depth + 1) value) (depth + 1) target
  | update target op leading text loc =>
    (depth, update target op leading text loc) :: walkOnto tail (depth + 1) target
  | ref name binding loc => (depth, ref name binding loc) :: tail
  | other kind cs text loc =>
    (depth, other kind cs text loc) :: walkAllOnto tail (depth + 1) cs
  | stray value => (depth, stray value) :: tail

def walkAllOnto (tail : List (Nat × Node)) (depth : Nat) : List Node → List (Nat × Node)
  | [] => tail
  | n :: rest => walkOnto (walkAllOnto tail depth rest) depth n

def walkIfAnyOnto (tail : List (Nat × Node)) (depth : Nat) : Option Node → List (Nat × Node)
  | none => tail
  | some n => walkOnto tail depth n

end

/-- The nodes of a tree whose root has this depth. -/
def walk (depth : Nat) (n : Node) : List (Nat × Node) := walkOnto [] depth n

/-- What keeps a node from being written out. -/
inductive Flaw where
  | notANode (typeName : String)
  /-- The name that a reference stands for is no text. -/
  | notAName (typeName : String)
  deriving DecidableEq, Repr

def Flaw.message : Flaw → String
  | notANode typeName => s!"not an effectively_final node: {typeName}"
  | notAName typeName => s!"__str__ returned non-string (type {typeName})"

/-- The flaw of a reference to something that has no name. -/
def misnamed? : Node → Option Flaw
  | ref (.text _) _ _ => none
  | ref name _ _ => some (.notAName name.typeName)
  | _ => none

def flaw? : Node → Option Flaw
  | stray value => some (.notANode value.typeName)
  | n => n.misnamed?

/-- The whole tree from depth zero, or the first flaw in it. -/
def outline (n : Node) : Except Flaw (List (Nat × Node)) :=
  let rows := n.walk 0
  match rows.findSome? (·.2.flaw?) with
  | some flaw => .error flaw
  | none => .ok rows

/-- The nodes directly below, unless the node is none or one of them is misnamed. -/
def listed (n : Node) : Except Flaw (List Node) :=
  match n with
  | stray value => .error (.notANode value.typeName)
  | n =>
    match n.children.findSome? misnamed? with
    | some flaw => .error flaw
    | none => .ok n.children

end Node
end FinalParams
