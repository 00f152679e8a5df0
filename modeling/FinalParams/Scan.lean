import FinalParams.Node.SourceText
import FinalParams.Violation
import FinalParams.Watched

/-
The search for forbidden assignments.

The tree is visited from top to bottom and from left to right with a list of nodes that are still to
be visited, each with the names that are watched there.  Entering a function or lambda replaces the
watched names by those of its own parameters: what is captured from outside is not its business.
Outside of every function nothing is watched, unless the caller says so.

The list takes the place of recursion because trees nest thousands of levels deep.  Each visit takes
one node off and puts its children back, so the number of nodes still to come falls by one.
-/

namespace FinalParams

/-- Why a search stopped early. -/
inductive ScanError where
  | notANode (typeName : String)
  | misfit (e : Misfit)
  deriving DecidableEq, Repr

namespace ScanError

def message : ScanError → String
  | notANode typeName => s!"not an effectively_final node: {typeName}"
  | misfit e => e.message

end ScanError

namespace Node

/-- The target and the operator of a node that mutates it in one of the ways that count. -/
def written? (m : Mutations) : Node → Option (Node × Datum)
  | assign target _ op _ _ => if op.isText "=" || m.compound then some (target, op) else none
  | update target op _ _ _ => if m.steps then some (target, op) else none
  | _ => none

/-- The watched name that a node assigns, with its location and the operator.  Only a bare name
counts: an element, a member or a dereferenced pointer is not the parameter itself. -/
def offence? (m : Mutations) (watched : Option Watched) (n : Node) :
    Except Misfit (Option (Identifier × Loc × Datum)) :=
  match watched, n.written? m with
  | some w, some (ref name binding loc, op) =>
    (w.covers ⟨name, binding⟩).map fun covered =>
      if covered then some (⟨name, binding⟩, loc, op) else none
  | _, _ => .ok none

/-- The violation that a node is where these names are watched.  A location without a file is put
into the file at `path`. -/
def violation? (m : Mutations) (path : Datum) (watched : Option Watched) (n : Node) :
    Except Misfit (Option Violation) := do
  match ← n.offence? m watched with
  | none => return none
  | some (ident, loc, op) =>
    let text ← n.sourceText
    return some ⟨loc.inFile path, ident, text, op⟩

end Node

namespace Scan

/-- What one visit yields, and what it passes on: the path of the compilation unit seen last and
the names that are watched among the children. -/
structure Visit where
  path : Datum
  watched : Option Watched
  violation : Option Violation := none

def visit (m : Mutations) (path : Datum) (watched : Option Watched) (n : Node) :
    Except ScanError Visit :=
  match n with
  | .file ownPath _ _ => .ok { path := ownPath, watched }
  | .callable _ params _ _ _ =>
    match Watched.ofParameterList params with
    | .error e => .error (.misfit e)
    | .ok own => .ok { path, watched := some own }
  | .stray value => .error (.notANode value.typeName)
  | n =>
    match n.violation? m path watched with
    | .error e => .error (.misfit e)
    | .ok violation => .ok { path, watched, violation }

/-- The violations found, and the error that ended the search, if one did. -/
structure Outcome where
  violations : List Violation
  error : Option ScanError := none
  deriving Repr

def pendingSize (pending : List (Node × Option Watched)) : Nat :=
  Node.sizeAll (pending.map (·.1))

theorem pendingSize_cons (n : Node) (watched : Option Watched) (w : Option Watched)
    (rest : List (Node × Option Watched)) :
    pendingSize (n.children.map (·, w) ++ rest) < pendingSize ((n, watched) :: rest) := by
  simp only [pendingSize, List.map_append, List.map_map, List.map_cons, Node.sizeAll,
    Node.sizeAll_append]
  have h : (n.children.map ((fun p : Node × Option Watched => p.1) ∘ (·, w))) = n.children := by
    simp [Function.comp_def]
  rw [h, Node.size_eq n]
  omega

/-- The search through the nodes still to be visited.  `found` holds the violations so far, the
latest first. -/
def run (m : Mutations) (path : Datum) (found : List Violation) :
    List (Node × Option Watched) → Outcome
  | [] => { violations := found.reverse }
  | (n, watched) :: rest =>
    match visit m path watched n with
    | .error e => { violations := found.reverse, error := some e }
    | .ok v =>
      run m v.path (v.violation.toList ++ found) (n.children.map (·, v.watched) ++ rest)
termination_by pending => pendingSize pending
decreasing_by exact pendingSize_cons n watched v.watched rest

end Scan

def Node.scan (n : Node) (m : Mutations) (watched : Option Watched) : Scan.Outcome :=
  Scan.run m (.text "") [] [(n, watched)]

end FinalParams
