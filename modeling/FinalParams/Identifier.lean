import FinalParams.Loc

/-! Names of variables and what they are bound to.

Two variables may share a spelling, so a name also carries the key under which the variable is
declared.  Where only spellings are known the key is missing, and names are then told apart by
spelling alone. -/

namespace FinalParams

structure Identifier where
  name : Datum
  binding : Datum := .null
  deriving DecidableEq, Inhabited, Repr

namespace Identifier

/-- What a name is looked up by: the keys of its spelling and of its binding.  If one of them is
compound there is none. -/
def keys? (i : Identifier) : Except Misfit (Datum × Datum) := do
  let name ← i.name.key?
  let binding ← i.binding.key?
  return (name, binding)

def agrees (a b : Identifier) : Bool := a.name.agrees b.name && a.binding.agrees b.binding

end Identifier

/-- A declared parameter.  The name is empty or null where the declaration gives none. -/
structure Parameter where
  name : Datum := .null
  immutable : Datum := .bool false
  binding : Datum := .null
  loc : Loc := {}
  deriving Inhabited, Repr

/-- The name by which the parameter can be assigned, if there is one. -/
def Parameter.ident? (p : Parameter) : Option Identifier :=
  if p.name.truthy then some ⟨p.name, p.binding⟩ else none

end FinalParams
