import FinalParams.Node.Basic

/-! The names that must not be assigned.

Entering a function or lambda fixes the set of its watched names: the named parameters that are not
declared immutable.  A parameter without a name cannot be assigned and is left out, and parameters
that agree in spelling and key count once. -/

namespace FinalParams

/-- Watched names without repetition, in the order of their declarations. -/
abbrev Watched := List Identifier

namespace Parameter

def watched? (p : Parameter) : Option Identifier :=
  if p.immutable.truthy then none else p.ident?

end Parameter

namespace Watched

def ofIdentifiers (ids : List Identifier) : Except Misfit Watched := do
  ids.forM fun i => do discard i.keys?
  return ids.eraseDupsBy Identifier.agrees

/-- The watched names of a parameter list.  Missing entries are passed over. -/
def ofParameters (params : List (Option Parameter)) : Except Misfit Watched :=
  ofIdentifiers (params.filterMap (Option.bind · Parameter.watched?))

/-- A missing parameter list is an empty one. -/
def ofParameterList (params : Option (List (Option Parameter))) : Except Misfit Watched :=
  ofParameters (params.getD [])

/-- Whether a name is among the watched ones.  In an empty set nothing is looked up. -/
def covers (w : Watched) (i : Identifier) : Except Misfit Bool :=
  match w with
  | [] => .ok false
  | w => i.keys?.map fun _ => w.any i.agrees

end Watched
end FinalParams
