import FinalParams.Config.Basic
import FinalParams.Identifier

/-! The parameters of functions and lambdas. -/

namespace FinalParams

inductive LowerError where
  /-- The number of an argument is no integer, or one of a token is infinite. -/
  | number (e : IntegerError)
  /-- A value does not fit where it is used. -/
  | misfit (e : Misfit)
  /-- The links between tokens go in a circle. -/
  | endless
  /-- Bodies lie inside one another in a circle. -/
  | bottomless
  /-- An operator was finished before its operands. -/
  | missingOperand
  deriving DecidableEq, Repr

def LowerError.message : LowerError → String
  | number e => e.message
  | misfit e => e.message
  | endless => "endless chain of links"
  | bottomless => "bottomless nesting of bodies"
  | missingOperand => "missing operand"

/-- The arguments in the order of their numbers.  Arguments with one number keep their order, and
the first number that cannot be read decides the error. -/
def ArgumentTable.inOrder : ArgumentTable → Except IntegerError (List (Option Nat))
  | listed arguments => .ok arguments
  | numbered arguments => do
    let numbered ← arguments.mapM fun (key, v) => do return (← key.toInt, v)
    return (numbered.mergeSort fun a b => a.1 ≤ b.1).map (·.2)

namespace Config

/-- A parameter is known by the token that names it.  It is immutable if it is declared constant,
and without a variable number it has no key. -/
def parameter (c : Config) (v : Nat) : Except IntegerError Parameter := do
  let var := c.variableAt v
  let t := c.tokenIfAny var.nameToken
  let id ← t.variableId?
  let loc ← t.loc?
  return { name := if t.spelling.truthy then t.spelling else .null
           immutable := .bool var.isConst
           binding := if id = 0 then .null else .int id
           loc }

/-- The parameters of a function, or nothing if it has no argument table at all. -/
def functionParameters (c : Config) (f : Nat) : Except IntegerError (Option (List Parameter)) :=
  match (c.function f).arguments with
  | none => .ok none
  | some table => do
    let arguments ← table.inOrder
    let params ← (arguments.filterMap id).mapM c.parameter
    return some params

/-- The parameters of a scope.  A lambda has no function, so its parameters are those of its
variables that are arguments. -/
def scopeParameters (c : Config) (s : Nat) : Except IntegerError (Option (List Parameter)) :=
  match (c.scope s).function with
  | some f => c.functionParameters f
  | none => do
    let arguments := (c.scope s).vars.filter fun v => (c.variableAt v).isArgument
    let params ← arguments.mapM c.parameter
    return some params

end Config
end FinalParams
