import FinalParams.Datum

/-! Parameter lists in short form, for trees built by hand.

An entry is a bare name, which declares a mutable parameter, or a pair of a name and a flag that
says whether it is immutable.  The name of a pair is taken as it is. -/

namespace FinalParams

/-- A parameter of which only the name and the flag are given. -/
structure Shorthand where
  name : Datum
  immutable : Bool
  deriving Inhabited, Repr

inductive ShorthandError where
  | outOfRange
  | missingKey
  | notSubscriptable (typeName : String)
  deriving DecidableEq, Repr

namespace ShorthandError

def message : ShorthandError → String
  | outOfRange => "list index out of range"
  | missingKey => "0"
  | notSubscriptable typeName => s!"'{typeName}' object is not subscriptable"

end ShorthandError

namespace Shorthand

def ofEntry : Datum → Except ShorthandError Shorthand
  | .text name => .ok ⟨.text name, false⟩
  | .list (name :: flag :: _) => .ok ⟨name, flag.truthy⟩
  | .list _ => .error .outOfRange
  | .record _ => .error .missingKey
  | entry => .error (.notSubscriptable entry.typeName)

/-- The entries in order, or the error of the first one that is neither a name nor a pair. -/
def ofEntries (entries : List Datum) : Except ShorthandError (List Shorthand) :=
  entries.mapM ofEntry

end Shorthand
end FinalParams
