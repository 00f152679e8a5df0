import FinalParams.Identifier
import FinalParams.Options

/-! What counts as a forbidden assignment, and what is reported about one. -/

namespace FinalParams

/-- The kinds of mutation that are reported besides the plain assignment. -/
structure Mutations where
  /-- Whether `x += 1` and its like count. -/
  compound : Bool := true
  /-- Whether `x++` and its like count. -/
  steps : Bool := true
  deriving DecidableEq, Inhabited, Repr

namespace Mutations

def plainOnly : Mutations := ⟨false, false⟩

/-- Both kinds count unless the options turn one off. -/
def ofOptions (o : Options) : Mutations :=
  ⟨Options.flag o "compound_assignments", Options.flag o "updates"⟩

end Mutations

/-- An assignment to a watched name. -/
structure Violation where
  loc : Loc
  ident : Identifier
  text : Datum
  op : Datum := .text "="
  deriving Repr

namespace Violation

def message (v : Violation) : String :=
  "EFFECTIVELY_FINAL: Assignment to param `" ++ v.ident.name.shown
    ++ "` in `" ++ v.text.shown ++ "`"

end Violation
end FinalParams
