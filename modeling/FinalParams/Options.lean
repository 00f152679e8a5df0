import FinalParams.Datum.Misfit
import FinalParams.Table

/-! Options that the user sets by name. -/

namespace FinalParams

abbrev Options := Table Datum

/-- The options that a value gives.  One that is false gives none. -/
def Options.ofDatum? : Datum → Except Misfit Options
  | .record fields => .ok fields
  | d => if d.truthy then .error (.lacking d.typeName "get") else .ok []

/-- A flag that is on unless the options turn it off. -/
def Options.flag (o : Options) (name : String) : Bool :=
  match Table.get? o name with
  | some value => value.truthy
  | none => true

end FinalParams
