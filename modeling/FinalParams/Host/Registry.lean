import FinalParams.Host.ParameterChecker
import FinalParams.Text.Order

/-! The checkers that can be run, by name, in the order in which they were registered. -/

namespace FinalParams

abbrev Registry := Table Checker

namespace Registry

/-- A checker with the name of another one takes its place. -/
def register (r : Registry) (c : Checker) : Registry := Table.set r c.name c

def ofList (cs : List Checker) : Registry := cs.foldl register []

def default : Registry := ofList [parameterChecker]

def checkers (r : Registry) : List Checker := r.map (·.2)

def sortedNames (r : Registry) : List String := sortTexts (Table.names r)

/-- The width of the column of names. -/
def nameWidth : Nat := 24

def listingLine (name : String) (c : Checker) : String :=
  name ++ String.ofList (List.replicate (nameWidth - name.length) ' ') ++ " "
    ++ c.description.shown
    ++ " [" ++ ", ".intercalate (sortTexts c.errorIds) ++ "]\n"

/-- The checkers in the order of their names, one a line. -/
def listing (r : Registry) : String :=
  String.join ((sortedNames r).map fun name =>
    match Table.get? r name with
    | some c => listingLine name c
    | none => "")

end Registry
end FinalParams
