import FinalParams.Datum.Shown
import FinalParams.Text.JsonString

/-! Values as JSON text, on one line.

Between the items of a list and the members of a record stands a blank, and numbers that are not
finite have names, which not every reader of JSON knows. -/

namespace FinalParams

def Binary64.json (x : Binary64) : String :=
  if x.isNaN then "NaN"
  else if x.isInfinite then if x.isNegative then "-Infinity" else "Infinity"
  else x.text

namespace Datum

mutual

def json : Datum → String
  | null => "null"
  | bool b => if b then "true" else "false"
  | int n => toString n
  | real x => x.json
  | text s => Text.jsonString s
  | list items => "[" ++ ", ".intercalate (jsonItems items) ++ "]"
  | record fields => "\x7b" ++ ", ".intercalate (jsonMembers fields) ++ "\x7d"

def jsonItems : List Datum → List String
  | [] => []
  | d :: rest => d.json :: jsonItems rest

def jsonMembers : List (String × Datum) → List String
  | [] => []
  | (name, d) :: rest => (Text.jsonString name ++ ": " ++ d.json) :: jsonMembers rest

end

end Datum
end FinalParams
