import FinalParams.Rounding

/-! Fractions with a fixed number of decimal places.

The exact value is rounded to the nearest number with so many places, and a tie goes to the one
whose last digit is even.  A negative value keeps its sign even where nothing but zeros remains. -/

namespace FinalParams
namespace Text

def fixedPlaces (places : Nat) (num : Int) (den : Nat) : String :=
  let unit := Nat.pow 10 places
  let scaled := roundHalfEven (num.natAbs * unit) den
  let fraction := (toString (scaled % unit)).toList
  let padding := List.replicate (places - fraction.length) '0'
  (if num < 0 then "-" else "") ++ toString (scaled / unit) ++ "."
    ++ String.ofList (padding ++ fraction)

example : fixedPlaces 1 1 4 = "0.2" := by decide +kernel
example : fixedPlaces 1 3 4 = "0.8" := by decide +kernel
example : fixedPlaces 3 (-1) 128 = "-0.008" := by decide +kernel
example : fixedPlaces 1 (-1) 128 = "-0.0" := by decide +kernel

end Text
end FinalParams
