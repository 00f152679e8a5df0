/-! Sets of characters given by their borders.

A long table of ranges is a list of the code points at which membership changes: the set starts at
the first border, stops before the second, starts again at the third, and so on. -/

namespace FinalParams
namespace Text

def within (borders : List Nat) (c : Char) : Bool :=
  (borders.takeWhile (· ≤ c.toNat)).length % 2 == 1

end Text
end FinalParams
