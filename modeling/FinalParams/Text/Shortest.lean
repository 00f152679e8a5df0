import FinalParams.Binary64
import FinalParams.Rounding

/-! The shortest decimal that reads back as a floating-point number.

Reading takes the nearest floating-point number, and of two the one with an even fraction.  So every
number has an interval of reals around it that read back as the number, which ends half way to the
neighbours on both sides.  The number and the ends are multiples of `2 ^ (-1075)` and therefore of
`10 ^ (-1075)`, so that integers decide every comparison.

For one digit, two digits and so on, the search looks at the decimal nearest to the number and at
the next one on its other side.  The first that lies in the interval is the answer.  Seventeen
digits are always enough. -/

namespace FinalParams

/-- The positive number `value` between the ends of its interval, all as multiples of
`10 ^ (-1075)`. -/
structure Reading where
  below : Nat
  value : Nat
  above : Nat
  /-- Whether the ends read back as the number, too. -/
  closed : Bool
  deriving DecidableEq, Repr

/-- The interval of a finite number, without its sign.  Below a power of two the neighbours lie half
as far apart. -/
def Binary64.reading (x : Binary64) : Reading :=
  let scale := Nat.pow 5 1075
  let gap := 1 <<< (x.exponentField - 1)
  let gapBelow := if x.fractionField == 0 && 1 < x.exponentField then gap / 2 else gap
  { below := (2 * x.units - gapBelow) * scale
    value := 2 * x.units * scale
    above := (2 * x.units + gap) * scale
    closed := x.fractionField % 2 == 0 }

namespace Reading

def contains (r : Reading) (n : Nat) : Bool :=
  if r.closed then r.below ≤ n && n ≤ r.above else r.below < n && n < r.above

/-- The multiple of `unit` that reads back as the number, as a factor, if one of its two neighbours
does. -/
def factor? (r : Reading) (unit : Nat) : Option Nat :=
  let near := roundHalfEven r.value unit
  let low := r.value / unit
  [near, if near == low then low + 1 else low].find? fun n => r.contains (n * unit)

end Reading

namespace Text

/-- The decimal `0.d₁d₂… · 10 ^ point`, where `d₁d₂…` are the digits. -/
structure Decimal where
  digits : List Char
  point : Int
  deriving DecidableEq, Repr

/-- The decimal `n · 10 ^ exponent`, without zeros at the end. -/
def Decimal.ofNat (n : Nat) (exponent : Int) : Decimal :=
  let digits := (toString n).toList
  { digits := (digits.reverse.dropWhile (· == '0')).reverse
    point := digits.length + exponent }

/-- The shortest decimal of a finite number other than zero, without its sign. -/
def shortest (x : Binary64) : Decimal :=
  let r := x.reading
  let size := (toString r.value).length
  let found := (List.range 17).findSome? fun k =>
    (r.factor? (Nat.pow 10 (size - (k + 1)))).map (Decimal.ofNat · (size - (k + 1) - 1075 : Int))
  found.getD (Decimal.ofNat r.value (-1075))

end Text
end FinalParams
