import FinalParams.Rounding
import FinalParams.Text.FixedPlaces

/-! Times that checkers take.

A clock counts ticks of 1/1024 of a second.  Times are in milliseconds with 53 significant binary
digits, and every reading, difference, product and sum is rounded to that many.  As all of them are
multiples of 1/1024, they are kept as integers.  A time may be too long for a number.  It is then
infinite, and the sum of two such times that run in opposite directions is no time at all. -/

namespace FinalParams

inductive Elapsed where
  /-- A time in units of 1/1024 of a millisecond. -/
  | units (n : Int)
  | infinite (backwards : Bool)
  | undefined
  deriving DecidableEq, Inhabited, Repr

namespace Elapsed

def zero : Elapsed := units 0

/-- The nearest number with 53 significant binary digits. -/
def rounded (n : Int) : Int :=
  if n < 0 then -(roundToBits 53 n.natAbs : Int) else roundToBits 53 n.natAbs

/-- The time of so many units, rounded.  Numbers of milliseconds end at `2 ^ 1024`. -/
def ofUnits (n : Int) : Elapsed :=
  let r := rounded n
  if r.natAbs.log2 < 1034 then units r else infinite (r < 0)

/-- The time between two readings of the clock. -/
def between (started ended : Int) : Elapsed :=
  ofUnits (rounded (rounded ended - rounded started) * 1000)

def add : Elapsed → Elapsed → Elapsed
  | units m, units n => ofUnits (m + n)
  | undefined, _ => undefined
  | _, undefined => undefined
  | infinite b, infinite c => if b = c then infinite b else undefined
  | infinite b, units _ => infinite b
  | units _, infinite b => infinite b

/-- A time in milliseconds, with so many decimal places. -/
def text (places : Nat) : Elapsed → String
  | units n => Text.fixedPlaces places n 1024
  | infinite backwards => if backwards then "-inf" else "inf"
  | undefined => "nan"

example : (between 0 100000000000001).text 3 = "97656250000000.969" := by decide +kernel
example : (between 7 0).text 3 = "-6.836" := by decide +kernel

end Elapsed
end FinalParams
