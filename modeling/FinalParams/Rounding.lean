/-! Rounding to the nearest number.

Where two numbers are equally near, the even one is taken. -/

namespace FinalParams

/-- The integer nearest to `num / den`. -/
def roundHalfEven (num den : Nat) : Nat :=
  let q := num / den
  let r := num % den
  if 2 * r < den then q
  else if den < 2 * r then q + 1
  else if q % 2 == 0 then q else q + 1

/-- The number nearest to `n` of those that need at most `bits` binary digits before their trailing
zeros. -/
def roundToBits (bits n : Nat) : Nat :=
  let unit := 1 <<< (n.log2 + 1 - bits)
  roundHalfEven n unit * unit

example : roundToBits 2 5 = 4 := by decide
example : roundToBits 2 7 = 8 := by decide
example : roundToBits 53 9007199254740993 = 9007199254740992 := by decide +kernel

end FinalParams
