import FinalParams.Text.Blank
import FinalParams.Text.Digit

/-! Integers written in text.

A numeral is an optional sign and decimal digits of any script, with single underscores allowed
between digits and blanks allowed around the whole.  The four separating control characters count
as blanks elsewhere but not here.  A numeral of more than `maxDigits` digits is refused. -/

namespace FinalParams
namespace Text

inductive NumeralError where
  | malformed
  | tooLong (digits : Nat)
  deriving DecidableEq, Repr

def maxDigits : Nat := 4300

def isNumeralBlank (c : Char) : Bool :=
  isBlank c && !(0x1c ≤ c.toNat && c.toNat ≤ 0x1f)

/-- The digits at the front and the text behind them.  `expected` says that a digit has to come
next, as at the start and after an underscore. -/
def digitRun (expected : Bool) : List Char → Option (List Nat × List Char)
  | [] => if expected then none else some ([], [])
  | c :: cs =>
    match digitValue? c with
    | some d => (digitRun false cs).map fun (digits, rest) => (d :: digits, rest)
    | none =>
      if expected then none
      else if c == '_' then digitRun true cs
      else some ([], c :: cs)

/-- The sign, as a factor, and the text behind it. -/
def splitSign : List Char → Int × List Char
  | '-' :: cs => (-1, cs)
  | '+' :: cs => (1, cs)
  | cs => (1, cs)

def decimalValue (digits : List Nat) : Nat :=
  digits.foldl (fun n d => 10 * n + d) 0

def readInteger (s : String) : Except NumeralError Int :=
  let (sign, unsigned) := splitSign (s.toList.dropWhile isNumeralBlank)
  match digitRun true unsigned with
  | none => .error .malformed
  | some (digits, rest) =>
    if maxDigits < digits.length then .error (.tooLong digits.length)
    else if rest.all isNumeralBlank then .ok (sign * decimalValue digits)
    else .error .malformed

end Text
end FinalParams
