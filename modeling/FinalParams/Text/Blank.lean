/-! Blank characters, and text without the blanks at its end.

Blank is every character that separates words or lines in any script: the spaces, the line and
paragraph separators and the separating control characters.  The zero-width space is not one. -/

namespace FinalParams
namespace Text

def isBlank (c : Char) : Bool :=
  let n := c.toNat
  (0x09 ≤ n && n ≤ 0x0d) || (0x1c ≤ n && n ≤ 0x20) || n == 0x85 || n == 0xa0 || n == 0x1680
    || (0x2000 ≤ n && n ≤ 0x200a) || n == 0x2028 || n == 0x2029 || n == 0x202f || n == 0x205f
    || n == 0x3000

/-- The text up to its last character that is not blank. -/
def trimEnd (s : String) : String :=
  String.ofList (s.toList.reverse.dropWhile isBlank).reverse

example : trimEnd "x =  \t" = "x =" := by decide
example : trimEnd "\u00a0" = "" := by decide

end Text
end FinalParams
