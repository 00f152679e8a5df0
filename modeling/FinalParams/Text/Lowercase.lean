import FinalParams.Text.CaseContext
import FinalParams.Text.SmallLetter

/-! Text in small letters.

Two letters need more than a table.  A dotted capital I becomes a small i and a combining dot, and a
capital sigma becomes a final sigma where it ends a word: a cased letter comes before it and none
comes after it, not counting the characters that belong to no letter of their own. -/

namespace FinalParams
namespace Text

/-- Whether the first character that is not ignorable is a cased letter. -/
def meetsLetter (cs : List Char) : Bool :=
  match cs.dropWhile isCaseIgnorable with
  | c :: _ => isCased c
  | [] => false

/-- The small form of `c` between `before`, which is read backwards, and `after`. -/
def lowercaseAt (before : List Char) (c : Char) (after : List Char) : List Char :=
  if c == '\u0130' then ['i', '\u0307']
  else if c == '\u03a3' then
    [if meetsLetter before && !meetsLetter after then '\u03c2' else '\u03c3']
  else [smallLetter c]

def lowercaseFrom (before : List Char) : List Char → List Char
  | [] => []
  | c :: after => lowercaseAt before c after ++ lowercaseFrom (c :: before) after

def lowercase (s : String) : String := String.ofList (lowercaseFrom [] s.toList)

end Text
end FinalParams
