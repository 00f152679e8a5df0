/-
File name patterns.

`*` stands for any text, `?` for any character, and a set in brackets for one of its members.  A
slash is a character like any other.  A set that is not closed is a plain bracket.

In a set a hyphen between two characters makes a range, and `!` in front turns the set around.  A
range that runs downwards is taken out of the set, which may leave the set without members, or with
another character in front.  So the set is cut at the hyphens that make ranges, the falling ranges
are dropped, and only what remains is read.
-/

namespace FinalParams
namespace Glob

inductive Piece where
  | anyText
  | anyChar
  | char (c : Char)
  /-- One of the characters in the ranges, or one in none of them. -/
  | oneOf (negated : Bool) (ranges : List (Char × Char))
  deriving DecidableEq, Repr

/-! ## Sets in brackets -/

/-- The set behind an opening bracket and the text behind the closing one.  A closing bracket in
front, or behind a leading `!`, is a member. -/
def splitSet (cs : List Char) : Option (List Char × List Char) :=
  let lead := if cs.head? = some '!' then 1 else 0
  let skip := if (cs.drop lead).head? = some ']' then lead + 1 else lead
  match (cs.drop skip).dropWhile (· != ']') with
  | [] => none
  | _ :: rest => some (cs.take skip ++ (cs.drop skip).takeWhile (· != ']'), rest)

theorem splitSet_lt {cs set rest : List Char} (h : splitSet cs = some (set, rest)) :
    rest.length < cs.length := by
  unfold splitSet at h
  generalize (if cs.head? = some '!' then 1 else 0) = lead at h
  simp only at h
  generalize (if (cs.drop lead).head? = some ']' then lead + 1 else lead) = skip at h
  split at h
  · simp at h
  · rename_i c tail heq
    simp only [Option.some.injEq, Prod.mk.injEq] at h
    have h₁ : ((cs.drop skip).dropWhile (· != ']')).length ≤ (cs.drop skip).length :=
      (List.dropWhile_suffix _).length_le
    rw [heq] at h₁
    simp only [List.length_cons, List.length_drop] at h₁
    rw [← h.2]
    omega

/-- The parts of a set between the hyphens that make ranges.  A part needs `least` characters before
its hyphen counts, and later parts need two: the end of one range and the start of the next. -/
def splitRanges (least : Nat) (cs : List Char) : List (List Char) :=
  let tail := cs.drop least
  match _h : tail.dropWhile (· != '-') with
  | [] => [cs]
  | _ :: rest => (cs.take least ++ tail.takeWhile (· != '-')) :: splitRanges 2 rest
termination_by cs.length
decreasing_by
  have h₁ : ((cs.drop least).dropWhile (· != '-')).length ≤ (cs.drop least).length :=
    (List.dropWhile_suffix _).length_le
  rw [_h] at h₁
  simp only [List.length_cons, List.length_drop] at h₁
  omega

/-- A hyphen at the very end belongs to the part before it. -/
def closeLast : List (List Char) → List (List Char)
  | [] => []
  | [part, []] => [part ++ ['-']]
  | part :: rest => part :: closeLast rest

/-- Two parts whose hyphen would make a falling range become one, without the ends of the range. -/
def joinFalling (part : List Char) : List (List Char) → List (List Char)
  | [] => [part]
  | next :: rest =>
    match part.getLast?, next with
    | some low, high :: more =>
      if high < low then (part.dropLast ++ more) :: rest else part :: next :: rest
    | _, _ => part :: next :: rest

/-- A character of a set, or a hyphen that makes a range. -/
inductive Item where
  | char (c : Char)
  | hyphen
  deriving DecidableEq, Repr

def Item.toChar : Item → Char
  | char c => c
  | hyphen => '-'

def rangesOf : List Item → List (Char × Char)
  | low :: .hyphen :: high :: rest => (low.toChar, high.toChar) :: rangesOf rest
  | a :: rest => (a.toChar, a.toChar) :: rangesOf rest
  | [] => []

def items (parts : List (List Char)) : List Item :=
  [Item.hyphen].intercalate (parts.map (·.map Item.char))

def setPiece (set : List Char) : Piece :=
  let parts :=
    if set.contains '-' then
      (closeLast (splitRanges (if set.head? = some '!' then 2 else 1) set)).foldr joinFalling []
    else [set]
  match items parts with
  | [] => .oneOf false []
  | .char '!' :: rest => .oneOf true (rangesOf rest)
  | all => .oneOf false (rangesOf all)

/-! ## Patterns -/

def parse (pattern : List Char) : List Piece :=
  match pattern with
  | [] => []
  | '*' :: rest => .anyText :: parse rest
  | '?' :: rest => .anyChar :: parse rest
  | '[' :: rest =>
    match _h : splitSet rest with
    | some (set, behind) => setPiece set :: parse behind
    | none => .char '[' :: parse rest
  | c :: rest => .char c :: parse rest
termination_by pattern.length
decreasing_by
  all_goals simp_wf
  have := splitSet_lt _h
  omega

/-- Whether a piece that stands for a single character may stand for this one. -/
def Piece.allows (c : Char) : Piece → Bool
  | anyText => false
  | anyChar => true
  | char d => c == d
  | oneOf negated ranges => (ranges.any fun (low, high) => low ≤ c && c ≤ high) != negated

/-- Whether anything from each place on is true. -/
def anyLater : List Bool → List Bool
  | [] => []
  | b :: rest =>
    let later := anyLater rest
    (b || later.headD false) :: later

/-- From the endings of a text that the pieces behind `p` accept to those that `p` and the pieces
behind it accept.  The endings are listed from the whole text down to the empty one. -/
def Piece.extend (p : Piece) (text : List Char) (accepted : List Bool) : List Bool :=
  match p with
  | anyText => anyLater accepted
  | p => List.zipWith (fun c b => p.allows c && b) text accepted.tail ++ [false]

/-- For every ending of the text, whether the pieces accept the whole of it. -/
def acceptedEndings (text : List Char) (pieces : List Piece) : List Bool :=
  pieces.foldr (·.extend text ·) (text.map (fun _ => false) ++ [true])

def accepts (pieces : List Piece) (text : List Char) : Bool :=
  (acceptedEndings text pieces).headD false

end Glob

/-- Whether the whole text has the form of the pattern. -/
def globMatches (pattern text : String) : Bool :=
  Glob.accepts (Glob.parse pattern.toList) text.toList

end FinalParams
