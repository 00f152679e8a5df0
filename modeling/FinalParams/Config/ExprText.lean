import FinalParams.Config.CallOperands

/-! Approximate source text of an expression.

Binary operators are put in parentheses, but an assignment is not, so that a whole statement reads
as it was written: `x = (a + 1)`.  What lies deeper than the limit appears as three dots.

The text of a token without operands is its spelling, whatever value that is.  Within other text any
value can be shown that is not too long, but an operator that is written right before or behind its
operand needs a text, and so do the arguments of a call. -/

namespace FinalParams
namespace Config

/-- Operators that are written before their only operand. -/
def leadingOperators : List String := ["!", "~", "-", "+", "*", "&", "throw", "new", "delete"]

/-- A token with only its first operand, whose text is `operand`.  The operand of a token that is no
operator, such as `sizeof`, stands in parentheses. -/
def unaryText (t : Token) (operand : Datum) : Except Misfit Datum := do
  if t.spelling.isAmong Token.stepOps then
    if t.isLeadingStep then t.spelling.plus operand else operand.plus t.spelling
  else if t.isSpelled "(" then
    let o ← operand.shown?
    return .text (if t.isCast then "(cast)" ++ o else o ++ "()")
  else if t.spelling.isAmong leadingOperators then t.spelling.plus operand
  else return .text ((← t.spelling.shown?) ++ "(" ++ (← operand.shown?) ++ ")")

/-- A token with both operands that is neither a call nor a choice, from their texts. -/
def binaryText (t : Token) (left right : Datum) : Except Misfit Datum := do
  let member := if t.originalName.truthy then t.originalName else t.spelling
  if t.isSpelled "[" then
    return .text ((← left.shown?) ++ "[" ++ (← right.shown?) ++ "]")
  else if member.isText "." || member.isText "->" then
    return .text ((← left.shown?) ++ member.shown ++ (← right.shown?))
  else if t.isSpelled "," then
    return .text ((← left.shown?) ++ ", " ++ (← right.shown?))
  else
    unless t.isAssignmentOp do t.lookUp
    let inner := (← left.shown?) ++ " " ++ (← t.spelling.shown?) ++ " " ++ (← right.shown?)
    return .text (if t.isAssignment then inner else "(" ++ inner ++ ")")

/-- The text of an expression down to `depth` levels. -/
def exprText (c : Config) : Nat → Option Nat → Except Misfit Datum
  | _, none => .ok (.text "")
  | 0, some _ => .ok (.text "...")
  | depth + 1, some i =>
    let t := c.token i
    match t.op1, t.op2 with
    | none, none => .ok t.spelling
    | some a, none => do
      t.lookUp
      let operand ← c.exprText depth (some a)
      unaryText t operand
    | none, some b => do
      let operand ← c.exprText depth (some b)
      t.spelling.plus operand
    | some a, some b => do
      let left ← c.exprText depth (some a)
      if t.isCall then
        let arguments ← (c.callArguments i).mapM fun x => c.exprText depth (some x)
        let listed ← Datum.joined ", " arguments
        return .text ((← left.shown?) ++ "(" ++ listed ++ ")")
      else if t.isSpelled "?" && (c.token b).isSpelled ":" then
        let first ← c.exprText depth (c.token b).op1
        let second ← c.exprText depth (c.token b).op2
        return .text ("(" ++ (← left.shown?) ++ " ? " ++ (← first.shown?) ++ " : "
          ++ (← second.shown?) ++ ")")
      else
        let right ← c.exprText depth (some b)
        binaryText t left right

def defaultDepth : Nat := 50

def textOf (c : Config) (t : Nat) : Except Misfit Datum :=
  c.exprText defaultDepth (some t)

end Config
end FinalParams
