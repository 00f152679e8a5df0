import FinalParams.Datum.Misfit
import FinalParams.Node.Basic
import FinalParams.Text.Blank

/-! Approximate source text of a tree.

A node that carries its own text is shown by it.  Otherwise the text is put together from the
operands, which is as good as it gets for a tree that was built by hand.  A name or a text may be
another value than a text.  It is handed on as it is, and only where several nodes are joined it is
an error. -/

namespace FinalParams
namespace Node

mutual

def sourceText : Node → Except Misfit Datum
  | ref name _ _ => .ok name
  | assign target value op text _ =>
    if text.truthy then .ok text
    else do
      let left ← target.sourceText
      let right ← sourceTextIfAny value
      return .text (Text.trimEnd (left.shown ++ " " ++ op.shown ++ " " ++ right.shown))
  | update target op leading text _ =>
    if text.truthy then .ok text
    else do
      let operand ← target.sourceText
      return .text (if leading.truthy then op.shown ++ operand.shown else operand.shown ++ op.shown)
  | other _ cs text _ =>
    if text.truthy then .ok text
    else do
      let texts ← sourceTexts cs
      return .text (← Datum.joined " " texts)
  | callable name _ _ _ _ => .ok name
  | file _ _ _ => .ok (.text "")
  | block _ _ => .ok (.text "")
  | stray _ => .ok (.text "")

def sourceTexts : List Node → Except Misfit (List Datum)
  | [] => .ok []
  | n :: rest => do
    let first ← n.sourceText
    let others ← sourceTexts rest
    return first :: others

def sourceTextIfAny : Option Node → Except Misfit Datum
  | none => .ok (.text "")
  | some n => n.sourceText

end

end Node
end FinalParams
