import FinalParams.Datum.Key
import FinalParams.Loc

/-! Tokens of a preprocessed source file, as cppcheck dumps them.

A token knows its spelling and place, the variable it names, and its operands in the expression it
belongs to.  Other tokens and scopes are referred to by their number in the pools of the
configuration.  What a dump leaves out is blank.

A dump may give any value for a spelling or a number.  A spelling that is no text is never one of
the spellings that mean something.  A compound one cannot even be looked up among them, and an
infinite number is no integer, which is why some readings of a token can fail. -/

namespace FinalParams

structure Token where
  spelling : Datum := .text ""
  /-- The operator as it was written, where preprocessing changed the spelling. -/
  originalName : Datum := .text ""
  varId : Datum := .null
  isName : Bool := false
  isNumber : Bool := false
  isString : Bool := false
  isChar : Bool := false
  isAssignmentOp : Bool := false
  isCast : Bool := false
  file : Datum := .text ""
  line : Datum := .null
  column : Datum := .null
  scope : Option Nat := none
  op1 : Option Nat := none
  op2 : Option Nat := none
  parent : Option Nat := none
  next : Option Nat := none
  deriving Inhabited, Repr

namespace Token

def assignmentOps : List String :=
  ["=", "+=", "-=", "*=", "/=", "%=", "&=", "|=", "^=", "<<=", ">>="]

def stepOps : List String := ["++", "--"]

def isSpelled (t : Token) (s : String) : Bool := t.spelling.isText s

/-- The number of the variable that the token names, or zero. -/
def variableId (t : Token) : Int := t.varId.intOrZero

def variableId? (t : Token) : Except IntegerError Int := t.varId.finiteInt

def loc? (t : Token) : Except IntegerError Loc := do
  let line ← t.line.finiteInt
  let column ← t.column.finiteInt
  return ⟨t.file, .int line, .int column⟩

/-- Looks the spelling up, which fails if it is compound. -/
def lookUp (t : Token) : Except Misfit Unit := t.spelling.key?.map fun _ => ()

/-- The operands that are there, the first before the second. -/
def operands (t : Token) : List Nat := t.op1.toList ++ t.op2.toList

def isAssignment (t : Token) : Bool := t.isAssignmentOp || t.spelling.isAmong assignmentOps

/-- An increment or decrement that has its operand. -/
def isStep (t : Token) : Bool := t.spelling.isAmong stepOps && t.op1.isSome

/-- `++x`: the operand is the very next token. -/
def isLeadingStep (t : Token) : Bool := t.isStep && t.next == t.op1

def isBareName (t : Token) : Bool := t.op1.isNone && t.op2.isNone && t.isName

/-- A name on its own that is known to be a variable. -/
def isVariable (t : Token) : Bool := t.isBareName && t.variableId != 0

def isCall (t : Token) : Bool := t.isSpelled "(" && t.op1.isSome && !t.isCast

/-- The top of an expression that is worth looking at: it has operands and is none itself. -/
def isRoot (t : Token) : Bool := t.parent.isNone && (t.op1.isSome || t.op2.isSome)

/-- A rough class of the expression at a token. -/
def exprKind (t : Token) : String :=
  if t.isCall then "call"
  else if t.isSpelled "[" then "subscript"
  else if t.isSpelled "." || t.isSpelled "->" then "member"
  else if t.isNumber || t.isString || t.isChar then "literal"
  else if t.isName then "name"
  else "operator"

theorem operands_length (t : Token) : t.operands.length ≤ 2 := by
  unfold operands
  cases t.op1 <;> cases t.op2 <;> simp

theorem operands_of_op1 {t : Token} {a : Nat} (h : t.op1 = some a) :
    t.operands = a :: t.op2.toList := by
  simp [operands, h]

end Token
end FinalParams
