import FinalParams.Datum

/-! Uses that a value does not fit.

A dump may hold any value where a text belongs.  Often it makes no difference, but such a value
cannot be looked up if it is compound, or put together with a text.  Even numbers do not always go
together: a very large integer is beyond the floating-point numbers. -/

namespace FinalParams

inductive Misfit where
  /-- A compound value cannot be looked up. -/
  | compound (typeName : String)
  /-- Values of these types have no sum. -/
  | sum (left right : String)
  /-- An item among others that are joined is no text. -/
  | item (place : Nat) (typeName : String)
  /-- A value has no such member. -/
  | lacking (typeName member : String)
  /-- A text cannot end in a value of this type. -/
  | ending (typeName : String)
  /-- An integer is too large to be added or to be written. -/
  | number (e : IntegerError)
  deriving DecidableEq, Repr

def Misfit.message : Misfit → String
  | compound typeName => s!"unhashable type: '{typeName}'"
  | sum left right =>
    if left = "str" ∨ left = "list" then
      s!"can only concatenate {left} (not \"{right}\") to {left}"
    else s!"unsupported operand type(s) for +: '{left}' and '{right}'"
  | item place typeName => s!"sequence item {place}: expected str instance, {typeName} found"
  | lacking typeName member => s!"'{typeName}' object has no attribute '{member}'"
  | ending typeName => s!"endswith first arg must be str or a tuple of str, not {typeName}"
  | number e => e.message

namespace Datum

/-- The number that a value counts as in a sum. -/
def summand? : Datum → Option (Int ⊕ Binary64)
  | bool b => some (.inl (if b then 1 else 0))
  | int n => some (.inl n)
  | real x => some (.inr x)
  | _ => none

def floating : Int ⊕ Binary64 → Except Misfit Float
  | .inl n => if Binary64.isBeyond n then .error (.number .tooLarge) else .ok (Float.ofInt n)
  | .inr x => .ok (Float.ofBits x.bits)

/-- The sum of two values: numbers are added, and texts and lists are put together. -/
def plus (a b : Datum) : Except Misfit Datum :=
  match a, b with
  | text s, text t => .ok (text (s ++ t))
  | list s, list t => .ok (list (s ++ t))
  | a, b =>
    match a.summand?, b.summand? with
    | some (.inl m), some (.inl n) => .ok (int (m + n))
    | some x, some y => do return real ⟨((← floating x) + (← floating y)).toBits⟩
    | _, _ => .error (.sum a.typeName b.typeName)

/-- The texts of a list, of which `place` come before it, or the first item that is none. -/
def textsFrom (place : Nat) : List Datum → Except Misfit (List String)
  | [] => .ok []
  | text s :: rest => (textsFrom (place + 1) rest).map (s :: ·)
  | d :: _ => .error (.item place d.typeName)

def joined (separator : String) (items : List Datum) : Except Misfit String :=
  (textsFrom 0 items).map separator.intercalate

@[simp] theorem plus_text (s t : String) : (text s).plus (text t) = .ok (text (s ++ t)) := rfl

@[simp] theorem textsFrom_texts (place : Nat) (texts : List String) :
    textsFrom place (texts.map text) = .ok texts := by
  induction texts generalizing place with
  | nil => rfl
  | cons s rest ih => simp [textsFrom, ih, Except.map]

end Datum
end FinalParams
