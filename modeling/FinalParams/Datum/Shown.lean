import FinalParams.Datum.Misfit
import FinalParams.Text.Shortest

/-! Values as messages show them.

Within a sentence a text stands as it is.  Where its limits have to be seen, and inside of another
value, it is quoted.  An integer of a dump is short enough to be shown, but a sum of such integers
may have too many digits. -/

namespace FinalParams
namespace Text

/-- An exponent of at least two digits. -/
def exponentText (e : Int) : String :=
  (if e < 0 then "-" else "+") ++ (if e.natAbs < 10 then "0" else "") ++ toString e.natAbs

/-- A decimal from 0.0001 up to 10000000000000000 is written out with a digit on both sides of the
point, and any other one as a single digit, its decimals and an exponent. -/
def Decimal.text (d : Decimal) : String :=
  if d.point < -3 || 16 < d.point then
    String.ofList (d.digits.take 1 ++ (if d.digits.length ≤ 1 then [] else '.' :: d.digits.drop 1))
      ++ "e" ++ exponentText (d.point - 1)
  else if d.point ≤ 0 then
    "0." ++ String.ofList (List.replicate (-d.point).toNat '0' ++ d.digits)
  else
    let places := d.point.toNat
    let padding := List.replicate (places - d.digits.length) '0'
    String.ofList (d.digits.take places ++ padding) ++ "."
      ++ (if d.digits.length ≤ places then "0" else String.ofList (d.digits.drop places))

example : (Decimal.mk ['1'] 0).text = "0.1" := by decide
example : (Decimal.mk ['1', '5'] 1).text = "1.5" := by decide
example : (Decimal.mk ['1', '2'] 17).text = "1.2e+16" := by decide
example : (Decimal.mk ['1'] (-4)).text = "1e-05" := by decide

end Text

def Binary64.text (x : Binary64) : String :=
  if x.isNaN then "nan"
  else
    (if x.isNegative then "-" else "")
      ++ (if x.isInfinite then "inf"
        else if x.isZero then "0.0"
        else (Text.shortest x).text)

namespace Datum

mutual

/-- A value as it would be written down. -/
def quoted : Datum → String
  | null => "None"
  | bool b => if b then "True" else "False"
  | int n => toString n
  | real x => x.text
  | text s => Text.quoted s
  | list items => "[" ++ ", ".intercalate (quotedItems items) ++ "]"
  | record fields => "\x7b" ++ ", ".intercalate (quotedFields fields) ++ "\x7d"

def quotedItems : List Datum → List String
  | [] => []
  | d :: rest => d.quoted :: quotedItems rest

def quotedFields : List (String × Datum) → List String
  | [] => []
  | (name, d) :: rest => (Text.quoted name ++ ": " ++ d.quoted) :: quotedFields rest

end

def shown : Datum → String
  | text s => s
  | d => d.quoted

mutual

/-- Whether no integer in a value has too many digits to be written. -/
def isWritable : Datum → Bool
  | int n => n.natAbs < Nat.pow 10 Text.maxDigits
  | list items => areWritable items
  | record fields => holdWritable fields
  | _ => true

def areWritable : List Datum → Bool
  | [] => true
  | d :: rest => d.isWritable && areWritable rest

def holdWritable : List (String × Datum) → Bool
  | [] => true
  | (_, d) :: rest => d.isWritable && holdWritable rest

end

/-- A value in a sentence, if it can be written. -/
def shown? (d : Datum) : Except Misfit String :=
  if d.isWritable then .ok d.shown else .error (.number .unwritable)

@[simp] theorem shown_text (s : String) : (text s).shown = s := rfl

@[simp] theorem shown?_text (s : String) : (text s).shown? = .ok s := by
  simp [shown?, isWritable]

end Datum
end FinalParams
