import FinalParams.Binary64
import FinalParams.Text.Numeral
import FinalParams.Text.Quoted

/-! Values of loosely typed fields.

A dump and an options table may hold any value where a flag or a number belongs.  Flags are read by
truthiness.  Numbers are read leniently, so that text such as `" 12 "` counts, and what cannot be
read is either an error or zero, as the field demands. -/

namespace FinalParams

inductive Datum where
  | null
  | bool (b : Bool)
  | int (n : Int)
  | real (x : Binary64)
  | text (s : String)
  | list (items : List Datum)
  | record (fields : List (String × Datum))
  deriving Inhabited, Repr

/-- What can go wrong between an integer and other values. -/
inductive IntegerError where
  | malformed (text : String)
  /-- A numeral has too many digits to be read. -/
  | tooLong (digits : Nat)
  | wrongType (typeName : String)
  | infinite
  | notANumber
  /-- An integer is beyond all floating-point numbers. -/
  | tooLarge
  /-- An integer has too many digits to be written. -/
  | unwritable
  deriving DecidableEq, Repr

namespace IntegerError

def message : IntegerError → String
  | malformed s =>
    "invalid literal for int() with base 10: "
      ++ String.ofList ((Text.quoted s).toList.take 200)
  | tooLong digits =>
    s!"Exceeds the limit ({Text.maxDigits} digits) for integer string conversion: value has "
      ++ s!"{digits} digits; use sys.set_int_max_str_digits() to increase the limit"
  | wrongType typeName =>
    "int() argument must be a string, a bytes-like object or a real number, not '"
      ++ typeName ++ "'"
  | infinite => "cannot convert float infinity to integer"
  | notANumber => "cannot convert float NaN to integer"
  | tooLarge => "int too large to convert to float"
  | unwritable =>
    s!"Exceeds the limit ({Text.maxDigits} digits) for integer string conversion; "
      ++ "use sys.set_int_max_str_digits() to increase the limit"

end IntegerError

namespace Datum

def typeName : Datum → String
  | null => "NoneType"
  | bool _ => "bool"
  | int _ => "int"
  | real _ => "float"
  | text _ => "str"
  | list _ => "list"
  | record _ => "dict"

/-- Nothing, `false`, a zero and anything empty are false; every other value is true. -/
def truthy : Datum → Bool
  | null => false
  | bool b => b
  | int n => n != 0
  | real x => !x.isZero
  | text s => s != ""
  | list items => !items.isEmpty
  | record fields => !fields.isEmpty

def isText (d : Datum) (s : String) : Bool :=
  match d with
  | text t => t == s
  | _ => false

def isAmong (d : Datum) (words : List String) : Bool :=
  match d with
  | text t => words.contains t
  | _ => false

def isInfinite : Datum → Bool
  | real x => x.isInfinite
  | _ => false

def toInt : Datum → Except IntegerError Int
  | bool b => .ok (if b then 1 else 0)
  | int n => .ok n
  | real x =>
    if x.isFinite then .ok x.truncate
    else if x.isNaN then .error .notANumber
    else .error .infinite
  | text s =>
    match Text.readInteger s with
    | .ok n => .ok n
    | .error .malformed => .error (.malformed s)
    | .error (.tooLong digits) => .error (.tooLong digits)
  | null => .error (.wrongType "NoneType")
  | list _ => .error (.wrongType "list")
  | record _ => .error (.wrongType "dict")

/-- A false value counts as zero, so that an absent number is no error. -/
def toIntIfAny (d : Datum) : Except IntegerError Int :=
  if d.truthy then d.toInt else .ok 0

/-- The integer of a field in which everything that is none counts as zero. -/
def intOrZero (d : Datum) : Int :=
  match d.toIntIfAny with
  | .ok n => n
  | .error _ => 0

/-- The integer of a field in which only an infinite number is an error. -/
def finiteInt (d : Datum) : Except IntegerError Int :=
  if d.isInfinite then .error .infinite else .ok d.intOrZero

@[simp] theorem toIntIfAny_int (n : Int) : (int n).toIntIfAny = .ok n := by
  unfold toIntIfAny truthy
  by_cases h : n = 0 <;> simp [h, toInt]

@[simp] theorem isText_text (s t : String) : (text s).isText t = (s == t) := rfl

theorem isText_iff {d : Datum} {s : String} : d.isText s = true ↔ d = text s := by
  cases d <;> simp [isText]

end Datum
end FinalParams
