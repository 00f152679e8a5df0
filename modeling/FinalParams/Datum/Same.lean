import FinalParams.Datum.Equality

/-! When two values are the same, however they are written.

The numbers `1` and `1.0` and the flag `true` stand for one number, both zeros are one, and the
members of a record are in no order.  Each value has a canonical form, and values are the same if
their canonical forms are equal.

A comparison asks for more: a value that is no number is the same as itself, but it does not equal
itself.  Inside of a list or a record this makes no difference. -/

namespace FinalParams
namespace Datum

mutual

/-- The form that a value has in common with all that are the same. -/
def canonical : Datum → Datum
  | null => null
  | bool b => int (if b then 1 else 0)
  | int n => int n
  | real x => if x.isIntegral then int x.truncate else real x
  | text s => text s
  | list items => list (canonicalItems items)
  | record fields => record ((canonicalFields fields).mergeSort fun a b => a.1 ≤ b.1)

def canonicalItems : List Datum → List Datum
  | [] => []
  | d :: rest => d.canonical :: canonicalItems rest

def canonicalFields : List (String × Datum) → List (String × Datum)
  | [] => []
  | (name, d) :: rest => (name, d.canonical) :: canonicalFields rest

end

def same (a b : Datum) : Bool := a.canonical == b.canonical

def isNaN : Datum → Bool
  | real x => x.isNaN
  | _ => false

/-- What a comparison of two values says. -/
def equals (a b : Datum) : Bool := !a.isNaN && a.same b

theorem same_iff {a b : Datum} : a.same b = true ↔ a.canonical = b.canonical := by simp [same]

@[simp] theorem same_self (a : Datum) : a.same a = true := same_iff.mpr rfl

theorem same_comm (a b : Datum) : a.same b = b.same a := by
  rw [Bool.eq_iff_iff, same_iff, same_iff, eq_comm]

theorem same_congr {a b : Datum} (h : a.same b = true) (c : Datum) : a.same c = b.same c := by
  simp [same, same_iff.mp h]

/-- A text is the same as no other value. -/
theorem canonical_eq_text_iff {d : Datum} {s : String} : d.canonical = text s ↔ d = text s := by
  cases d with
  | real x =>
    unfold canonical
    split <;> simp
  | _ => simp [canonical]

@[simp] theorem same_text_iff {d : Datum} {s : String} : d.same (text s) = true ↔ d = text s := by
  rw [same_iff]
  exact canonical_eq_text_iff

@[simp] theorem text_same_iff {d : Datum} {s : String} : (text s).same d = true ↔ d = text s := by
  rw [same_comm, same_text_iff]

@[simp] theorem equals_text_iff {d : Datum} {s : String} :
    d.equals (text s) = true ↔ d = text s := by
  unfold equals
  constructor
  · intro h
    exact same_text_iff.mp (Bool.and_eq_true_iff.mp h).2
  · rintro rfl
    simp [isNaN]

theorem truthy_canonical (d : Datum) : d.canonical.truthy = d.truthy := by
  cases d with
  | bool b => cases b <;> rfl
  | real x =>
    unfold canonical
    split
    · rename_i h
      have := Binary64.truncate_eq_zero_iff h
      by_cases hz : x.isZero = true <;> simp [truthy, hz, this]
    · rfl
  | list items => cases items <;> simp [canonical, canonicalItems, truthy]
  | record fields =>
    have h : ((canonicalFields fields).mergeSort fun a b => a.1 ≤ b.1).isEmpty
        = fields.isEmpty := by
      rw [Bool.eq_iff_iff, List.isEmpty_iff_length_eq_zero, List.isEmpty_iff_length_eq_zero,
        List.length_mergeSort]
      cases fields <;> simp [canonicalFields]
    simp [canonical, truthy, h]
  | _ => rfl

theorem truthy_of_same {a b : Datum} (h : a.same b = true) : a.truthy = b.truthy := by
  rw [← truthy_canonical a, ← truthy_canonical b, same_iff.mp h]

end Datum
end FinalParams
