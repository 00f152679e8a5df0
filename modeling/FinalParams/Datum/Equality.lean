import FinalParams.Datum

/-! Equality of values, part by part.

This tells apart what is written differently, such as `1` and `1.0`, which count as one value where
values are looked up. -/

namespace FinalParams
namespace Datum

mutual

def decEq : (a b : Datum) → Decidable (a = b)
  | null, null => isTrue rfl
  | bool a, bool b => if h : a = b then isTrue (by rw [h]) else isFalse (by simp [h])
  | int a, int b => if h : a = b then isTrue (by rw [h]) else isFalse (by simp [h])
  | real a, real b => if h : a = b then isTrue (by rw [h]) else isFalse (by simp [h])
  | text a, text b => if h : a = b then isTrue (by rw [h]) else isFalse (by simp [h])
  | list a, list b =>
    match decEqItems a b with
    | isTrue h => isTrue (by rw [h])
    | isFalse h => isFalse (by simp [h])
  | record a, record b =>
    match decEqFields a b with
    | isTrue h => isTrue (by rw [h])
    | isFalse h => isFalse (by simp [h])
  | null, bool _ | null, int _ | null, real _ | null, text _ | null, list _ | null, record _
  | bool _, null | bool _, int _ | bool _, real _ | bool _, text _ | bool _, list _
  | bool _, record _ | int _, null | int _, bool _ | int _, real _ | int _, text _ | int _, list _
  | int _, record _ | real _, null | real _, bool _ | real _, int _ | real _, text _
  | real _, list _ | real _, record _ | text _, null | text _, bool _ | text _, int _
  | text _, real _ | text _, list _ | text _, record _ | list _, null | list _, bool _
  | list _, int _ | list _, real _ | list _, text _ | list _, record _ | record _, null
  | record _, bool _ | record _, int _ | record _, real _ | record _, text _ | record _, list _ =>
    isFalse (by simp)

def decEqItems : (a b : List Datum) → Decidable (a = b)
  | [], [] => isTrue rfl
  | [], _ :: _ | _ :: _, [] => isFalse (by simp)
  | a :: as, b :: bs =>
    match decEq a b with
    | isFalse h => isFalse (by simp [h])
    | isTrue h =>
      match decEqItems as bs with
      | isTrue hs => isTrue (by rw [h, hs])
      | isFalse hs => isFalse (by simp [hs])

def decEqFields : (a b : List (String × Datum)) → Decidable (a = b)
  | [], [] => isTrue rfl
  | [], _ :: _ | _ :: _, [] => isFalse (by simp)
  | (k, a) :: as, (l, b) :: bs =>
    if hk : k = l then
      match decEq a b with
      | isFalse h => isFalse (by simp [h])
      | isTrue h =>
        match decEqFields as bs with
        | isTrue hs => isTrue (by rw [hk, h, hs])
        | isFalse hs => isFalse (by simp [hs])
    else isFalse (by simp [hk])

end

instance : DecidableEq Datum := decEq

end Datum

end FinalParams
