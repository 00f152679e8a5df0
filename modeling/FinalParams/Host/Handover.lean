/-! Lists that a caller hands over.

A list that holds something is worked on in common: each side sees what the other one adds.  In the
place of an empty or missing list the host works on one of its own, and the caller sees nothing of
it. -/

namespace FinalParams

structure Handover (α : Type) where
  /-- The list as the caller sees it. -/
  given : Option (List α)
  /-- The list of the host, where it has one of its own. -/
  own : Option (List α)
  deriving Repr

namespace Handover

variable {α : Type}

def ofGiven (given : Option (List α)) : Handover α :=
  match given with
  | some (a :: rest) => ⟨some (a :: rest), none⟩
  | given => ⟨given, some []⟩

/-- The list that the host works on. -/
def working (h : Handover α) : List α := h.own.getD (h.given.getD [])

def setWorking (h : Handover α) (items : List α) : Handover α :=
  match h.own with
  | some _ => { h with own := some items }
  | none => { h with given := some items }

/-- The caller changes the list that it handed over.  Without one there is nothing to change. -/
def setGiven (h : Handover α) (items : List α) : Handover α :=
  { h with given := h.given.map fun _ => items }

@[simp] theorem working_ofGiven (given : Option (List α)) :
    (ofGiven given).working = given.getD [] := by
  rcases given with _ | _ | _ <;> rfl

@[simp] theorem working_setWorking (h : Handover α) (items : List α) :
    (h.setWorking items).working = items := by
  rcases h with ⟨given, _ | own⟩ <;> rfl

end Handover
end FinalParams
