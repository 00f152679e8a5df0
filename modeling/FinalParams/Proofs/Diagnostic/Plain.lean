import FinalParams.Proofs.Host.Merge
import FinalParams.Proofs.Scan.Placed

/-!
# Plain findings

A finding may carry any value as its id or its message.  A plain one carries texts, and it lies in a
plain place.  Nothing about it is a misfit, and it repeats another plain one if it says the same.
-/

namespace FinalParams

namespace Diagnostic

/-- Id, message and file are texts, and line and column are integers. -/
def Plain (d : Diagnostic) : Prop :=
  (∃ s, d.errorId = .text s) ∧ (∃ s, d.message = .text s) ∧ d.loc.Plain

/-- What a finding says: its id, its message and its place. -/
def said (d : Diagnostic) : Datum × Datum × Loc := (d.errorId, d.message, d.loc)

theorem Plain.misfit? {d : Diagnostic} (h : d.Plain) : d.misfit? = none := by
  obtain ⟨errorId, message, severity, loc, checker, addon⟩ := d
  obtain ⟨⟨s, rfl⟩, ⟨t, rfl⟩, f, m, n, rfl⟩ := h
  rfl

/-- Plain findings repeat each other if they say the same. -/
theorem Plain.repeats_iff {a b : Diagnostic} (ha : a.Plain) (hb : b.Plain) :
    a.repeats b = true ↔ a.said = b.said := by
  obtain ⟨⟨s, hs⟩, ⟨t, ht⟩, f, m, n, hl⟩ := ha
  obtain ⟨⟨s', hs'⟩, ⟨t', ht'⟩, f', m', n', hl'⟩ := hb
  rw [repeats, said, said, hs, ht, hl, hs', ht', hl', Bool.and_eq_true, Bool.and_eq_true,
    Loc.agrees_iff]
  simp [and_assoc]

/-- Dropping plain findings that repeat earlier ones keeps all that is said. -/
theorem exists_isFirst_said {ds : List Diagnostic} (h : ∀ d ∈ ds, d.Plain)
    {said : Datum × Datum × Loc} :
    (∃ d, IsFirst ds d ∧ d.said = said) ↔ ∃ d ∈ ds, d.said = said := by
  constructor
  · rintro ⟨d, hd, hs⟩
    exact ⟨d, hd.mem, hs⟩
  · rintro ⟨d, hd, rfl⟩
    rcases exists_isFirst hd with hf | ⟨e, hf, hr⟩
    · exact ⟨d, hf, rfl⟩
    · exact ⟨e, hf, ((h e hf.mem).repeats_iff (h d hd)).mp hr⟩

end Diagnostic

end FinalParams
