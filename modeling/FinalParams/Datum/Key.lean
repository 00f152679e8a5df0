import FinalParams.Datum.Misfit
import FinalParams.Datum.Same

/-! What values are known by where they are looked up.

Values that are the same are known by one key, which is their canonical form.  Compound values have
no key. -/

namespace FinalParams
namespace Datum

def key? : Datum → Except Misfit Datum
  | list _ => .error (.compound "list")
  | record _ => .error (.compound "dict")
  | d => .ok d.canonical

def agrees (a b : Datum) : Bool :=
  match a.key?, b.key? with
  | .ok k, .ok l => k == l
  | _, _ => false

@[simp] theorem agrees_text (s t : String) : (text s).agrees (text t) = (s == t) := by
  simp [agrees, key?, canonical, BEq.beq]

@[simp] theorem agrees_int (m n : Int) : (int m).agrees (int n) = (m == n) := by
  simp [agrees, key?, canonical, BEq.beq]

/-- Nothing but the text itself is known by the key of a text. -/
theorem agrees_text_iff {d : Datum} {s : String} : d.agrees (text s) = true ↔ d = text s := by
  have hkey : ∀ k, d.key? = .ok k → k = d.canonical := by
    intro k hk
    unfold key? at hk
    split at hk
    · contradiction
    · contradiction
    · exact (Except.ok.inj hk).symm
  constructor
  · intro h
    unfold agrees at h
    split at h
    · rename_i k l hk hl
      obtain rfl := hkey k hk
      obtain rfl : text s = l := Except.ok.inj hl
      exact canonical_eq_text_iff.mp (beq_iff_eq.mp h)
    · contradiction
  · rintro rfl
    simp

end Datum
end FinalParams
