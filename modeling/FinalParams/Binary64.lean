import FinalParams.Rounding

/-! Floating-point numbers of 64 bits, by their bits.

What matters about such a number is whether it is zero or infinite, and which integer remains when
its fraction is dropped.  All this is answered exactly from the sign, the exponent and the fraction,
so that nothing depends on rounding. -/

namespace FinalParams

structure Binary64 where
  bits : UInt64
  deriving DecidableEq, Repr

namespace Binary64

def isNegative (x : Binary64) : Bool := x.bits.toNat.testBit 63

def exponentField (x : Binary64) : Nat := x.bits.toNat >>> 52 % 0x800

def fractionField (x : Binary64) : Nat := x.bits.toNat % 0x10000000000000

/-- Both zeros, with either sign. -/
def isZero (x : Binary64) : Bool := x.exponentField == 0 && x.fractionField == 0

def isFinite (x : Binary64) : Bool := x.exponentField != 2047

def isNaN (x : Binary64) : Bool := !x.isFinite && x.fractionField != 0

def isInfinite (x : Binary64) : Bool := !x.isFinite && x.fractionField == 0

/-- The magnitude in units of `2 ^ (-1074)`, of a finite number. -/
def units (x : Binary64) : Nat :=
  if x.exponentField == 0 then x.fractionField
  else (0x10000000000000 + x.fractionField) <<< (x.exponentField - 1)

/-- Whether a finite number has no fraction. -/
def isIntegral (x : Binary64) : Bool := x.isFinite && x.units >>> 1074 <<< 1074 == x.units

/-- The integer next to a finite number on the side of zero. -/
def truncate (x : Binary64) : Int :=
  let n : Nat := x.units >>> 1074
  if x.isNegative then -n else n

/-- Whether an integer is beyond every finite number, even after rounding. -/
def isBeyond (n : Int) : Bool := 1024 ≤ (roundToBits 53 n.natAbs).log2

theorem isZero_iff_units (x : Binary64) : x.isZero = true ↔ x.units = 0 := by
  unfold isZero units
  by_cases h : x.exponentField = 0
  · simp [h]
  · have hp := Nat.two_pow_pos (x.exponentField - 1)
    have hn : (0x10000000000000 + x.fractionField) * 2 ^ (x.exponentField - 1) ≠ 0 :=
      Nat.mul_ne_zero (by omega) (by omega)
    simp [h, Nat.shiftLeft_eq, hn]

theorem truncate_eq_zero_iff {x : Binary64} (h : x.isIntegral = true) :
    x.truncate = 0 ↔ x.isZero = true := by
  rw [isZero_iff_units]
  simp only [isIntegral, Bool.and_eq_true, beq_iff_eq] at h
  have h2 := h.2
  have ht : x.truncate = 0 ↔ x.units >>> 1074 = 0 := by
    unfold truncate
    generalize x.units >>> 1074 = n
    cases x.isNegative <;> simp
  rw [ht]
  constructor
  · intro h0
    rw [h0, Nat.zero_shiftLeft] at h2
    exact h2.symm
  · intro h0
    rw [h0, Nat.zero_shiftRight]

end Binary64
end FinalParams
