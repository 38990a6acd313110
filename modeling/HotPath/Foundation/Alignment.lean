import Mathlib.Data.BitVec

/-!
# Rounding machine words

A word rounded up to a multiple of a power of two, by adding one less than the power and masking
the low bits. The sum can wrap around. If it does, the result is zero, otherwise it is the least
multiple that is not below the word.
-/

namespace HotPath.Foundation

variable {width : Nat}

/-- The low bits of a word. -/
def lowMask (width bits : Nat) : BitVec width := BitVec.ofNat width (2 ^ bits - 1)

/-- The word with its low bits cleared. -/
def alignDown (bits : Nat) (x : BitVec width) : BitVec width := x &&& ~~~ lowMask width bits

/-- The word rounded up to a multiple of a power of two. -/
def alignUp (bits : Nat) (x : BitVec width) : BitVec width :=
  alignDown bits (x + lowMask width bits)

theorem toNat_lowMask {bits : Nat} (h : bits ≤ width) :
    (lowMask width bits).toNat = 2 ^ bits - 1 := by
  have hpow : 2 ^ bits ≤ 2 ^ width := Nat.pow_le_pow_right (by decide) h
  have hpos : 0 < 2 ^ bits := Nat.two_pow_pos bits
  rw [lowMask, BitVec.toNat_ofNat, Nat.mod_eq_of_lt (by omega)]

/-- Clearing the low bits shifts them out. -/
theorem alignDown_eq_shift (bits : Nat) (x : BitVec width) :
    alignDown bits x = x >>> bits <<< bits := by
  refine BitVec.eq_of_getLsbD_eq fun i hi => ?_
  simp only [alignDown, lowMask, BitVec.getLsbD_and, BitVec.getLsbD_not, BitVec.getLsbD_shiftLeft,
    BitVec.getLsbD_ofNat, BitVec.getLsbD_ushiftRight, Nat.testBit_two_pow_sub_one]
  by_cases hlow : i < bits
  · simp [hlow, hi]
  · have hsum : bits + (i - bits) = i := by omega
    simp [hlow, hsum, hi]

theorem toNat_alignDown (bits : Nat) (x : BitVec width) :
    (alignDown bits x).toNat = x.toNat / 2 ^ bits * 2 ^ bits := by
  rw [alignDown_eq_shift, BitVec.toNat_shiftLeft, BitVec.toNat_ushiftRight,
    Nat.shiftRight_eq_div_pow, Nat.shiftLeft_eq, Nat.mod_eq_of_lt]
  exact Nat.lt_of_le_of_lt (Nat.div_mul_le_self _ _) x.isLt

/-- Rounding up without a wrap around. -/
theorem toNat_alignUp {bits : Nat} (hbits : bits ≤ width) {x : BitVec width}
    (h : x.toNat + (2 ^ bits - 1) < 2 ^ width) :
    (alignUp bits x).toNat = (x.toNat + (2 ^ bits - 1)) / 2 ^ bits * 2 ^ bits := by
  rw [alignUp, toNat_alignDown, BitVec.toNat_add, toNat_lowMask hbits, Nat.mod_eq_of_lt h]

/-- Rounding up with a wrap around. -/
theorem alignUp_wrapped {bits : Nat} (hbits : bits ≤ width) {x : BitVec width}
    (h : 2 ^ width ≤ x.toNat + (2 ^ bits - 1)) : (alignUp bits x).toNat = 0 := by
  have hpos : 0 < 2 ^ bits := Nat.two_pow_pos bits
  have hpow : 2 ^ bits ≤ 2 ^ width := Nat.pow_le_pow_right (by decide) hbits
  have hlt : x.toNat < 2 ^ width := x.isLt
  have hmod : (x.toNat + (2 ^ bits - 1)) % 2 ^ width = x.toNat + (2 ^ bits - 1) - 2 ^ width := by
    rw [Nat.mod_eq_sub_mod h, Nat.mod_eq_of_lt (by omega)]
  rw [alignUp, toNat_alignDown, BitVec.toNat_add, toNat_lowMask hbits, hmod,
    Nat.div_eq_of_lt (by omega), Nat.zero_mul]

/-- The rounded word is less than one multiple above the word. -/
theorem alignUp_bounds {bits : Nat} (hbits : bits ≤ width) {x : BitVec width}
    (h : x.toNat + (2 ^ bits - 1) < 2 ^ width) :
    x.toNat ≤ (alignUp bits x).toNat ∧ (alignUp bits x).toNat < x.toNat + 2 ^ bits := by
  have hpos : 0 < 2 ^ bits := Nat.two_pow_pos bits
  have hdiv := Nat.div_add_mod (x.toNat + (2 ^ bits - 1)) (2 ^ bits)
  have hmod := Nat.mod_lt (x.toNat + (2 ^ bits - 1)) hpos
  rw [toNat_alignUp hbits h, Nat.mul_comm]
  omega

end HotPath.Foundation
