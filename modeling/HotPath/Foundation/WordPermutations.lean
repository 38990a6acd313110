import Mathlib.Data.BitVec
import Mathlib.Data.FinEnum

/-!
# Permutations of machine words

Steps of hash functions that lose no information: a word xored with a shift of itself, and the
product with a constant that has an inverse. Words are finite, so it is enough that no two words
have the same image.
-/

namespace HotPath.Foundation

variable {width : Nat}

/-- A word that is its own shift to the right is zero. -/
theorem eq_zero_of_ushiftRight {k : Nat} (hk : 0 < k) {x : BitVec width} (h : x >>> k = x) :
    x = 0 := by
  refine BitVec.eq_of_toNat_eq ?_
  have hdiv : x.toNat / 2 ^ k = x.toNat := by
    rw [← Nat.shiftRight_eq_div_pow, ← BitVec.toNat_ushiftRight, h]
  by_contra hne
  have hpos : 0 < x.toNat := Nat.pos_of_ne_zero hne
  have hlt := Nat.div_lt_self hpos (Nat.one_lt_two_pow (Nat.ne_of_gt hk))
  omega

/-- A word xored with a shift of itself to the right. -/
def xorShift (k : Nat) (x : BitVec width) : BitVec width := x ^^^ x >>> k

/-- The difference of two words with the same image is its own shift. -/
theorem xorShift_bijective {k : Nat} (hk : 0 < k) :
    Function.Bijective (xorShift k : BitVec width → BitVec width) := by
  refine Finite.injective_iff_bijective.mp fun x y h => ?_
  refine BitVec.xor_eq_zero_iff.mp (eq_zero_of_ushiftRight hk ?_)
  have hsum : (x ^^^ y) ^^^ (x ^^^ y) >>> k = 0 := by
    rw [BitVec.ushiftRight_xor_distrib, BitVec.xor_assoc, ← BitVec.xor_assoc y,
      BitVec.xor_comm y, BitVec.xor_assoc, ← BitVec.xor_assoc x]
    exact BitVec.xor_eq_zero_iff.mpr h
  exact (BitVec.xor_eq_zero_iff.mp hsum).symm

/-- The product with a constant that has an inverse. -/
theorem mul_bijective {factor inverse : BitVec width} (h : factor * inverse = 1) :
    Function.Bijective fun x : BitVec width => x * factor := by
  refine Finite.injective_iff_bijective.mp fun x y heq => ?_
  calc x = x * factor * inverse := by rw [mul_assoc, h, mul_one]
    _ = y * factor * inverse := congrArg (· * inverse) heq
    _ = y := by rw [mul_assoc, h, mul_one]

end HotPath.Foundation
