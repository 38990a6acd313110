import HotPath.Foundation.WordPermutations
import Mathlib.Data.UInt

/-!
# The hash of the sharded map

`ShardedHashMap::MixHash` as it is written, on wrapping words, and as a composition of steps that
permute the words (`mixHash_bijective`). Two keys share a hash only if they are the same key, so
what they share is decided by the masks that pick the shard and the bucket.
-/

namespace HotPath.Locks

open HotPath.Foundation

/-- `MixHash`. -/
def mixHash (key : UInt64) : UInt64 :=
  let x := key ^^^ key >>> 30
  let x := x * 0xBF58476D1CE4E5B9
  let x := x ^^^ x >>> 27
  let x := x * 0x94D049BB133111EB
  x ^^^ x >>> 31

/-- The hash on words of 64 bits, step by step. -/
def mixBits (key : BitVec 64) : BitVec 64 :=
  xorShift 31 (xorShift 27 (xorShift 30 key * 0xBF58476D1CE4E5B9) * 0x94D049BB133111EB)

theorem toBitVec_mixHash (key : UInt64) : (mixHash key).toBitVec = mixBits key.toBitVec := rfl

/-- Every step of the hash is a permutation. -/
theorem mixBits_bijective : Function.Bijective mixBits := by
  have hfirst : (0xBF58476D1CE4E5B9 : BitVec 64) * 0x96DE1B173F119089 = 1 := by decide
  have hsecond : (0x94D049BB133111EB : BitVec 64) * 0x319642B2D24D8EC3 = 1 := by decide
  have hshift : ∀ k, 0 < k → Function.Bijective (xorShift k : BitVec 64 → BitVec 64) :=
    fun k => xorShift_bijective
  exact (hshift 31 (by decide)).comp ((mul_bijective hsecond).comp ((hshift 27 (by decide)).comp
    ((mul_bijective hfirst).comp (hshift 30 (by decide)))))

/-- No two keys have the same hash, and every word is the hash of a key. -/
theorem mixHash_bijective : Function.Bijective mixHash := by
  constructor
  · intro x y h
    refine UInt64.toBitVec_inj.mp (mixBits_bijective.injective ?_)
    rw [← toBitVec_mixHash, ← toBitVec_mixHash, h]
  · intro hash
    obtain ⟨key, hkey⟩ := mixBits_bijective.surjective hash.toBitVec
    refine ⟨⟨key⟩, UInt64.toBitVec_inj.mp ?_⟩
    rw [toBitVec_mixHash, hkey]

end HotPath.Locks
