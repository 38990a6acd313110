import HotPath.Foundation.LockedUpdates
import Mathlib.Data.UInt

/-!
# Flushing a range of the cache

The loop of `FlushCacheRange`. It passes the start of the buffer and every 64th byte after it to
`_mm_clflush`, not the starts of the cache lines. If the buffer does not start at a line, the last
line can lie beyond the last address that is passed. `flushCacheRange_covers_iff` says when it does
not.

A buffer does not wrap around the address space, so addresses are natural numbers. The offset of
the loop is a word, and wraps around.
-/

namespace HotPath.Measurement

open HotPath.Foundation

/-- The cache line of an address. -/
def cacheLine (address : Nat) : Nat := address / 64

/-- An address is one of a byte of the buffer. -/
def InBuffer (data : Nat) (bytes : UInt64) (address : Nat) : Prop :=
  data ≤ address ∧ address < data + bytes.toNat

/-- The next pass of the loop of `FlushCacheRange`, on its offset and the addresses passed to
`_mm_clflush` so far. -/
def flushCacheRange (data : Nat) (bytes : UInt64) :
    UInt64 × List Nat → Option (UInt64 × List Nat)
  | (offset, passed) =>
      if offset < bytes then some (offset + 64, passed ++ [data + offset.toNat]) else none

/-- The loop passes the address to `_mm_clflush`. -/
def Passed (data : Nat) (bytes : UInt64) (address : Nat) : Prop :=
  ∃ offset passed, Steps (flushCacheRange data bytes) (0, []) (offset, passed) ∧
    address ∈ passed

/-- The addresses passed in the first passes of the loop. -/
def strides (data passes : Nat) : List Nat := (List.range passes).map fun pass => data + 64 * pass

variable {data : Nat} {bytes : UInt64}

theorem mem_strides {passes address : Nat} :
    address ∈ strides data passes ↔ ∃ pass < passes, address = data + 64 * pass := by
  simp [strides, eq_comm]

/-- As long as the buffer lasts, the loop makes its passes. -/
theorem flush_passes (passes : Nat) (h : 64 * passes < bytes.toNat + 64) :
    Steps (flushCacheRange data bytes) (0, [])
      (UInt64.ofNat (64 * passes), strides data passes) := by
  induction passes with
  | zero => exact .refl
  | succ passes ih =>
      have hbytes := bytes.toNat_lt
      have hoffset : (UInt64.ofNat (64 * passes)).toNat = 64 * passes :=
        UInt64.toNat_ofNat_of_lt' (by simp only [UInt64.size]; omega)
      have hlt : UInt64.ofNat (64 * passes) < bytes := by
        rw [UInt64.lt_iff_toNat_lt, hoffset]
        omega
      refine (ih (by omega)).tail ?_
      simp only [flushCacheRange, hlt, if_true, hoffset, Option.some.injEq, Prod.mk.injEq]
      refine ⟨?_, by simp [strides, List.range_succ]⟩
      rw [Nat.mul_succ, UInt64.ofNat_add]
      rfl

/-- Every address passed is a multiple of 64 bytes from the start, and in the buffer. The wrap
around keeps the offset a multiple of 64. -/
theorem flush_invariant {offset : UInt64} {passed : List Nat}
    (h : Steps (flushCacheRange data bytes) (0, []) (offset, passed)) :
    offset.toNat % 64 = 0 ∧
      ∀ address ∈ passed, ∃ pass, 64 * pass < bytes.toNat ∧ address = data + 64 * pass := by
  generalize hlast : (offset, passed) = last at h
  induction h generalizing offset passed with
  | refl =>
      obtain ⟨rfl, rfl⟩ := Prod.mk.inj hlast
      simp
  | @tail middle last _ hstep ih =>
      obtain ⟨before, earlier⟩ := middle
      obtain ⟨haligned, hearlier⟩ := ih rfl
      subst hlast
      simp only [flushCacheRange, Option.ite_none_right_eq_some, Option.some.injEq,
        Prod.mk.injEq] at hstep
      obtain ⟨hlt, rfl, rfl⟩ := hstep
      refine ⟨by rw [UInt64.toNat_add]; simp; omega, fun address hmem => ?_⟩
      cases List.mem_append.mp hmem with
      | inl hold => exact hearlier address hold
      | inr hnew =>
          refine ⟨before.toNat / 64, ?_, ?_⟩
          · have := UInt64.lt_iff_toNat_lt.mp hlt
            omega
          · rw [List.mem_singleton.mp hnew]
            omega

/-- What the loop passes: the start, and every 64th byte after it in the buffer. -/
theorem passed_iff {address : Nat} :
    Passed data bytes address ↔ ∃ pass, 64 * pass < bytes.toNat ∧ address = data + 64 * pass := by
  constructor
  · rintro ⟨offset, passed, hsteps, hmem⟩
    exact (flush_invariant hsteps).2 address hmem
  · rintro ⟨pass, hlt, rfl⟩
    exact ⟨_, _, flush_passes (pass + 1) (by omega), mem_strides.mpr ⟨pass, by omega, rfl⟩⟩

/-- No address outside the buffer is passed. -/
theorem Passed.inBuffer {address : Nat} (h : Passed data bytes address) :
    InBuffer data bytes address := by
  obtain ⟨pass, hlt, rfl⟩ := passed_iff.mp h
  exact ⟨by omega, by omega⟩

/-- The loop ends, unless the buffer is so long that the offset wraps around first. -/
theorem flush_ends (h : bytes.toNat ≤ 2 ^ 64 - 64) :
    ∃ offset passed, Steps (flushCacheRange data bytes) (0, []) (offset, passed) ∧
      flushCacheRange data bytes (offset, passed) = none := by
  refine ⟨_, _, flush_passes ((bytes.toNat + 63) / 64) (by omega), ?_⟩
  have hoffset : (UInt64.ofNat (64 * ((bytes.toNat + 63) / 64))).toNat =
      64 * ((bytes.toNat + 63) / 64) :=
    UInt64.toNat_ofNat_of_lt' (by simp only [UInt64.size]; omega)
  have hend : ¬ UInt64.ofNat (64 * ((bytes.toNat + 63) / 64)) < bytes := by
    rw [UInt64.lt_iff_toNat_lt, hoffset]
    omega
  simp only [flushCacheRange, hend, if_false]

/-- Every line of the buffer is flushed and no other address is passed, if and only if the buffer
is empty or its last stride ends in the line in which it starts. -/
theorem flushCacheRange_covers_iff (data : Nat) (bytes : UInt64) :
    ((∀ address, InBuffer data bytes address →
        ∃ flushed, Passed data bytes flushed ∧ cacheLine flushed = cacheLine address) ∧
      ∀ flushed, Passed data bytes flushed → InBuffer data bytes flushed) ↔
    bytes = 0 ∨ data % 64 + (bytes.toNat - 1) % 64 < 64 := by
  have hzero : bytes = 0 ↔ bytes.toNat = 0 := by
    rw [← UInt64.toNat_inj]
    rfl
  rw [hzero]
  constructor
  · rintro ⟨hcover, -⟩
    by_contra hnot
    obtain ⟨flushed, hpassed, hline⟩ :=
      hcover (data + (bytes.toNat - 1)) ⟨by omega, by omega⟩
    obtain ⟨pass, hlt, rfl⟩ := passed_iff.mp hpassed
    simp only [cacheLine] at hline
    omega
  · intro h
    refine ⟨fun address haddress => ?_, fun flushed => Passed.inBuffer⟩
    obtain ⟨hfirst, hlast⟩ := haddress
    -- The stride below the address flushes its line, or the next one does.
    by_cases hsame : data % 64 + (address - data) % 64 < 64
    · refine ⟨_, passed_iff.mpr ⟨(address - data) / 64, by omega, rfl⟩, ?_⟩
      simp only [cacheLine]
      omega
    · refine ⟨_, passed_iff.mpr ⟨(address - data) / 64 + 1, by omega, rfl⟩, ?_⟩
      simp only [cacheLine]
      omega

/-- Of eight bytes from the address 4156 on, four are in a line that is not flushed. -/
theorem last_line_not_flushed :
    ¬ ∀ address, InBuffer 4156 8 address →
      ∃ flushed, Passed 4156 8 flushed ∧ cacheLine flushed = cacheLine address := by
  intro h
  obtain ⟨flushed, hpassed, hline⟩ := h 4160 ⟨by decide, by decide⟩
  obtain ⟨pass, hlt, rfl⟩ := passed_iff.mp hpassed
  have hfirst : pass = 0 := by
    have hbytes : 64 * pass < 8 := hlt
    omega
  subst hfirst
  exact absurd hline (by decide)

end HotPath.Measurement
