import HotPath.Foundation.Alignment
import Mathlib.Data.UInt

/-!
# The arena of the order book

The sizes, the addresses and the lookup indices that the constructor of `OrderBookArena` computes,
on words that wrap around. The advice to the kernel and the contents of the slots play no part in
them and are left out. `sound_iff` says when the slots lie in the mapping, hold what was asked for
and are hit by every index.
-/

namespace HotPath.Syscalls

open HotPath.Foundation

/-- `kPageSize4KiB`. -/
def pageSize4KiB : UInt64 := 4096

/-- `kHugePageSize2MiB`. -/
def hugePageSize2MiB : UInt64 := 2097152

/-- `sizeof(OrderLevelSlot)`. -/
def slotBytes : UInt64 := 64

/-- `kSlotsPer4KiBPage`. -/
def slotsPer4KiBPage : UInt64 := pageSize4KiB / slotBytes

/-- A mapping that `mmap` may return for a length. It lies in the address space. -/
structure Mapping (len : UInt64) where
  base : UInt64
  fits : base.toNat + len.toNat ≤ 2 ^ 64

/-- A page that `uniform_int_distribution(0, num_pages - 1)` may yield. -/
structure PageDraw (numPages : UInt64) where
  page : UInt64
  le_last : page ≤ numPages - 1

/-- `OrderBookArena`, with the addresses of its mapping and of its slots. -/
structure OrderBookArena where
  rawBase : UInt64
  rawLen : UInt64
  totalBytes : UInt64
  slots : UInt64
  numSlots : UInt64
  randomIndices : List UInt64

/-- A size or an address rounded up to a huge page. -/
def roundUp2MiB (x : UInt64) : UInt64 :=
  (x + hugePageSize2MiB - 1) &&& ~~~(hugePageSize2MiB - 1)

/-- The length that the constructor asks `mmap` for. -/
def allocLen (totalBytes : UInt64) : UInt64 := roundUp2MiB totalBytes + hugePageSize2MiB

/-- The pages of the arena. -/
def numPages (totalBytes : UInt64) : UInt64 := roundUp2MiB totalBytes / pageSize4KiB

/-- The index of a slot in a page. -/
def randomIndex (page : UInt64) : UInt64 :=
  let clInPage := page &&& (slotsPer4KiBPage - 1)
  page * slotsPer4KiBPage + clInPage

/-- The constructor of `OrderBookArena`. -/
def OrderBookArena.new (totalBytes : UInt64) (raw : Mapping (allocLen totalBytes))
    (draws : List (PageDraw (numPages totalBytes))) : OrderBookArena where
  rawBase := raw.base
  rawLen := allocLen totalBytes
  totalBytes := roundUp2MiB totalBytes
  slots := roundUp2MiB raw.base
  numSlots := roundUp2MiB totalBytes / slotBytes
  randomIndices := draws.map fun draw => randomIndex draw.page

/-- The slots lie in the mapping, hold the bytes that were asked for, and every index is the index
of a slot. -/
structure OrderBookArena.Sound (arena : OrderBookArena) (totalBytes : UInt64) : Prop where
  starts : arena.rawBase.toNat ≤ arena.slots.toNat
  ends : arena.slots.toNat + arena.numSlots.toNat * slotBytes.toNat ≤
    arena.rawBase.toNat + arena.rawLen.toNat
  holds : totalBytes.toNat ≤ arena.numSlots.toNat * slotBytes.toNat
  indices : ∀ index ∈ arena.randomIndices, index < arena.numSlots

/-! ## Sizes -/

theorem toBitVec_roundUp2MiB (x : UInt64) : (roundUp2MiB x).toBitVec = alignUp 21 x.toBitVec := by
  have hmask : (hugePageSize2MiB - 1).toBitVec = lowMask 64 21 := by decide
  have hsum : x + hugePageSize2MiB - 1 = x + (hugePageSize2MiB - 1) := by
    rw [UInt64.sub_eq_add_neg, UInt64.add_assoc, ← UInt64.sub_eq_add_neg]
  rw [roundUp2MiB, hsum, UInt64.toBitVec_and, UInt64.toBitVec_not, UInt64.toBitVec_add, hmask]
  rfl

theorem roundUp2MiB_aligned (x : UInt64) : (roundUp2MiB x).toNat % 2097152 = 0 := by
  rw [← UInt64.toNat_toBitVec, toBitVec_roundUp2MiB, alignUp, toNat_alignDown]
  exact Nat.mul_mod_left _ _

/-- A rounded word is less than a huge page above the word. -/
theorem roundUp2MiB_bounds {x : UInt64} (h : x.toNat ≤ 2 ^ 64 - 2097152) :
    x.toNat ≤ (roundUp2MiB x).toNat ∧ (roundUp2MiB x).toNat < x.toNat + 2097152 := by
  have hwrap : x.toBitVec.toNat + (2 ^ 21 - 1) < 2 ^ 64 := by
    rw [UInt64.toNat_toBitVec]
    omega
  have hbounds := alignUp_bounds (by decide) hwrap
  rwa [← toBitVec_roundUp2MiB, UInt64.toNat_toBitVec, UInt64.toNat_toBitVec] at hbounds

/-- A size in the last huge page of the address space is rounded up to zero. -/
theorem roundUp2MiB_wrapped {x : UInt64} (h : 2 ^ 64 - 2097152 < x.toNat) :
    (roundUp2MiB x).toNat = 0 := by
  have hwrap : 2 ^ 64 ≤ x.toBitVec.toNat + (2 ^ 21 - 1) := by
    rw [UInt64.toNat_toBitVec]
    omega
  have hzero := alignUp_wrapped (by decide) hwrap
  rwa [← toBitVec_roundUp2MiB, UInt64.toNat_toBitVec] at hzero

/-- The slots take up the whole rounded size. -/
theorem slots_bytes (totalBytes : UInt64) :
    (roundUp2MiB totalBytes / slotBytes).toNat * slotBytes.toNat =
      (roundUp2MiB totalBytes).toNat := by
  have haligned := roundUp2MiB_aligned totalBytes
  have hslots : (roundUp2MiB totalBytes / slotBytes).toNat =
      (roundUp2MiB totalBytes).toNat / 64 := UInt64.toNat_div _ _
  rw [hslots]
  change _ / 64 * 64 = _
  omega

/-- The length of the mapping is zero for the largest size that does not wrap around. -/
theorem toNat_allocLen (totalBytes : UInt64) :
    (allocLen totalBytes).toNat = ((roundUp2MiB totalBytes).toNat + 2097152) % 2 ^ 64 := by
  rw [allocLen, UInt64.toNat_add]
  rfl

/-! ## Indices -/

theorem toNat_randomIndex {page : UInt64} (h : page.toNat < 2 ^ 52) :
    (randomIndex page).toNat = page.toNat * 64 + page.toNat % 64 := by
  have hslots : slotsPer4KiBPage = 64 := by decide
  have hmask : (page &&& 63).toNat = page.toNat % 64 := by
    rw [UInt64.toNat_and]
    exact Nat.and_two_pow_sub_one_eq_mod page.toNat 6
  have hmul : (page * 64).toNat = page.toNat * 64 := by
    rw [UInt64.toNat_mul]
    exact Nat.mod_eq_of_lt (by simp; omega)
  rw [randomIndex, hslots]
  change (page * 64 + (page &&& 63)).toNat = _
  rw [UInt64.toNat_add, hmul, hmask]
  omega

/-- The indices are indices of slots, unless they are drawn from no pages. -/
theorem indices_iff (totalBytes : UInt64) (draws : List (PageDraw (numPages totalBytes))) :
    (∀ draw ∈ draws, randomIndex draw.page < roundUp2MiB totalBytes / slotBytes) ↔
      0 < (roundUp2MiB totalBytes).toNat ∨ draws = [] := by
  have hsize := (roundUp2MiB totalBytes).toNat_lt
  have haligned := roundUp2MiB_aligned totalBytes
  have hpages : (numPages totalBytes).toNat = (roundUp2MiB totalBytes).toNat / 4096 :=
    UInt64.toNat_div _ _
  have hslots : (roundUp2MiB totalBytes / slotBytes).toNat =
      (roundUp2MiB totalBytes).toNat / 64 := UInt64.toNat_div _ _
  constructor
  · intro h
    cases draws with
    | nil => exact .inr rfl
    | cons draw draws =>
        have hlt := UInt64.lt_iff_toNat_lt.mp (h draw (by simp))
        omega
  · intro h draw hmem
    have hsome : 0 < (roundUp2MiB totalBytes).toNat :=
      h.resolve_right fun hnil => by simp [hnil] at hmem
    have hone : (1 : UInt64) ≤ numPages totalBytes :=
      UInt64.le_iff_toNat_le.mpr (by change 1 ≤ _; omega)
    have hlast := UInt64.le_iff_toNat_le.mp draw.le_last
    rw [UInt64.toNat_sub_of_le _ _ hone, hpages] at hlast
    change _ ≤ _ - 1 at hlast
    rw [UInt64.lt_iff_toNat_lt, toNat_randomIndex (by omega), hslots]
    omega

/-! ## The arena -/

/-- The slots lie in the mapping and hold what was asked for, unless the size is so large that the
length of the mapping or the rounded size wraps around. -/
theorem contained_iff (totalBytes : UInt64)
    (raw : Mapping (allocLen totalBytes)) :
    (raw.base.toNat ≤ (roundUp2MiB raw.base).toNat ∧
      (roundUp2MiB raw.base).toNat + (roundUp2MiB totalBytes).toNat ≤
        raw.base.toNat + (allocLen totalBytes).toNat ∧
      totalBytes.toNat ≤ (roundUp2MiB totalBytes).toNat) ↔
    totalBytes.toNat ≤ 2 ^ 64 - 2 * 2097152 := by
  have hfits := raw.fits
  have hsize := (roundUp2MiB totalBytes).toNat_lt
  have haligned := roundUp2MiB_aligned totalBytes
  rw [toNat_allocLen] at hfits ⊢
  constructor
  · rintro ⟨hstarts, hends, hholds⟩
    by_contra hlarge
    by_cases hwrap : totalBytes.toNat ≤ 2 ^ 64 - 2097152
    · have hspec := roundUp2MiB_bounds hwrap
      omega
    · have hzero := roundUp2MiB_wrapped (Nat.lt_of_not_le hwrap)
      omega
  · intro hsmall
    have hspec := roundUp2MiB_bounds (x := totalBytes) (by omega)
    have hbase := roundUp2MiB_bounds (x := raw.base) (by omega)
    omega

/-- The arena is sound if and only if its size is below the last two huge pages of the address
space and, unless it makes no indices, not zero. -/
theorem OrderBookArena.sound_iff (totalBytes : UInt64) (raw : Mapping (allocLen totalBytes))
    (draws : List (PageDraw (numPages totalBytes))) :
    (OrderBookArena.new totalBytes raw draws).Sound totalBytes ↔
      totalBytes.toNat ≤ 2 ^ 64 - 2 * 2097152 ∧ (0 < totalBytes.toNat ∨ draws = []) := by
  have hcontained := contained_iff totalBytes raw
  have hindices := indices_iff totalBytes draws
  rw [← slots_bytes totalBytes] at hcontained
  constructor
  · intro h
    have hsmall := hcontained.mp ⟨h.starts, h.ends, h.holds⟩
    have hbounds := roundUp2MiB_bounds (x := totalBytes) (by omega)
    have hlt : ∀ draw ∈ draws, randomIndex draw.page < roundUp2MiB totalBytes / slotBytes :=
      fun draw hmem => h.indices _ (List.mem_map_of_mem hmem)
    have haligned := roundUp2MiB_aligned totalBytes
    refine ⟨hsmall, (hindices.mp hlt).imp_left fun hsome => ?_⟩
    omega
  · rintro ⟨hsmall, hsome⟩
    obtain ⟨hstarts, hends, hholds⟩ := hcontained.mpr hsmall
    refine ⟨hstarts, hends, hholds, fun index hmem => ?_⟩
    obtain ⟨draw, hdraw, rfl⟩ := List.mem_map.mp hmem
    have hbounds := roundUp2MiB_bounds (x := totalBytes) (by omega)
    exact hindices.mpr (hsome.imp_left fun hpos => by omega) draw hdraw

/-- An arena of no bytes has no slot for the index that it makes. -/
theorem OrderBookArena.empty_not_sound :
    ¬ (OrderBookArena.new 0 ⟨4096, by decide⟩ [⟨7, by decide⟩]).Sound 0 := by
  intro h
  exact absurd (h.indices (randomIndex 7) (by simp [OrderBookArena.new])) (by decide)

end HotPath.Syscalls
