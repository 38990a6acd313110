import HotPath.Foundation.CyclicOrder
import HotPath.Foundation.Loops
import Mathlib.Data.List.GetD
import Mathlib.Data.UInt

/-!
# The pointer chase

`GeneratePointerChaseRing`: an order of the indices that starts at 0, shuffled or not, and the
vector that leads from every index to the next one in this order. `ring_is_one_cycle` says that
the vector is one cycle through all the indices, whatever the shuffle.
-/

namespace HotPath.Measurement

open HotPath.Foundation

/-- The index that an index leads to. -/
def follow (nextPtrs : List UInt32) (index : Nat) : Nat := (nextPtrs.getD index 0).toNat

/-! ## The order -/

/-- The order is an order of all the indices that starts at 0. -/
structure OrderOf (count : Nat) (indices : List UInt32) : Prop where
  perm : (indices.map UInt32.toNat).Perm (List.range count)
  head?_eq : indices.head? = some 0

namespace OrderOf

variable {count : Nat} {indices : List UInt32}

theorem length_eq (h : OrderOf count indices) : indices.length = count := by
  simpa using h.perm.length_eq

theorem nodup (h : OrderOf count indices) : (indices.map UInt32.toNat).Nodup :=
  h.perm.nodup_iff.mpr List.nodup_range

theorem lt (h : OrderOf count indices) {i : Nat} {index : UInt32} (hi : indices[i]? = some index) :
    index.toNat < count :=
  List.mem_range.mp (h.perm.mem_iff.mp (List.mem_map_of_mem (List.mem_of_getElem? hi)))

/-- Different places have different indices. -/
theorem toNat_ne (h : OrderOf count indices) {i j : Nat} {index other : UInt32}
    (hi : indices[i]? = some index) (hj : indices[j]? = some other) (hne : i ≠ j) :
    index.toNat ≠ other.toNat := by
  intro heq
  have hlt : i < (indices.map UInt32.toNat).length := by
    rw [List.length_map]
    exact (List.getElem?_eq_some_iff.mp hi).1
  refine hne ((List.getElem?_inj hlt h.nodup).mp ?_)
  rw [List.getElem?_map, List.getElem?_map, hi, hj, Option.map_some, Option.map_some, heq]

end OrderOf

/-! ## The links -/

/-- The indices at the first places lead to the ones at the next places. -/
structure LinkedTo (indices : List UInt32) (i : Nat) (nextPtrs : List UInt32) : Prop where
  length_eq : nextPtrs.length = indices.length
  links : ∀ j < i, ∀ index next, indices[j]? = some index → indices[j + 1]? = some next →
    nextPtrs[index.toNat]? = some next

variable {count : Nat} {indices nextPtrs : List UInt32}

/-- Where an index leads is not changed by the link of an index at another place. -/
theorem set_link (h : OrderOf count indices) {i j : Nat} {index other next value : UInt32}
    (hi : indices[i]? = some index) (hj : indices[j]? = some other) (hne : i ≠ j)
    (hlink : nextPtrs[index.toNat]? = some next) :
    (nextPtrs.set other.toNat value)[index.toNat]? = some next := by
  rw [List.getElem?_set_ne (h.toNat_ne hj hi (Ne.symm hne))]
  exact hlink

/-- A pass of the loop links one more index. -/
theorem LinkedTo.link (horder : OrderOf count indices) {i : Nat}
    (h : LinkedTo indices i nextPtrs) {index next : UInt32} (hi : indices[i]? = some index)
    (hnext : indices[i + 1]? = some next) :
    Returns (store nextPtrs index.toNat next) (LinkedTo indices (i + 1)) := by
  have hbound : index.toNat < nextPtrs.length := by
    rw [h.length_eq, horder.length_eq]
    exact horder.lt hi
  refine .store hbound ⟨by rw [List.length_set, h.length_eq], ?_⟩
  intro j hj other value hother hvalue
  by_cases heq : j = i
  · subst heq
    obtain rfl : index = other := Option.some.inj (hi.symm.trans hother)
    obtain rfl : next = value := Option.some.inj (hnext.symm.trans hvalue)
    exact List.getElem?_set_self hbound
  · exact set_link horder hother hi heq (h.links j (by omega) other value hother hvalue)

/-- The links lead through the order in a circle. -/
structure Ring (count : Nat) (indices nextPtrs : List UInt32) : Prop where
  length_eq : nextPtrs.length = count
  steps : StepsThrough (follow nextPtrs) (indices.map UInt32.toNat)

theorem follow_eq {index : Nat} {next : UInt32} (h : nextPtrs[index]? = some next) :
    follow nextPtrs index = next.toNat := by
  rw [follow, List.getD_eq_getElem?_getD, h, Option.getD_some]

/-- The link of the last index closes the circle. -/
theorem LinkedTo.close (horder : OrderOf count indices) (hpos : 0 < count)
    (h : LinkedTo indices (count - 1) nextPtrs) {last first : UInt32}
    (hlast : indices[count - 1]? = some last) (hfirst : indices[0]? = some first) :
    Returns (store nextPtrs last.toNat first) (Ring count indices) := by
  have hlength := horder.length_eq
  have hbound : last.toNat < nextPtrs.length := by
    rw [h.length_eq, hlength]
    exact horder.lt hlast
  refine .store hbound ⟨by rw [List.length_set, h.length_eq, hlength], ?_⟩
  refine List.ext_getElem? fun j => ?_
  by_cases hj : j < indices.length
  · obtain ⟨index, hindex⟩ : ∃ index, indices[j]? = some index :=
      ⟨_, List.getElem?_eq_getElem hj⟩
    have hrotated : ((indices.map UInt32.toNat).rotate 1)[j]? =
        (indices[(j + 1) % indices.length]?).map UInt32.toNat := by
      rw [List.getElem?_rotate (by simpa using hj), List.length_map, List.getElem?_map]
    rw [hrotated, List.getElem?_map, List.getElem?_map, hindex, Option.map_some, Option.map_some]
    by_cases hend : j = count - 1
    · subst hend
      obtain rfl : last = index := Option.some.inj (hlast.symm.trans hindex)
      have hwrap : count - 1 + 1 = indices.length := by omega
      rw [hwrap, Nat.mod_self, hfirst, follow_eq (List.getElem?_set_self hbound), Option.map_some]
    · have hmore : j + 1 < indices.length := by omega
      have hnext := h.links j (by omega) index _ hindex (List.getElem?_eq_getElem hmore)
      have hlink : (nextPtrs.set last.toNat first)[index.toNat]? = some indices[j + 1] :=
        set_link horder hindex hlast hend hnext
      rw [Nat.mod_eq_of_lt hmore, follow_eq hlink, List.getElem?_eq_getElem hmore,
        Option.map_some]
  · rw [List.getElem?_eq_none (by simpa using hj), List.getElem?_eq_none (by simpa using hj)]

end HotPath.Measurement
