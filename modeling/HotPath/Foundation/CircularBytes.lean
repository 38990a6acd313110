import Mathlib.Algebra.GroupWithZero.Nat
import Mathlib.Data.Nat.Basic
import Mathlib.Data.List.Basic

/-!
# Bytes of a circular buffer

A buffer of `capacity` bytes that is mapped repeatedly: address `a` names byte `a % capacity`.
`loadBytes` and `storeBytes` read and write runs of addresses, which may cross the end of the
buffer. Words are little endian (`toLittleEndian`, `ofLittleEndian`).

The lemmas relate a load to the stores before it. A load sees the bytes stored at the same
addresses (`loadBytes_storeBytes_same`) and is not affected by a store to other bytes
(`loadBytes_storeBytes_apart`). `Apart` is the disjointness of two runs modulo the capacity;
`Apart.of_window` derives it from stream positions that lie within one lap.
-/

namespace HotPath.Foundation

/-! ## Little-endian words -/

/-- The `width` low bytes of a number, least significant first. -/
def toLittleEndian : Nat → Nat → List UInt8
  | 0, _ => []
  | width + 1, value => UInt8.ofNat value :: toLittleEndian width (value / 256)

/-- The number that a list of bytes spells, least significant byte first. -/
def ofLittleEndian : List UInt8 → Nat
  | [] => 0
  | byte :: rest => byte.toNat + 256 * ofLittleEndian rest

@[simp] theorem length_toLittleEndian (width value : Nat) :
    (toLittleEndian width value).length = width := by
  induction width generalizing value with
  | zero => rfl
  | succ width ih => simp [toLittleEndian, ih]

/-- Encoding keeps the value modulo the range of the word. -/
theorem ofLittleEndian_toLittleEndian (width value : Nat) :
    ofLittleEndian (toLittleEndian width value) = value % 256 ^ width := by
  induction width generalizing value with
  | zero => simp [toLittleEndian, ofLittleEndian, Nat.mod_one]
  | succ width ih =>
      have hbyte : (UInt8.ofNat value).toNat = value % 256 := by simp
      simp only [toLittleEndian, ofLittleEndian, ih, hbyte]
      rw [Nat.pow_succ, Nat.mul_comm (256 ^ width), Nat.mod_mul]

/-! ## Loads and stores -/

variable {capacity : Nat} {bytes : Nat → UInt8}

/-- The byte that an address names. -/
def byteAt (capacity : Nat) (bytes : Nat → UInt8) (address : Nat) : UInt8 :=
  bytes (address % capacity)

/-- Store one byte. -/
def setByte (capacity : Nat) (bytes : Nat → UInt8) (address : Nat) (value : UInt8) :
    Nat → UInt8 :=
  fun index => if index = address % capacity then value else bytes index

/-- The `count` bytes from an address on. -/
def loadBytes (capacity : Nat) (bytes : Nat → UInt8) : Nat → Nat → List UInt8
  | 0, _ => []
  | count + 1, address =>
      byteAt capacity bytes address :: loadBytes capacity bytes count (address + 1)

/-- Store a list of bytes from an address on, in increasing order of addresses. -/
def storeBytes (capacity : Nat) (bytes : Nat → UInt8) : Nat → List UInt8 → (Nat → UInt8)
  | _, [] => bytes
  | address, value :: rest =>
      storeBytes capacity (setByte capacity bytes address value) (address + 1) rest

@[simp] theorem length_loadBytes (count address : Nat) :
    (loadBytes capacity bytes count address).length = count := by
  induction count generalizing address with
  | zero => rfl
  | succ count ih => simp [loadBytes, ih]

/-- The bytes of a load, one by one. -/
theorem getElem?_loadBytes {count address index : Nat} (h : index < count) :
    (loadBytes capacity bytes count address)[index]? =
      some (byteAt capacity bytes (address + index)) := by
  induction count generalizing address index with
  | zero => omega
  | succ count ih =>
      cases index with
      | zero => rfl
      | succ index =>
          rw [loadBytes, List.getElem?_cons_succ, ih (by omega), Nat.add_assoc,
            Nat.add_comm 1 index]

/-- An address and its residue name the same byte. -/
theorem byteAt_mod_add (address offset : Nat) :
    byteAt capacity bytes (address % capacity + offset) =
      byteAt capacity bytes (address + offset) := by
  simp [byteAt]

/-- A load from the residue of an address reads the same bytes. -/
theorem loadBytes_mod_add (count address offset : Nat) :
    loadBytes capacity bytes count (address % capacity + offset) =
      loadBytes capacity bytes count (address + offset) := by
  induction count generalizing offset with
  | zero => rfl
  | succ count ih => simp only [loadBytes, byteAt_mod_add, Nat.add_assoc, ih]

/-- A store to the residue of an address writes the same bytes. -/
theorem storeBytes_mod_add (address offset : Nat) (values : List UInt8) :
    storeBytes capacity bytes (address % capacity + offset) values =
      storeBytes capacity bytes (address + offset) values := by
  induction values generalizing bytes offset with
  | nil => rfl
  | cons value rest ih =>
      have hset : setByte capacity bytes (address % capacity + offset) value =
          setByte capacity bytes (address + offset) value := by
        unfold setByte
        rw [Nat.mod_add_mod]
      simp only [storeBytes, hset, Nat.add_assoc, ih]

/-! ## What a store changes -/

/-- The runs of `n` bytes at `a` and of `m` bytes at `b` share no byte of the buffer. -/
def Apart (capacity a n b m : Nat) : Prop :=
  ∀ i < n, ∀ j < m, (a + i) % capacity ≠ (b + j) % capacity

/-- Two positions less than one lap apart name different bytes. -/
theorem mod_ne_of_window {p q : Nat} (hlt : p < q) (hlap : q < p + capacity) :
    p % capacity ≠ q % capacity := by
  intro heq
  have hzero := Nat.sub_mod_eq_zero_of_mod_eq heq.symm
  rw [Nat.mod_eq_of_lt (by omega)] at hzero
  omega

/-- A run that ends before a later one starts, less than a lap behind its end, is apart
from it. -/
theorem Apart.of_window {a n b m : Nat} (hbefore : a + n ≤ b) (hlap : b + m ≤ a + capacity) :
    Apart capacity a n b m := by
  intro i hi j hj
  exact mod_ne_of_window (by omega) (by omega)

theorem Apart.symm {a n b m : Nat} (h : Apart capacity a n b m) : Apart capacity b m a n :=
  fun i hi j hj heq => h j hj i hi heq.symm

/-- The start of a run matters only modulo the capacity. -/
theorem Apart.mod_right {a n b m : Nat} (h : Apart capacity a n b m) :
    Apart capacity a n (b % capacity) m := by
  intro i hi j hj
  rw [Nat.mod_add_mod]
  exact h i hi j hj

/-- A smaller part of one run is still apart from the other. -/
theorem Apart.mono {a n b m a' n' b' m' : Nat} (h : Apart capacity a n b m)
    (ha : a ≤ a') (hn : a' + n' ≤ a + n) (hb : b ≤ b') (hm : b' + m' ≤ b + m) :
    Apart capacity a' n' b' m' := by
  intro i hi j hj
  have hij := h (a' - a + i) (by omega) (b' - b + j) (by omega)
  rwa [show a + (a' - a + i) = a' + i by omega, show b + (b' - b + j) = b' + j by omega] at hij

/-- A byte outside the run of a store is not changed by it. -/
theorem byteAt_storeBytes_apart {address target : Nat} {values : List UInt8}
    (h : Apart capacity target 1 address values.length) :
    byteAt capacity (storeBytes capacity bytes address values) target =
      byteAt capacity bytes target := by
  induction values generalizing bytes address with
  | nil => rfl
  | cons value rest ih =>
      have hhead : target % capacity ≠ address % capacity := by
        simpa using h 0 (by omega) 0 (by simp)
      rw [storeBytes, ih (h.mono (by omega) (by omega) (by omega)
        (by simp only [List.length_cons]; omega))]
      simp [byteAt, setByte, hhead]

/-- A byte is a load of length one. -/
theorem loadBytes_one (address : Nat) :
    loadBytes capacity bytes 1 address = [byteAt capacity bytes address] := rfl

/-- A load is determined by the bytes of its run. -/
theorem loadBytes_congr {other : Nat → UInt8} {count address : Nat}
    (h : ∀ i < count, byteAt capacity other (address + i) = byteAt capacity bytes (address + i)) :
    loadBytes capacity other count address = loadBytes capacity bytes count address := by
  induction count generalizing address with
  | zero => rfl
  | succ count ih =>
      have hhead := h 0 (by omega)
      have htail : ∀ i < count, byteAt capacity other (address + 1 + i) =
          byteAt capacity bytes (address + 1 + i) := fun i hi => by
        simpa [Nat.add_assoc, Nat.add_comm 1 i] using h (i + 1) (by omega)
      simpa [loadBytes, ih htail] using hhead

/-- A load is not affected by a store to other bytes. -/
theorem loadBytes_storeBytes_apart {count target address : Nat} {values : List UInt8}
    (h : Apart capacity target count address values.length) :
    loadBytes capacity (storeBytes capacity bytes address values) count target =
      loadBytes capacity bytes count target := by
  induction count generalizing target with
  | zero => rfl
  | succ count ih =>
      rw [loadBytes, loadBytes,
        byteAt_storeBytes_apart (h.mono (by omega) (by omega) (by omega) (by omega)),
        ih (h.mono (by omega) (by omega) (by omega) (by omega))]

/-- A load sees the bytes stored at the same addresses. -/
theorem loadBytes_storeBytes_same {address : Nat} {values : List UInt8}
    (hfits : values.length ≤ capacity) :
    loadBytes capacity (storeBytes capacity bytes address values) values.length address =
      values := by
  induction values generalizing bytes address with
  | nil => rfl
  | cons value rest ih =>
      simp only [List.length_cons] at hfits
      rw [List.length_cons, loadBytes, storeBytes, ih (by omega), byteAt_storeBytes_apart]
      · simp [byteAt, setByte]
      · exact Apart.of_window (by omega) (by omega)

/-! ## Words in memory -/

/-- The word of `width` bytes at an address. -/
def loadWord (capacity : Nat) (bytes : Nat → UInt8) (width address : Nat) : Nat :=
  ofLittleEndian (loadBytes capacity bytes width address)

/-- Store the `width` low bytes of a number at an address. -/
def storeWord (capacity : Nat) (bytes : Nat → UInt8) (width address value : Nat) : Nat → UInt8 :=
  storeBytes capacity bytes address (toLittleEndian width value)

/-- A word load from the residue of an address reads the same word. -/
theorem loadWord_mod_add (width address offset : Nat) :
    loadWord capacity bytes width (address % capacity + offset) =
      loadWord capacity bytes width (address + offset) := by
  rw [loadWord, loadWord, loadBytes_mod_add]

/-- A word store to the residue of an address writes the same bytes. -/
theorem storeWord_mod_add (width address offset value : Nat) :
    storeWord capacity bytes width (address % capacity + offset) value =
      storeWord capacity bytes width (address + offset) value := by
  rw [storeWord, storeWord, storeBytes_mod_add]

/-- A word just stored reads back, modulo its range. -/
theorem loadWord_storeWord_same {width address value : Nat} (hfits : width ≤ capacity) :
    loadWord capacity (storeWord capacity bytes width address value) width address =
      value % 256 ^ width := by
  have hload : loadBytes capacity (storeBytes capacity bytes address (toLittleEndian width value))
      (toLittleEndian width value).length address = toLittleEndian width value :=
    loadBytes_storeBytes_same (by simpa using hfits)
  rw [length_toLittleEndian] at hload
  rw [loadWord, storeWord, hload, ofLittleEndian_toLittleEndian]

/-- Storing a word does not affect a load of other bytes. -/
theorem loadBytes_storeWord_apart {count target width address value : Nat}
    (h : Apart capacity target count address width) :
    loadBytes capacity (storeWord capacity bytes width address value) count target =
      loadBytes capacity bytes count target :=
  loadBytes_storeBytes_apart (by simpa using h)

/-- Storing a word does not affect a word of other bytes. -/
theorem loadWord_storeWord_apart {width target width' address value : Nat}
    (h : Apart capacity target width address width') :
    loadWord capacity (storeWord capacity bytes width' address value) width target =
      loadWord capacity bytes width target := by
  rw [loadWord, loadWord, loadBytes_storeWord_apart h]

/-- A word is determined by its bytes. -/
theorem loadWord_congr {other : Nat → UInt8} {width address : Nat}
    (h : loadBytes capacity other width address = loadBytes capacity bytes width address) :
    loadWord capacity other width address = loadWord capacity bytes width address := by
  rw [loadWord, loadWord, h]

end HotPath.Foundation
