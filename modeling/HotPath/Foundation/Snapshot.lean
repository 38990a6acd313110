import Mathlib.Algebra.Group.Nat.Even
import Mathlib.Logic.Function.Basic

/-!
# Copies of a counted block of words

A block of words is guarded by a counter that is odd while the block is being changed. A reader
copies the words one by one between two looks at the counter. `Consistent` is what such a copy
satisfies at any moment: if the counter has not moved since the copy was begun, and is even, then
the words copied so far are the words of the block.

The counter is a natural number here. A machine sees it in 64 bits only, and `begun_eq` is what
two equal looks say as long as fewer than `2 ^ 64` increments lie between them.
-/

namespace HotPath.Foundation

/-- A copy of a block of words that was begun at some value of the counter. -/
structure Snapshot (Index Word : Type*) where
  begun : Nat
  copied : Index → Bool
  words : Index → Word

namespace Snapshot

variable {Index Word : Type*} {count count' : Nat} {block block' : Index → Word}
  {snapshot : Snapshot Index Word}

/-- The words copied so far are those of the block, unless the counter has moved or is odd. -/
structure Consistent (count : Nat) (block : Index → Word) (snapshot : Snapshot Index Word) :
    Prop where
  begun_le : snapshot.begun ≤ count
  agree : snapshot.begun = count → Even count → ∀ index, snapshot.copied index = true →
    snapshot.words index = block index

/-- Begin a copy. What was copied before stays in place. -/
def begin (count : Nat) (words : Index → Word) : Snapshot Index Word :=
  ⟨count, fun _ => false, words⟩

/-- Copy one word. -/
def take [DecidableEq Index] (snapshot : Snapshot Index Word) (index : Index) (word : Word) :
    Snapshot Index Word :=
  { snapshot with
    copied := Function.update snapshot.copied index true
    words := Function.update snapshot.words index word }

theorem consistent_begin (count : Nat) (block words : Index → Word) :
    (begin count words).Consistent count block :=
  ⟨Nat.le_refl _, by simp [begin]⟩

/-- Copying a word of the block keeps the copy consistent. -/
theorem Consistent.take [DecidableEq Index] (h : snapshot.Consistent count block) (index : Index) :
    (snapshot.take index (block index)).Consistent count block := by
  refine ⟨h.begun_le, fun hbegun heven other hcopied => ?_⟩
  by_cases heq : other = index
  · subst heq
    simp [Snapshot.take]
  · simp only [Snapshot.take, Function.update_of_ne heq] at hcopied ⊢
    exact h.agree hbegun heven other hcopied

/-- When the counter moves, a copy begun before no longer says anything. -/
theorem Consistent.advance (h : snapshot.Consistent count block) (hlt : count < count') :
    snapshot.Consistent count' block' :=
  ⟨Nat.le_of_lt (Nat.lt_of_le_of_lt h.begun_le hlt), fun hbegun => by
    have hle := h.begun_le
    omega⟩

/-- While the counter is odd the block may change. -/
theorem Consistent.store (h : snapshot.Consistent count block) (hodd : ¬ Even count) :
    snapshot.Consistent count block' :=
  ⟨h.begun_le, fun _ heven => absurd heven hodd⟩

/-- A complete copy of a block that has not moved is the block. -/
theorem Consistent.words_eq (h : snapshot.Consistent count block) (hbegun : snapshot.begun = count)
    (heven : Even count) (hall : ∀ index, snapshot.copied index = true) : snapshot.words = block :=
  funext fun index => h.agree hbegun heven index (hall index)

end Snapshot

/-! ## Counters in 64 bits -/

/-- Two equal looks at a counter with fewer than `2 ^ 64` increments between them mean that there
was none. -/
theorem begun_eq {begun count : Nat} (hle : begun ≤ count) (hfew : count - begun < 2 ^ 64)
    (hsame : UInt64.ofNat begun = UInt64.ofNat count) : begun = count := by
  have hmod := congrArg UInt64.toNat hsame
  simp only [UInt64.toNat_ofNat'] at hmod
  omega

/-- The lowest bit of a 64-bit counter is the parity of the counter. -/
theorem ofNat_and_one_eq_zero (count : Nat) : UInt64.ofNat count &&& 1 = 0 ↔ Even count := by
  rw [← UInt64.toNat_inj, UInt64.toNat_and, Nat.even_iff]
  simp only [UInt64.toNat_ofNat', UInt64.reduceToNat, Nat.and_one_is_mod]
  omega

theorem ofNat_and_one_ne_zero (count : Nat) : UInt64.ofNat count &&& 1 ≠ 0 ↔ ¬ Even count :=
  not_congr (ofNat_and_one_eq_zero count)

end HotPath.Foundation
