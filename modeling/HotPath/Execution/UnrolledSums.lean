import HotPath.Foundation.Loops
import Mathlib.Algebra.BigOperators.Group.Finset.Piecewise
import Mathlib.Algebra.Order.Ring.Rat
import Mathlib.Data.UInt

/-!
# Unrolled sums

`Sum` and `SumFloat` of `DependentPipeline`, and `Sum4Way`, `Sum8Way` and `SumFloat4Way` of
`IndependentPipeline`. They differ in the number of accumulators, in how these are combined and in
the values that they add: wrapping words, or numbers whose additions are exact. The functions also
return the indices of the elements in the order in which they read them.
-/

namespace HotPath.Execution

open HotPath.Foundation

section Loops

variable {α : Type}

/-- `data[i]`, noted among the reads. -/
def readAt (data : List α) (i : Nat) (reads : List Nat) : Option (α × List Nat) := do
  let value ← load data i
  return (value, reads ++ [i])

theorem readAt_next {data : List α} {i : Nat} (h : i < data.length) :
    Returns (readAt data i (List.range i)) (· = (data[i], List.range (i + 1))) :=
  .bind (.load h rfl) fun value hvalue => .pure (by rw [hvalue, List.range_succ])

variable [Add α] [Zero α]

/-- The loop that adds the elements of a range to one accumulator. -/
def addRange (data : List α) (start limit : Nat) (init : α × List Nat) :
    Option (α × List Nat) :=
  forLoop start limit 1 init fun i (sum, reads) => do
    let (value, reads) ← readAt data i reads
    return (sum + value, reads)

/-- One pass of the unrolled loop: every accumulator takes the next element. -/
def addBlock (ways : Nat) (data : List α) (i : Nat) (state : (Nat → α) × List Nat) :
    Option ((Nat → α) × List Nat) :=
  forLoop 0 ways 1 state fun k (acc, reads) => do
    let (value, reads) ← readAt data (i + k) reads
    return (Function.update acc k (acc k + value), reads)

/-- The sum with one accumulator. -/
def plainSum (data : List α) : Option (α × List Nat) :=
  addRange data 0 data.length (0, [])

/-- The sum with several accumulators, combined at the end, and a loop for the remainder. -/
def unrolledSum (ways : Nat) (combine : (Nat → α) → α) (data : List α) :
    Option (α × List Nat) := do
  let unrolledLimit := data.length - data.length % ways
  let (acc, reads) ← forLoop 0 unrolledLimit ways (fun _ => 0, []) (addBlock ways data)
  addRange data unrolledLimit data.length (combine acc, reads)

end Loops

/-- `DependentPipeline::Sum`. -/
def sum : List UInt64 → Option (UInt64 × List Nat) := plainSum

/-- `DependentPipeline::SumFloat`, with exact additions. -/
def sumFloat : List ℚ → Option (ℚ × List Nat) := plainSum

/-- `IndependentPipeline::Sum4Way`. -/
def sum4Way : List UInt64 → Option (UInt64 × List Nat) :=
  unrolledSum 4 fun acc => (acc 0 + acc 1) + (acc 2 + acc 3)

/-- `IndependentPipeline::Sum8Way`. -/
def sum8Way : List UInt64 → Option (UInt64 × List Nat) :=
  unrolledSum 8 fun acc =>
    ((acc 0 + acc 1) + (acc 2 + acc 3)) + ((acc 4 + acc 5) + (acc 6 + acc 7))

/-- `IndependentPipeline::SumFloat4Way`, with exact additions. -/
def sumFloat4Way : List ℚ → Option (ℚ × List Nat) :=
  unrolledSum 4 fun acc => (acc 0 + acc 1) + (acc 2 + acc 3)

section Sums

variable {α : Type} [AddCommMonoid α] {data : List α}

/-- What the loops have added and read when they have come to an index. -/
def SummedTo (data : List α) (i : Nat) (state : α × List Nat) : Prop :=
  state = ((data.take i).sum, List.range i)

/-- The same for several accumulators: together they hold the sum. -/
def DealtTo (ways : Nat) (data : List α) (i : Nat) (state : (Nat → α) × List Nat) : Prop :=
  ∑ k ∈ Finset.range ways, state.1 k = (data.take i).sum ∧ state.2 = List.range i

/-- The plain loop adds and reads its range. -/
theorem addRange_spec {start limit : Nat} {init : α × List Nat} (hle : start ≤ limit)
    (hlimit : limit ≤ data.length) (hinit : SummedTo data start init) :
    Returns (addRange data start limit init) (SummedTo data limit) := by
  refine .forEach (SummedTo data) hle hinit fun i state _ hi hstate => ?_
  obtain rfl := hstate
  refine .bind (readAt_next (by omega)) fun pair hpair => .pure ?_
  rw [hpair, SummedTo, List.sum_take_succ _ _ (by omega)]

/-- A pass of the unrolled loop deals the elements of its block to the accumulators. -/
theorem addBlock_spec {ways i : Nat} {state : (Nat → α) × List Nat}
    (hi : i + ways ≤ data.length) (hstate : DealtTo ways data i state) :
    Returns (addBlock ways data i state) (DealtTo ways data (i + ways)) := by
  refine .forEach (fun k => DealtTo ways data (i + k)) (Nat.zero_le _) hstate
    fun k state _ hk hdealt => ?_
  obtain ⟨acc, reads⟩ := state
  obtain ⟨hsum, rfl⟩ := hdealt
  refine .bind (readAt_next (by omega)) fun pair hpair => .pure ⟨?_, by rw [hpair]; rfl⟩
  have hmem : k ∈ Finset.range ways := Finset.mem_range.mpr hk
  calc ∑ j ∈ Finset.range ways, Function.update acc k (acc k + pair.1) j
      = acc k + pair.1 + ∑ j ∈ Finset.range ways \ {k}, acc j :=
        Finset.sum_update_of_mem hmem _ _
    _ = ∑ j ∈ Finset.range ways, acc j + pair.1 := by
        rw [Finset.sum_eq_add_sum_sdiff_singleton_of_mem hmem acc, add_right_comm]
    _ = (data.take (i + k + 1)).sum := by
        rw [hsum, hpair, List.sum_take_succ _ _ (by omega)]

theorem plainSum_eq (data : List α) : plainSum data = some (data.sum, List.range data.length) := by
  have hspec : Returns (plainSum data) (SummedTo data data.length) :=
    addRange_spec (Nat.zero_le _) (Nat.le_refl _) rfl
  rw [← returns_eq_iff]
  exact hspec.mono fun state hstate => by rw [hstate, List.take_length]

/-- However many accumulators there are, the result is the sum, as long as they are combined by
addition. -/
theorem unrolledSum_eq {ways : Nat} {combine : (Nat → α) → α} (hways : 0 < ways)
    (hcombine : ∀ acc, combine acc = ∑ k ∈ Finset.range ways, acc k) (data : List α) :
    unrolledSum ways combine data = plainSum data := by
  have hmod := Nat.mod_le data.length ways
  have hdvd : ways ∣ data.length - data.length % ways - 0 := Nat.dvd_sub_mod data.length
  rw [plainSum_eq, ← returns_eq_iff]
  refine .bind (.forLoop (DealtTo ways data) hways (Nat.zero_le _) hdvd ?_
    fun i state _ hi _ hstate => addBlock_spec (by omega) hstate) fun state hdealt => ?_
  · simp [DealtTo]
  · refine (addRange_spec (Nat.sub_le _ _) (Nat.le_refl _) ?_).mono fun result hresult => ?_
    · rw [SummedTo, hcombine, hdealt.1, hdealt.2]
    · rw [hresult, List.take_length]

end Sums

/-- The unrolled sums return what the plain sums return, and all of them read every element exactly
once, in order. -/
theorem unrolled_sums_eq (words : List UInt64) (numbers : List ℚ) :
    (sum words = some (words.sum, List.range words.length) ∧ sum4Way words = sum words ∧
        sum8Way words = sum words) ∧
      sumFloat numbers = some (numbers.sum, List.range numbers.length) ∧
      sumFloat4Way numbers = sumFloat numbers := by
  refine ⟨⟨plainSum_eq words, unrolledSum_eq (by decide) (fun acc => ?_) words,
    unrolledSum_eq (by decide) (fun acc => ?_) words⟩, plainSum_eq numbers,
    unrolledSum_eq (by decide) (fun acc => ?_) numbers⟩
  · simp [Finset.sum_range_succ, add_assoc]
  · simp [Finset.sum_range_succ, add_assoc]
  · simp [Finset.sum_range_succ, add_assoc]

end HotPath.Execution
