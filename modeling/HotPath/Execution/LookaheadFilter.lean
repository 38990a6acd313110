import HotPath.Foundation.Loops
import Mathlib.Data.List.GetD
import Mathlib.Tactic.Ring

/-!
# The lookahead filter

`RunBaseline` and `RunOptimizedChallenge` without their timing, over any commutative ring. The
optimized loop takes four samples at a time and expands the recurrence, so that every output of a
block depends on the last output before it. `lookahead_eq_recurrence` says that both compute the
recurrence.
-/

namespace HotPath.Execution

open HotPath.Foundation

universe u

variable {K : Type u} [CommRing K]

/-- The loop over the output. -/
def checksum (y : List K) : K := y.foldl (· + ·) 0

/-- One pass of the loop of the recurrence, on the output and the previous value. -/
def filterStep (x : List K) (alpha : K) (i : Nat) (state : List K × K) :
    Option (List K × K) := do
  let (y, prev) := state
  let prev := (← load x i) + alpha * prev
  let y ← store y i prev
  return (y, prev)

/-- One pass of the loop over blocks of four samples. -/
def lookaheadStep (x : List K) (alpha a2 a3 a4 : K) (i : Nat) (state : List K × K) :
    Option (List K × K) := do
  let (y, yPrev) := state
  let x0 ← load x i
  let x1 ← load x (i + 1)
  let x2 ← load x (i + 2)
  let x3 ← load x (i + 3)
  let y0 := x0 + alpha * yPrev
  let y1 := x1 + alpha * x0 + a2 * yPrev
  let y2 := x2 + alpha * x1 + a2 * x0 + a3 * yPrev
  let y3 := x3 + alpha * x2 + a2 * x1 + a3 * x0 + a4 * yPrev
  let y ← store y i y0
  let y ← store y (i + 1) y1
  let y ← store y (i + 2) y2
  let y ← store y (i + 3) y3
  return (y, y3)

/-- `RunBaseline`, with the output and its checksum. -/
def runBaseline (x : List K) (alpha : K) : Option (List K × K) := do
  let n := x.length
  let (y, _) ← forLoop 0 n 1 (List.replicate n 0, 0) (filterStep x alpha)
  return (y, checksum y)

/-- `RunOptimizedChallenge`, with the output and its checksum. -/
def runOptimizedChallenge (x : List K) (alpha : K) : Option (List K × K) := do
  let n := x.length
  let a2 := alpha * alpha
  let a3 := a2 * alpha
  let a4 := a3 * alpha
  let limit := n - n % 4
  let state ← forLoop 0 limit 4 (List.replicate n 0, 0) (lookaheadStep x alpha a2 a3 a4)
  let (y, _) ← forLoop limit n 1 state (filterStep x alpha)
  return (y, checksum y)

/-! ## The recurrence -/

/-- The output before a sample, by the recurrence. Before the first sample it is zero. -/
def carried (x : List K) (alpha : K) : Nat → K
  | 0 => 0
  | i + 1 => x.getD i 0 + alpha * carried x alpha i

/-- The loops have written the recurrence up to an index, and carry the last output. -/
def FilteredTo (x : List K) (alpha : K) (i : Nat) (state : List K × K) : Prop :=
  FilledTo (fun j => carried x alpha (j + 1)) (fun _ => 0) x.length i state.1 ∧
    state.2 = carried x alpha i

variable {x : List K} {alpha : K} {i : Nat}

theorem load_sample (h : i < x.length) : Returns (load x i) (· = x.getD i 0) :=
  .load h (List.getD_eq_getElem x 0 h).symm

theorem filtered_init (x : List K) (alpha : K) :
    FilteredTo x alpha 0 (List.replicate x.length 0, 0) :=
  ⟨⟨List.length_replicate, fun j hj => by simp [hj]⟩, rfl⟩

/-- A pass of the plain loop. -/
theorem filterStep_spec {state : List K × K} (hi : i < x.length)
    (h : FilteredTo x alpha i state) :
    Returns (filterStep x alpha i state) (FilteredTo x alpha (i + 1)) := by
  obtain ⟨houtput, hprev⟩ := h
  refine .bind (load_sample hi) fun xi hxi => ?_
  have hnext : xi + alpha * state.2 = carried x alpha (i + 1) := by rw [hxi, hprev, carried]
  exact .bind (houtput.store hi hnext) fun y hy => .pure ⟨hy, hnext⟩

/-- A pass of the loop over blocks does what four passes of the plain loop do. -/
theorem lookaheadStep_spec {state : List K × K} (hi : i + 4 ≤ x.length)
    (h : FilteredTo x alpha i state) :
    Returns (lookaheadStep x alpha (alpha * alpha) (alpha * alpha * alpha)
      (alpha * alpha * alpha * alpha) i state) (FilteredTo x alpha (i + 4)) := by
  obtain ⟨houtput, hprev⟩ := h
  refine .bind (load_sample (by omega)) fun x0 hx0 => ?_
  refine .bind (load_sample (by omega)) fun x1 hx1 => ?_
  refine .bind (load_sample (by omega)) fun x2 hx2 => ?_
  refine .bind (load_sample (by omega)) fun x3 hx3 => ?_
  -- Each expanded polynomial is the recurrence applied to the one before it.
  have h0 : x0 + alpha * state.2 = carried x alpha (i + 1) := by
    rw [hx0, hprev, carried]
  have h1 : x1 + alpha * x0 + alpha * alpha * state.2 = carried x alpha (i + 2) := by
    rw [carried, ← h0, ← hx1]
    ring
  have h2 : x2 + alpha * x1 + alpha * alpha * x0 + alpha * alpha * alpha * state.2 =
      carried x alpha (i + 3) := by
    rw [carried, ← h1, ← hx2]
    ring
  have h3 : x3 + alpha * x2 + alpha * alpha * x1 + alpha * alpha * alpha * x0 +
      alpha * alpha * alpha * alpha * state.2 = carried x alpha (i + 4) := by
    rw [carried, ← h2, ← hx3]
    ring
  refine .bind (houtput.store (by omega) h0) fun y hy => ?_
  refine .bind (hy.store (by omega) h1) fun y hy => ?_
  refine .bind (hy.store (by omega) h2) fun y hy => ?_
  exact .bind (hy.store (by omega) h3) fun y hy => .pure ⟨hy, h3⟩

/-! ## The filters -/

/-- The output that the recurrence asks for. -/
def recurrence (x : List K) (alpha : K) : List K :=
  (List.range x.length).map fun i => carried x alpha (i + 1)

theorem runBaseline_eq (x : List K) (alpha : K) :
    runBaseline x alpha = some (recurrence x alpha, checksum (recurrence x alpha)) := by
  rw [← returns_eq_iff]
  refine .bind (.forEach (FilteredTo x alpha) (Nat.zero_le _) (filtered_init x alpha)
    fun i state _ hi hstate => filterStep_spec hi hstate) fun state hstate => .pure ?_
  rw [hstate.1.eq_map, recurrence]

theorem runOptimizedChallenge_eq (x : List K) (alpha : K) :
    runOptimizedChallenge x alpha =
      some (recurrence x alpha, checksum (recurrence x alpha)) := by
  have hdvd : 4 ∣ x.length - x.length % 4 - 0 := Nat.dvd_sub_mod x.length
  rw [← returns_eq_iff]
  refine .bind (.forLoop (FilteredTo x alpha) (by decide) (Nat.zero_le _) hdvd
    (filtered_init x alpha) fun i state _ hi _ hstate => lookaheadStep_spec (by omega) hstate)
    fun state hstate => ?_
  refine .bind (.forEach (FilteredTo x alpha) (Nat.sub_le _ _) hstate
    fun i state _ hi hstate => filterStep_spec hi hstate) fun state hstate => .pure ?_
  rw [hstate.1.eq_map, recurrence]

theorem recurrence_getD {x : List K} {alpha : K} {i : Nat} (h : i < x.length) :
    (recurrence x alpha).getD i 0 = carried x alpha (i + 1) := by
  simp [recurrence, h]

/-- Both filters return the same output and the same checksum, and the output satisfies the
recurrence, with zero before the first sample. -/
theorem lookahead_eq_recurrence (x : List K) (alpha : K) :
    ∃ y : List K, runBaseline x alpha = some (y, checksum y) ∧
      runOptimizedChallenge x alpha = some (y, checksum y) ∧ y.length = x.length ∧
      ∀ i < x.length,
        y.getD i 0 = x.getD i 0 + alpha * if i = 0 then 0 else y.getD (i - 1) 0 := by
  refine ⟨recurrence x alpha, runBaseline_eq x alpha, runOptimizedChallenge_eq x alpha,
    by simp [recurrence], fun i hi => ?_⟩
  rw [recurrence_getD hi, carried]
  cases i with
  | zero => simp [carried]
  | succ i => rw [if_neg (Nat.succ_ne_zero i), Nat.add_sub_cancel, recurrence_getD (by omega)]

end HotPath.Execution
