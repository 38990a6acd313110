import HotPath.Foundation.Loops
import Mathlib.Algebra.BigOperators.Field
import Mathlib.Analysis.Calculus.Deriv.Add
import Mathlib.Analysis.Calculus.Deriv.Comp
import Mathlib.Analysis.Calculus.Deriv.Mul
import Mathlib.Topology.Algebra.Module.ModuleTopology

/-!
# The loss of a two-layer network

The mean squared error of a network with one hidden layer of rectified units, as a function of its
weights, over any ordered field. The weights of a layer are a function of the place in the matrix,
row by row. `gradW1` and `gradW2` are the entries of the gradient, and over the reals they are its
partial derivatives (`hasDerivAt_w2` and, where no unit is at its kink, `hasDerivAt_w1`).
-/

namespace HotPath.Learning

open HotPath.Foundation

/-- The numbers that the loss depends on. -/
structure Problem (K : Type) where
  inDim : Nat
  hiddenDim : Nat
  outDim : Nat
  w1 : Nat → K
  w2 : Nat → K
  x : Nat → K
  target : Nat → K

/-- The factor of a squared error. -/
def half {K : Type} [Field K] : K := 1 / 2

namespace Problem

section Definitions

variable {K : Type} [Field K] [LinearOrder K] (p : Problem K)

/-- The weighted sum of the inputs of a hidden unit. -/
def preactivation (h : Nat) : K := ∑ i ∈ Finset.range p.inDim, p.w1 (h * p.inDim + i) * p.x i

/-- The output of a hidden unit. -/
def hidden (h : Nat) : K := if 0 < p.preactivation h then p.preactivation h else 0

/-- The output of the network. -/
def prediction (o : Nat) : K :=
  ∑ h ∈ Finset.range p.hiddenDim, p.w2 (o * p.hiddenDim + h) * p.hidden h

/-- What an output contributes to the loss. -/
def squaredError (o : Nat) : K :=
  half * (p.prediction o - p.target o) * (p.prediction o - p.target o)

/-- The loss. -/
def loss : K := (∑ o ∈ Finset.range p.outDim, p.squaredError o) / p.outDim

/-- The derivative of the loss by an output. -/
def delta (o : Nat) : K := (p.prediction o - p.target o) / p.outDim

/-- The derivative of the loss by the output of a hidden unit. -/
def upstream (h : Nat) : K :=
  ∑ o ∈ Finset.range p.outDim, p.w2 (o * p.hiddenDim + h) * p.delta o

/-- The entry of the gradient for a weight of the second layer. -/
def gradW2 (o h : Nat) : K := p.delta o * p.hidden h

/-- The entry of the gradient for a weight of the first layer. -/
def gradW1 (h i : Nat) : K := if 0 < p.preactivation h then p.x i * p.upstream h else 0

/-- The problem with one weight of the first layer replaced. -/
def withW1 (place : Nat) (weight : K) : Problem K :=
  { p with w1 := Function.update p.w1 place weight }

/-- The problem with one weight of the second layer replaced. -/
def withW2 (place : Nat) (weight : K) : Problem K :=
  { p with w2 := Function.update p.w2 place weight }

end Definitions

/-! ## The derivatives -/

section Derivatives

variable {p : Problem ℝ}

/-- The derivative of one value of a function by the value at a place. -/
theorem hasDerivAt_update (f : Nat → ℝ) (place other : Nat) (t : ℝ) :
    HasDerivAt (fun value => Function.update f place value other)
      (if other = place then 1 else 0) t := by
  by_cases h : other = place
  · subst h
    simp only [Function.update_self, if_true]
    exact hasDerivAt_id' t
  · simpa [h] using hasDerivAt_const t (f other)

/-- The derivative of a unit that is not at its kink. -/
theorem hasDerivAt_rectified {a : ℝ} (h : a ≠ 0) :
    HasDerivAt (fun a : ℝ => if 0 < a then a else 0) (if 0 < a then 1 else 0) a := by
  by_cases hpos : 0 < a
  · rw [if_pos hpos]
    refine (hasDerivAt_id a).congr_of_eventuallyEq ?_
    filter_upwards [lt_mem_nhds hpos] with b hb
    exact if_pos hb
  · rw [if_neg hpos]
    refine (hasDerivAt_const a 0).congr_of_eventuallyEq ?_
    filter_upwards [gt_mem_nhds (lt_of_le_of_ne (not_lt.mp hpos) h)] with b hb
    exact if_neg (not_lt.mpr hb.le)

/-- The derivative of the loss by anything that the predictions depend on. -/
theorem hasDerivAt_loss {q : ℝ → Problem ℝ} {t : ℝ} {slope : Nat → ℝ}
    (houtDim : ∀ t, (q t).outDim = p.outDim) (htarget : ∀ t, (q t).target = p.target)
    (hq : q t = p)
    (h : ∀ o < p.outDim, HasDerivAt (fun t => (q t).prediction o) (slope o) t) :
    HasDerivAt (fun t => (q t).loss) (∑ o ∈ Finset.range p.outDim, p.delta o * slope o) t := by
  have herror : ∀ o ∈ Finset.range p.outDim, HasDerivAt (fun t => (q t).squaredError o)
      ((p.prediction o - p.target o) * slope o) t := by
    intro o ho
    have hdiff := (h o (Finset.mem_range.mp ho)).sub_const (p.target o)
    have hsquare := (hdiff.const_mul half).mul hdiff
    simp only [hq] at hsquare
    refine (hsquare.congr_deriv (by rw [half]; ring)).congr_of_eventuallyEq
      (.of_forall fun t => ?_)
    simp [squaredError, htarget]
  have hsum := (HasDerivAt.fun_sum herror).div_const (p.outDim : ℝ)
  refine (hsum.congr_deriv ?_).congr_of_eventuallyEq (.of_forall fun t => ?_)
  · rw [Finset.sum_div]
    exact Finset.sum_congr rfl fun o _ => by rw [delta]; ring
  · simp [loss, houtDim]

/-- A sum with one place that the rest does not depend on. -/
theorem sum_place {count row col row' : Nat} (hcol : col < count) (f : Nat → ℝ) :
    ∑ j ∈ Finset.range count, (if row' * count + j = row * count + col then 1 else 0) * f j =
      if row' = row then f col else 0 := by
  have hplace : ∀ j ∈ Finset.range count,
      (if row' * count + j = row * count + col then 1 else 0) * f j =
        if j = col then (if row' = row then f j else 0) else 0 := by
    intro j hj
    simp only [place_inj (Finset.mem_range.mp hj) hcol]
    by_cases hrow : row' = row <;> by_cases heq : j = col <;> simp [hrow, heq]
  rw [Finset.sum_congr rfl hplace, Finset.sum_ite_eq', if_pos (Finset.mem_range.mpr hcol)]

/-- The derivative of a row of a matrix times a vector by a weight. -/
theorem hasDerivAt_row {count row col : Nat} (hcol : col < count) (weights inputs : Nat → ℝ)
    (row' : Nat) (t : ℝ) :
    HasDerivAt (fun t => ∑ j ∈ Finset.range count,
        Function.update weights (row * count + col) t (row' * count + j) * inputs j)
      (if row' = row then inputs col else 0) t := by
  rw [← sum_place hcol]
  exact HasDerivAt.fun_sum fun j _ => (hasDerivAt_update _ _ _ t).mul_const (inputs j)

/-- The entries for the second layer are partial derivatives of the loss. -/
theorem hasDerivAt_w2 (p : Problem ℝ) {o h : Nat} (ho : o < p.outDim) (hh : h < p.hiddenDim) :
    HasDerivAt (fun t => (p.withW2 (o * p.hiddenDim + h) t).loss) (p.gradW2 o h)
      (p.w2 (o * p.hiddenDim + h)) := by
  have hprediction : ∀ o' < p.outDim, HasDerivAt
      (fun t => (p.withW2 (o * p.hiddenDim + h) t).prediction o')
      (if o' = o then p.hidden h else 0) (p.w2 (o * p.hiddenDim + h)) :=
    fun o' _ => hasDerivAt_row hh p.w2 p.hidden o' _
  have hsame : p.withW2 (o * p.hiddenDim + h) (p.w2 (o * p.hiddenDim + h)) = p := by
    simp [withW2]
  have hloss := hasDerivAt_loss (q := p.withW2 (o * p.hiddenDim + h)) (fun _ => rfl)
    (fun _ => rfl) hsame hprediction
  refine hloss.congr_deriv ?_
  simp [gradW2, ho]

/-- The derivative of the hidden units by a weight of the first layer. -/
theorem hasDerivAt_hidden (p : Problem ℝ) {h i : Nat} (hi : i < p.inDim)
    (hkink : p.preactivation h ≠ 0) (h' : Nat) :
    HasDerivAt (fun t => (p.withW1 (h * p.inDim + i) t).hidden h')
      (if h' = h then (if 0 < p.preactivation h then p.x i else 0) else 0)
      (p.w1 (h * p.inDim + i)) := by
  have hsame : p.withW1 (h * p.inDim + i) (p.w1 (h * p.inDim + i)) = p := by
    simp [withW1]
  have hpre : HasDerivAt (fun t => (p.withW1 (h * p.inDim + i) t).preactivation h')
      (if h' = h then p.x i else 0) (p.w1 (h * p.inDim + i)) :=
    hasDerivAt_row hi p.w1 p.x h' _
  by_cases hrow : h' = h
  · subst hrow
    have hrectified : HasDerivAt (fun a : ℝ => if 0 < a then a else 0)
        (if 0 < p.preactivation h' then 1 else 0)
        ((p.withW1 (h' * p.inDim + i) (p.w1 (h' * p.inDim + i))).preactivation h') := by
      rw [hsame]
      exact hasDerivAt_rectified hkink
    have hcomp := HasDerivAt.comp (h := fun t =>
      (p.withW1 (h' * p.inDim + i) t).preactivation h') (p.w1 (h' * p.inDim + i)) hrectified hpre
    refine hcomp.congr_deriv ?_
    by_cases hpos : 0 < p.preactivation h' <;> simp [hpos]
  · rw [if_neg hrow]
    refine (hasDerivAt_const _ (p.hidden h')).congr_of_eventuallyEq (.of_forall fun t => ?_)
    have hconst : (p.withW1 (h * p.inDim + i) t).preactivation h' = p.preactivation h' := by
      refine Finset.sum_congr rfl fun j hj => ?_
      have hother : h' * p.inDim + j ≠ h * p.inDim + i := fun heq =>
        hrow ((place_inj (Finset.mem_range.mp hj) hi).mp heq).1
      simp [withW1, hother]
    simp only [hidden, hconst]

/-- The entries for the first layer are partial derivatives of the loss, except at the kink of
their unit. -/
theorem hasDerivAt_w1 (p : Problem ℝ) {h i : Nat} (hh : h < p.hiddenDim) (hi : i < p.inDim)
    (hkink : p.preactivation h ≠ 0) :
    HasDerivAt (fun t => (p.withW1 (h * p.inDim + i) t).loss) (p.gradW1 h i)
      (p.w1 (h * p.inDim + i)) := by
  have hsame : p.withW1 (h * p.inDim + i) (p.w1 (h * p.inDim + i)) = p := by
    simp [withW1]
  have hprediction : ∀ o < p.outDim, HasDerivAt
      (fun t => (p.withW1 (h * p.inDim + i) t).prediction o)
      (p.w2 (o * p.hiddenDim + h) * if 0 < p.preactivation h then p.x i else 0)
      (p.w1 (h * p.inDim + i)) := by
    intro o _
    have hsum := HasDerivAt.fun_sum (u := Finset.range p.hiddenDim) fun j _ =>
      (hasDerivAt_hidden p hi hkink j).const_mul (p.w2 (o * p.hiddenDim + j))
    refine hsum.congr_deriv ?_
    simp [hh]
  have hloss := hasDerivAt_loss (q := p.withW1 (h * p.inDim + i)) (fun _ => rfl)
    (fun _ => rfl) hsame hprediction
  refine hloss.congr_deriv ?_
  by_cases hpos : 0 < p.preactivation h
  · simp only [gradW1, upstream, hpos, if_true, Finset.mul_sum]
    exact Finset.sum_congr rfl fun o _ => by ring
  · simp [gradW1, hpos]

end Derivatives

end Problem

end HotPath.Learning
