import HotPath.Learning.TwoLayerMlp
import Mathlib.Tactic.FieldSimp

/-!
# Finite differences

The loops of `BM_FiniteDifferences_BruteForce_OW2`, which nudge the weights one by one and run
`Forward` for each of them, with exact arithmetic over an ordered field.

The loss is a polynomial of degree two in a weight, as long as the units stay on their side of the
kink. So a difference quotient differs from an entry of the gradient by its second order term, and
by nothing else (`finiteDifferences_agree`).
-/

namespace HotPath.Learning

open HotPath.Foundation

/-- The matrices of a network. -/
inductive Layer
  | first
  | second
deriving DecidableEq

/-! ## The loss after a nudge -/

namespace Problem

section Nudge

variable {K : Type} [Field K] [LinearOrder K] (p : Problem K)

/-- The weights of a layer. -/
def weight : Layer → Nat → K
  | .first => p.w1
  | .second => p.w2

/-- The problem with one weight replaced. -/
def withWeight : Layer → Nat → K → Problem K
  | .first => p.withW1
  | .second => p.withW2

/-- The difference quotient of the loss by a weight. -/
def slope (eps : K) (layer : Layer) (place : Nat) : K :=
  ((p.withWeight layer place (p.weight layer place + eps)).loss - p.loss) / eps

/-- What a nudge of an input weight does to the output of a hidden unit. -/
def change (eps : K) (h i : Nat) : K :=
  (if 0 < p.preactivation h + eps * p.x i then p.preactivation h + eps * p.x i else 0) - p.hidden h

/-- Half of the second derivative of the loss by the output of a hidden unit. -/
def curvature (h : Nat) : K :=
  (∑ o ∈ Finset.range p.outDim,
    half * p.w2 (o * p.hiddenDim + h) * p.w2 (o * p.hiddenDim + h)) / p.outDim

omit [LinearOrder K] in
/-- A row of a matrix times a vector, after a nudge. -/
theorem sum_nudged {count row col : Nat} (hcol : col < count) (weights inputs : Nat → K) (eps : K)
    (row' : Nat) :
    ∑ j ∈ Finset.range count,
        Function.update weights (row * count + col) (weights (row * count + col) + eps)
          (row' * count + j) * inputs j =
      ∑ j ∈ Finset.range count, weights (row' * count + j) * inputs j +
        if row' = row then eps * inputs col else 0 := by
  have hplace : ∀ j ∈ Finset.range count,
      Function.update weights (row * count + col) (weights (row * count + col) + eps)
          (row' * count + j) * inputs j =
        weights (row' * count + j) * inputs j +
          if j = col then (if row' = row then eps * inputs j else 0) else 0 := by
    intro j hj
    have hiff : row' * count + j = row * count + col ↔ row' = row ∧ j = col :=
      place_inj (Finset.mem_range.mp hj) hcol
    by_cases hsame : row' = row ∧ j = col
    · obtain ⟨rfl, rfl⟩ := hsame
      rw [Function.update_self, if_pos rfl, if_pos rfl, add_mul]
    · rw [Function.update_of_ne (fun heq => hsame (hiff.mp heq))]
      by_cases hj : j = col
      · rw [if_pos hj, if_neg (fun hrow => hsame ⟨hrow, hj⟩), add_zero]
      · rw [if_neg hj, add_zero]
  rw [Finset.sum_congr rfl hplace, Finset.sum_add_distrib, Finset.sum_ite_eq',
    if_pos (Finset.mem_range.mpr hcol)]

variable [IsStrictOrderedRing K]

/-- The loss of shifted predictions. -/
theorem loss_shifted {p q : Problem K} {shift : Nat → K} (houtDim : q.outDim = p.outDim)
    (htarget : q.target = p.target)
    (hprediction : ∀ o < p.outDim, q.prediction o = p.prediction o + shift o) :
    q.loss = p.loss + ∑ o ∈ Finset.range p.outDim, p.delta o * shift o +
      (∑ o ∈ Finset.range p.outDim, half * shift o * shift o) / p.outDim := by
  have herror : ∀ o ∈ Finset.range p.outDim, q.squaredError o =
      p.squaredError o + (p.prediction o - p.target o) * shift o + half * shift o * shift o := by
    intro o ho
    rw [squaredError, squaredError, hprediction o (Finset.mem_range.mp ho), htarget, half]
    ring
  rw [loss, loss, houtDim, Finset.sum_congr rfl herror, Finset.sum_add_distrib,
    Finset.sum_add_distrib, add_div, add_div, Finset.sum_div]
  congr 2
  rw [Finset.sum_div]
  exact Finset.sum_congr rfl fun o _ => by rw [delta]; ring

/-- A difference quotient by a weight of the second layer. -/
theorem slope_second {eps : K} (heps : eps ≠ 0) {o h : Nat} (ho : o < p.outDim)
    (hh : h < p.hiddenDim) :
    p.slope eps .second (o * p.hiddenDim + h) =
      p.gradW2 o h + eps * (half * p.hidden h * p.hidden h / p.outDim) := by
  have hprediction : ∀ o' < p.outDim,
      (p.withW2 (o * p.hiddenDim + h) (p.w2 (o * p.hiddenDim + h) + eps)).prediction o' =
        p.prediction o' + if o' = o then eps * p.hidden h else 0 :=
    fun o' _ => sum_nudged hh p.w2 p.hidden eps o'
  have hloss := loss_shifted (p := p) (q := p.withW2 (o * p.hiddenDim + h)
    (p.w2 (o * p.hiddenDim + h) + eps)) rfl rfl hprediction
  have hmem := Finset.mem_range.mpr ho
  simp only [mul_ite, mul_zero, ite_mul, zero_mul, Finset.sum_ite_eq', hmem, if_true] at hloss
  rw [slope, withWeight, weight, hloss, gradW2]
  field_simp
  ring

omit [IsStrictOrderedRing K] in
/-- The outputs of the hidden units after a nudge of an input weight. -/
theorem hidden_nudged {h i : Nat} (hi : i < p.inDim) (eps : K) (h' : Nat) :
    (p.withW1 (h * p.inDim + i) (p.w1 (h * p.inDim + i) + eps)).hidden h' =
      p.hidden h' + if h' = h then p.change eps h i else 0 := by
  have hpre : (p.withW1 (h * p.inDim + i) (p.w1 (h * p.inDim + i) + eps)).preactivation h' =
      p.preactivation h' + if h' = h then eps * p.x i else 0 :=
    sum_nudged hi p.w1 p.x eps h'
  by_cases hrow : h' = h
  · subst hrow
    rw [if_pos rfl] at hpre
    rw [if_pos rfl, change, add_sub_cancel, hidden, hpre]
  · rw [if_neg hrow, add_zero] at hpre
    rw [if_neg hrow, add_zero, hidden, hidden, hpre]

/-- A difference quotient by a weight of the first layer. -/
theorem slope_first {eps : K} (heps : eps ≠ 0) {h i : Nat} (hh : h < p.hiddenDim)
    (hi : i < p.inDim) :
    p.slope eps .first (h * p.inDim + i) =
      p.change eps h i / eps * (p.upstream h + p.change eps h i * p.curvature h) := by
  have hprediction : ∀ o < p.outDim,
      (p.withW1 (h * p.inDim + i) (p.w1 (h * p.inDim + i) + eps)).prediction o =
        p.prediction o + p.w2 (o * p.hiddenDim + h) * p.change eps h i := by
    intro o _
    have hterm : ∀ j ∈ Finset.range p.hiddenDim,
        (p.withW1 (h * p.inDim + i) (p.w1 (h * p.inDim + i) + eps)).w2 (o * p.hiddenDim + j) *
            (p.withW1 (h * p.inDim + i) (p.w1 (h * p.inDim + i) + eps)).hidden j =
          p.w2 (o * p.hiddenDim + j) * p.hidden j +
            if j = h then p.w2 (o * p.hiddenDim + j) * p.change eps h i else 0 := by
      intro j _
      rw [hidden_nudged p hi, mul_add, mul_ite, mul_zero]
      rfl
    exact (Finset.sum_congr rfl hterm).trans (by
      rw [Finset.sum_add_distrib, Finset.sum_ite_eq', if_pos (Finset.mem_range.mpr hh)]
      rfl)
  have hloss := loss_shifted (p := p) (q := p.withW1 (h * p.inDim + i)
    (p.w1 (h * p.inDim + i) + eps)) rfl rfl hprediction
  have hfirst : ∑ o ∈ Finset.range p.outDim,
      p.delta o * (p.w2 (o * p.hiddenDim + h) * p.change eps h i) =
        p.change eps h i * p.upstream h := by
    rw [upstream, Finset.mul_sum]
    exact Finset.sum_congr rfl fun o _ => by ring
  have hsecond : (∑ o ∈ Finset.range p.outDim, half *
      (p.w2 (o * p.hiddenDim + h) * p.change eps h i) *
        (p.w2 (o * p.hiddenDim + h) * p.change eps h i)) / p.outDim =
        p.change eps h i * p.change eps h i * p.curvature h := by
    rw [curvature, ← mul_div_assoc, Finset.mul_sum]
    congr 1
    exact Finset.sum_congr rfl fun o _ => by ring
  rw [slope, withWeight, weight, hloss, hfirst, hsecond]
  field_simp
  ring

omit [IsStrictOrderedRing K] in
/-- A unit that stays active follows its input. -/
theorem change_of_active {eps : K} {h i : Nat} (hactive : 0 < p.preactivation h)
    (hstays : 0 < p.preactivation h + eps * p.x i) : p.change eps h i = eps * p.x i := by
  rw [change, hidden, if_pos hactive, if_pos hstays, add_sub_cancel_left]

omit [IsStrictOrderedRing K] in
/-- A unit that stays inactive does not change. -/
theorem change_of_inactive {eps : K} {h i : Nat} (hinactive : ¬ 0 < p.preactivation h)
    (hstays : ¬ 0 < p.preactivation h + eps * p.x i) : p.change eps h i = 0 := by
  rw [change, hidden, if_neg hinactive, if_neg hstays, sub_zero]

end Nudge

end Problem

/-! ## The loops over the weights -/

namespace TwoLayerMlp

section Access

variable {K : Type}

def weights (net : TwoLayerMlp K) : Layer → List K
  | .first => net.w1
  | .second => net.w2

def grads (net : TwoLayerMlp K) : Layer → List K
  | .first => net.gradW1
  | .second => net.gradW2

def setWeight (net : TwoLayerMlp K) (layer : Layer) (idx : Nat) (weight : K) : TwoLayerMlp K :=
  match layer with
  | .first => { net with
      w1 := net.w1.set idx weight
      w1_length := by rw [List.length_set, net.w1_length] }
  | .second => { net with
      w2 := net.w2.set idx weight
      w2_length := by rw [List.length_set, net.w2_length] }

def setGrad (net : TwoLayerMlp K) (layer : Layer) (idx : Nat) (entry : K) : TwoLayerMlp K :=
  match layer with
  | .first => { net with
      gradW1 := net.gradW1.set idx entry
      gradW1_length := by rw [List.length_set, net.gradW1_length] }
  | .second => { net with
      gradW2 := net.gradW2.set idx entry
      gradW2_length := by rw [List.length_set, net.gradW2_length] }

/-- Write a weight. -/
def storeWeight (net : TwoLayerMlp K) (layer : Layer) (idx : Nat) (weight : K) :
    Option (TwoLayerMlp K) :=
  if idx < (net.weights layer).length then some (net.setWeight layer idx weight) else none

/-- Write an entry of a gradient. -/
def storeGrad (net : TwoLayerMlp K) (layer : Layer) (idx : Nat) (entry : K) :
    Option (TwoLayerMlp K) :=
  if idx < (net.grads layer).length then some (net.setGrad layer idx entry) else none

variable (net : TwoLayerMlp K) {layer : Layer} {idx : Nat}

theorem grads_length (layer : Layer) :
    (net.grads layer).length = (net.weights layer).length := by
  cases layer with
  | first => exact net.gradW1_length.trans net.w1_length.symm
  | second => exact net.gradW2_length.trans net.w2_length.symm

theorem setGrad_grads_self (entry : K) :
    (net.setGrad layer idx entry).grads layer = (net.grads layer).set idx entry := by
  cases layer <;> rfl

theorem setGrad_grads_of_ne {layer' : Layer} (h : layer' ≠ layer) (entry : K) :
    (net.setGrad layer idx entry).grads layer' = net.grads layer' := by
  cases layer <;> cases layer' <;> first | rfl | exact absurd rfl h

@[simp] theorem length_setWeight (layer' : Layer) (weight : K) :
    ((net.setWeight layer idx weight).weights layer').length = (net.weights layer').length := by
  cases layer <;> cases layer' <;> simp [setWeight, weights]

@[simp] theorem setGrad_weights (layer' : Layer) (entry : K) :
    (net.setGrad layer idx entry).weights layer' = net.weights layer' := by
  cases layer <;> cases layer' <;> rfl

@[simp] theorem setWeight_dims (layer : Layer) (idx : Nat) (weight : K) :
    (net.setWeight layer idx weight).inDim = net.inDim ∧
      (net.setWeight layer idx weight).hiddenDim = net.hiddenDim ∧
      (net.setWeight layer idx weight).outDim = net.outDim := by
  cases layer <;> exact ⟨rfl, rfl, rfl⟩

/-- A pass leaves the network as it was, except for an entry of the gradient. -/
theorem restore_weight {orig : K} (horig : (net.weights layer)[idx]? = some orig)
    (weight entry : K) :
    ((net.setWeight layer idx weight).setGrad layer idx entry).setWeight layer idx orig =
      net.setGrad layer idx entry := by
  cases layer with
  | first =>
      have hback : (net.w1.set idx weight).set idx orig = net.w1 := set_back horig weight
      simp only [setWeight, setGrad, hback]
  | second =>
      have hback : (net.w2.set idx weight).set idx orig = net.w2 := set_back horig weight
      simp only [setWeight, setGrad, hback]

theorem storeWeight_spec (hidx : idx < (net.weights layer).length) (weight : K) :
    Returns (net.storeWeight layer idx weight) (· = net.setWeight layer idx weight) :=
  ⟨_, if_pos hidx, rfl⟩

theorem storeGrad_spec (hidx : idx < (net.weights layer).length) (entry : K) :
    Returns (net.storeGrad layer idx entry) (· = net.setGrad layer idx entry) :=
  ⟨_, if_pos (net.grads_length layer ▸ hidx), rfl⟩

/-- The dimensions and the weights are those of another network. -/
structure Same (net net' : TwoLayerMlp K) : Prop where
  inDim_eq : net'.inDim = net.inDim
  hiddenDim_eq : net'.hiddenDim = net.hiddenDim
  outDim_eq : net'.outDim = net.outDim
  weights_eq : ∀ layer, net'.weights layer = net.weights layer

variable {net} {net' : TwoLayerMlp K}

theorem Same.setGrad (h : Same net net') (layer : Layer) (idx : Nat) (entry : K) :
    Same net (net'.setGrad layer idx entry) := by
  refine ⟨?_, ?_, ?_, fun layer' => by rw [setGrad_weights, h.weights_eq]⟩ <;> cases layer
  all_goals first | exact h.inDim_eq | exact h.hiddenDim_eq | exact h.outDim_eq

end Access

section Problems

variable {K : Type} [Field K] (net : TwoLayerMlp K) {net' : TwoLayerMlp K} {layer : Layer}
  {idx : Nat}

/-- The abstract network of a nudged one. -/
theorem problem_setWeight (hidx : idx < (net.weights layer).length) (weight : K)
    (x target : List K) :
    (net.setWeight layer idx weight).problem x target =
      (net.problem x target).withWeight layer idx weight := by
  have hset : ∀ values : List K, idx < values.length →
      (fun place => (values.set idx weight).getD place 0) =
        Function.update (fun place => values.getD place 0) idx weight := by
    intro values hvalues
    funext place
    by_cases hplace : place = idx
    · subst hplace
      rw [Function.update_self, List.getD_eq_getElem?_getD, List.getElem?_set_self hvalues,
        Option.getD_some]
    · rw [Function.update_of_ne hplace, List.getD_eq_getElem?_getD,
        List.getElem?_set_ne (Ne.symm hplace), List.getD_eq_getElem?_getD]
  cases layer with
  | first => simp only [problem, setWeight, Problem.withWeight, Problem.withW1, hset net.w1 hidx]
  | second => simp only [problem, setWeight, Problem.withWeight, Problem.withW2, hset net.w2 hidx]

variable {net}

theorem Same.problem_eq (h : Same net net') (x target : List K) :
    net'.problem x target = net.problem x target := by
  have hw1 : net'.w1 = net.w1 := h.weights_eq .first
  have hw2 : net'.w2 = net.w2 := h.weights_eq .second
  simp only [problem, h.inDim_eq, h.hiddenDim_eq, h.outDim_eq, hw1, hw2]

end Problems

end TwoLayerMlp

section Loops

variable {K : Type} [Field K] [LinearOrder K]

/-- What the loops write. -/
structure Knobs (K : Type) where
  net : TwoLayerMlp K
  hiddenBuf : List K
  predBuf : List K

/-- The pass for one weight, which puts the weight back. -/
def nudgePass (x target : List K) (eps baseLoss : K) (layer : Layer) (idx : Nat)
    (knobs : Knobs K) : Option (Knobs K) := do
  let orig ← load (knobs.net.weights layer) idx
  let net ← knobs.net.storeWeight layer idx (orig + eps)
  let (nudged, hiddenBuf, predBuf) ← forward net x target knobs.hiddenBuf knobs.predBuf
  let net ← net.storeGrad layer idx ((nudged - baseLoss) / eps)
  let net ← net.storeWeight layer idx orig
  return { net, hiddenBuf, predBuf }

/-- An iteration of `BM_FiniteDifferences_BruteForce_OW2`. -/
def finiteDifferences (net : TwoLayerMlp K) (vectors : Vectors net) (eps : K) :
    Option (Knobs K) := do
  let (baseLoss, hiddenBuf, predBuf) ←
    forward net vectors.x vectors.target vectors.hiddenBuf vectors.predBuf
  let knobs ← forLoop 0 net.w1.length 1 { net, hiddenBuf, predBuf }
    (nudgePass vectors.x vectors.target eps baseLoss .first)
  forLoop 0 net.w2.length 1 knobs (nudgePass vectors.x vectors.target eps baseLoss .second)

/-- `Forward` leaves vectors of the same sizes. -/
theorem forward_lengths (net : TwoLayerMlp K) (vectors : Vectors net) {result : K × List K × List K}
    (hresult : forward net vectors.x vectors.target vectors.hiddenBuf vectors.predBuf =
      some result) :
    result.2.1.length = net.hiddenDim ∧ result.2.2.length = net.outDim := by
  obtain ⟨hiddenOut, hhidden, hrest⟩ := Option.bind_eq_some_iff.mp hresult
  obtain ⟨⟨predOut, loss⟩, hpred, hlast⟩ := Option.bind_eq_some_iff.mp hrest
  obtain rfl := Option.some.inj hlast
  constructor
  · refine forLoop_keeps (·.length = net.hiddenDim) vectors.hiddenBuf_length
      (fun h before after hpass hbefore => ?_) hhidden
    obtain ⟨sum, _, hstore⟩ := Option.bind_eq_some_iff.mp hpass
    exact (length_of_store hstore).trans hbefore
  · refine forLoop_keeps (·.1.length = net.outDim) vectors.predBuf_length
      (fun o before after hpass hbefore => ?_) hpred
    obtain ⟨sum, _, hpass⟩ := Option.bind_eq_some_iff.mp hpass
    obtain ⟨predOut, hstore, hpass⟩ := Option.bind_eq_some_iff.mp hpass
    obtain ⟨target, _, hpass⟩ := Option.bind_eq_some_iff.mp hpass
    obtain rfl := Option.some.inj hpass
    exact (length_of_store hstore).trans hbefore

/-- `Forward` of a network that has been nudged. -/
theorem forward_nudged (net : TwoLayerMlp K) {x target hiddenBuf predBuf : List K}
    (hx : x.length = net.inDim) (htarget : target.length = net.outDim)
    (hhidden : hiddenBuf.length = net.hiddenDim) (hpred : predBuf.length = net.outDim) :
    Returns (forward net x target hiddenBuf predBuf) fun result =>
      result.1 = (net.problem x target).loss ∧ result.2.1.length = net.hiddenDim ∧
        result.2.2.length = net.outDim := by
  let vectors : Vectors net :=
    { x, target, hiddenBuf, predBuf
      deltaOutBuf := List.replicate net.outDim 0
      deltaHidBuf := List.replicate net.hiddenDim 0
      x_length := hx
      target_length := htarget
      hiddenBuf_length := hhidden
      predBuf_length := hpred
      deltaOutBuf_length := List.length_replicate
      deltaHidBuf_length := List.length_replicate }
  obtain ⟨result, hresult, hspec⟩ := forward_spec net vectors
  exact ⟨result, hresult, hspec.loss_eq, forward_lengths net vectors hresult⟩

variable (net : TwoLayerMlp K) (vectors : Vectors net) (eps : K)

/-- The loops have come to a weight of each layer. -/
structure NudgedTo (bound : Layer → Nat) (knobs : Knobs K) : Prop where
  same : net.Same knobs.net
  grads : ∀ layer, FilledTo (vectors.problem.slope eps layer)
    (fun place => (net.grads layer).getD place 0) (net.weights layer).length (bound layer)
    (knobs.net.grads layer)
  hiddenBuf_length : knobs.hiddenBuf.length = net.hiddenDim
  predBuf_length : knobs.predBuf.length = net.outDim

variable {net vectors eps} {bound : Layer → Nat} {knobs : Knobs K}

/-- An entry of the gradient is written. -/
theorem NudgedTo.setGrad (h : NudgedTo net vectors eps bound knobs) {layer : Layer} {idx : Nat}
    (hidx : idx < (net.weights layer).length) (hbound : bound layer = idx) {entry : K}
    (hentry : entry = vectors.problem.slope eps layer idx) {hiddenBuf predBuf : List K}
    (hhidden : hiddenBuf.length = net.hiddenDim) (hpred : predBuf.length = net.outDim) :
    NudgedTo net vectors eps (Function.update bound layer (idx + 1))
      ⟨knobs.net.setGrad layer idx entry, hiddenBuf, predBuf⟩ := by
  subst hbound
  refine ⟨h.same.setGrad layer _ entry, fun layer' => ?_, hhidden, hpred⟩
  have hgrads := h.grads layer'
  by_cases hlayer : layer' = layer
  · subst hlayer
    obtain ⟨entries, hentries, hfilled⟩ := hgrads.store hidx hentry
    obtain ⟨_, hset⟩ := Option.ite_none_right_eq_some.mp hentries
    rw [Function.update_self, knobs.net.setGrad_grads_self, Option.some.inj hset]
    exact hfilled
  · rw [Function.update_of_ne hlayer, knobs.net.setGrad_grads_of_ne hlayer]
    exact hgrads

/-- A pass writes the difference quotient of its weight, and puts the weight back. -/
theorem nudgePass_spec (h : NudgedTo net vectors eps bound knobs) {layer : Layer} {idx : Nat}
    (hidx : idx < (net.weights layer).length) (hbound : bound layer = idx) {baseLoss : K}
    (hbase : baseLoss = vectors.problem.loss) :
    Returns (nudgePass vectors.x vectors.target eps baseLoss layer idx knobs)
      (NudgedTo net vectors eps (Function.update bound layer (idx + 1))) := by
  have hweights := h.same.weights_eq layer
  have hidx' : idx < (knobs.net.weights layer).length := hweights ▸ hidx
  obtain ⟨orig, horig⟩ : ∃ orig, (knobs.net.weights layer)[idx]? = some orig :=
    ⟨_, List.getElem?_eq_getElem hidx'⟩
  have hweight : vectors.problem.weight layer idx = orig := by
    have hvalue : (net.weights layer).getD idx 0 = orig := by
      rw [← hweights, List.getD_eq_getElem?_getD, horig, Option.getD_some]
    cases layer <;> exact hvalue
  obtain ⟨hinDim, hhiddenDim, houtDim⟩ := knobs.net.setWeight_dims layer idx (orig + eps)
  refine .bind (.read horig) fun _ heq => heq ▸ ?_
  refine .bind (knobs.net.storeWeight_spec hidx' _) fun _ heq => heq ▸ ?_
  refine .bind (forward_nudged _ (vectors.x_length.trans ?_) (vectors.target_length.trans ?_)
    (h.hiddenBuf_length.trans ?_) (h.predBuf_length.trans ?_)) fun result hresult => ?_
  · rw [hinDim, h.same.inDim_eq]
  · rw [houtDim, h.same.outDim_eq]
  · rw [hhiddenDim, h.same.hiddenDim_eq]
  · rw [houtDim, h.same.outDim_eq]
  · obtain ⟨nudged, hiddenBuf, predBuf⟩ := result
    obtain ⟨(hnudged : nudged = _), (hhidden : hiddenBuf.length = _),
      (hpred : predBuf.length = _)⟩ := hresult
    refine .bind (TwoLayerMlp.storeGrad_spec _ (by simpa using hidx') _) fun _ heq => heq ▸ ?_
    refine .bind (TwoLayerMlp.storeWeight_spec _ (by simpa using hidx') _) fun _ heq => heq ▸ ?_
    rw [knobs.net.restore_weight horig]
    refine .pure (h.setGrad hidx hbound ?_ ?_ ?_)
    · rw [hnudged, hbase, TwoLayerMlp.problem_setWeight _ hidx', h.same.problem_eq, ← hweight]
      rfl
    · rw [hhidden, hhiddenDim, h.same.hiddenDim_eq]
    · rw [hpred, houtDim, h.same.outDim_eq]

/-- The loop over the weights of a layer. -/
theorem layer_spec (layer : Layer) (h : NudgedTo net vectors eps bound knobs)
    (hbound : bound layer = 0) {baseLoss : K} (hbase : baseLoss = vectors.problem.loss) :
    Returns (forLoop 0 (net.weights layer).length 1 knobs
        (nudgePass vectors.x vectors.target eps baseLoss layer))
      (NudgedTo net vectors eps (Function.update bound layer (net.weights layer).length)) := by
  have hstart : NudgedTo net vectors eps (Function.update bound layer 0) knobs := by
    rw [← hbound, Function.update_eq_self]
    exact h
  refine .forEach (fun idx => NudgedTo net vectors eps (Function.update bound layer idx))
    (Nat.zero_le _) hstart fun idx knobs _ hidx hknobs => ?_
  have hnext := nudgePass_spec hknobs hidx (Function.update_self ..) hbase
  rwa [Function.update_idem] at hnext

/-- The loops leave every difference quotient, and the weights as they were. -/
theorem finiteDifferences_spec (net : TwoLayerMlp K) (vectors : Vectors net) (eps : K) :
    Returns (finiteDifferences net vectors eps)
      (NudgedTo net vectors eps fun layer => (net.weights layer).length) := by
  obtain ⟨⟨baseLoss, hiddenBuf, predBuf⟩, hforward, hspec⟩ := forward_spec net vectors
  have hlengths := forward_lengths net vectors hforward
  have hstart : NudgedTo net vectors eps (fun _ => 0) ⟨net, hiddenBuf, predBuf⟩ :=
    ⟨⟨rfl, rfl, rfl, fun _ => rfl⟩, fun layer => net.grads_length layer ▸ .start _ 0,
      hlengths.1, hlengths.2⟩
  refine .bind (returns_eq_iff.mpr hforward) fun _ heq => heq ▸ ?_
  refine .bind (layer_spec .first hstart rfl hspec.loss_eq) fun knobs hfirst => ?_
  have hbound : Function.update (fun _ => 0) Layer.first (net.weights .first).length .second = 0 :=
    rfl
  refine .mono (layer_spec .second hfirst hbound hspec.loss_eq) fun knobs hsecond => ?_
  have hall : Function.update (Function.update (fun _ => 0) Layer.first
      (net.weights .first).length) Layer.second (net.weights .second).length =
        fun layer => (net.weights layer).length := by
    funext layer
    cases layer <;> rfl
  exact hall ▸ hsecond

/-! ## The two gradients -/

/-- What the difference quotients are, beside what `BackwardReverseMode` leaves. -/
structure Agree (net : TwoLayerMlp K) (vectors : Vectors net) (eps : K) (knobs : Knobs K)
    (backward : Backward K) : Prop where
  weights : ∀ layer, knobs.net.weights layer = net.weights layer
  second : ∀ o < net.outDim, ∀ h < net.hiddenDim, ∃ entry,
    backward.gradW2[o * net.hiddenDim + h]? = some entry ∧
    knobs.net.gradW2[o * net.hiddenDim + h]? = some (entry +
      eps * (half * vectors.problem.hidden h * vectors.problem.hidden h / net.outDim))
  active : ∀ h < net.hiddenDim, ∀ i < net.inDim, 0 < vectors.problem.preactivation h →
    0 < vectors.problem.preactivation h + eps * vectors.problem.x i → ∃ entry,
    backward.gradW1[h * net.inDim + i]? = some entry ∧
    knobs.net.gradW1[h * net.inDim + i]? = some (entry +
      eps * (vectors.problem.x i * vectors.problem.x i * vectors.problem.curvature h))
  inactive : ∀ h < net.hiddenDim, ∀ i < net.inDim, vectors.problem.preactivation h ≤ 0 →
    vectors.problem.preactivation h + eps * vectors.problem.x i ≤ 0 →
    knobs.net.gradW1[h * net.inDim + i]? = some 0
  switched : ∀ h < net.hiddenDim, ∀ i < net.inDim,
    knobs.net.gradW1[h * net.inDim + i]? = some (vectors.problem.change eps h i / eps *
      (vectors.problem.upstream h + vectors.problem.change eps h i * vectors.problem.curvature h))

variable [IsStrictOrderedRing K]

/-- The difference quotients are the gradient of `BackwardReverseMode` and a second order term,
unless the nudge takes a unit over its kink. -/
theorem finiteDifferences_agree (net : TwoLayerMlp K) (vectors : Vectors net) {eps : K}
    (heps : eps ≠ 0) :
    Returns (finiteDifferences net vectors eps) fun knobs =>
      Returns (backwardReverseMode net vectors) (Agree net vectors eps knobs) := by
  refine .mono (finiteDifferences_spec net vectors eps) fun knobs hknobs => ?_
  refine .mono (backward_spec net vectors) fun backward hbackward => ?_
  have hfirst : ∀ h < net.hiddenDim, ∀ i < net.inDim,
      knobs.net.gradW1[h * net.inDim + i]? = some (vectors.problem.change eps h i / eps *
        (vectors.problem.upstream h +
          vectors.problem.change eps h i * vectors.problem.curvature h)) := by
    intro h hh i hi
    have hplace : h * net.inDim + i < net.w1.length := net.w1_length ▸ place_lt hh hi
    have hentry := (hknobs.grads .first).new_eq hplace hplace
    exact hentry.trans (congrArg some (vectors.problem.slope_first heps hh hi))
  refine ⟨hknobs.same.weights_eq, fun o ho h hh => ?_, fun h hh i hi hactive hstays => ?_,
    fun h hh i hi hinactive hstays => ?_, hfirst⟩
  · have hplace : o * net.hiddenDim + h < net.w2.length := net.w2_length ▸ place_lt ho hh
    refine ⟨vectors.problem.gradW2 o h, ?_, ?_⟩
    · rw [hbackward.gradW2 _ (place_lt ho hh), Vectors.newGradW2, place_div hh,
        Nat.mul_add_mod_of_lt hh]
    · have hentry := (hknobs.grads .second).new_eq hplace hplace
      exact hentry.trans (congrArg some (vectors.problem.slope_second heps ho hh))
  · refine ⟨vectors.problem.gradW1 h i, ?_, ?_⟩
    · rw [hbackward.gradW1 _ (place_lt hh hi), newGradW1_place hi, if_pos hactive]
    · rw [hfirst h hh i hi, vectors.problem.change_of_active hactive hstays, Problem.gradW1,
        if_pos hactive]
      field_simp
  · rw [hfirst h hh i hi, vectors.problem.change_of_inactive (not_lt.mpr hinactive)
      (not_lt.mpr hstays), zero_div, zero_mul]

/-- A network of three hidden units: the first one is active for the input 2, the second one is not,
and the third one becomes active when its weight grows by 1/10000. -/
def kinkNet : TwoLayerMlp ℚ where
  inDim := 1
  hiddenDim := 3
  outDim := 1
  w1 := [1, -1, -1 / 20000]
  w2 := [2, 3, 5]
  gradW1 := [0, 0, 0]
  gradW2 := [0, 0, 0]
  w1_length := rfl
  w2_length := rfl
  gradW1_length := rfl
  gradW2_length := rfl

/-- A call with the input 2 and the target 7. The buffers still hold what an earlier call left. -/
def kinkCall : Vectors kinkNet where
  x := [2]
  target := [7]
  hiddenBuf := [3, 0, 4]
  predBuf := [18]
  deltaOutBuf := [22]
  deltaHidBuf := [44, 0, 110]
  x_length := rfl
  target_length := rfl
  hiddenBuf_length := rfl
  predBuf_length := rfl
  deltaOutBuf_length := rfl
  deltaHidBuf_length := rfl

theorem finiteDifferences_agree_used :
    (0 < kinkCall.problem.preactivation 0 ∧ kinkCall.problem.curvature 0 = 2 ∧
      kinkCall.problem.preactivation 2 < 0 ∧
      0 < kinkCall.problem.preactivation 2 + 1 / 10000 * kinkCall.problem.x 0) ∧
    Returns (finiteDifferences kinkNet kinkCall (1 / 10000)) fun knobs =>
      Returns (backwardReverseMode kinkNet kinkCall) (Agree kinkNet kinkCall (1 / 10000) knobs) :=
  ⟨by decide +kernel, finiteDifferences_agree kinkNet kinkCall (by norm_num)⟩

end Loops

end HotPath.Learning
