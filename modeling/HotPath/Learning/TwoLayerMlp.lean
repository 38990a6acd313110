import HotPath.Learning.Loss

/-!
# Backpropagation

`Forward` and `BackwardReverseMode` of `TwoLayerMlp`, with exact arithmetic over an ordered field.
The arrays of a call have the sizes that the functions ask for, and may hold anything.

`Forward` computes the loss of the abstract network. `BackwardReverseMode` computes its gradient,
but leaves the row of `grad_w1` of an inactive hidden unit as it was
(`backward_computes_gradient_iff`).
-/

namespace HotPath.Learning

open HotPath.Foundation

/-- `TwoLayerMlp`. Matrices are stored row by row. -/
structure TwoLayerMlp (K : Type) where
  inDim : Nat
  hiddenDim : Nat
  outDim : Nat
  w1 : List K
  w2 : List K
  gradW1 : List K
  gradW2 : List K
  w1_length : w1.length = hiddenDim * inDim
  w2_length : w2.length = outDim * hiddenDim
  gradW1_length : gradW1.length = hiddenDim * inDim
  gradW2_length : gradW2.length = outDim * hiddenDim

/-- The vectors that are passed to `BackwardReverseMode`. -/
structure Vectors {K : Type} (net : TwoLayerMlp K) where
  x : List K
  target : List K
  hiddenBuf : List K
  predBuf : List K
  deltaOutBuf : List K
  deltaHidBuf : List K
  x_length : x.length = net.inDim
  target_length : target.length = net.outDim
  hiddenBuf_length : hiddenBuf.length = net.hiddenDim
  predBuf_length : predBuf.length = net.outDim
  deltaOutBuf_length : deltaOutBuf.length = net.outDim
  deltaHidBuf_length : deltaHidBuf.length = net.hiddenDim

/-- The arrays that `BackwardReverseMode` writes. -/
structure Backward (K : Type) where
  gradW1 : List K
  gradW2 : List K
  hiddenBuf : List K
  predBuf : List K
  deltaOutBuf : List K
  deltaHidBuf : List K
deriving DecidableEq

variable {K : Type} [Field K] [LinearOrder K]

/-- The loop over a sum of products. The weights are at places that depend on the index. -/
def dot (weights : List K) (place : Nat → Nat) (inputs : List K) (count : Nat) : Option K :=
  forLoop 0 count 1 0 fun i sum => do
    return sum + (← load weights (place i)) * (← load inputs i)

/-- `Forward`, which returns the loss and the two vectors that it writes. -/
def forward (net : TwoLayerMlp K) (x target hiddenOut predOut : List K) :
    Option (K × List K × List K) := do
  let hiddenOut ← forLoop 0 net.hiddenDim 1 hiddenOut fun h hiddenOut => do
    let sum ← dot net.w1 (h * net.inDim + ·) x net.inDim
    store hiddenOut h (if 0 < sum then sum else 0)
  let (predOut, loss) ← forLoop 0 net.outDim 1 (predOut, 0) fun o (predOut, loss) => do
    let sum ← dot net.w2 (o * net.hiddenDim + ·) hiddenOut net.hiddenDim
    let predOut ← store predOut o sum
    let diff := sum - (← load target o)
    return (predOut, loss + half * diff * diff)
  return (loss / net.outDim, hiddenOut, predOut)

/-- The pass of the loop over the outputs. -/
def outputPass (net : TwoLayerMlp K) (target hiddenBuf predBuf : List K) (o : Nat)
    (state : List K × List K) : Option (List K × List K) := do
  let (gradW2, deltaOutBuf) := state
  let invOut := 1 / (net.outDim : K)
  let deltaOutBuf ← store deltaOutBuf o (((← load predBuf o) - (← load target o)) * invOut)
  let gradW2 ← forLoop 0 net.hiddenDim 1 gradW2 fun h gradW2 => do
    store gradW2 (o * net.hiddenDim + h) ((← load deltaOutBuf o) * (← load hiddenBuf h))
  return (gradW2, deltaOutBuf)

/-- The pass of the loop over the hidden units. An inactive unit continues with the next one. -/
def hiddenPass (net : TwoLayerMlp K) (x hiddenBuf deltaOutBuf : List K) (h : Nat)
    (state : List K × List K) : Option (List K × List K) := do
  let (gradW1, deltaHidBuf) := state
  if (← load hiddenBuf h) ≤ 0 then
    return (gradW1, ← store deltaHidBuf h 0)
  else
    let upstream ← dot net.w2 (· * net.hiddenDim + h) deltaOutBuf net.outDim
    let deltaHidBuf ← store deltaHidBuf h upstream
    let gradW1 ← forLoop 0 net.inDim 1 gradW1 fun i gradW1 => do
      store gradW1 (h * net.inDim + i) (upstream * (← load x i))
    return (gradW1, deltaHidBuf)

/-- `BackwardReverseMode`. -/
def backwardReverseMode (net : TwoLayerMlp K) (vectors : Vectors net) : Option (Backward K) := do
  let (_, hiddenBuf, predBuf) ←
    forward net vectors.x vectors.target vectors.hiddenBuf vectors.predBuf
  let (gradW2, deltaOutBuf) ← forLoop 0 net.outDim 1 (net.gradW2, vectors.deltaOutBuf)
    (outputPass net vectors.target hiddenBuf predBuf)
  let (gradW1, deltaHidBuf) ← forLoop 0 net.hiddenDim 1 (net.gradW1, vectors.deltaHidBuf)
    (hiddenPass net vectors.x hiddenBuf deltaOutBuf)
  return { gradW1, gradW2, hiddenBuf, predBuf, deltaOutBuf, deltaHidBuf }

/-- The abstract network of a call. -/
def TwoLayerMlp.problem (net : TwoLayerMlp K) (x target : List K) : Problem K where
  inDim := net.inDim
  hiddenDim := net.hiddenDim
  outDim := net.outDim
  w1 := fun place => net.w1.getD place 0
  w2 := fun place => net.w2.getD place 0
  x := fun i => x.getD i 0
  target := fun o => target.getD o 0

/-! ## Forward -/

omit [LinearOrder K] in
theorem dot_spec {weights inputs : List K} {place : Nat → Nat} {count : Nat} {w v : Nat → K}
    (hweights : ∀ i < count, weights[place i]? = some (w i))
    (hinputs : ∀ i < count, inputs[i]? = some (v i)) :
    Returns (dot weights place inputs count) (· = ∑ i ∈ Finset.range count, w i * v i) := by
  refine .forEach (fun i sum => sum = ∑ j ∈ Finset.range i, w j * v j) (Nat.zero_le _) rfl
    fun i sum _ hi hsum => ?_
  refine .bind (.read (hweights i hi)) fun weight hweight => ?_
  refine .bind (.read (hinputs i hi)) fun input hinput => .pure ?_
  rw [hsum, hweight, hinput, Finset.sum_range_succ]

variable (net : TwoLayerMlp K) (vectors : Vectors net)

/-- The abstract network of a call. -/
def Vectors.problem {net : TwoLayerMlp K} (vectors : Vectors net) : Problem K :=
  net.problem vectors.x vectors.target

omit [LinearOrder K] in
/-- An element of an array is a value of its function. -/
theorem getElem?_of_lt {values : List K} {size i : Nat} (hsize : values.length = size)
    (hi : i < size) : values[i]? = some (values.getD i 0) := by
  rw [List.getD_eq_getElem?_getD, List.getElem?_eq_getElem (by omega), Option.getD_some]

/-- What `Forward` returns and writes. -/
structure ForwardSpec (result : K × List K × List K) : Prop where
  loss_eq : result.1 = vectors.problem.loss
  hidden : ∀ h < net.hiddenDim, result.2.1[h]? = some (vectors.problem.hidden h)
  prediction : ∀ o < net.outDim, result.2.2[o]? = some (vectors.problem.prediction o)

/-- `Forward` returns the loss of the abstract network, whatever its buffers hold. -/
theorem forward_spec :
    Returns (forward net vectors.x vectors.target vectors.hiddenBuf vectors.predBuf)
      (ForwardSpec net vectors) := by
  have hhiddenBuf := vectors.hiddenBuf_length
  have hpredBuf := vectors.predBuf_length
  have hfirst : FilledTo vectors.problem.hidden (fun h => vectors.hiddenBuf.getD h 0)
      net.hiddenDim 0 vectors.hiddenBuf := hhiddenBuf ▸ .start vectors.hiddenBuf 0
  refine .bind (.forEach (FilledTo vectors.problem.hidden _ net.hiddenDim) (Nat.zero_le _) hfirst
    fun h hiddenOut _ hh hfilled => ?_) fun hiddenOut hhidden => ?_
  · refine .bind (dot_spec (fun i hi => getElem?_of_lt net.w1_length (place_lt hh hi))
      fun i hi => getElem?_of_lt vectors.x_length hi) fun sum hsum => ?_
    exact hfilled.store hh (by rw [hsum]; rfl)
  · have hsecond : FilledTo vectors.problem.prediction (fun o => vectors.predBuf.getD o 0)
        net.outDim 0 vectors.predBuf ∧ (0 : K) = ∑ o ∈ Finset.range 0,
          vectors.problem.squaredError o :=
      ⟨hpredBuf ▸ .start vectors.predBuf 0, rfl⟩
    refine .bind (.forEach (fun o state => FilledTo vectors.problem.prediction _ net.outDim o
      state.1 ∧ state.2 = ∑ j ∈ Finset.range o, vectors.problem.squaredError j) (Nat.zero_le _)
      hsecond fun o state _ ho hstate => ?_) fun state hstate => .pure ?_
    · obtain ⟨predOut, loss⟩ := state
      obtain ⟨hfilled, hloss⟩ := hstate
      refine .bind (dot_spec (fun h hh => getElem?_of_lt net.w2_length (place_lt ho hh))
        fun h hh => hhidden.new_eq hh hh) fun sum hsum => ?_
      refine .bind (hfilled.store ho hsum) fun predOut hpredOut => ?_
      refine .bind (.read (getElem?_of_lt vectors.target_length ho)) fun target htarget => ?_
      refine .pure ⟨hpredOut, ?_⟩
      rw [Finset.sum_range_succ, ← hloss, hsum, htarget]
      rfl
    · exact ⟨by rw [hstate.2]; rfl, fun h hh => hhidden.new_eq hh hh,
        fun o ho => hstate.1.new_eq ho ho⟩

/-! ## Backward -/

/-- The values of `grad_w2` after a call. -/
def Vectors.newGradW2 {net : TwoLayerMlp K} (vectors : Vectors net) (place : Nat) : K :=
  vectors.problem.gradW2 (place / net.hiddenDim) (place % net.hiddenDim)

/-- The values of `grad_w1` after a call. The rows of inactive units keep theirs. -/
def Vectors.newGradW1 {net : TwoLayerMlp K} (vectors : Vectors net) (place : Nat) : K :=
  if 0 < vectors.problem.preactivation (place / net.inDim) then
    vectors.problem.gradW1 (place / net.inDim) (place % net.inDim)
  else net.gradW1.getD place 0

/-- The values of `delta_hid_buf` after a call. -/
def Vectors.newDeltaHid {net : TwoLayerMlp K} (vectors : Vectors net) (h : Nat) : K :=
  if 0 < vectors.problem.preactivation h then vectors.problem.upstream h else 0

/-- The loop over the outputs has come to an output. -/
def OutputsTo (o : Nat) (state : List K × List K) : Prop :=
  FilledTo vectors.newGradW2 (fun place => net.gradW2.getD place 0)
      (net.outDim * net.hiddenDim) (o * net.hiddenDim) state.1 ∧
    FilledTo vectors.problem.delta (fun o => vectors.deltaOutBuf.getD o 0) net.outDim o state.2

/-- The loop over the hidden units has come to a unit. -/
def UnitsTo (h : Nat) (state : List K × List K) : Prop :=
  FilledTo vectors.newGradW1 (fun place => net.gradW1.getD place 0)
      (net.hiddenDim * net.inDim) (h * net.inDim) state.1 ∧
    FilledTo vectors.newDeltaHid (fun h => vectors.deltaHidBuf.getD h 0) net.hiddenDim h state.2

variable {net vectors} {hiddenBuf predBuf deltaOutBuf : List K}

/-- A pass of the loop over the outputs writes a row of `grad_w2`. -/
theorem outputPass_spec {o : Nat} {state : List K × List K} (ho : o < net.outDim)
    (hhidden : ∀ h < net.hiddenDim, hiddenBuf[h]? = some (vectors.problem.hidden h))
    (hpred : ∀ o < net.outDim, predBuf[o]? = some (vectors.problem.prediction o))
    (hstate : OutputsTo net vectors o state) :
    Returns (outputPass net vectors.target hiddenBuf predBuf o state)
      (OutputsTo net vectors (o + 1)) := by
  obtain ⟨gradW2, deltaOut⟩ := state
  obtain ⟨hgrad, hdelta⟩ := hstate
  refine .bind (.read (hpred o ho)) fun pred hpred => ?_
  refine .bind (.read (getElem?_of_lt vectors.target_length ho)) fun target htarget => ?_
  have hvalue : (pred - target) * (1 / (net.outDim : K)) = vectors.problem.delta o := by
    rw [mul_one_div, hpred, htarget]
    rfl
  refine .bind (hdelta.store ho hvalue) fun deltaOut hdeltaOut => ?_
  have hrow : FilledTo vectors.newGradW2 (fun place => net.gradW2.getD place 0)
      (net.outDim * net.hiddenDim) (o * net.hiddenDim + 0) gradW2 := hgrad
  refine .bind (.forEach (fun h => FilledTo vectors.newGradW2 _ (net.outDim * net.hiddenDim)
    (o * net.hiddenDim + h)) (Nat.zero_le _) hrow fun h gradW2 _ hh hfilled => ?_)
    fun gradW2 hfilled => .pure ⟨?_, hdeltaOut⟩
  · refine .bind (.read (hdeltaOut.new_eq (Nat.lt_succ_self o) ho)) fun delta hdelta => ?_
    refine .bind (.read (hhidden h hh)) fun hidden hhidden => ?_
    refine hfilled.store (place_lt ho hh) ?_
    rw [hdelta, hhidden, Vectors.newGradW2, place_div hh, Nat.mul_add_mod_of_lt hh]
    rfl
  · rw [Nat.succ_mul]
    exact hfilled

theorem hidden_nonpos_iff (p : Problem K) (h : Nat) :
    p.hidden h ≤ 0 ↔ ¬ 0 < p.preactivation h := by
  unfold Problem.hidden
  split
  · rename_i hpos
    simp [hpos]
  · rename_i hneg
    simp [hneg]

/-- The loop of an active unit writes its row of `grad_w1`. -/
theorem row_spec {h : Nat} {gradW1 : List K} {upstream : K} (hh : h < net.hiddenDim)
    (hactive : 0 < vectors.problem.preactivation h)
    (hupstream : upstream = vectors.problem.upstream h)
    (hgrad : FilledTo vectors.newGradW1 (fun place => net.gradW1.getD place 0)
      (net.hiddenDim * net.inDim) (h * net.inDim) gradW1) :
    Returns (forLoop 0 net.inDim 1 gradW1 fun i gradW1 => do
        store gradW1 (h * net.inDim + i) (upstream * (← load vectors.x i)))
      (FilledTo vectors.newGradW1 (fun place => net.gradW1.getD place 0)
        (net.hiddenDim * net.inDim) ((h + 1) * net.inDim)) := by
  rw [Nat.succ_mul]
  refine .forEach (fun i => FilledTo vectors.newGradW1 _ (net.hiddenDim * net.inDim)
    (h * net.inDim + i)) (Nat.zero_le _) hgrad fun i gradW1 _ hi hfilled => ?_
  refine .bind (.read (getElem?_of_lt vectors.x_length hi)) fun x hx => ?_
  refine hfilled.store (place_lt hh hi) ?_
  rw [Vectors.newGradW1, place_div hi, Nat.mul_add_mod_of_lt hi, if_pos hactive, Problem.gradW1,
    if_pos hactive, hupstream, hx, mul_comm]
  rfl

/-- A pass of the loop over the hidden units writes a row of `grad_w1`, or leaves it. -/
theorem hiddenPass_spec {h : Nat} {state : List K × List K} (hh : h < net.hiddenDim)
    (hhidden : ∀ h < net.hiddenDim, hiddenBuf[h]? = some (vectors.problem.hidden h))
    (hdelta : ∀ o < net.outDim, deltaOutBuf[o]? = some (vectors.problem.delta o))
    (hstate : UnitsTo net vectors h state) :
    Returns (hiddenPass net vectors.x hiddenBuf deltaOutBuf h state)
      (UnitsTo net vectors (h + 1)) := by
  obtain ⟨gradW1, deltaHid⟩ := state
  obtain ⟨hgrad, hdeltaHid⟩ := hstate
  refine .bind (.read (hhidden h hh)) fun hidden hvalue => ?_
  have hactive : hidden ≤ 0 ↔ ¬ 0 < vectors.problem.preactivation h := by
    rw [hvalue]
    exact hidden_nonpos_iff _ h
  by_cases hpos : 0 < vectors.problem.preactivation h
  · rw [if_neg (by simpa [hactive] using hpos)]
    refine .bind (dot_spec (fun o ho => getElem?_of_lt net.w2_length (place_lt ho hh))
      hdelta) fun upstream hupstream => ?_
    refine .bind (hdeltaHid.store hh ?_) fun deltaHid hdeltaHid => ?_
    · rw [Vectors.newDeltaHid, if_pos hpos, hupstream]
      rfl
    · exact .bind (row_spec hh hpos hupstream hgrad) fun gradW1 hfilled =>
        .pure ⟨hfilled, hdeltaHid⟩
  · rw [if_pos (hactive.mpr hpos)]
    refine .bind (hdeltaHid.store hh ?_) fun deltaHid hdeltaHid => .pure ⟨?_, hdeltaHid⟩
    · rw [Vectors.newDeltaHid, if_neg hpos]
    · refine hgrad.skip (Nat.mul_le_mul_right _ (Nat.le_succ h)) fun place hfirst hlast => ?_
      have hrow : place / net.inDim = h :=
        Nat.div_eq_of_lt_le hfirst hlast
      rw [Vectors.newGradW1, hrow, if_neg hpos]

/-- What `BackwardReverseMode` leaves in the gradients. -/
structure BackwardSpec (net : TwoLayerMlp K) (vectors : Vectors net) (result : Backward K) :
    Prop where
  gradW1 : ∀ place < net.hiddenDim * net.inDim,
    result.gradW1[place]? = some (vectors.newGradW1 place)
  gradW2 : ∀ place < net.outDim * net.hiddenDim,
    result.gradW2[place]? = some (vectors.newGradW2 place)

theorem backward_spec (net : TwoLayerMlp K) (vectors : Vectors net) :
    Returns (backwardReverseMode net vectors) (BackwardSpec net vectors) := by
  refine .bind (forward_spec net vectors) fun result hforward => ?_
  have houtputs : OutputsTo net vectors 0 (net.gradW2, vectors.deltaOutBuf) := by
    rw [OutputsTo, Nat.zero_mul]
    exact ⟨net.gradW2_length ▸ .start net.gradW2 0,
      vectors.deltaOutBuf_length ▸ .start vectors.deltaOutBuf 0⟩
  have hunits : UnitsTo net vectors 0 (net.gradW1, vectors.deltaHidBuf) := by
    rw [UnitsTo, Nat.zero_mul]
    exact ⟨net.gradW1_length ▸ .start net.gradW1 0,
      vectors.deltaHidBuf_length ▸ .start vectors.deltaHidBuf 0⟩
  refine .bind (.forEach (OutputsTo net vectors) (Nat.zero_le _) houtputs
    fun o state _ ho hstate => outputPass_spec ho hforward.hidden hforward.prediction hstate)
    fun outputs houtputs => ?_
  refine .bind (.forEach (UnitsTo net vectors) (Nat.zero_le _) hunits
    fun h state _ hh hstate => hiddenPass_spec hh hforward.hidden
      (fun o ho => houtputs.2.new_eq ho ho) hstate) fun units hunits => .pure ?_
  exact ⟨fun place hplace => hunits.1.new_eq hplace hplace,
    fun place hplace => houtputs.1.new_eq hplace hplace⟩

/-! ## The gradient -/

/-- The arrays hold the gradient of the loss. -/
structure ComputesGradient (net : TwoLayerMlp K) (vectors : Vectors net) (result : Backward K) :
    Prop where
  gradW1 : ∀ h < net.hiddenDim, ∀ i < net.inDim,
    result.gradW1[h * net.inDim + i]? = some (vectors.problem.gradW1 h i)
  gradW2 : ∀ o < net.outDim, ∀ h < net.hiddenDim,
    result.gradW2[o * net.hiddenDim + h]? = some (vectors.problem.gradW2 o h)

theorem newGradW1_place {h i : Nat} (hi : i < net.inDim) :
    vectors.newGradW1 (h * net.inDim + i) =
      if 0 < vectors.problem.preactivation h then vectors.problem.gradW1 h i
      else net.gradW1.getD (h * net.inDim + i) 0 := by
  rw [Vectors.newGradW1, place_div hi, Nat.mul_add_mod_of_lt hi]

/-- `BackwardReverseMode` computes the gradient if `grad_w1` is zero before the call in the rows of
the units that are inactive. -/
theorem computesGradient_of_zero
    (hzero : ∀ h < net.hiddenDim, vectors.problem.preactivation h ≤ 0 →
      ∀ i < net.inDim, net.gradW1.getD (h * net.inDim + i) 0 = 0) :
    Returns (backwardReverseMode net vectors) (ComputesGradient net vectors) := by
  obtain ⟨result, hresult, hspec⟩ := backward_spec net vectors
  refine ⟨result, hresult, ⟨fun h hh i hi => ?_, fun o ho h hh => ?_⟩⟩
  · rw [hspec.gradW1 _ (place_lt hh hi), newGradW1_place hi]
    by_cases hactive : 0 < vectors.problem.preactivation h
    · rw [if_pos hactive]
    · rw [if_neg hactive, hzero h hh (not_lt.mp hactive) i hi, Problem.gradW1, if_neg hactive]
  · rw [hspec.gradW2 _ (place_lt ho hh), Vectors.newGradW2, place_div hh,
      Nat.mul_add_mod_of_lt hh]

/-- Over the reals the entries are the partial derivatives of the loss by the weights, as long as no
unit is at its kink. -/
theorem ComputesGradient.hasDerivAt {net : TwoLayerMlp ℝ} {vectors : Vectors net}
    {result : Backward ℝ} (hgradient : ComputesGradient net vectors result)
    (hkink : ∀ h < net.hiddenDim, vectors.problem.preactivation h ≠ 0) :
    (∀ h < net.hiddenDim, ∀ i < net.inDim, ∃ entry,
      result.gradW1[h * net.inDim + i]? = some entry ∧
      HasDerivAt (fun weight => (vectors.problem.withW1 (h * net.inDim + i) weight).loss) entry
        (vectors.problem.w1 (h * net.inDim + i))) ∧
    ∀ o < net.outDim, ∀ h < net.hiddenDim, ∃ entry,
      result.gradW2[o * net.hiddenDim + h]? = some entry ∧
      HasDerivAt (fun weight => (vectors.problem.withW2 (o * net.hiddenDim + h) weight).loss) entry
        (vectors.problem.w2 (o * net.hiddenDim + h)) := by
  refine ⟨fun h hh i hi => ⟨_, hgradient.gradW1 h hh i hi, ?_⟩,
    fun o ho h hh => ⟨_, hgradient.gradW2 o ho h hh, ?_⟩⟩
  · exact Problem.hasDerivAt_w1 vectors.problem hh hi (hkink h hh)
  · exact Problem.hasDerivAt_w2 vectors.problem ho hh

/-- `BackwardReverseMode` computes the gradient if and only if `grad_w1` is zero before the call in
the rows of the units that are inactive. -/
theorem backward_computes_gradient_iff (net : TwoLayerMlp K) (vectors : Vectors net) :
    Returns (backwardReverseMode net vectors) (ComputesGradient net vectors) ↔
      ∀ h < net.hiddenDim, vectors.problem.preactivation h ≤ 0 →
        ∀ i < net.inDim, net.gradW1.getD (h * net.inDim + i) 0 = 0 := by
  refine ⟨?_, computesGradient_of_zero⟩
  rintro ⟨result, hresult, hgradient⟩ h hh hinactive i hi
  obtain ⟨result', hresult', hspec⟩ := backward_spec net vectors
  obtain rfl : result = result' := Option.some.inj (hresult.symm.trans hresult')
  have hvalue := hspec.gradW1 _ (place_lt hh hi)
  rw [hgradient.gradW1 h hh i hi, newGradW1_place hi, if_neg (not_lt.mpr hinactive),
    Problem.gradW1, if_neg (not_lt.mpr hinactive)] at hvalue
  exact (Option.some.inj hvalue).symm

/-- A network of one unit in each layer, after a call with the input 1. -/
def usedNet : TwoLayerMlp ℚ where
  inDim := 1
  hiddenDim := 1
  outDim := 1
  w1 := [1]
  w2 := [1]
  gradW1 := [1]
  gradW2 := [1]
  w1_length := rfl
  w2_length := rfl
  gradW1_length := rfl
  gradW2_length := rfl

/-- A call with the input -1, which leaves the hidden unit inactive. -/
def inactiveCall : Vectors usedNet where
  x := [-1]
  target := [0]
  hiddenBuf := [1]
  predBuf := [1]
  deltaOutBuf := [1]
  deltaHidBuf := [1]
  x_length := rfl
  target_length := rfl
  hiddenBuf_length := rfl
  predBuf_length := rfl
  deltaOutBuf_length := rfl
  deltaHidBuf_length := rfl

/-- The second call leaves the gradient of the first one. -/
theorem stale_gradient :
    ¬ Returns (backwardReverseMode usedNet inactiveCall)
      (ComputesGradient usedNet inactiveCall) := by
  rintro ⟨result, hresult, hgradient⟩
  have hcode : backwardReverseMode usedNet inactiveCall =
      some ⟨[1], [0], [0], [0], [0], [0]⟩ := by decide +kernel
  obtain rfl := Option.some.inj (hresult.symm.trans hcode)
  have hentry : inactiveCall.problem.gradW1 0 0 = 0 := by decide +kernel
  have hvalue := hgradient.gradW1 0 (by decide) 0 (by decide)
  rw [hentry] at hvalue
  exact absurd hvalue (by decide)

end HotPath.Learning
