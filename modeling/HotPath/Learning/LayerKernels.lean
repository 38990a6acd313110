import HotPath.Foundation.Loops
import Mathlib.Algebra.Ring.Int.Defs

/-!
# A layer applied to a batch

The product of the weights of a layer with every sample of a batch: sample by sample
(`BM_PureSGD_Batch1_GEMV_64Samples`), and tile by tile of the weights, so that a tile is loaded
once for all samples (`BM_MiniBatch64_Tiled_GEMM_64Samples`). The numbers may be of any type with an
addition, a multiplication and a zero, and no law is asked of them. So the two agree also where
the operations round (`tiledGemm_eq`).
-/

namespace HotPath.Learning

open HotPath.Foundation

/-- The arrays that the loops read. Matrices are stored row by row. -/
structure Batch (K : Type) where
  batchSize : Nat
  inDim : Nat
  outDim : Nat
  w : List K
  x : List K
  batchSize_pos : 0 < batchSize
  inDim_pos : 0 < inDim
  outDim_pos : 0 < outDim
  w_length : w.length = outDim * inDim
  x_length : x.length = batchSize * inDim

namespace Batch

variable {K : Type} [Add K] [Mul K] [Zero K]

/-- The innermost loop, which adds to a sum. -/
def accumulate (b : Batch K) (sample row first last : Nat) (sum : K) : Option K :=
  forLoop first last 1 sum fun i sum => do
    return sum + (← load b.w (row * b.inDim + i)) * (← load b.x (sample * b.inDim + i))

/-- The samples one by one. -/
def pureSgdGemv (b : Batch K) (out : List K) : Option (List K) :=
  forLoop 0 b.batchSize 1 out fun sample out =>
    forLoop 0 b.outDim 1 out fun o out => do
      store out (sample * b.outDim + o) (← accumulate b sample o 0 b.inDim 0)

/-- A tile of the weights for one sample. -/
def tilePass (b : Batch K) (tile o0 i0 sample : Nat) (out : List K) : Option (List K) :=
  forLoop o0 (o0 + tile) 1 out fun o out => do
    let sum ← load out (sample * b.outDim + o)
    store out (sample * b.outDim + o) (← accumulate b sample o i0 (i0 + tile) sum)

/-- The tiles one by one, each of them for all samples. -/
def miniBatchTiledGemm (b : Batch K) (tile : Nat) (out : List K) : Option (List K) :=
  forLoop 0 b.outDim tile (List.replicate out.length 0) fun o0 out =>
    forLoop 0 b.inDim tile out fun i0 out =>
      forLoop 0 b.batchSize 1 out fun sample out => tilePass b tile o0 i0 sample out

/-! ## Partial sums -/

/-- The sum over the first inputs, in their order. -/
def partialSum (b : Batch K) (sample o : Nat) : Nat → K
  | 0 => 0
  | i + 1 => partialSum b sample o i +
      b.w.getD (o * b.inDim + i) 0 * b.x.getD (sample * b.inDim + i) 0

variable (b : Batch K) {tile sample o : Nat} {out : List K}

/-- The innermost loop takes a partial sum to the next one. -/
theorem accumulate_spec {first last : Nat} (hsample : sample < b.batchSize) (ho : o < b.outDim)
    (hle : first ≤ last) (hlast : last ≤ b.inDim) :
    Returns (b.accumulate sample o first last (b.partialSum sample o first))
      (· = b.partialSum sample o last) := by
  refine .forEach (fun i sum => sum = b.partialSum sample o i) hle rfl
    fun i sum _ hi hsum => ?_
  have hi : i < b.inDim := by omega
  refine .bind (.load_getD 0 b.w_length (place_lt ho hi)) fun weight hweight => ?_
  refine .bind (.load_getD 0 b.x_length (place_lt hsample hi)) fun input hinput => .pure ?_
  rw [hsum, hweight, hinput]
  rfl

/-- Every entry of the output is a partial sum, over a number of inputs that depends on its
place. -/
structure SumsTo (depth : Nat → Nat → Nat) (out : List K) : Prop where
  length_eq : out.length = b.batchSize * b.outDim
  entry : ∀ sample < b.batchSize, ∀ o < b.outDim,
    out[sample * b.outDim + o]? = some (b.partialSum sample o (depth sample o))

variable {b}

theorem SumsTo.congr {depth depth' : Nat → Nat → Nat} (h : SumsTo b depth out)
    (hsame : ∀ sample < b.batchSize, ∀ o < b.outDim, depth sample o = depth' sample o) :
    SumsTo b depth' out :=
  ⟨h.length_eq, fun sample hsample o ho => by
    rw [h.entry sample hsample o ho, hsame sample hsample o ho]⟩

/-- One entry is replaced by another partial sum. -/
theorem SumsTo.store {depth depth' : Nat → Nat → Nat} (h : SumsTo b depth out) {value : K}
    (hsample : sample < b.batchSize) (ho : o < b.outDim)
    (hvalue : value = b.partialSum sample o (depth' sample o))
    (hother : ∀ sample' o', ¬ (sample' = sample ∧ o' = o) →
      depth sample' o' = depth' sample' o') :
    Returns (store out (sample * b.outDim + o) value) (SumsTo b depth') := by
  have hlength := h.length_eq
  have hplace := place_lt hsample ho
  refine .store (by omega) ⟨by rw [List.length_set, hlength], fun sample' hsample' o' ho' => ?_⟩
  by_cases hsame : sample' = sample ∧ o' = o
  · obtain ⟨rfl, rfl⟩ := hsame
    rw [List.getElem?_set_self (by omega), hvalue]
  · have hne : sample * b.outDim + o ≠ sample' * b.outDim + o' := fun heq =>
      hsame ((place_inj ho' ho).mp heq.symm)
    rw [List.getElem?_set_ne hne, h.entry sample' hsample' o' ho', hother sample' o' hsame]

/-- An output of complete sums has no other values. -/
theorem SumsTo.unique {out' : List K} (h : SumsTo b (fun _ _ => b.inDim) out)
    (h' : SumsTo b (fun _ _ => b.inDim) out') : out = out' := by
  have hlength := h.length_eq
  have hlength' := h'.length_eq
  refine List.ext_getElem? fun place => ?_
  by_cases hplace : place < b.batchSize * b.outDim
  · have hsample : place / b.outDim < b.batchSize :=
      Nat.div_lt_of_lt_mul (by rwa [Nat.mul_comm])
    have ho : place % b.outDim < b.outDim := Nat.mod_lt _ b.outDim_pos
    have hsplit : place / b.outDim * b.outDim + place % b.outDim = place := Nat.div_add_mod' _ _
    have hentry := h.entry _ hsample _ ho
    have hentry' := h'.entry _ hsample _ ho
    rw [hsplit] at hentry hentry'
    rw [hentry, hentry']
  · rw [List.getElem?_eq_none (by omega), List.getElem?_eq_none (by omega)]

/-! ## The samples one by one -/

/-- The complete sum of a place. -/
def product (b : Batch K) (place : Nat) : K :=
  b.partialSum (place / b.outDim) (place % b.outDim) b.inDim

/-- The loops over the samples leave the complete sums, whatever the output held. -/
theorem pureSgdGemv_spec (b : Batch K) (hout : out.length = b.batchSize * b.outDim) :
    Returns (b.pureSgdGemv out) (SumsTo b fun _ _ => b.inDim) := by
  have hstart : FilledTo b.product (fun place => out.getD place 0) (b.batchSize * b.outDim)
      (0 * b.outDim) out := by
    rw [Nat.zero_mul]
    exact hout ▸ .start out 0
  refine .mono (.forEach (fun sample => FilledTo b.product (fun place => out.getD place 0)
    (b.batchSize * b.outDim) (sample * b.outDim)) (Nat.zero_le _) hstart
    fun sample out' _ hsample hfilled => ?_) fun out' hfilled => ⟨hfilled.length_eq, ?_⟩
  · rw [Nat.succ_mul]
    refine .forEach (fun o => FilledTo b.product (fun place => out.getD place 0)
      (b.batchSize * b.outDim) (sample * b.outDim + o)) (Nat.zero_le _) hfilled
      fun o out' _ ho hfilled => ?_
    refine .bind (b.accumulate_spec hsample ho (Nat.zero_le _) (Nat.le_refl _))
      fun sum hsum => hfilled.store (place_lt hsample ho) ?_
    rw [hsum, product, place_div ho, Nat.mul_add_mod_of_lt ho]
  · intro sample hsample o ho
    have hplace := place_lt hsample ho
    rw [hfilled.new_eq hplace hplace, product, place_div ho, Nat.mul_add_mod_of_lt ho]

/-! ## The tiles one by one -/

/-- How many inputs an entry has summed up, when the loops have come to a pass. -/
def depthAt (b : Batch K) (tile o0 i0 sample o : Nat) (sample' o' : Nat) : Nat :=
  if o' < o0 then b.inDim
  else if o0 + tile ≤ o' then 0
  else if sample' < sample ∨ (sample' = sample ∧ o' < o) then i0 + tile
  else i0

/-- A pass over a tile of the weights adds its inputs to the entries of a sample. -/
theorem tilePass_spec {o0 i0 : Nat} (hsample : sample < b.batchSize) (ho0 : o0 + tile ≤ b.outDim)
    (hi0 : i0 + tile ≤ b.inDim) (hout : SumsTo b (b.depthAt tile o0 i0 sample o0) out) :
    Returns (b.tilePass tile o0 i0 sample out)
      (SumsTo b (b.depthAt tile o0 i0 (sample + 1) o0)) := by
  refine .mono (.forEach (fun o => SumsTo b (b.depthAt tile o0 i0 sample o)) (by omega) hout
    fun o out hfirst hlast hout => ?_) fun out hout => hout.congr ?_
  · have ho : o < b.outDim := by omega
    refine .bind (.read (hout.entry sample hsample o ho)) fun sum hsum => ?_
    have hdepth : b.depthAt tile o0 i0 sample o sample o = i0 := by
      rw [depthAt, if_neg (by omega), if_neg (by omega), if_neg (by omega)]
    rw [hsum, hdepth]
    refine .bind (b.accumulate_spec hsample ho (by omega) hi0) fun sum hsum =>
      hout.store hsample ho ?_ fun sample' o' hother => ?_
    · rw [hsum, depthAt, if_neg (by omega), if_neg (by omega), if_pos (by omega)]
    · have hiff : (sample' = sample ∧ o' < o) ↔ (sample' = sample ∧ o' < o + 1) := by omega
      simp only [depthAt, hiff]
  · intro sample' _ o' _
    unfold depthAt
    split
    · rfl
    · split
      · rfl
      · have hiff : (sample' < sample ∨ (sample' = sample ∧ o' < o0 + tile)) ↔
            (sample' < sample + 1 ∨ (sample' = sample + 1 ∧ o' < o0)) := by omega
        simp only [hiff]

/-- The loop over the samples adds the inputs of a tile to all entries of its rows. -/
theorem samples_spec {o0 i0 : Nat} (ho0 : o0 + tile ≤ b.outDim) (hi0 : i0 + tile ≤ b.inDim)
    (hout : SumsTo b (b.depthAt tile o0 i0 0 o0) out) :
    Returns (forLoop 0 b.batchSize 1 out fun sample out => b.tilePass tile o0 i0 sample out)
      (SumsTo b (b.depthAt tile o0 (i0 + tile) 0 o0)) := by
  refine .mono (.forEach (fun sample => SumsTo b (b.depthAt tile o0 i0 sample o0))
    (Nat.zero_le _) hout fun sample out _ hsample hout => tilePass_spec hsample ho0 hi0 hout)
    fun out hout => hout.congr fun sample hsample o _ => ?_
  unfold depthAt
  split
  · rfl
  · split
    · rfl
    · rw [if_pos (by omega), if_neg (by omega)]

/-- The loop over the inputs completes the entries of the rows of a tile. -/
theorem rows_spec {o0 : Nat} (htile : 0 < tile) (ho0 : o0 + tile ≤ b.outDim)
    (hdvd : tile ∣ b.inDim) (hout : SumsTo b (b.depthAt tile o0 0 0 o0) out) :
    Returns (forLoop 0 b.inDim tile out fun i0 out =>
        forLoop 0 b.batchSize 1 out fun sample out => b.tilePass tile o0 i0 sample out)
      (SumsTo b (b.depthAt tile (o0 + tile) 0 0 (o0 + tile))) := by
  refine .mono (.forLoop (fun i0 => SumsTo b (b.depthAt tile o0 i0 0 o0)) htile (Nat.zero_le _)
    (by simpa using hdvd) hout fun i0 out _ hi0 _ hout => samples_spec ho0 hi0 hout)
    fun out hout => hout.congr fun sample _ o _ => ?_
  unfold depthAt
  by_cases hrow : o < o0
  · rw [if_pos hrow, if_pos (by omega)]
  · by_cases hlast : o0 + tile ≤ o
    · have hnext : ¬ (sample < 0 ∨ (sample = 0 ∧ o < o0 + tile)) := by omega
      rw [if_neg hrow, if_pos hlast, if_neg (by omega), if_neg hnext, ite_self]
    · rw [if_neg hrow, if_neg hlast, if_neg (by omega), if_pos (by omega)]

/-- The tiled loops leave the complete sums, if the tiles cover the matrix exactly. -/
theorem tiledGemm_spec (b : Batch K) (htile : 0 < tile) (hrows : tile ∣ b.outDim)
    (hcols : tile ∣ b.inDim) (hout : out.length = b.batchSize * b.outDim) :
    Returns (b.miniBatchTiledGemm tile out) (SumsTo b fun _ _ => b.inDim) := by
  have hstart : SumsTo b (b.depthAt tile 0 0 0 0) (List.replicate out.length 0) := by
    refine ⟨by rw [List.length_replicate, hout], fun sample hsample o ho => ?_⟩
    have hplace := place_lt hsample ho
    have hdepth : b.depthAt tile 0 0 0 0 sample o = 0 := by simp [depthAt]
    rw [hdepth, List.getElem?_replicate, if_pos (by omega)]
    rfl
  refine .mono (.forLoop (fun o0 => SumsTo b (b.depthAt tile o0 0 0 o0)) htile (Nat.zero_le _)
    (by simpa using hrows) hstart fun o0 out _ ho0 _ hout => rows_spec htile ho0 hcols hout)
    fun out hout => hout.congr fun sample _ o ho => ?_
  rw [depthAt, if_pos ho]

/-! ## Tiles that do not cover the matrix exactly -/

omit [Add K] [Mul K] [Zero K] in
/-- A row below the matrix is not there. -/
theorem load_w_eq_none {row i : Nat} (hrow : b.outDim ≤ row) :
    load b.w (row * b.inDim + i) = none := by
  have hbelow : b.outDim * b.inDim ≤ row * b.inDim := Nat.mul_le_mul_right _ hrow
  have hlength := b.w_length
  exact List.getElem?_eq_none (by omega)

omit [Add K] [Mul K] [Zero K] in
/-- A place right of the last row is not there either. -/
theorem load_w_last_eq_none {i : Nat} (hi : b.inDim ≤ i) :
    load b.w ((b.outDim - 1) * b.inDim + i) = none := by
  have hpos := b.outDim_pos
  have hlast : (b.outDim - 1) * b.inDim + b.inDim = b.outDim * b.inDim := by
    rw [← Nat.succ_mul]
    congr 1
    omega
  have hlength := b.w_length
  exact List.getElem?_eq_none (by omega)

omit [Zero K] in
theorem accumulate_eq_none {row first last i : Nat} (hfirst : first ≤ i) (hlast : i < last)
    (h : load b.w (row * b.inDim + i) = none) (sum : K) :
    b.accumulate sample row first last sum = none := by
  refine forLoop_eq_none (mem_forIndices Nat.one_pos hfirst hlast (Nat.one_dvd _)) fun sum => ?_
  rw [h]
  rfl

omit [Zero K] in
/-- A pass that reads a weight outside of the matrix fails. -/
theorem tilePass_eq_none {o0 i0 i : Nat} (ho : o0 ≤ o) (ho' : o < o0 + tile) (hi : i0 ≤ i)
    (hi' : i < i0 + tile) (h : load b.w (o * b.inDim + i) = none) (out : List K) :
    b.tilePass tile o0 i0 sample out = none := by
  refine forLoop_eq_none (mem_forIndices Nat.one_pos ho ho' (Nat.one_dvd _)) fun out => ?_
  cases hsum : load out (sample * b.outDim + o) with
  | none => simp
  | some sum => simp [accumulate_eq_none hi hi' h]

/-- The tiled loops fail as soon as they reach a weight outside of the matrix. -/
theorem miniBatchTiledGemm_eq_none {o i : Nat} (htile : 0 < tile)
    (ho : o < (b.outDim - 1) / tile * tile + tile) (ho' : (b.outDim - 1) / tile * tile ≤ o)
    (hi : i < (b.inDim - 1) / tile * tile + tile) (hi' : (b.inDim - 1) / tile * tile ≤ i)
    (h : load b.w (o * b.inDim + i) = none) : b.miniBatchTiledGemm tile out = none := by
  have ho0 := (last_index htile b.outDim_pos).1
  have hi0 := (last_index htile b.inDim_pos).1
  refine forLoop_eq_none (mem_forIndices htile (Nat.zero_le _) ho0 (Nat.dvd_mul_left _ _))
    fun out => ?_
  refine forLoop_eq_none (mem_forIndices htile (Nat.zero_le _) hi0 (Nat.dvd_mul_left _ _))
    fun out => ?_
  exact forLoop_eq_none (mem_forIndices Nat.one_pos (Nat.zero_le 0) b.batchSize_pos (by simp))
    fun out => tilePass_eq_none ho' ho hi' hi h out

/-- The tiled loops stay inside their arrays if and only if the tiles cover the matrix exactly.
Then they leave bit for bit what the samples one by one leave, whatever the outputs held. -/
theorem tiledGemm_eq (b : Batch K) (htile : 0 < tile) {out out' : List K}
    (hout : out.length = b.batchSize * b.outDim) (hout' : out'.length = out.length) :
    b.miniBatchTiledGemm tile out =
        (if tile ∣ b.outDim ∧ tile ∣ b.inDim then b.pureSgdGemv out' else none) ∧
      (b.pureSgdGemv out').isSome := by
  obtain ⟨sums, hsums, hcomplete⟩ := pureSgdGemv_spec b (hout'.trans hout)
  refine ⟨?_, by rw [hsums]; rfl⟩
  by_cases hcover : tile ∣ b.outDim ∧ tile ∣ b.inDim
  · obtain ⟨sums', hsums', hcomplete'⟩ := tiledGemm_spec b htile hcover.1 hcover.2 hout
    rw [if_pos hcover, hsums, hsums', hcomplete.unique hcomplete']
  · rw [if_neg hcover]
    have hrows := last_index htile b.outDim_pos
    have hcols := last_index htile b.inDim_pos
    by_cases hdvd : tile ∣ b.outDim
    · have hover : b.inDim < (b.inDim - 1) / tile * tile + tile := by
        by_contra hle
        exact hcover ⟨hdvd, dvd_of_last_index htile b.inDim_pos (by omega)⟩
      have hpos := b.outDim_pos
      exact miniBatchTiledGemm_eq_none htile (o := b.outDim - 1) (by omega) (by omega) hover
        (by omega) (load_w_last_eq_none (Nat.le_refl _))
    · have hover : b.outDim < (b.outDim - 1) / tile * tile + tile := by
        by_contra hle
        exact hdvd (dvd_of_last_index htile b.outDim_pos (by omega))
      exact miniBatchTiledGemm_eq_none htile hover (by omega) (by omega) (Nat.le_refl _)
        (load_w_eq_none (Nat.le_refl _))

/-- Two samples of four inputs, in a layer of four outputs. -/
def smallBatch : Batch Int where
  batchSize := 2
  inDim := 4
  outDim := 4
  w := (List.range 16).map fun place => Int.ofNat place - 7
  x := [1, -2, 3, 0, 2, 5, -1, 4]
  batchSize_pos := Nat.two_pos
  inDim_pos := by decide
  outDim_pos := by decide
  w_length := by decide
  x_length := by decide

theorem tiledGemm_eq_small :
    smallBatch.miniBatchTiledGemm 2 (List.replicate 8 9) =
        (if 2 ∣ 4 ∧ 2 ∣ 4 then smallBatch.pureSgdGemv (List.replicate 8 5) else none) ∧
      (smallBatch.pureSgdGemv (List.replicate 8 5)).isSome :=
  smallBatch.tiledGemm_eq (by decide) (by decide) (by decide)

end Batch

/-! ## The bias and the activation -/

section Activation

variable {K : Type} [Add K] [Zero K] [LT K] [DecidableLT K] {z bias temp out : List K}

/-- The bias in one trip through memory, and the activation in another
(`BM_Inference_Unfused_3Trips`). -/
def inferenceUnfused (z bias temp out : List K) : Option (List K) := do
  let temp ← forLoop 0 out.length 1 temp fun i temp => do
    store temp i ((← load z i) + (← load bias i))
  forLoop 0 out.length 1 out fun i out => do
    let value ← load temp i
    store out i (if 0 < value then value else 0)

/-- Both in a single trip (`BM_Inference_Fused_SingleTrip`). -/
def inferenceFused (z bias out : List K) : Option (List K) :=
  forLoop 0 out.length 1 out fun i out => do
    let value := (← load z i) + (← load bias i)
    store out i (if 0 < value then value else 0)

/-- The value of an output. -/
def activation (z bias : List K) (i : Nat) : K :=
  if 0 < z.getD i 0 + bias.getD i 0 then z.getD i 0 + bias.getD i 0 else 0

/-- The trips that are fused leave what the separate ones leave, whatever the buffers held. -/
theorem inferenceFused_eq (hz : z.length = out.length) (hbias : bias.length = out.length)
    (htemp : temp.length = out.length) :
    inferenceFused z bias out = inferenceUnfused z bias temp out := by
  have hfused : Returns (inferenceFused z bias out)
      (· = (List.range out.length).map (activation z bias)) := by
    refine .mono (.forEach (FilledTo (activation z bias) (fun i => out.getD i 0) out.length)
      (Nat.zero_le _) (.start out 0) fun i values _ hi hfilled => ?_)
      fun values hfilled => hfilled.eq_map
    refine .bind (.load_getD 0 hz hi) fun input hinput => ?_
    refine .bind (.load_getD 0 hbias hi) fun addend haddend => hfilled.store hi ?_
    rw [hinput, haddend, activation]
  have hunfused : Returns (inferenceUnfused z bias temp out)
      (· = (List.range out.length).map (activation z bias)) := by
    refine .bind (.forEach (FilledTo (fun i => z.getD i 0 + bias.getD i 0)
      (fun i => temp.getD i 0) out.length) (Nat.zero_le _) (htemp ▸ .start temp 0)
      fun i values _ hi hfilled => ?_) fun sums hsums => ?_
    · refine .bind (.load_getD 0 hz hi) fun input hinput => ?_
      refine .bind (.load_getD 0 hbias hi) fun addend haddend => hfilled.store hi ?_
      rw [hinput, haddend]
    · refine .mono (.forEach (FilledTo (activation z bias) (fun i => out.getD i 0) out.length)
        (Nat.zero_le _) (.start out 0) fun i values _ hi hfilled => ?_)
        fun values hfilled => hfilled.eq_map
      refine .bind (.read (hsums.new_eq hi hi)) fun value hvalue => hfilled.store hi ?_
      rw [hvalue, activation]
  rw [returns_eq_iff.mp hfused, returns_eq_iff.mp hunfused]

end Activation

end HotPath.Learning
