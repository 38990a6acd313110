import HotPath.Concurrency.ThreadBlocks
import Mathlib.Algebra.Order.BigOperators.Group.List
import Mathlib.Algebra.Order.Ring.Nat

/-!
# How many retired nodes a thread holds

`Retire` calls `Gc` when the newest batch of the thread reaches `kBatchThreshold` nodes, and opens
a new batch whenever it finds another global epoch. The threshold bounds each batch. It does not
bound their number: a thread that retires slowly while others advance the epoch keeps one unfilled
batch for every epoch in which it has retired (`slow_thread_accumulates`).

`held_per_epoch` is the bound that holds without readers. It counts the nodes in the thread's
current control block: what a thread leaves behind in `UnregisterThread` is no longer its own, and
no `Gc` deletes it. `Shape` describes the batches between two calls of `Gc`: at most one batch that
the last `Gc` had to leave, and one unfilled batch for each epoch in which the thread has retired
since.
-/

namespace HotPath.Concurrency

open HotPath.Foundation

variable {Node : Type}

/-- The nodes that a thread holds in its current control block: those that it has retired through
this block and that are not deleted yet. -/
def heldNodes (state : State Node) (tid : ThreadId) : Nat :=
  match (state.threads tid).tlsTcb with
  | some tcb => (state.shared.retiredNodes tcb).length
  | none => 0

/-- The epochs in which a thread has retired nodes into its current block, after a step from the
given place. They are forgotten when `Gc` begins and when the thread gives up its block. -/
def epochsAfter (epochs : List UInt64) : Pc Node → List UInt64
  | .retirePush _ currentEpoch =>
      if epochs.getLast? = some currentEpoch then epochs else epochs ++ [currentEpoch]
  | .gcLoad | .unregisterEpoch => []
  | _ => epochs

/-- The epochs in which a thread has retired nodes since its last `Gc` began, or since it got its
current block. -/
def retireEpochs (tid : ThreadId) : Recorder (State Node) (Event Node) (List UInt64) where
  start _ := []
  observe state event _ epochs :=
    match event with
    | .thread caller .run =>
        if caller = tid then epochsAfter epochs (state.threads tid).pc else epochs
    | _ => epochs

/-- In every run whose events meet `allow`, a thread between two calls holds at most the given
number of nodes in its current block. -/
def HoldsAtMost (Node : Type) (bound : List UInt64 → Nat)
    (allow : State Node → Event Node → Prop) : Prop :=
  ∀ tid pair,
    ((ebr Node).withHistory (retireEpochs tid)).Reachable (fun pair => allow pair.1) pair →
    (pair.1.threads tid).pc = .idle → heldNodes pair.1 tid ≤ bound pair.2

/-- A call of `EnterCritical`. -/
def entersCritical : Event Node → Bool
  | .thread _ .enterCritical => true
  | _ => false

/-- No thread enters a critical section, and the global epoch does not wrap around. -/
def WithoutReaders (state : State Node) (event : Event Node) : Prop :=
  entersCritical event = false ∧ wraps state event = false

/-! ## Batches -/

/-- Batches in order of their epochs, none of them younger than `epoch`. -/
structure Ordered (batches : List (Batch Node)) (epoch : UInt64) : Prop where
  sorted : batches.Pairwise fun older newer => older.epoch < newer.epoch
  upTo : ∀ batch ∈ batches, batch.epoch ≤ epoch

/-- Batches in order of their epochs, none of them overfull or younger than `epoch`. -/
structure Stack (batches : List (Batch Node)) (epoch : UInt64) : Prop where
  sorted : batches.Pairwise fun older newer => older.epoch < newer.epoch
  upTo : ∀ batch ∈ batches, batch.epoch ≤ epoch
  sizes : ∀ batch ∈ batches, batch.nodes.length ≤ kBatchThreshold

/-- The batches of a thread that reads `epoch` next: at most one that the last `Gc` left, and one
unfilled batch for each of the given epochs. -/
structure Shape (batches : List (Batch Node)) (epochs : List UInt64) (epoch : UInt64) : Prop
    extends Stack batches epoch where
  split : ∃ old recent, batches = old ++ recent ∧ old.length ≤ 1 ∧
    (∀ batch ∈ old, batch.epoch < epoch) ∧ recent.map Batch.epoch = epochs ∧
    ∀ batch ∈ recent, batch.nodes.length < kBatchThreshold

section Batches

variable {batches batches' : List (Batch Node)} {epochs : List UInt64} {epoch epoch' : UInt64}

theorem ordered_nil (epoch : UInt64) : Ordered ([] : List (Batch Node)) epoch :=
  ⟨.nil, by simp⟩

theorem Ordered.mono (h : Ordered batches epoch) (hle : epoch ≤ epoch') : Ordered batches epoch' :=
  ⟨h.sorted, fun batch hbatch => UInt64.le_trans (h.upTo batch hbatch) hle⟩

/-- Batches may be dropped, and may lose and gain nodes. -/
theorem Ordered.shrink (h : Ordered batches epoch)
    (hsub : (batches'.map Batch.epoch).Sublist (batches.map Batch.epoch)) :
    Ordered batches' epoch := by
  refine ⟨List.pairwise_map.mp ((List.pairwise_map.mpr h.sorted).sublist hsub),
    fun batch hbatch => ?_⟩
  obtain ⟨old, hold, hsame⟩ := List.mem_map.mp (hsub.subset (List.mem_map_of_mem hbatch))
  exact hsame ▸ h.upTo old hold

/-- A batch for a new epoch goes on top. -/
theorem Ordered.open_batch (h : Ordered batches epoch) (node : Node)
    (hnew : ∀ batch ∈ batches, batch.epoch < epoch) :
    Ordered (batches ++ [⟨epoch, [node]⟩]) epoch := by
  refine ⟨List.pairwise_append.mpr ⟨h.sorted, by simp, fun batch hbatch other hother => ?_⟩,
    fun batch hbatch => ?_⟩
  · obtain rfl := List.mem_singleton.mp hother
    exact hnew batch hbatch
  · rcases List.mem_append.mp hbatch with hold | hnewest
    · exact h.upTo batch hold
    · obtain rfl := List.mem_singleton.mp hnewest
      exact UInt64.le_refl _

/-- The newest batch takes one more node. -/
theorem Ordered.fill {front : List (Batch Node)} {last : Batch Node}
    (h : Ordered (front ++ [last]) epoch) (nodes : List Node) :
    Ordered (front ++ [⟨last.epoch, nodes⟩]) epoch :=
  h.shrink (by simp)

/-- The newest batch is the youngest. -/
theorem Ordered.lt_last {front : List (Batch Node)} {last : Batch Node}
    (h : Ordered (front ++ [last]) epoch) : ∀ batch ∈ front, batch.epoch < last.epoch :=
  fun batch hbatch => (List.pairwise_append.mp h.sorted).2.2 batch hbatch last (by simp)

theorem Stack.ordered (h : Stack batches epoch) : Ordered batches epoch := ⟨h.sorted, h.upTo⟩

theorem Ordered.stack (h : Ordered batches epoch)
    (hsizes : ∀ batch ∈ batches, batch.nodes.length ≤ kBatchThreshold) : Stack batches epoch :=
  ⟨h.sorted, h.upTo, hsizes⟩

theorem Stack.mono (h : Stack batches epoch) (hle : epoch ≤ epoch') : Stack batches epoch' :=
  (h.ordered.mono hle).stack h.sizes

theorem Shape.mono (h : Shape batches epochs epoch) (hle : epoch ≤ epoch') :
    Shape batches epochs epoch' := by
  obtain ⟨old, recent, hsplit, hlength, hold, hrecent⟩ := h.split
  exact ⟨h.toStack.mono hle, old, recent, hsplit, hlength,
    fun batch hbatch => UInt64.lt_of_lt_of_le (hold batch hbatch) hle, hrecent⟩

theorem shape_nil (epoch : UInt64) : Shape ([] : List (Batch Node)) [] epoch :=
  ⟨⟨.nil, nofun, nofun⟩, [], [], rfl, Nat.zero_le _, nofun, rfl, nofun⟩

/-- What batches of bounded size hold. -/
theorem flatMap_length_le {size : Nat} (h : ∀ batch ∈ batches, batch.nodes.length ≤ size) :
    (batches.flatMap Batch.nodes).length ≤ batches.length * size := by
  have hsum := List.sum_le_card_nsmul (batches.map fun batch => batch.nodes.length) size (by
    intro length hlength
    obtain ⟨batch, hbatch, rfl⟩ := List.mem_map.mp hlength
    exact h batch hbatch)
  simpa [List.length_flatMap] using hsum

/-- A thread holds a full batch at most, and an unfilled one for each epoch. -/
theorem Shape.held (h : Shape batches epochs epoch) :
    (batches.flatMap Batch.nodes).length ≤
      kBatchThreshold + (kBatchThreshold - 1) * epochs.length := by
  obtain ⟨old, recent, rfl, hlength, -, hrecent, hunfilled⟩ := h.split
  have hold := flatMap_length_le fun batch hbatch =>
    h.sizes batch (List.mem_append_left recent hbatch)
  have hnew := flatMap_length_le fun batch hbatch =>
    Nat.le_pred_of_lt (hunfilled batch hbatch)
  have hcount : recent.length = epochs.length := by rw [← hrecent, List.length_map]
  rw [List.flatMap_append, List.length_append]
  have hfirst : old.length * kBatchThreshold ≤ kBatchThreshold := by
    simpa using Nat.mul_le_mul_right kBatchThreshold hlength
  calc _ ≤ old.length * kBatchThreshold + recent.length * (kBatchThreshold - 1) :=
        Nat.add_le_add hold hnew
    _ ≤ kBatchThreshold + (kBatchThreshold - 1) * epochs.length := by
        rw [hcount, Nat.mul_comm epochs.length]
        exact Nat.add_le_add_right hfirst _

/-- Batches may be dropped and emptied. -/
theorem Stack.shrink (h : Stack batches epoch)
    (hsub : (batches'.map Batch.epoch).Sublist (batches.map Batch.epoch))
    (hmem : ∀ batch ∈ batches', ∃ old ∈ batches, batch.nodes.length ≤ old.nodes.length) :
    Stack batches' epoch := by
  refine (h.ordered.shrink hsub).stack fun batch hbatch => ?_
  obtain ⟨old, hold, hle⟩ := hmem batch hbatch
  exact Nat.le_trans hle (h.sizes old hold)

/-- `Gc` leaves at most one batch, which is older than the global epoch by then. -/
theorem Stack.shape {minEpoch : UInt64} (h : Stack batches minEpoch)
    (hkept : ∀ batch ∈ batches, ¬ batch.epoch < minEpoch) (hlt : minEpoch < epoch) :
    Shape batches [] epoch := by
  have hsame : ∀ batch ∈ batches, batch.epoch = minEpoch := fun batch hbatch =>
    UInt64.le_antisymm (h.upTo batch hbatch) (UInt64.not_lt.mp (hkept batch hbatch))
  refine ⟨h.mono (UInt64.le_of_lt hlt), batches, [], (List.append_nil _).symm, ?_,
    fun batch hbatch => hsame batch hbatch ▸ hlt, rfl, nofun⟩
  match batches, h.sorted, hsame with
  | [], _, _ | [_], _, _ => simp
  | first :: second :: rest, hsorted, hsame =>
      have hfirst := (List.pairwise_cons.mp hsorted).1 second (by simp)
      rw [hsame first (by simp), hsame second (by simp)] at hfirst
      exact absurd hfirst (UInt64.lt_irrefl _)

/-- A node that is retired in a new epoch opens a batch. -/
theorem pushRetired_younger (node : Node) (h : ∀ batch ∈ batches, batch.epoch < epoch) :
    pushRetired batches node epoch = batches ++ [⟨epoch, [node]⟩] :=
  pushRetired_new node fun last hlast => UInt64.ne_of_lt (h last (List.mem_of_getLast? hlast))

/-- A node that is retired in the epoch of the newest batch joins it. -/
theorem pushRetired_same (front : List (Batch Node)) (last : Batch Node) (node : Node) :
    pushRetired (front ++ [last]) node last.epoch =
      front ++ [⟨last.epoch, last.nodes ++ [node]⟩] :=
  pushRetired_last front last.epoch last.nodes node

/-- A retired node keeps the batches in order. -/
theorem Ordered.push (h : Ordered batches epoch) (node : Node) :
    Ordered (pushRetired batches node epoch) epoch := by
  rcases List.eq_nil_or_concat batches with rfl | ⟨front, last, rfl⟩
  · rw [pushRetired_younger node (by simp)]
    exact h.open_batch node (by simp)
  · rw [List.concat_eq_append] at h ⊢
    by_cases hsame : last.epoch = epoch
    · subst hsame
      rw [pushRetired_same]
      exact h.fill _
    · have hlast : last.epoch < epoch := UInt64.lt_of_le_of_ne (h.upTo last (by simp)) hsame
      have hnew : ∀ batch ∈ front ++ [last], batch.epoch < epoch := by
        intro batch hbatch
        rcases List.mem_append.mp hbatch with hfront | hnewest
        · exact UInt64.lt_trans (h.lt_last batch hfront) hlast
        · obtain rfl := List.mem_singleton.mp hnewest
          exact hlast
      rw [pushRetired_younger node hnew]
      exact h.open_batch node hnew

/-- A batch of a single node goes on top. -/
theorem Stack.open_batch (h : Stack batches epoch) (node : Node)
    (hnew : ∀ batch ∈ batches, batch.epoch < epoch) :
    Stack (batches ++ [⟨epoch, [node]⟩]) epoch := by
  refine (h.ordered.open_batch node hnew).stack fun batch hbatch => ?_
  rcases List.mem_append.mp hbatch with hold | hnewest
  · exact h.sizes batch hold
  · obtain rfl := List.mem_singleton.mp hnewest
    simp [kBatchThreshold]

/-- A batch with room takes one more node. -/
theorem Stack.fill {front : List (Batch Node)} {last : Batch Node}
    (h : Stack (front ++ [last]) epoch) (node : Node)
    (hroom : last.nodes.length < kBatchThreshold) :
    Stack (front ++ [⟨last.epoch, last.nodes ++ [node]⟩]) epoch := by
  refine (h.ordered.fill _).stack fun batch hbatch => ?_
  rcases List.mem_append.mp hbatch with hold | hnewest
  · exact h.sizes batch (List.mem_append_left _ hold)
  · obtain rfl := List.mem_singleton.mp hnewest
    rw [List.length_append]
    exact hroom

/-- A retired node opens a batch for a new epoch, or joins the batch of the epoch. If that batch
is not full then, the shape is kept. -/
theorem Shape.push (h : Shape batches epochs epoch) (node : Node) :
    Stack (pushRetired batches node epoch) epoch ∧
      (lastBatchSize (pushRetired batches node epoch) < kBatchThreshold →
        Shape (pushRetired batches node epoch)
          (if epochs.getLast? = some epoch then epochs else epochs ++ [epoch]) epoch) := by
  obtain ⟨old, recent, hbatches, hlength, hold, hrecent, hunfilled⟩ := h.split
  by_cases hsame : epochs.getLast? = some epoch
  · -- The newest batch has the epoch that was read.
    rw [← hrecent, List.getLast?_map, Option.map_eq_some_iff] at hsame
    obtain ⟨last, hlast, rfl⟩ := hsame
    obtain ⟨front, rfl⟩ := List.getLast?_eq_some_iff.mp hlast
    obtain rfl : batches = (old ++ front) ++ [last] := by rw [hbatches, List.append_assoc]
    have hfill := h.toStack.fill node (hunfilled last (by simp))
    rw [pushRetired_same]
    refine ⟨hfill, fun hroom => ⟨hfill, old, front ++ [⟨last.epoch, last.nodes ++ [node]⟩],
      by simp, hlength, hold, ?_, fun batch hbatch => ?_⟩⟩
    · have hfull : epochs.getLast? = some last.epoch := by simp [← hrecent]
      rw [if_pos hfull, ← hrecent]
      simp
    · rcases List.mem_append.mp hbatch with hfront | hnewest
      · exact hunfilled batch (List.mem_append_left _ hfront)
      · obtain rfl := List.mem_singleton.mp hnewest
        simpa [lastBatchSize] using hroom
  · have hnew : ∀ batch ∈ batches, batch.epoch < epoch := by
      intro batch hbatch
      rcases List.mem_append.mp (hbatches ▸ hbatch) with hin | hin
      · exact hold batch hin
      · -- The newest batch is older than the epoch, and the others are older still.
        refine UInt64.lt_of_le_of_ne (h.upTo batch hbatch) fun heq => hsame ?_
        obtain ⟨before, after, rfl⟩ := List.append_of_mem hin
        cases after with
        | nil => simp [← hrecent, heq]
        | cons newer rest =>
            have hsorted := h.sorted
            rw [hbatches, List.pairwise_append] at hsorted
            have hlt : batch.epoch < newer.epoch :=
              (List.pairwise_cons.mp (List.pairwise_append.mp hsorted.2.1).2.1).1 newer (by simp)
            have hle := h.upTo newer (by simp [hbatches])
            rw [heq] at hlt
            exact absurd (UInt64.lt_of_lt_of_le hlt hle) (UInt64.lt_irrefl _)
    rw [pushRetired_younger node hnew, if_neg hsame]
    refine ⟨h.toStack.open_batch node hnew, fun _ => ⟨h.toStack.open_batch node hnew, old,
      recent ++ [⟨epoch, [node]⟩], by simp [hbatches], hlength, hold, by simp [hrecent],
      fun batch hbatch => ?_⟩⟩
    rcases List.mem_append.mp hbatch with hin | hnewest
    · exact hunfilled batch hin
    · obtain rfl := List.mem_singleton.mp hnewest
      simp [kBatchThreshold]

end Batches

/-! ## One thread -/

/-- The batches of a thread's block at every place inside the functions. -/
def BatchesAt (globalEpoch : UInt64) (batches : List (Batch Node)) (epochs : List UInt64) :
    Pc Node → Prop
  | .registerLock .. | .registerLink .. | .registerPublish .. | .registerBind .. =>
      batches = [] ∧ epochs = []
  | .retirePush _ currentEpoch =>
      Shape batches epochs currentEpoch ∧ currentEpoch ≤ globalEpoch
  | .gcLoad => Stack batches globalEpoch
  | .gcHead minEpoch | .gcActive minEpoch _ | .gcLocal minEpoch _ | .gcNext minEpoch _
  | .gcGlobal minEpoch => Stack batches minEpoch ∧ minEpoch ≤ globalEpoch ∧ epochs = []
  | .gcCas minEpoch currentGlobal =>
      Stack batches minEpoch ∧ minEpoch ≤ globalEpoch ∧ epochs = [] ∧ minEpoch = currentGlobal
  | .gcSweep minEpoch index =>
      Stack batches minEpoch ∧ minEpoch < globalEpoch ∧ epochs = [] ∧
        ∀ batch ∈ batches.take index, ¬ batch.epoch < minEpoch
  | _ => Shape batches epochs globalEpoch

/-- The places inside `EnterCritical`. -/
def Pc.enters : Pc Node → Bool
  | .registerLock _ .enter | .registerLink _ .enter | .registerPublish _ .enter
  | .registerBind _ .enter | .enterLoad | .enterStore _ => true
  | _ => false

/-- What holds of a thread's batches and of the epochs in which it has retired. -/
structure HeldInv (shared : Shared Node) (thread : Thread Node) (epochs : List UInt64) : Prop where
  unbound : thread.block = none → epochs = []
  batches : ∀ own, thread.block = some own →
    BatchesAt shared.globalEpoch (shared.tcbs own).retirementBatches epochs thread.pc

section Steps

variable {shared shared' : Shared Node} {thread thread' : Thread Node} {tid : ThreadId}
  {epochs epochs' : List UInt64}

/-- The global epoch moves on. -/
theorem BatchesAt.mono {globalEpoch globalEpoch' : UInt64} {batches : List (Batch Node)}
    {pc : Pc Node} (h : BatchesAt globalEpoch batches epochs pc)
    (hle : globalEpoch ≤ globalEpoch') : BatchesAt globalEpoch' batches epochs pc := by
  cases pc with
  | registerLock | registerLink | registerPublish | registerBind => exact h
  | retirePush => exact ⟨h.1, UInt64.le_trans h.2 hle⟩
  | gcLoad => exact Stack.mono h hle
  | gcHead | gcActive | gcLocal | gcNext | gcGlobal | gcCas =>
      exact ⟨h.1, UInt64.le_trans h.2.1 hle, h.2.2⟩
  | gcSweep => exact ⟨h.1, UInt64.lt_of_lt_of_le h.2.1 hle, h.2.2⟩
  | _ => exact Shape.mono h hle

/-- A thread that keeps its block. -/
theorem HeldInv.of_kept (h : HeldInv shared thread epochs)
    (hblock : thread'.block = thread.block)
    (hepochs : thread.block = none → epochs = [] → epochs' = [])
    (hbatches : ∀ own, thread.block = some own →
      BatchesAt shared.globalEpoch (shared.tcbs own).retirementBatches epochs thread.pc →
      BatchesAt shared'.globalEpoch (shared'.tcbs own).retirementBatches epochs' thread'.pc) :
    HeldInv shared' thread' epochs' := by
  refine ⟨fun hnone => ?_, fun own hown => ?_⟩
  · have hunbound := hblock.symm.trans hnone
    exact hepochs hunbound (h.unbound hunbound)
  · have hbound := hblock.symm.trans hown
    exact hbatches own hbound (h.batches own hbound)

/-- A thread that is not registering goes on to another place. -/
theorem HeldInv.goto (h : HeldInv shared thread epochs) {pc : Pc Node} (hpc : thread.pc = pc)
    (hbefore : pc.newBlock = none) (hafter : thread'.pc.newBlock = none)
    (htls : thread'.tlsTcb = thread.tlsTcb) (hepochs : epochs = [] → epochs' = [])
    (hbatches : ∀ own, thread.tlsTcb = some own →
      BatchesAt shared.globalEpoch (shared.tcbs own).retirementBatches epochs pc →
      BatchesAt shared'.globalEpoch (shared'.tcbs own).retirementBatches epochs' thread'.pc) :
    HeldInv shared' thread' epochs' := by
  subst hpc
  refine h.of_kept (block_kept hbefore hafter htls) (fun _ => hepochs) fun own hown hat => ?_
  exact hbatches own ((block_eq_tls hbefore).symm.trans hown) hat

/-- A thread with a block. -/
theorem HeldInv.of_block (own : TcbId) (hblock : thread'.block = some own)
    (hat : BatchesAt shared'.globalEpoch (shared'.tcbs own).retirementBatches epochs' thread'.pc) :
    HeldInv shared' thread' epochs' := by
  refine ⟨by simp [hblock], fun other hother => ?_⟩
  obtain rfl : own = other := Option.some.inj (hblock.symm.trans hother)
  exact hat

/-- Steps of the other threads keep what holds of a thread's batches. -/
theorem HeldInv.frame (h : HeldInv shared thread epochs)
    (hle : shared.globalEpoch ≤ shared'.globalEpoch)
    (hown : ∀ tcb, thread.block = some tcb → shared'.tcbs tcb = shared.tcbs tcb) :
    HeldInv shared' thread epochs := by
  refine h.of_kept rfl (fun _ => id) fun own hblock hat => ?_
  rw [hown own hblock]
  exact hat.mono hle

@[simp] theorem batchesAt_walkTo {globalEpoch minEpoch : UInt64} {batches : List (Batch Node)}
    {curr : Option TcbId} :
    BatchesAt globalEpoch batches epochs (walkTo thread minEpoch curr).pc ↔
      Stack batches minEpoch ∧ minEpoch ≤ globalEpoch ∧ epochs = [] := by
  cases curr <;> rfl

/-- The next epoch is later, unless the counter wraps around. -/
theorem lt_add_one_of_ne_zero {epoch : UInt64} (h : epoch + 1 ≠ 0) : epoch < epoch + 1 := by
  have hne : (epoch + 1).toNat ≠ 0 := fun hzero => h (UInt64.toNat_inj.mp hzero)
  have hlt := epoch.toNat_lt
  rw [UInt64.toNat_add] at hne
  rw [UInt64.lt_iff_toNat_lt, UInt64.toNat_add]
  simp only [UInt64.reduceToNat] at hne ⊢
  omega

/-- A step of the sweep keeps what holds of the thread's batches. -/
theorem HeldInv.sweep {own : TcbId} {minEpoch : UInt64} {index : Nat}
    (h : HeldInv shared thread epochs) (hpc : thread.pc = .gcSweep minEpoch index)
    (htls : thread.tlsTcb = some own)
    (hsweep : SweepStep shared thread own minEpoch index shared' thread') :
    HeldInv shared' thread' epochs := by
  have hnew : thread.pc.newBlock = none := by simp [hpc, Pc.newBlock]
  have hblock : thread.block = some own := (block_eq_tls hnew).trans htls
  have hat := h.batches own hblock
  rw [hpc] at hat
  obtain ⟨hstack, hlt, rfl, hkept⟩ := hat
  cases hsweep with
  | finish hnone =>
      refine .of_block own (htls ▸ block_eq_tls rfl) (hstack.shape (fun batch hbatch => ?_) hlt)
      rw [List.take_of_length_le (List.getElem?_eq_none_iff.mp hnone)] at hkept
      exact hkept batch hbatch
  | skip hbatch hyoung =>
      exact .of_block own (htls ▸ block_eq_tls rfl)
        ⟨hstack, hlt, rfl, forall_take_succ hkept hbatch hyoung⟩
  | @delete batch node nodes hbatch hold hnodes =>
      refine .of_block own hblock ?_
      rw [hpc]
      simp only [Shared.setTcb, Function.update_self]
      refine ⟨?_, hlt, rfl, ?_⟩
      · obtain ⟨before, after, hsplit, hset, -⟩ := split_at_index hbatch
        rw [hset]
        refine hstack.shrink (by simp [hsplit]) fun left hleft => ?_
        rcases List.mem_append.mp hleft with hbefore | hrest
        · exact ⟨left, by simp [hsplit, hbefore], Nat.le_refl _⟩
        · rcases List.mem_cons.mp hrest with rfl | hafter
          · exact ⟨batch, by simp [hsplit], by simp [hnodes]⟩
          · exact ⟨left, by simp [hsplit, hafter], Nat.le_refl _⟩
      · rw [List.take_set_of_le (Nat.le_refl _)]
        exact hkept
  | erase hbatch hold hnodes =>
      refine .of_block own hblock ?_
      rw [hpc]
      simp only [Shared.setTcb, Function.update_self]
      refine ⟨?_, hlt, rfl, ?_⟩
      · have hsub := List.eraseIdx_sublist (shared.tcbs own).retirementBatches index
        exact hstack.shrink (hsub.map _) fun batch hmem =>
          ⟨batch, hsub.subset hmem, Nat.le_refl _⟩
      · rw [List.take_eraseIdx_eq_take_of_le _ _ _ (Nat.le_refl _)]
        exact hkept

/-- A thread binds its new block, which has no batches. -/
theorem HeldInv.bind (h : HeldInv shared thread epochs) {tcb : TcbId} {resume : Resume Node}
    (hpc : thread.pc = .registerBind tcb resume) (henter : thread.pc.enters = false) :
    HeldInv { shared with listMutex := none }
      (afterRegister { thread with tlsTcb := some tcb } resume) epochs := by
  have hblock : thread.block = some tcb := by simp [Thread.block, hpc, Pc.newBlock]
  have hat := h.batches tcb hblock
  simp only [hpc] at hat
  obtain ⟨hempty, rfl⟩ := hat
  refine .of_block tcb ?_ ?_
  · rw [block_eq_tls (newBlock_settled (by simp))]
    simp
  · rw [hempty]
    cases resume with
    | done | retire => exact shape_nil _
    | enter => simp [hpc, Pc.enters] at henter

/-- `Retire` pushes a node, and calls `Gc` when the batch is full. -/
theorem HeldInv.push (h : HeldInv shared thread epochs) {node : Node} {currentEpoch : UInt64}
    {tcb : TcbId} (hpc : thread.pc = .retirePush node currentEpoch)
    (htls : thread.tlsTcb = some tcb) :
    HeldInv (shared.setTcb tcb { shared.tcbs tcb with
        retirementBatches := pushRetired (shared.tcbs tcb).retirementBatches node currentEpoch })
      { thread with
        pc := if lastBatchSize (pushRetired (shared.tcbs tcb).retirementBatches node
            currentEpoch) ≥ kBatchThreshold then .gcLoad else .idle }
      (epochsAfter epochs thread.pc) := by
  have hnew : thread.pc.newBlock = none := by simp [hpc, Pc.newBlock]
  have hat := h.batches tcb ((block_eq_tls hnew).trans htls)
  simp only [hpc, epochsAfter] at hat ⊢
  obtain ⟨hshape, hle⟩ := hat
  obtain ⟨hstack, hpushed⟩ := hshape.push node
  by_cases hfull : lastBatchSize (pushRetired (shared.tcbs tcb).retirementBatches node
      currentEpoch) ≥ kBatchThreshold
  · rw [if_pos hfull]
    refine .of_block tcb (htls ▸ block_eq_tls rfl) ?_
    simpa [Shared.setTcb, BatchesAt] using hstack.mono hle
  · rw [if_neg hfull]
    refine .of_block tcb (htls ▸ block_eq_tls rfl) ?_
    simpa [Shared.setTcb, BatchesAt] using (hpushed (Nat.lt_of_not_le hfull)).mono hle

/-- A step inside a function keeps what holds of the thread's batches, as long as no block shows
an epoch and the global epoch does not wrap around. -/
theorem HeldInv.run (h : HeldInv shared thread epochs)
    (hrun : RunStep shared tid thread shared' thread')
    (hsilent : ∀ tcb, (shared.tcbs tcb).localEpoch = kEpochInactive)
    (hwrap : ∀ minEpoch, thread.pc = .gcCas minEpoch shared.globalEpoch →
      shared.globalEpoch + 1 ≠ 0)
    (henter : thread.pc.enters = false) :
    HeldInv shared' thread' (epochsAfter epochs thread.pc) := by
  cases hrun with
  | registerLock tcb resume hpc | registerPublish tcb resume hpc =>
      have hblock : thread.block = some tcb := by simp [Thread.block, hpc, Pc.newBlock]
      have hat := h.batches tcb hblock
      simp only [hpc, epochsAfter] at hat ⊢
      exact .of_block tcb rfl hat
  | registerLink tcb resume hpc =>
      have hblock : thread.block = some tcb := by simp [Thread.block, hpc, Pc.newBlock]
      have hat := h.batches tcb hblock
      simp only [hpc, epochsAfter] at hat ⊢
      refine .of_block tcb rfl ?_
      simpa [Shared.setTcb, BatchesAt] using hat
  | registerBind tcb resume hpc =>
      have hbound := h.bind hpc henter
      rwa [hpc]
  | unregisterActive tcb hpc htls | exitStore tcb hpc htls =>
      rw [hpc]
      refine h.goto hpc rfl rfl rfl id fun own hown hat => ?_
      obtain rfl : tcb = own := Option.some.inj (htls.symm.trans hown)
      simpa [Shared.setTcb, BatchesAt, epochsAfter] using hat
  | unregisterEpoch tcb hpc htls =>
      rw [hpc]
      exact ⟨fun _ => rfl, by simp [Thread.block, Pc.newBlock]⟩
  | enterLoad hpc | enterStore _ _ hpc => simp [hpc, Pc.enters] at henter
  | retirePush node currentEpoch tcb hpc htls => exact h.push hpc htls
  | retireLoad node hpc =>
      rw [hpc]
      exact h.goto hpc rfl rfl rfl id fun _ _ hshape => ⟨hshape, UInt64.le_refl _⟩
  | gcLoad hpc =>
      rw [hpc]
      exact h.goto hpc rfl rfl rfl (fun _ => rfl) fun _ _ hstack => ⟨hstack, UInt64.le_refl _, rfl⟩
  | gcHead _ hpc | gcNext _ _ hpc =>
      rw [hpc]
      exact h.goto hpc rfl (newBlock_settled (by simp)) (by simp) id fun _ _ hat =>
        batchesAt_walkTo.mpr hat
  | gcActive _ _ hpc | gcInactive _ _ hpc =>
      rw [hpc]
      exact h.goto hpc rfl rfl rfl id fun _ _ hat => hat
  | gcLocal minEpoch curr hpc =>
      rw [hpc]
      refine h.goto hpc rfl rfl rfl id fun _ _ hat => ?_
      simpa [hsilent curr, BatchesAt, epochsAfter] using hat
  | gcGlobal minEpoch hpc hglobal =>
      rw [hpc]
      exact h.goto hpc rfl rfl rfl id fun _ _ hat => ⟨hat.1, hat.2.1, hat.2.2, hglobal⟩
  | gcBehind minEpoch hpc hbehind =>
      rw [hpc]
      refine h.goto hpc rfl (newBlock_settled (by simp)) (by simp) id fun own hown hat => ?_
      obtain ⟨hstack, hle, hepochs⟩ := hat
      rw [beginSweep_pc hown]
      exact ⟨hstack, UInt64.lt_of_le_of_ne hle hbehind, hepochs, by simp⟩
  | gcCas minEpoch currentGlobal hpc =>
      rw [hpc]
      -- The compare-and-swap advances the epoch, unless another thread has done so.
      refine h.goto hpc rfl (newBlock_settled (by simp)) (by simp) id fun own hown hat => ?_
      obtain ⟨hstack, hle, hepochs, rfl⟩ := hat
      rw [beginSweep_pc hown]
      refine ⟨hstack, ?_, hepochs, by simp⟩
      dsimp only
      split
      · next hsame =>
          exact lt_add_one_of_ne_zero (hsame ▸ hwrap minEpoch (hsame ▸ hpc))
      · next hmoved => exact UInt64.lt_of_le_of_ne hle (Ne.symm hmoved)
  | gcSweep minEpoch index own hpc htls hsweep =>
      have hnext := h.sweep hpc htls (sweep_cases hsweep)
      rwa [hpc]

/-- A call keeps what holds of the thread's batches. -/
theorem HeldInv.call {action : Action Node} (h : HeldInv shared thread epochs)
    (hidle : thread.pc = .idle) (hcall : CallStep shared thread action shared' thread')
    (hquiet : action ≠ .enterCritical) : HeldInv shared' thread' epochs := by
  have hnew : thread.pc.newBlock = none := by simp [hidle, Pc.newBlock]
  have hmove : thread'.pc.newBlock = none → thread'.tlsTcb = thread.tlsTcb →
      (∀ batches, Shape batches epochs shared.globalEpoch →
        BatchesAt shared.globalEpoch batches epochs thread'.pc) →
      HeldInv shared thread' epochs := by
    intro hafter htls hat
    exact h.goto hidle rfl hafter htls id fun _ _ hshape => hat _ hshape
  cases hcall with
  | register hnone | retireFirst _ hnone =>
      refine .of_block shared.tcbCount rfl ?_
      simpa [beginRegister, Shared.setTcb, BatchesAt] using
        h.unbound ((block_eq_tls hnew).trans hnone)
  | enterFirst | enter => exact absurd rfl hquiet
  | registered | unregistered | exitUnregistered | retireNull | run => exact h
  | unregister | retire => exact hmove rfl rfl fun _ => id
  | gc => exact hmove rfl rfl fun _ hshape => hshape.toStack
  | exit =>
      refine hmove ?_ rfl fun batches hshape => ?_
      · dsimp only
        split <;> rfl
      · dsimp only
        split <;> exact hshape

/-- A store that shows no epoch. -/
theorem setTcb_unseen {own : TcbId} {block : ThreadControlBlock Node}
    (h : ∀ tcb, (shared.tcbs tcb).localEpoch = kEpochInactive)
    (hblock : block.localEpoch = kEpochInactive) (tcb : TcbId) :
    ((shared.setTcb own block).tcbs tcb).localEpoch = kEpochInactive := by
  by_cases heq : tcb = own
  · subst heq
    simpa [Shared.setTcb] using hblock
  · simpa [Shared.setTcb, heq] using h tcb

/-- A thread outside `EnterCritical` shows no epoch in its next step. -/
theorem RunStep.silent (hrun : RunStep shared tid thread shared' thread')
    (henter : thread.pc.enters = false)
    (hunseen : ∀ tcb, (shared.tcbs tcb).localEpoch = kEpochInactive) :
    thread'.pc.enters = false ∧ ∀ tcb, (shared'.tcbs tcb).localEpoch = kEpochInactive := by
  cases hrun with
  | registerLock tcb resume hpc | registerPublish tcb resume hpc =>
      rw [hpc] at henter
      cases resume <;> exact ⟨henter, hunseen⟩
  | registerLink tcb resume hpc =>
      rw [hpc] at henter
      cases resume <;> exact ⟨henter, setTcb_unseen hunseen (hunseen tcb)⟩
  | registerBind tcb resume hpc =>
      rw [hpc] at henter
      cases resume with
      | done | retire => exact ⟨rfl, hunseen⟩
      | enter => cases henter
  | enterLoad hpc | enterStore _ _ hpc => simp [hpc, Pc.enters] at henter
  | unregisterActive tcb => exact ⟨rfl, setTcb_unseen hunseen (hunseen tcb)⟩
  | unregisterEpoch | exitStore => exact ⟨rfl, setTcb_unseen hunseen rfl⟩
  | retirePush node currentEpoch tcb =>
      refine ⟨?_, setTcb_unseen hunseen (hunseen tcb)⟩
      dsimp only
      split <;> rfl
  | gcHead minEpoch => exact ⟨by cases shared.head <;> rfl, hunseen⟩
  | gcNext minEpoch curr => exact ⟨by cases (shared.tcbs curr).next <;> rfl, hunseen⟩
  | gcBehind | gcCas =>
      refine ⟨?_, hunseen⟩
      unfold beginSweep
      split <;> rfl
  | gcSweep minEpoch index own hpc _ hsweep =>
      cases sweep_cases hsweep with
      | finish | skip => exact ⟨rfl, hunseen⟩
      | delete | erase => exact ⟨henter, setTcb_unseen hunseen (hunseen own)⟩
  | retireLoad | gcLoad | gcActive | gcInactive | gcLocal | gcGlobal => exact ⟨rfl, hunseen⟩

/-- Every call but `EnterCritical` shows no epoch. -/
theorem CallStep.silent {action : Action Node}
    (hcall : CallStep shared thread action shared' thread') (hidle : thread.pc = .idle)
    (hquiet : action ≠ .enterCritical)
    (hunseen : ∀ tcb, (shared.tcbs tcb).localEpoch = kEpochInactive) :
    thread'.pc.enters = false ∧ ∀ tcb, (shared'.tcbs tcb).localEpoch = kEpochInactive := by
  cases hcall with
  | register | retireFirst => exact ⟨rfl, setTcb_unseen hunseen rfl⟩
  | enterFirst | enter => exact absurd rfl hquiet
  | registered | unregistered | exitUnregistered | retireNull | run =>
      exact ⟨by simp [hidle, Pc.enters], hunseen⟩
  | unregister | retire | gc => exact ⟨rfl, hunseen⟩
  | exit =>
      refine ⟨?_, hunseen⟩
      dsimp only
      split <;> rfl

/-- The global epoch never decreases unless the counter wraps around. -/
theorem RunStep.epoch_le (hrun : RunStep shared tid thread shared' thread')
    (hwrap : ∀ minEpoch, thread.pc = .gcCas minEpoch shared.globalEpoch →
      shared.globalEpoch + 1 ≠ 0) : shared.globalEpoch ≤ shared'.globalEpoch := by
  cases hrun with
  | gcCas minEpoch currentGlobal hpc =>
      dsimp only
      split
      · next hsame =>
          exact UInt64.le_of_lt (hsame ▸ lt_add_one_of_ne_zero (hwrap minEpoch (hsame ▸ hpc)))
      · exact UInt64.le_refl _
  | gcSweep minEpoch index own _ _ hsweep =>
      cases sweep_cases hsweep <;> exact UInt64.le_refl _
  | _ => exact UInt64.le_refl _

/-- A call leaves the global epoch as it is. -/
theorem CallStep.epoch_eq {action : Action Node}
    (hcall : CallStep shared thread action shared' thread') :
    shared'.globalEpoch = shared.globalEpoch := by
  cases hcall <;> rfl

end Steps

/-! ## Runs -/

/-- No thread is inside `EnterCritical`, and no block shows an epoch. -/
structure Silent (state : State Node) : Prop where
  outside : ∀ tid, (state.threads tid).pc.enters = false
  unseen : ∀ tcb, (state.shared.tcbs tcb).localEpoch = kEpochInactive

section Runs

variable {state next : State Node} {tid : ThreadId} {event : Event Node}

/-- A compare-and-swap that does not wrap around. -/
theorem not_wraps {action : Action Node} (h : wraps state (.thread tid action) = false)
    (hrun : action = .run) (minEpoch : UInt64)
    (hpc : (state.threads tid).pc = .gcCas minEpoch state.shared.globalEpoch) :
    state.shared.globalEpoch + 1 ≠ 0 := by
  subst hrun
  simpa [wraps, hpc] using h

/-- What one action of a thread without readers does for every thread. -/
theorem WithoutReaders.act {action : Action Node} {shared' : Shared Node} {thread' : Thread Node}
    (hquiet : WithoutReaders state (.thread tid action)) (hsilent : Silent state)
    (hact : act state.shared tid (state.threads tid) action = some (shared', thread')) :
    state.shared.globalEpoch ≤ shared'.globalEpoch ∧
      Silent ⟨shared', Function.update state.threads tid thread'⟩ ∧
      ∀ epochs, HeldInv state.shared (state.threads tid) epochs →
        HeldInv shared' thread' (match action with
          | .run => epochsAfter epochs (state.threads tid).pc
          | _ => epochs) := by
  have houtside : ∀ shared'' : Shared Node, thread'.pc.enters = false →
      (∀ tcb, (shared''.tcbs tcb).localEpoch = kEpochInactive) →
      Silent ⟨shared'', Function.update state.threads tid thread'⟩ := by
    intro shared'' hpc hunseen
    refine ⟨fun other => ?_, hunseen⟩
    by_cases heq : other = tid
    · subst heq
      simpa only [Function.update_self] using hpc
    · simpa only [Function.update_of_ne heq] using hsilent.outside other
  rcases act_steps hact with ⟨rfl, hstep⟩ | ⟨hne, hidle, hstep⟩
  · obtain ⟨hpc, hunseen⟩ := hstep.silent (hsilent.outside tid) hsilent.unseen
    have hwrap := not_wraps hquiet.2 rfl
    exact ⟨hstep.epoch_le hwrap, houtside shared' hpc hunseen, fun epochs hheld =>
      hheld.run hstep hsilent.unseen hwrap (hsilent.outside tid)⟩
  · have hother : action ≠ .enterCritical := by
      rintro rfl
      exact absurd hquiet.1 (by simp [entersCritical])
    obtain ⟨hpc, hunseen⟩ := hstep.silent hidle hother hsilent.unseen
    refine ⟨UInt64.le_of_eq hstep.epoch_eq.symm, houtside shared' hpc hunseen,
      fun epochs hheld => ?_⟩
    have hnext := hheld.call hidle hstep hother
    cases action with
    | run => exact absurd rfl hne
    | _ => exact hnext

/-- The invariant holds of every run without readers. -/
theorem reachable_held {pair : State Node × List UInt64}
    (h : ((ebr Node).withHistory (retireEpochs tid)).Reachable
      (fun pair => WithoutReaders pair.1) pair) :
    Exclusive pair.1 ∧ Silent pair.1 ∧
      HeldInv pair.1.shared (pair.1.threads tid) pair.2 := by
  refine h.invariant (fun pair => Exclusive pair.1 ∧ Silent pair.1 ∧
    HeldInv pair.1.shared (pair.1.threads tid) pair.2) ?_ ?_
  · rintro ⟨state, epochs⟩ ⟨hinit, hstart⟩
    obtain rfl : state = {} := hinit
    obtain rfl : epochs = [] := hstart
    exact ⟨listInv_init.toExclusive, ⟨fun _ => rfl, fun _ => rfl⟩, fun _ => rfl, nofun⟩
  · rintro ⟨state, epochs⟩ event ⟨next, epochs'⟩ ⟨hexclusive, hsilent, hheld⟩ hquiet hstep
    obtain ⟨hnext, hrecord⟩ := System.withHistory_step.mp hstep
    obtain rfl : epochs' = (retireEpochs tid).observe state event next epochs := hrecord
    rcases step_thread hnext with
      ⟨⟨node, rfl⟩, heq⟩ | ⟨caller, action, shared', thread', rfl, hact, heq⟩
    · obtain rfl : next = state := heq
      exact ⟨hexclusive, hsilent, hheld⟩
    · obtain rfl : next = _ := heq
      obtain ⟨hle, hsilent', hown⟩ := WithoutReaders.act hquiet hsilent hact
      refine ⟨hexclusive.step (act_blocks hact), hsilent', ?_⟩
      by_cases hcaller : caller = tid
      · subst hcaller
        have hnext := hown epochs hheld
        simp only [Function.update_self]
        cases action <;> simpa [retireEpochs] using hnext
      · have hkeep : (retireEpochs tid).observe state (.thread caller action)
            ⟨shared', Function.update state.threads caller thread'⟩ epochs = epochs := by
          cases action <;> simp [retireEpochs, hcaller]
        rw [hkeep]
        simp only [Function.update_of_ne (Ne.symm hcaller)]
        exact hheld.frame hle fun tcb htcb =>
          hexclusive.other_block (act_blocks hact) (Ne.symm hcaller) htcb

end Runs

/-- Without readers a thread holds in its current block at most one full batch, and an unfilled
batch for each epoch in which it has retired since its last `Gc`. -/
theorem held_per_epoch :
    HoldsAtMost Node
      (fun epochs => kBatchThreshold + (kBatchThreshold - 1) * epochs.length) WithoutReaders := by
  intro tid pair hreach hidle
  obtain ⟨-, -, hheld⟩ := reachable_held hreach
  unfold heldNodes
  split
  · next own htls =>
      have hbatches := hheld.batches own ((block_eq_tls (by simp [hidle, Pc.newBlock])).trans htls)
      rw [hidle] at hbatches
      exact hbatches.held
  · exact Nat.zero_le _

/-- Threads call `Retire` and nothing else. -/
def onlyRetires : Event Node → Bool
  | .thread _ (.retire (some _)) | .thread _ .run => true
  | _ => false

/-- A call of `Retire` by a registered thread that stops short of `Gc`. -/
def retireOnce (tid : ThreadId) : List (Event Unit) :=
  [.thread tid (.retire (some ())), .thread tid .run, .thread tid .run]

/-- Thread 0 retires 63 nodes in each of two epochs, while thread 1 fills a batch in each of them
and thereby advances the epoch, and two more nodes in a third one. -/
def slowAndFast : List (Event Unit) :=
  let runs (tid : ThreadId) (count : Nat) := List.replicate count (.thread tid .run)
  List.flatten [[.thread 0 (.retire (some ()))], runs 0 6,
    List.flatten (List.replicate 62 (retireOnce 0)),
    [.thread 1 (.retire (some ()))], runs 1 6,
    List.flatten (List.replicate 63 (retireOnce 1)), runs 1 12,
    List.flatten (List.replicate 63 (retireOnce 0)),
    List.flatten (List.replicate 64 (retireOnce 1)), runs 1 10,
    List.flatten (List.replicate 2 (retireOnce 0))]

/-- A thread that retires slowly holds 128 nodes when `Retire` returns. -/
theorem slow_thread_accumulates :
    ¬ HoldsAtMost Unit (fun _ => 2 * kBatchThreshold - 1)
      fun _ event => onlyRetires event = true := by
  intro hbounded
  obtain ⟨pair, hreach, hpair⟩ := System.exists_reachable_of_replay
    ((ebr Unit).withHistory (retireEpochs 0)) (fun _ event => onlyRetires event = true) ({}, [])
    slowAndFast
    (fun pair => heldNodes pair.1 0 == 128 && (pair.1.threads 0).pc.isIdle)
    (.init ⟨rfl, rfl⟩) (by decide +kernel)
  simp only [Bool.and_eq_true, beq_iff_eq] at hpair
  have hle := hbounded 0 pair hreach (idle_of_isIdle hpair.2)
  rw [hpair.1] at hle
  exact absurd hle (by simp [kBatchThreshold])

end HotPath.Concurrency
