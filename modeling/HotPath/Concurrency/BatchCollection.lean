import HotPath.Concurrency.BatchOrder
import HotPath.Concurrency.Reclamation

/-!
# Retirement batches over whole runs

What holds of a thread's batches follows its place: they go up to the epoch that `Retire` has read,
they are untouched while `Gc` scans, and then the sweep is under way (`CallInv`). With this
`batches_exact` settles every run in which the global epoch does not wrap around. An epoch that
wraps around is below the newest batches (`wrapped_epoch_below_batch`).
-/

namespace HotPath.Concurrency

open HotPath.Foundation

variable {Node : Type}

/-! ## The invariant of one thread -/

/-- What holds of a thread's batches and of its open call of `Gc`. -/
def CallInv (globalEpoch : UInt64) (batches : List (Batch Node)) (call : Option (GcCall Node)) :
    Part Node → Prop
  | .elsewhere => call = none
  | .pushing _ currentEpoch =>
      call = none ∧ currentEpoch ≤ globalEpoch ∧ Ordered batches currentEpoch
  | .scanning _ => call = some { before := batches }
  | .sweeping minEpoch index =>
      ∃ current, call = some current ∧ current.moved ≤ 1 ∧
        Sweeping current minEpoch batches index

section Calls

variable {shared shared' : Shared Node} {thread thread' : Thread Node}
  {call : Option (GcCall Node)} {batches : List (Batch Node)} {part : Part Node} {tcb : TcbId}

/-- The global epoch moves on. -/
theorem CallInv.mono {globalEpoch globalEpoch' : UInt64}
    (h : CallInv globalEpoch batches call part) (hle : globalEpoch ≤ globalEpoch') :
    CallInv globalEpoch' batches call part := by
  cases part with
  | pushing => exact ⟨h.1, UInt64.le_trans h.2.1 hle, h.2.2⟩
  | elsewhere | scanning | sweeping => exact h

theorem ownBatches_some {tls : Option TcbId} (htls : tls = some tcb) :
    ownBatches shared tls = (shared.tcbs tcb).retirementBatches := by
  rw [htls]
  rfl

theorem ownBatches_none {tls : Option TcbId} (htls : tls = none) : ownBatches shared tls = [] := by
  rw [htls]
  rfl

theorem newlyDeleted_append {nodes : List Node}
    (h : shared'.deleted = shared.deleted ++ nodes) : newlyDeleted shared shared' = nodes := by
  simp [newlyDeleted, h]

theorem newlyDeleted_same (h : shared'.deleted = shared.deleted) :
    newlyDeleted shared shared' = [] := by
  simp [newlyDeleted, h]

theorem newlyDeleted_setTcb (own : TcbId) (block : ThreadControlBlock Node) :
    newlyDeleted shared (shared.setTcb own block) = [] :=
  newlyDeleted_same rfl

theorem epochMoves_same (h : shared'.globalEpoch = shared.globalEpoch) :
    epochMoves shared shared' = 0 := by
  simp [epochMoves, h]

/-- An advance of the epoch that does not wrap around. -/
theorem epochMoves_next (h : shared'.globalEpoch = shared.globalEpoch + 1) :
    epochMoves shared shared' = 1 := by
  rw [epochMoves, h, UInt64.add_comm, UInt64.add_sub_cancel]
  rfl

/-- A step that deletes some nodes and moves no epoch. -/
theorem GcCall.step_deleted {current : GcCall Node} {nodes : List Node}
    (hdeleted : shared'.deleted = shared.deleted ++ nodes)
    (hepoch : shared'.globalEpoch = shared.globalEpoch) :
    current.step shared shared' = { current with deleted := current.deleted ++ nodes } := by
  simp [GcCall.step, newlyDeleted_append hdeleted, epochMoves_same hepoch]

/-- A step that neither deletes nodes nor moves the epoch. -/
theorem GcCall.step_same {current : GcCall Node} (hdeleted : shared'.deleted = shared.deleted)
    (hepoch : shared'.globalEpoch = shared.globalEpoch) :
    current.step shared shared' = current := by
  simp [GcCall.step, newlyDeleted_same hdeleted, epochMoves_same hepoch]

/-- A store of batches in order. -/
theorem ordered_setTcb {epoch : UInt64} (own : TcbId)
    (h : ∀ tcb, Ordered (shared.tcbs tcb).retirementBatches epoch)
    (hnew : Ordered batches epoch) (tcb : TcbId) :
    Ordered ((shared.setTcb own { shared.tcbs own with retirementBatches := batches }).tcbs
      tcb).retirementBatches epoch := by
  rw [batches_setTcb]
  split
  · exact hnew
  · exact h tcb

/-- A step keeps the batches of every block in order. -/
theorem BatchStep.ordered (hstep : BatchStep shared thread shared' thread')
    (h : ∀ tcb, Ordered (shared.tcbs tcb).retirementBatches shared.globalEpoch)
    (hcall : CallInv shared.globalEpoch (ownBatches shared thread.tlsTcb) call thread.pc.part) :
    ∀ tcb, Ordered (shared'.tcbs tcb).retirementBatches shared'.globalEpoch := by
  intro tcb
  cases hstep with
  | elsewhere hsame hepoch =>
      rw [hsame.batches, hepoch]
      exact h tcb
  | load | begin | scan => exact h tcb
  | push node currentEpoch own pc hpc htls =>
      rw [hpc, ownBatches_some htls] at hcall
      obtain ⟨-, hle, hbatches⟩ := hcall
      exact ordered_setTcb own h ((hbatches.push node).mono hle) tcb
  | leave minEpoch epoch hpart hepoch =>
      refine (h tcb).mono ?_
      rcases hepoch with rfl | ⟨rfl, hwrap⟩
      · exact UInt64.le_refl _
      · exact UInt64.le_of_lt (lt_add_one_of_ne_zero hwrap)
  | sweep minEpoch index own hpc htls hsweep =>
      cases hsweep with
      | finish | skip => exact h tcb
      | delete hbatch hold hnodes =>
          refine ordered_setTcb own h ((h own).shrink ?_) tcb
          obtain ⟨before, after, hsplit, hset, -⟩ := split_at_index hbatch
          rw [hset, hsplit]
          simp
      | erase hbatch hold hnodes =>
          exact ordered_setTcb own h
            ((h own).shrink ((List.eraseIdx_sublist _ index).map Batch.epoch)) tcb

/-- The nodes that a step pushes to a block and deletes from it. -/
theorem BatchStep.nodes (hstep : BatchStep shared thread shared' thread')
    (h : ∀ tcb, Ordered (shared.tcbs tcb).retirementBatches shared.globalEpoch)
    (hcall : CallInv shared.globalEpoch (ownBatches shared thread.tlsTcb) call thread.pc.part)
    (tcb : TcbId) :
    shared.retiredNodes tcb ++ (if thread.tlsTcb = some tcb then thread.pc.part.pushed else []) =
      (if thread.tlsTcb = some tcb then newlyDeleted shared shared' else []) ++
        shared'.retiredNodes tcb := by
  have hquiet : SameBatches shared shared' → thread.pc.part.pushed = [] →
      shared.retiredNodes tcb ++ (if thread.tlsTcb = some tcb then thread.pc.part.pushed else []) =
        (if thread.tlsTcb = some tcb then newlyDeleted shared shared' else []) ++
          shared'.retiredNodes tcb := by
    intro hsame hpushed
    simp [hpushed, newlyDeleted_same hsame.deleted, Shared.retiredNodes, hsame.batches]
  cases hstep with
  | elsewhere hsame _ hpart => exact hquiet hsame (by rw [hpart]; rfl)
  | load _ hpart => exact hquiet ⟨fun _ => rfl, rfl⟩ (by rw [hpart]; rfl)
  | begin hpc => exact hquiet ⟨fun _ => rfl, rfl⟩ (by rw [hpc]; rfl)
  | scan _ _ _ hpart => exact hquiet ⟨fun _ => rfl, rfl⟩ (by rw [hpart]; rfl)
  | leave _ _ hpart => exact hquiet ⟨fun _ => rfl, rfl⟩ (by rw [hpart]; rfl)
  | push node currentEpoch own pc hpc htls =>
      rw [newlyDeleted_setTcb, retiredNodes_setBatches, htls, hpc]
      by_cases heq : tcb = own
      · subst heq
        simp [flatMap_pushRetired, Shared.retiredNodes, Pc.part, Part.pushed]
      · simp [heq, Ne.symm heq]
  | sweep minEpoch index own hpc htls hsweep =>
      have hpushed : thread.pc.part.pushed = [] := by rw [hpc]; rfl
      rw [hpc, ownBatches_some htls] at hcall
      obtain ⟨current, -, -, hsweeping⟩ := hcall
      cases hsweep with
      | finish | skip => exact hquiet ⟨fun _ => rfl, rfl⟩ hpushed
      | @delete batch node nodes hbatch hold hnodes =>
          -- The batches are in order, so the oldest node of all is the one that goes.
          obtain ⟨rfl, rest, hrest⟩ := (h own).first_old hsweeping.kept hbatch hold
          rw [newlyDeleted_append rfl, htls, hpushed]
          change _ = _ ++ (shared.setTcb own _).retiredNodes tcb
          rw [retiredNodes_setBatches]
          by_cases heq : tcb = own
          · subst heq
            simp [Shared.retiredNodes, hrest, hnodes]
          · simp [heq, Ne.symm heq]
      | erase hbatch hold hnodes =>
          obtain ⟨rfl, rest, hrest⟩ := (h own).first_old hsweeping.kept hbatch hold
          rw [newlyDeleted_setTcb, htls, hpushed, retiredNodes_setBatches]
          by_cases heq : tcb = own
          · subst heq
            simp [Shared.retiredNodes, hrest, hnodes]
          · simp [heq]

/-- A thread that pushes a node has a block. -/
theorem BatchStep.bound (hstep : BatchStep shared thread shared' thread') {node : Node}
    (hpushed : node ∈ thread.pc.part.pushed) : ∃ own, thread.tlsTcb = some own := by
  cases hstep with
  | push _ _ own _ _ htls => exact ⟨own, htls⟩
  | elsewhere _ _ hpart | load _ hpart | scan _ _ _ hpart | leave _ _ hpart =>
      simp [hpart, Part.pushed] at hpushed
  | begin hpc | sweep _ _ _ hpc => simp [hpc, Pc.part, Part.pushed] at hpushed

/-- Nodes are deleted one after the other. -/
theorem BatchStep.deleted (hstep : BatchStep shared thread shared' thread') :
    shared'.deleted = shared.deleted ++ newlyDeleted shared shared' := by
  have hsame : shared'.deleted = shared.deleted →
      shared'.deleted = shared.deleted ++ newlyDeleted shared shared' := fun h => by
    rw [newlyDeleted_same h, h, List.append_nil]
  cases hstep with
  | elsewhere h => exact hsame h.deleted
  | load | push | begin | scan | leave => exact hsame rfl
  | sweep _ _ _ _ _ hsweep =>
      cases hsweep with
      | finish | skip | erase => exact hsame rfl
      | delete => rw [newlyDeleted_append rfl]

/-- Only calls of `Gc` move the global epoch. -/
theorem BatchStep.moves (hstep : BatchStep shared thread shared' thread')
    (hcall : CallInv shared.globalEpoch (ownBatches shared thread.tlsTcb) call thread.pc.part) :
    shared'.globalEpoch.toNat =
      shared.globalEpoch.toNat + if call.isSome then epochMoves shared shared' else 0 := by
  have hsame : shared'.globalEpoch = shared.globalEpoch → shared'.globalEpoch.toNat =
      shared.globalEpoch.toNat + if call.isSome then epochMoves shared shared' else 0 := fun h => by
    simp [epochMoves_same h, h]
  cases hstep with
  | elsewhere _ h => exact hsame h
  | load | push | begin | scan => exact hsame rfl
  | leave minEpoch epoch hpart hepoch =>
      rcases hepoch with rfl | ⟨rfl, hwrap⟩
      · exact hsame rfl
      · rw [hpart] at hcall
        obtain rfl : call = _ := hcall
        rw [epochMoves_next rfl]
        have hlt := lt_add_one_of_ne_zero hwrap
        rw [UInt64.lt_iff_toNat_lt] at hlt
        have hbound := shared.globalEpoch.toNat_lt
        simp only [UInt64.toNat_add, UInt64.reduceToNat, Option.isSome_some] at hlt ⊢
        simp only [if_true]
        omega
  | sweep _ _ _ _ _ hsweep => cases hsweep <;> exact hsame rfl

/-- The report of a call that ends. -/
theorem nextReport_end {current : GcCall Node} {minEpoch : UInt64}
    (hpart : thread'.pc.part = .elsewhere) (hmin : thread.pc.part.minEpoch = some minEpoch) :
    nextReport (some current) shared thread shared' thread' =
      [{ current.step shared shared' with
        minEpoch
        after := ownBatches shared' thread'.tlsTcb }] := by
  simp [nextReport, hpart, hmin]

/-- A step of a thread keeps the invariant of its open call, and a call that it ends has been
exact. -/
structure Tracked (call : Option (GcCall Node)) (shared : Shared Node) (thread : Thread Node)
    (shared' : Shared Node) (thread' : Thread Node) : Prop where
  inv : CallInv shared'.globalEpoch (ownBatches shared' thread'.tlsTcb)
    (nextCall call shared shared' thread') thread'.pc.part
  exact : ∀ report ∈ nextReport call shared thread shared' thread', report.Exact

/-- A step that ends no call of `Gc`. -/
theorem Tracked.inside (hinv : CallInv shared'.globalEpoch (ownBatches shared' thread'.tlsTcb)
      (nextCall call shared shared' thread') thread'.pc.part)
    (h : thread.pc.part.minEpoch = none ∨ thread'.pc.part ≠ .elsewhere) :
    Tracked call shared thread shared' thread' := by
  refine ⟨hinv, fun report hreport => ?_⟩
  unfold nextReport at hreport
  split at hreport
  · next hpart hmin =>
      rcases h with hnone | hinside
      · rw [hnone] at hmin
        cases hmin
      · exact absurd hpart hinside
  · cases hreport

/-- `Gc` has its minimum and goes on to sweep, or returns if its thread has no block. -/
theorem tracked_leave {minEpoch epoch : UInt64}
    (hpart : thread.pc.part = .scanning (some minEpoch))
    (hepoch : epoch = shared.globalEpoch ∨
      epoch = shared.globalEpoch + 1 ∧ shared.globalEpoch + 1 ≠ 0) :
    Tracked (some { before := ownBatches shared thread.tlsTcb }) shared thread
      { shared with globalEpoch := epoch } (beginSweep thread minEpoch) := by
  have hmoved : epochMoves shared { shared with globalEpoch := epoch } ≤ 1 := by
    rcases hepoch with rfl | ⟨rfl, -⟩
    · exact Nat.le_trans (Nat.le_of_eq (epochMoves_same rfl)) (Nat.zero_le _)
    · exact Nat.le_of_eq (epochMoves_next rfl)
  have hdeleted : newlyDeleted shared { shared with globalEpoch := epoch } = [] :=
    newlyDeleted_same rfl
  obtain htls | ⟨own, htls⟩ := Option.eq_none_or_eq_some thread.tlsTcb
  · -- A thread without a block has no batches, and all of none are kept.
    have hidle : beginSweep thread minEpoch = { thread with pc := .idle } := by
      simp [beginSweep, htls]
    rw [hidle]
    refine ⟨rfl, fun report hreport => ?_⟩
    rw [nextReport_end rfl (by rw [hpart]; rfl)] at hreport
    obtain rfl := List.mem_singleton.mp hreport
    rw [ownBatches_none htls, ownBatches_none htls]
    exact ⟨⟨[], rfl, by simp, hdeleted⟩, by simp, by simpa [GcCall.step] using hmoved⟩
  · have hsweep : (beginSweep thread minEpoch).pc = .gcSweep minEpoch 0 := beginSweep_pc htls
    refine .inside ?_ (.inr (by rw [hsweep]; simp [Pc.part]))
    rw [nextCall, hsweep, beginSweep_tlsTcb]
    refine ⟨_, rfl, by simpa [GcCall.step] using hmoved, .start ?_ hdeleted⟩
    rw [ownBatches_some htls, ownBatches_some htls]
    rfl

/-- A step of the sweep keeps its invariant, or returns from a call that has been exact. -/
theorem SweepStep.tracked {minEpoch : UInt64} {index : Nat} {current : GcCall Node}
    (hsweep : SweepStep shared thread tcb minEpoch index shared' thread')
    (hpc : thread.pc = .gcSweep minEpoch index) (htls : thread.tlsTcb = some tcb)
    (h : Ordered (shared.tcbs tcb).retirementBatches shared.globalEpoch)
    (hmoved : current.moved ≤ 1)
    (hsweeping : Sweeping current minEpoch (shared.tcbs tcb).retirementBatches index) :
    Tracked (some current) shared thread shared' thread' := by
  have hpart : thread.pc.part ≠ .elsewhere := by simp [hpc, Pc.part]
  cases hsweep with
  | finish hnone =>
      refine ⟨rfl, fun report hreport => ?_⟩
      rw [nextReport_end rfl (by rw [hpc]; rfl), ownBatches_some htls] at hreport
      obtain rfl := List.mem_singleton.mp hreport
      rw [GcCall.step_same rfl rfl]
      exact hsweeping.finish hnone hmoved
  | skip hbatch hyoung =>
      refine .inside ⟨current, congrArg some (GcCall.step_same rfl rfl), hmoved, ?_⟩
        (.inr (by simp [Pc.part]))
      rw [ownBatches_some htls]
      exact hsweeping.skip hbatch hyoung
  | @delete batch node nodes hbatch hold hnodes =>
      obtain ⟨rfl, rest, hrest⟩ := h.first_old hsweeping.kept hbatch hold
      refine .inside ?_ (.inr hpart)
      rw [nextCall, hpc]
      refine ⟨{ current with deleted := current.deleted ++ [node] },
        congrArg some (GcCall.step_deleted rfl rfl), hmoved, ?_⟩
      rw [ownBatches_some htls]
      change Sweeping _ _ ((shared.setTcb tcb _).tcbs tcb).retirementBatches 0
      rw [batches_setTcb, if_pos rfl, hrest, List.set_cons_zero]
      exact (hrest ▸ hsweeping).delete hold hnodes
  | erase hbatch hold hnodes =>
      obtain ⟨rfl, rest, hrest⟩ := h.first_old hsweeping.kept hbatch hold
      refine .inside ?_ (.inr hpart)
      rw [nextCall, hpc]
      refine ⟨current, congrArg some (GcCall.step_same rfl rfl), hmoved, ?_⟩
      rw [ownBatches_some htls, batches_setTcb, if_pos rfl, hrest]
      exact (hrest ▸ hsweeping).erase hold hnodes

/-- Every step keeps what holds of its thread's batches. -/
theorem BatchStep.tracked (hstep : BatchStep shared thread shared' thread')
    (h : ∀ tcb, Ordered (shared.tcbs tcb).retirementBatches shared.globalEpoch)
    (hcall : CallInv shared.globalEpoch (ownBatches shared thread.tlsTcb) call thread.pc.part) :
    Tracked call shared thread shared' thread' := by
  cases hstep with
  | elsewhere _ _ hpart hpart' =>
      refine .inside ?_ (.inl (by rw [hpart]; rfl))
      rw [nextCall, hpart']
      rfl
  | load node hpart =>
      refine .inside ⟨rfl, UInt64.le_refl _, ?_⟩ (.inl (by rw [hpart]; rfl))
      cases htls : thread.tlsTcb with
      | none => simpa [ownBatches, htls] using ordered_nil shared.globalEpoch
      | some own => simpa [ownBatches, htls] using h own
  | push node currentEpoch own pc hpc htls hnext =>
      refine .inside ?_ (.inl (by rw [hpc]; rfl))
      rcases hnext with rfl | rfl <;> rfl
  | begin hpc => exact .inside rfl (.inl (by rw [hpc]; rfl))
  | scan minEpoch minEpoch' pc hpart hpart' =>
      rw [hpart] at hcall
      obtain rfl : call = _ := hcall
      refine .inside ?_ (.inr (by rw [hpart']; simp))
      rw [nextCall, hpart']
      exact congrArg some (GcCall.step_same rfl rfl)
  | leave minEpoch epoch hpart hepoch =>
      rw [hpart] at hcall
      obtain rfl : call = _ := hcall
      exact tracked_leave hpart hepoch
  | sweep minEpoch index own hpc htls hsweep =>
      rw [hpc, ownBatches_some htls] at hcall
      obtain ⟨current, rfl, hmoved, hsweeping⟩ := hcall
      exact hsweep.tracked hpc htls (h own) hmoved hsweeping

/-- A thread inside `Gc` has an open call, which has moved the epoch by at most one. -/
theorem CallInv.ongoing {globalEpoch : UInt64} (h : CallInv globalEpoch batches call part)
    (hinside : part.inGc = true) : ∃ current, call = some current ∧ current.moved ≤ 1 := by
  cases part with
  | scanning => exact ⟨_, h, Nat.zero_le _⟩
  | sweeping =>
      obtain ⟨current, hcall, hmoved, -⟩ := h
      exact ⟨current, hcall, hmoved⟩
  | elsewhere | pushing => cases hinside

/-- A step changes the batches of its thread's block only. -/
theorem BatchStep.others (hstep : BatchStep shared thread shared' thread')
    (hne : thread.block ≠ some tcb) :
    (shared'.tcbs tcb).retirementBatches = (shared.tcbs tcb).retirementBatches := by
  have hset : ∀ own batches, thread.pc.newBlock = none → thread.tlsTcb = some own →
      ((shared.setTcb own { shared.tcbs own with retirementBatches := batches }).tcbs
        tcb).retirementBatches = (shared.tcbs tcb).retirementBatches := by
    intro own batches hnew htls
    rw [batches_setTcb, if_neg]
    rintro rfl
    exact hne ((block_eq_tls hnew).trans htls)
  cases hstep with
  | elsewhere hsame => exact hsame.batches tcb
  | load | begin | scan | leave => rfl
  | push _ _ own _ hpc htls => exact hset own _ (by simp [hpc, Pc.newBlock]) htls
  | sweep _ _ own hpc htls hsweep =>
      cases hsweep with
      | finish | skip => rfl
      | delete | erase => exact hset own _ (by simp [hpc, Pc.newBlock]) htls

/-- Steps of the other threads keep what holds of a thread's batches. -/
theorem CallInv.frame (h : CallInv shared.globalEpoch (ownBatches shared thread.tlsTcb) call
      thread.pc.part) (hle : shared.globalEpoch ≤ shared'.globalEpoch)
    (hown : ∀ tcb, thread.block = some tcb → shared'.tcbs tcb = shared.tcbs tcb) :
    CallInv shared'.globalEpoch (ownBatches shared' thread.tlsTcb) call thread.pc.part := by
  by_cases hnew : thread.pc.newBlock = none
  · have hsame : ownBatches shared' thread.tlsTcb = ownBatches shared thread.tlsTcb := by
      obtain htls | ⟨own, htls⟩ := Option.eq_none_or_eq_some thread.tlsTcb
      · rw [ownBatches_none htls, ownBatches_none htls]
      · rw [ownBatches_some htls, ownBatches_some htls, hown own ((block_eq_tls hnew).trans htls)]
    rw [hsame]
    exact h.mono hle
  · -- A thread that is registering has no open call, and its batches do not matter yet.
    have hpart : thread.pc.part = .elsewhere := by
      cases hpc : thread.pc <;> simp_all [Pc.newBlock, Pc.part]
    rw [hpart] at h ⊢
    exact h

end Calls

/-! ## Runs -/

/-- The invariant of a run. -/
structure BatchInv (state : State Node) (history : RetireHistory Node) : Prop where
  exclusive : Exclusive state
  unused : ∀ tcb, state.shared.tcbCount ≤ tcb → (state.shared.tcbs tcb).retirementBatches = []
  ordered : ∀ tcb, Ordered (state.shared.tcbs tcb).retirementBatches state.shared.globalEpoch
  passed : ∀ tid,
    history.passedBy tid = history.pushedBy tid ++ (state.threads tid).pc.inHand.toList
  pending : ∀ tcb,
    history.pushedTo tcb = history.freedFrom tcb ++ state.shared.retiredNodes tcb
  bound : ∀ tid tls node, (tid, tls, node) ∈ history.pushed → ∃ tcb, tls = some tcb
  freed : history.freed.map Prod.snd = state.shared.deleted
  calls : ∀ tid, CallInv state.shared.globalEpoch
    (ownBatches state.shared (state.threads tid).tlsTcb) (history.calls tid)
    (state.threads tid).pc.part
  reports : ∀ report ∈ history.reports, report.Exact
  moved : state.shared.globalEpoch.toNat = 1 + history.moved

section Runs

variable {state : State Node} {history : RetireHistory Node} {tid : ThreadId}
  {action : Action Node} {shared' : Shared Node} {thread' : Thread Node}

/-- A run starts without batches. -/
theorem BatchInv.init : BatchInv ({} : State Node) {} where
  exclusive := listInv_init.toExclusive
  unused := fun _ _ => rfl
  ordered := fun _ => ordered_nil _
  passed := fun _ => rfl
  pending := fun _ => rfl
  bound := by simp
  freed := rfl
  calls := fun _ => rfl
  reports := by simp
  moved := rfl

/-- An action of a thread keeps the invariant, unless the epoch wraps around. -/
theorem BatchInv.act (h : BatchInv state history)
    (hact : act state.shared tid (state.threads tid) action = some (shared', thread'))
    (hwrap : action = .run → ∀ minEpoch,
      (state.threads tid).pc = .gcCas minEpoch state.shared.globalEpoch →
      state.shared.globalEpoch + 1 ≠ 0) :
    BatchInv ⟨shared', Function.update state.threads tid thread'⟩
      (history.act tid action state.shared (state.threads tid) shared' thread') := by
  have hblocks := act_blocks hact
  have hstep := act_batches hact (h.unused _ (Nat.le_refl _)) hwrap
  have hmoves := hstep.moves (h.calls tid)
  have hle : state.shared.globalEpoch ≤ shared'.globalEpoch := by
    rw [UInt64.le_iff_toNat_le, hmoves]
    exact Nat.le_add_right _ _
  obtain ⟨hcall, hreport⟩ := hstep.tracked h.ordered (h.calls tid)
  constructor
  case exclusive => exact h.exclusive.step hblocks
  case unused =>
    intro tcb hcount
    -- A block that is not allocated belongs to no thread, so nobody stores in it.
    have hunused := Nat.le_trans hblocks.count hcount
    refine (hstep.others fun hown => ?_).trans (h.unused tcb hunused)
    exact Nat.not_lt.mpr hunused (h.exclusive.allocated tid tcb hown)
  case ordered => exact hstep.ordered h.ordered (h.calls tid)
  case passed =>
    intro other
    have hhand := act_inHand hact
    have hbefore := h.passed other
    simp only [RetireHistory.passedBy, RetireHistory.pushedBy, RetireHistory.act, entries_append,
      entries_values, entries_map, List.map_append] at hbefore ⊢
    rw [hbefore]
    by_cases heq : other = tid
    · subst heq
      simpa [Function.comp_def] using hhand
    · simp [Ne.symm heq, heq]
  case pending =>
    intro tcb
    have hnodes := hstep.nodes h.ordered (h.calls tid) tcb
    have hbefore := h.pending tcb
    simp only [RetireHistory.pushedTo, RetireHistory.freedFrom, RetireHistory.act,
      List.map_append, List.map_map, entries_append, Function.comp_def,
      entries_values] at hbefore ⊢
    rw [hbefore, List.append_assoc, hnodes, List.append_assoc]
  case bound =>
    intro other tls node hmem
    rcases List.mem_append.mp hmem with hold | hnew
    · exact h.bound other tls node hold
    · obtain ⟨pushed, hpushed, heq⟩ := List.mem_map.mp hnew
      obtain ⟨-, rfl, -⟩ : tid = other ∧ _ = tls ∧ pushed = node := by simpa using heq
      exact hstep.bound hpushed
  case freed =>
    simp only [RetireHistory.act, List.map_append, List.map_map, Function.comp_def, List.map_id',
      h.freed]
    exact hstep.deleted.symm
  case calls =>
    intro other
    by_cases heq : other = tid
    · subst heq
      simpa only [RetireHistory.act, Function.update_self] using hcall
    · simp only [RetireHistory.act, Function.update_of_ne heq]
      exact (h.calls other).frame hle fun tcb => h.exclusive.other_block hblocks heq
  case reports =>
    intro report hmem
    rcases List.mem_append.mp hmem with hold | hnew
    · exact h.reports report hold
    · exact hreport report hnew
  case moved =>
    simp only [RetireHistory.act]
    rw [hmoves, h.moved, Nat.add_assoc]

/-- The invariant holds of every run in which the epoch does not wrap around. -/
theorem reachable_batches {pair : State Node × RetireHistory Node}
    (h : ((ebr Node).withHistory collections).Reachable
      (fun pair event => wraps pair.1 event = false) pair) : BatchInv pair.1 pair.2 := by
  refine h.invariant (fun pair => BatchInv pair.1 pair.2) ?_ ?_
  · rintro ⟨state, history⟩ ⟨hinit, hstart⟩
    obtain rfl : state = {} := hinit
    obtain rfl : history = {} := hstart
    exact .init
  · rintro ⟨state, history⟩ event ⟨next, history'⟩ hinv hquiet hstep
    obtain ⟨hnext, hrecord⟩ := System.withHistory_step.mp hstep
    obtain rfl : history' = collections.observe state event next history := hrecord
    rcases step_thread hnext with
      ⟨⟨node, rfl⟩, heq⟩ | ⟨tid, action, shared', thread', rfl, hact, heq⟩
    · obtain rfl : next = state := heq
      exact hinv
    · obtain rfl : next = _ := heq
      have hnext := hinv.act hact (not_wraps hquiet)
      simpa only [collections, Function.update_self] using hnext

/-- If every node is passed to `Retire` once, every node is pushed once. -/
theorem BatchInv.pushed_once (h : BatchInv state history)
    (honce : (history.passed.map Prod.snd).Nodup) :
    (history.pushed.map fun push => push.2.2).Nodup := by
  obtain ⟨hkeys, hdistinct⟩ := nodup_iff_entries.mp honce
  have hsame : ∀ tid, entries (history.pushed.map fun push => (push.1, push.2.2)) tid =
      history.pushedBy tid := fun tid => entries_map_snd Prod.snd
  have hpassed : ∀ tid node, node ∈ history.pushedBy tid → node ∈ entries history.passed tid := by
    intro tid node hnode
    change node ∈ history.passedBy tid
    rw [h.passed tid]
    exact List.mem_append_left _ hnode
  -- What a thread has pushed is the first part of what it was passed.
  have hnodup : ((history.pushed.map fun push => (push.1, push.2.2)).map Prod.snd).Nodup := by
    refine nodup_iff_entries.mpr ⟨fun tid => ?_, fun tid other node hnode hother => ?_⟩
    · rw [hsame]
      have hkey := hkeys tid
      change (history.passedBy tid).Nodup at hkey
      rw [h.passed tid] at hkey
      exact (List.nodup_append.mp hkey).1
    · rw [hsame] at hnode hother
      exact hdistinct tid other node (hpassed tid node hnode) (hpassed other node hother)
  rwa [List.map_map] at hnodup

/-- In batches without repeated nodes, a node is in one batch. -/
theorem index_unique {batches : List (Batch Node)} (h : (batches.flatMap Batch.nodes).Nodup)
    {node : Node} {first second : Nat} {batch other : Batch Node}
    (hfirst : batches[first]? = some batch) (hnode : node ∈ batch.nodes)
    (hsecond : batches[second]? = some other) (hother : node ∈ other.nodes) : first = second := by
  have hapart := List.pairwise_iff_getElem.mp (List.nodup_flatMap.mp h).2
  obtain ⟨hlt, rfl⟩ := List.getElem?_eq_some_iff.mp hfirst
  obtain ⟨hlt', rfl⟩ := List.getElem?_eq_some_iff.mp hsecond
  rcases Nat.lt_trichotomy first second with hbefore | heq | hafter
  · exact absurd hother (hapart first second hlt hlt' hbefore hnode)
  · exact heq
  · exact absurd hnode (hapart second first hlt' hlt hafter hother)

theorem InBatch.retired {shared : Shared Node} {node : Node} {tcb : TcbId} {index : Nat}
    (h : InBatch shared node tcb index) : node ∈ shared.retiredNodes tcb := by
  obtain ⟨batch, hbatch, hnode⟩ := h
  exact List.mem_flatMap.mpr ⟨batch, List.mem_of_getElem? hbatch, hnode⟩

/-- A node that has been retired once and is not deleted is in one batch of one block. -/
theorem BatchInv.one_batch (h : BatchInv state history)
    (honce : (history.passed.map Prod.snd).Nodup) {node : Node}
    (hnode : node ∈ history.passedBy tid) (hdeleted : node ∉ state.shared.deleted)
    (hhand : (state.threads tid).pc.inHand ≠ some node) :
    ∃ tcb index, (tid, some tcb, node) ∈ history.pushed ∧
      ∀ other place, InBatch state.shared node other place ↔ other = tcb ∧ place = index := by
  have hpushed : node ∈ history.pushedBy tid := by
    rw [h.passed tid] at hnode
    refine (List.mem_append.mp hnode).resolve_right fun hin => hhand ?_
    simpa using hin
  obtain ⟨⟨tls, _⟩, hentry, rfl⟩ := List.mem_map.mp hpushed
  have hpush := mem_entries.mp hentry
  obtain ⟨tcb, rfl⟩ := h.bound tid tls _ hpush
  have hnodup : ((history.pushed.map Prod.snd).map Prod.snd).Nodup := by
    rw [List.map_map]
    exact h.pushed_once honce
  -- So the node was pushed to one block, where it is deleted or pending.
  obtain ⟨hkeys, hdistinct⟩ := nodup_iff_entries.mp hnodup
  have hto : ∀ tcb node, node ∈ state.shared.retiredNodes tcb →
      node ∈ history.pushedTo tcb := by
    intro tcb node hin
    rw [h.pending tcb]
    exact List.mem_append_right _ hin
  have htcb : ∀ node, (tid, some tcb, node) ∈ history.pushed → node ∈ history.pushedTo tcb :=
    fun node hin => mem_entries.mpr (List.mem_map_of_mem hin)
  have hretired := htcb _ hpush
  rw [h.pending tcb] at hretired
  have hin := (List.mem_append.mp hretired).resolve_left fun hfreed => hdeleted (by
    rw [← h.freed]
    exact List.mem_map_of_mem (mem_entries.mp hfreed))
  obtain ⟨batch, hbatch, hmem⟩ := List.mem_flatMap.mp hin
  obtain ⟨index, hindex⟩ := List.mem_iff_getElem?.mp hbatch
  refine ⟨tcb, index, hpush, fun other place => ⟨fun hplace => ?_, ?_⟩⟩
  · obtain rfl : other = tcb :=
      Option.some.inj (hdistinct (some other) (some tcb) _ (hto other _ hplace.retired)
        (htcb _ hpush))
    refine ⟨rfl, ?_⟩
    have hpending := hkeys (some other)
    change (history.pushedTo other).Nodup at hpending
    rw [h.pending other] at hpending
    obtain ⟨batch', hbatch', hmem'⟩ := hplace
    exact index_unique (List.nodup_append.mp hpending).2.1 hbatch' hmem' hindex hmem
  · rintro ⟨rfl, rfl⟩
    exact ⟨batch, hindex, hmem⟩

end Runs

/-- Retirement batches are ordered and collected exactly in every run in which the epoch does not
wrap around. -/
theorem batches_exact (Node : Type) :
    BatchesExact Node fun state event => wraps state event = false := by
  intro pair hreach
  have hinv := reachable_batches hreach
  have hrun : (ebr Node).Reachable (fun state event => wraps state event = false) pair.1 :=
    hreach.erase fun _ _ hallow => hallow
  exact {
    increasing := fun tcb => (hinv.ordered tcb).sorted
    upToGlobal := fun tcb => (hinv.ordered tcb).upTo
    passed := hinv.passed
    pending := hinv.pending
    freed := hinv.freed
    oneBatch := fun honce _ _ hnode hdeleted hhand => hinv.one_batch honce hnode hdeleted hhand
    ongoing := fun tid hinside => (hinv.calls tid).ongoing hinside
    reports := hinv.reports
    returns := fun _ hinside => gc_returns hrun hinside
    moved := hinv.moved }

/-! ## The epoch wraps -/

/-- Threads call `Retire` and `Gc` and nothing else. -/
def retiresOrCollects : Event Node → Bool
  | .thread _ (.retire (some _)) | .thread _ .gc | .thread _ .run => true
  | _ => false

/-- With no block on the list, a call of `Gc` advances the epoch. -/
theorem replay_advance (epoch : UInt64) :
    (ebr Nat).replay (fun _ event => retiresOrCollects event = true) (quietAt epoch) loneGc =
      some (quietAt (epoch + 1)) := by
  simp [System.replay, loneGc, ebr, Concurrency.step, act, call, run, quietAt, retiresOrCollects,
    walkTo, beginSweep]

/-- Calls of `Gc` alone reach every epoch. -/
theorem reachable_epoch (rounds : Nat) :
    (ebr Nat).Reachable (fun _ event => retiresOrCollects event = true)
      (quietAt (UInt64.ofNat (rounds + 1))) := by
  induction rounds with
  | zero => exact .init rfl
  | succ rounds ih =>
      have hreplay := replay_advance (UInt64.ofNat (rounds + 1))
      rw [← UInt64.ofNat_one, ← UInt64.ofNat_add] at hreplay
      exact ih.replay hreplay

/-- A thread retires a node, and another one advances the epoch. -/
def retireThenAdvance : List (Event Nat) :=
  .thread 1 (.retire (some 0)) :: runs 1 6 ++ .thread 0 .gc :: runs 0 7

/-- A node retired at the largest epoch is in a batch above the global epoch once that has wrapped
around to zero. -/
theorem wrapped_epoch_below_batch :
    ¬ BatchesExact Nat fun _ event => retiresOrCollects event = true := by
  intro hexact
  have hlast := reachable_epoch (2 ^ 64 - 2)
  obtain ⟨state, hreach, hstate⟩ := System.exists_reachable_of_replay (ebr Nat)
    (fun _ event => retiresOrCollects event = true) (quietAt (UInt64.ofNat (2 ^ 64 - 2 + 1)))
    retireThenAdvance
    (fun state => (state.shared.tcbs 0).retirementBatches.any fun batch =>
      decide (state.shared.globalEpoch < batch.epoch)) hlast (by decide +kernel)
  obtain ⟨history, hrecorded⟩ := hreach.record collections
  obtain ⟨batch, hbatch, hlt⟩ := List.any_eq_true.mp hstate
  have hle := (hexact _ hrecorded).upToGlobal 0 batch hbatch
  exact UInt64.not_lt.mpr hle (of_decide_eq_true hlt)

end HotPath.Concurrency
