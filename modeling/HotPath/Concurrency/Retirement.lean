import HotPath.Concurrency.EpochInvariant

/-!
# Where retired nodes are kept

`Gc` visits the retirement batches of its caller's own block, which the caller finds through
`tls_tcb`. A retired node is accounted for while it is in the hands of its `Retire` call or in the
batches of a block that some thread is bound to.

`UnregisterThread` clears `tls_tcb` and leaves the batches where they are, so the nodes in them are
never visited again. Threads that unregister only when their batches hold no node lose none
(`reachable_accounted`).
-/

namespace HotPath.Concurrency

open HotPath.Foundation

variable {Node : Type}

/-- The nodes in the batches of a block. -/
def Shared.retiredNodes (shared : Shared Node) (tcb : TcbId) : List Node :=
  (shared.tcbs tcb).retirementBatches.flatMap Batch.nodes

/-- The node that a call of `Retire` has in its hands. -/
def Pc.inHand : Pc Node → Option Node
  | .registerLock _ (.retire node) | .registerLink _ (.retire node)
  | .registerPublish _ (.retire node) | .registerBind _ (.retire node)
  | .retireLoad node | .retirePush node _ => some node
  | _ => none

/-- A node is deleted, or in the hands of a call of `Retire`, or in the batches of a block that
some thread is bound to, where the next `Gc` of that thread finds it. -/
def AccountedFor (state : State Node) (node : Node) : Prop :=
  node ∈ state.shared.deleted ∨ (∃ tid, (state.threads tid).pc.inHand = some node) ∨
    ∃ tid tcb, (state.threads tid).tlsTcb = some tcb ∧ node ∈ state.shared.retiredNodes tcb

/-- The nodes passed to `Retire`. -/
def retired : Recorder (State Node) (Event Node) (List Node) where
  start _ := []
  observe _ event _ nodes :=
    match event with
    | .thread _ (.retire (some node)) => nodes ++ [node]
    | _ => nodes

/-- A thread calls `UnregisterThread` while its batches hold nodes. -/
def leavesNodes (state : State Node) : Event Node → Bool
  | .thread tid .unregisterThread =>
      match (state.threads tid).tlsTcb with
      | some tcb => !(state.shared.retiredNodes tcb).isEmpty
      | none => false
  | _ => false

/-! ## What a step does to blocks and nodes -/

/-- The block that a call of `RegisterThread` has allocated. -/
def Pc.newBlock : Pc Node → Option TcbId
  | .registerLock tcb _ | .registerLink tcb _ | .registerPublish tcb _ | .registerBind tcb _ =>
      some tcb
  | _ => none

/-- The block of a thread, which it is bound to or about to be bound to. -/
def Thread.block (thread : Thread Node) : Option TcbId :=
  thread.pc.newBlock.or thread.tlsTcb

/-- The thread is inside `UnregisterThread`. -/
def Pc.leaving : Pc Node → Bool
  | .unregisterActive | .unregisterEpoch => true
  | _ => false

/-- What a step of a thread inside a function does to the nodes and to the blocks. -/
structure Keeps (shared : Shared Node) (thread : Thread Node) (shared' : Shared Node)
    (thread' : Thread Node) : Prop where
  hand : ∀ node, thread.pc.inHand = some node → thread'.pc.inHand = some node ∨
    ∃ tcb, thread'.tlsTcb = some tcb ∧ node ∈ shared'.retiredNodes tcb
  nodes : ∀ tcb node, node ∈ shared.retiredNodes tcb →
    node ∈ shared'.retiredNodes tcb ∨ node ∈ shared'.deleted
  deleted : shared.deleted ⊆ shared'.deleted
  others : ∀ tcb, thread.tlsTcb ≠ some tcb → shared'.retiredNodes tcb = shared.retiredNodes tcb
  bound : ∀ tcb, thread.tlsTcb = some tcb →
    thread'.tlsTcb = some tcb ∨ thread.pc = .unregisterEpoch
  block : thread'.block = thread.block ∨ thread'.block = none
  count : shared'.tcbCount = shared.tcbCount
  leaving : thread'.pc.leaving = true →
    (thread.pc.leaving = true ∧ thread'.tlsTcb = thread.tlsTcb ∧
      ∀ tcb, shared'.retiredNodes tcb = shared.retiredNodes tcb) ∨
    ∀ tcb, thread'.tlsTcb = some tcb → shared'.retiredNodes tcb = []
  registering : thread'.pc.newBlock ≠ none → thread'.tlsTcb = thread.tlsTcb ∧
    thread.pc.newBlock ≠ none

section Steps

variable {shared shared' : Shared Node} {thread thread' : Thread Node} {tid : ThreadId}

/-- Replacing a block by one with the same batches keeps the nodes. -/
theorem retiredNodes_setTcb {tcb : TcbId} {block : ThreadControlBlock Node}
    (h : block.retirementBatches = (shared.tcbs tcb).retirementBatches) (other : TcbId) :
    (shared.setTcb tcb block).retiredNodes other = shared.retiredNodes other := by
  by_cases heq : other = tcb
  · subst heq
    simp [Shared.retiredNodes, Shared.setTcb, h]
  · simp [Shared.retiredNodes, Shared.setTcb, Function.update_of_ne heq]

/-- A step that leaves the batches alone. -/
theorem Keeps.of_same (hnodes : ∀ tcb, shared'.retiredNodes tcb = shared.retiredNodes tcb)
    (hdeleted : shared'.deleted = shared.deleted) (hcount : shared'.tcbCount = shared.tcbCount)
    (hhand : ∀ node, thread.pc.inHand = some node → thread'.pc.inHand = some node)
    (hbound : ∀ tcb, thread.tlsTcb = some tcb →
      thread'.tlsTcb = some tcb ∨ thread.pc = .unregisterEpoch)
    (hblock : thread'.block = thread.block ∨ thread'.block = none)
    (hleaving : thread'.pc.leaving = true →
      (thread.pc.leaving = true ∧ thread'.tlsTcb = thread.tlsTcb) ∨
        ∀ tcb, thread'.tlsTcb = some tcb → shared'.retiredNodes tcb = [])
    (hregistering : thread'.pc.newBlock ≠ none → thread'.tlsTcb = thread.tlsTcb ∧
      thread.pc.newBlock ≠ none) :
    Keeps shared thread shared' thread' where
  hand := fun node hnode => .inl (hhand node hnode)
  nodes := fun tcb _ hnode => .inl ((hnodes tcb).symm ▸ hnode)
  deleted := hdeleted ▸ List.Subset.refl _
  others := fun tcb _ => hnodes tcb
  bound := hbound
  block := hblock
  count := hcount
  leaving := fun h => (hleaving h).imp_left fun hold => ⟨hold.1, hold.2, hnodes⟩
  registering := hregistering

/-- A step that leaves the batches alone and keeps the thread bound to its block. -/
theorem Keeps.of_pc (hnodes : ∀ tcb, shared'.retiredNodes tcb = shared.retiredNodes tcb)
    (hdeleted : shared'.deleted = shared.deleted) (hcount : shared'.tcbCount = shared.tcbCount)
    (hhand : thread.pc.inHand = none ∨ thread.pc.inHand = thread'.pc.inHand)
    (htls : thread'.tlsTcb = thread.tlsTcb)
    (hleaving : thread'.pc.leaving = thread.pc.leaving)
    (hnew : thread'.pc.newBlock = thread.pc.newBlock) :
    Keeps shared thread shared' thread' := by
  refine .of_same hnodes hdeleted hcount (fun node hnode => ?_) (fun _ h => .inl (htls ▸ h))
    (.inl ?_) (fun h => .inl ⟨hleaving ▸ h, htls⟩) fun h => ⟨htls, hnew ▸ h⟩
  · rcases hhand with hempty | hsame
    · rw [hempty] at hnode
      cases hnode
    · exact hsame ▸ hnode
  · rw [Thread.block, Thread.block, hnew, htls]

/-- The walk over the blocks goes on. -/
theorem Keeps.walk {minEpoch : UInt64} {start : Option TcbId}
    (hhand : thread.pc.inHand = none) (hleaving : thread.pc.leaving = false)
    (hnew : thread.pc.newBlock = none) :
    Keeps shared thread shared (walkTo thread minEpoch start) := by
  cases start <;>
    exact .of_pc (fun _ => rfl) rfl rfl (.inl hhand) rfl hleaving.symm hnew.symm

/-- The walk over the blocks is over. -/
theorem Keeps.toSweep {minEpoch : UInt64}
    (hnodes : ∀ tcb, shared'.retiredNodes tcb = shared.retiredNodes tcb)
    (hdeleted : shared'.deleted = shared.deleted) (hcount : shared'.tcbCount = shared.tcbCount)
    (hhand : thread.pc.inHand = none) (hleaving : thread.pc.leaving = false)
    (hnew : thread.pc.newBlock = none) :
    Keeps shared thread shared' (beginSweep thread minEpoch) := by
  unfold beginSweep
  split <;> exact .of_pc hnodes hdeleted hcount (.inl hhand) (by simp [*]) hleaving.symm hnew.symm

/-- The batches of the thread's own block change. The nodes that are gone are deleted, or were in
the hands of the thread. -/
theorem Keeps.of_batches {own : TcbId} {batches : List (Batch Node)}
    (htls : thread.tlsTcb = some own) (htls' : thread'.tlsTcb = some own)
    (hnodes : ∀ tcb, shared'.retiredNodes tcb =
      if tcb = own then batches.flatMap Batch.nodes else shared.retiredNodes tcb)
    (hkept : ∀ node ∈ shared.retiredNodes own,
      node ∈ batches.flatMap Batch.nodes ∨ node ∈ shared'.deleted)
    (hdeleted : shared.deleted ⊆ shared'.deleted) (hcount : shared'.tcbCount = shared.tcbCount)
    (hhand : ∀ node, thread.pc.inHand = some node → node ∈ batches.flatMap Batch.nodes)
    (hleaving : thread'.pc.leaving = false)
    (hnew : thread.pc.newBlock = none ∧ thread'.pc.newBlock = none) :
    Keeps shared thread shared' thread' where
  hand := fun node hnode => .inr ⟨own, htls', by simpa [hnodes] using hhand node hnode⟩
  nodes := fun tcb node hnode => by
    rw [hnodes]
    split
    · next heq =>
        subst heq
        exact hkept node hnode
    · exact .inl hnode
  deleted := hdeleted
  others := fun tcb hne => by
    rw [hnodes, if_neg]
    rintro rfl
    exact hne htls
  bound := fun tcb h => .inl (htls'.trans (htls.symm.trans h))
  block := .inl (by rw [Thread.block, Thread.block, hnew.1, hnew.2, htls, htls'])
  count := hcount
  leaving := fun h => by
    rw [hleaving] at h
    cases h
  registering := fun h => absurd hnew.2 h

/-- The batches of a block after a store. -/
theorem batches_setTcb (own tcb : TcbId) (batches : List (Batch Node)) :
    ((shared.setTcb own { shared.tcbs own with retirementBatches := batches }).tcbs
        tcb).retirementBatches =
      if tcb = own then batches else (shared.tcbs tcb).retirementBatches := by
  by_cases heq : tcb = own
  · subst heq
    simp [Shared.setTcb]
  · simp [Shared.setTcb, heq]

/-- The nodes in the blocks after the batches of one block are replaced. -/
theorem retiredNodes_setBatches {own : TcbId} {batches : List (Batch Node)} (tcb : TcbId) :
    (shared.setTcb own { shared.tcbs own with retirementBatches := batches }).retiredNodes tcb =
      if tcb = own then batches.flatMap Batch.nodes else shared.retiredNodes tcb := by
  rw [Shared.retiredNodes, batches_setTcb]
  split <;> rfl

/-- The sweep deletes nodes of the thread's own block. -/
theorem Keeps.sweep {minEpoch : UInt64} {index : Nat} {own : TcbId}
    (hpc : thread.pc = .gcSweep minEpoch index) (htls : thread.tlsTcb = some own)
    (h : Concurrency.sweep shared thread own minEpoch index = (shared', thread')) :
    Keeps shared thread shared' thread' := by
  have hquiet : ∀ pc' : Pc Node, pc'.leaving = false → pc'.newBlock = none →
      Keeps shared thread shared { thread with pc := pc' } := by
    intro pc' hleaving hnew
    exact .of_pc (fun _ => rfl) rfl rfl (.inl (by simp [hpc, Pc.inHand])) rfl
      (by rw [hpc]; exact hleaving) (by rw [hpc]; exact hnew)
  have hhand : ∀ node, thread.pc.inHand ≠ some node := by simp [hpc, Pc.inHand]
  have hnew : thread.pc.newBlock = none := by simp [hpc, Pc.newBlock]
  have hleaving : thread.pc.leaving = false := by simp [hpc, Pc.leaving]
  cases sweep_cases h with
  | finish => exact hquiet .idle rfl rfl
  | @erase batch hbatch hold hnodes =>
      obtain ⟨before, after, hsplit, -, herase⟩ := split_at_index hbatch
      rw [herase]
      refine .of_batches htls htls retiredNodes_setBatches (fun node hnode => .inl ?_)
        (List.Subset.refl _) rfl (fun node hnode => absurd hnode (hhand node)) hleaving
        ⟨hnew, hnew⟩
      simpa [Shared.retiredNodes, hsplit, hnodes] using hnode
  | @delete batch first nodes hbatch hold hnodes =>
      obtain ⟨before, after, hsplit, hset, -⟩ := split_at_index hbatch
      rw [hset]
      refine .of_batches htls htls retiredNodes_setBatches (fun node hnode => ?_)
        (List.subset_append_left _ _) rfl (fun node hnode => absurd hnode (hhand node))
        hleaving ⟨hnew, hnew⟩
      simp only [Shared.retiredNodes, hsplit, List.flatMap_append, List.flatMap_cons, hnodes,
        List.mem_append, List.mem_cons] at hnode ⊢
      tauto
  | skip => exact hquiet (.gcSweep minEpoch (index + 1)) rfl rfl

/-- `RegisterThread` binds the new block. A thread that had none goes on with what it was doing. -/
theorem Keeps.bind {tcb : TcbId} {resume : Resume Node}
    (hpc : thread.pc = .registerBind tcb resume) (hnone : thread.tlsTcb = none) :
    Keeps shared thread { shared with listMutex := none }
      (afterRegister { thread with tlsTcb := some tcb } resume) := by
  obtain ⟨tls, depth, pc⟩ := thread
  obtain rfl : pc = .registerBind tcb resume := hpc
  obtain rfl : tls = none := hnone
  have hbound : ∀ own, (none : Option TcbId) = some own →
      (afterRegister ⟨some tcb, depth, .registerBind tcb resume⟩ resume).tlsTcb = some own ∨
        Pc.registerBind tcb resume = .unregisterEpoch := fun _ h => by cases h
  cases resume with
  | done =>
      exact .of_same (fun _ => rfl) rfl rfl (fun _ h => by cases h) hbound (.inl rfl)
        (fun h => by cases h) fun h => absurd rfl h
  | enter =>
      refine .of_same (fun _ => rfl) rfl rfl (fun _ h => by cases h) hbound (.inl ?_) ?_ ?_ <;>
        simp only [afterRegister, beginEnter, Thread.block] <;> split <;>
        simp [Pc.newBlock, Pc.leaving]
  | retire node =>
      exact .of_same (fun _ => rfl) rfl rfl (fun _ h => h) hbound (.inl rfl)
        (fun h => by cases h) fun h => absurd rfl h

/-- `Retire` pushes the node, which leaves the hands of the thread for its batches. -/
theorem Keeps.push {node : Node} {epoch : UInt64} {own : TcbId}
    (hpc : thread.pc = .retirePush node epoch) (htls : thread.tlsTcb = some own) :
    Keeps shared thread
      (shared.setTcb own { shared.tcbs own with
        retirementBatches := pushRetired (shared.tcbs own).retirementBatches node epoch })
      { thread with
        pc := if lastBatchSize (pushRetired (shared.tcbs own).retirementBatches node epoch) ≥
            kBatchThreshold then .gcLoad else .idle } := by
  obtain ⟨tls, depth, pc⟩ := thread
  obtain rfl : pc = .retirePush node epoch := hpc
  obtain rfl : tls = some own := htls
  refine .of_batches rfl rfl retiredNodes_setBatches (fun other hother => .inl ?_)
    (List.Subset.refl _) rfl (fun other hother => ?_) (by dsimp only; split <;> rfl)
    ⟨rfl, by dsimp only; split <;> rfl⟩
  · rw [flatMap_pushRetired]
    exact List.mem_append_left _ hother
  · obtain rfl := Option.some.inj hother
    simp [flatMap_pushRetired]

/-- What a running thread does to the nodes and to the blocks. -/
theorem run_keeps (hnone : thread.pc.newBlock ≠ none → thread.tlsTcb = none)
    (h : run shared tid thread = some (shared', thread')) :
    Keeps shared thread shared' thread' := by
  obtain ⟨tls, depth, pc⟩ := thread
  cases run_cases h with
  | registerLock tcb resume hpc hfree =>
      obtain rfl : pc = .registerLock tcb resume := hpc
      refine .of_pc (fun _ => rfl) rfl rfl (.inr ?_) rfl rfl rfl
      cases resume <;> rfl
  | registerLink tcb resume hpc =>
      obtain rfl : pc = .registerLink tcb resume := hpc
      refine .of_pc (retiredNodes_setTcb rfl) rfl rfl (.inr ?_) rfl rfl rfl
      cases resume <;> rfl
  | registerPublish tcb resume hpc =>
      obtain rfl : pc = .registerPublish tcb resume := hpc
      refine .of_pc (fun _ => rfl) rfl rfl (.inr ?_) rfl rfl rfl
      cases resume <;> rfl
  | registerBind tcb resume hpc =>
      exact .bind hpc (hnone (by rw [hpc]; simp [Pc.newBlock]))
  | unregisterActive own hpc htls =>
      obtain rfl : pc = .unregisterActive := hpc
      exact .of_pc (retiredNodes_setTcb rfl) rfl rfl (.inl rfl) rfl rfl rfl
  | unregisterEpoch own hpc htls =>
      obtain rfl : pc = .unregisterEpoch := hpc
      obtain rfl : tls = some own := htls
      exact .of_same (retiredNodes_setTcb rfl) rfl rfl (fun _ hnode => by cases hnode)
        (fun _ _ => .inr rfl) (.inr rfl) (fun h => by cases h) fun h => absurd rfl h
  | enterLoad hpc =>
      obtain rfl : pc = .enterLoad := hpc
      exact .of_pc (fun _ => rfl) rfl rfl (.inl rfl) rfl rfl rfl
  | enterStore epoch own hpc htls =>
      obtain rfl : pc = .enterStore epoch := hpc
      exact .of_pc (retiredNodes_setTcb rfl) rfl rfl (.inl rfl) rfl rfl rfl
  | exitStore own hpc htls =>
      obtain rfl : pc = .exitStore := hpc
      exact .of_pc (retiredNodes_setTcb rfl) rfl rfl (.inl rfl) rfl rfl rfl
  | retireLoad node hpc =>
      obtain rfl : pc = .retireLoad node := hpc
      exact .of_pc (fun _ => rfl) rfl rfl (.inr rfl) rfl rfl rfl
  | retirePush node epoch own hpc htls => exact .push hpc htls
  | gcLoad hpc =>
      obtain rfl : pc = .gcLoad := hpc
      exact .of_pc (fun _ => rfl) rfl rfl (.inl rfl) rfl rfl rfl
  | gcHead minEpoch hpc =>
      obtain rfl : pc = .gcHead minEpoch := hpc
      exact .walk rfl rfl rfl
  | gcActive minEpoch curr hpc hactive =>
      obtain rfl : pc = .gcActive minEpoch curr := hpc
      exact .of_pc (fun _ => rfl) rfl rfl (.inl rfl) rfl rfl rfl
  | gcInactive minEpoch curr hpc hinactive =>
      obtain rfl : pc = .gcActive minEpoch curr := hpc
      exact .of_pc (fun _ => rfl) rfl rfl (.inl rfl) rfl rfl rfl
  | gcLocal minEpoch curr hpc =>
      obtain rfl : pc = .gcLocal minEpoch curr := hpc
      exact .of_pc (fun _ => rfl) rfl rfl (.inl rfl) rfl rfl rfl
  | gcNext minEpoch curr hpc =>
      obtain rfl : pc = .gcNext minEpoch curr := hpc
      exact .walk rfl rfl rfl
  | gcGlobal minEpoch hpc hglobal =>
      obtain rfl : pc = .gcGlobal minEpoch := hpc
      exact .of_pc (fun _ => rfl) rfl rfl (.inl rfl) rfl rfl rfl
  | gcBehind minEpoch hpc hbehind =>
      obtain rfl : pc = .gcGlobal minEpoch := hpc
      exact .toSweep (fun _ => rfl) rfl rfl rfl rfl rfl
  | gcCas minEpoch currentGlobal hpc =>
      obtain rfl : pc = .gcCas minEpoch currentGlobal := hpc
      exact .toSweep (fun _ => rfl) rfl rfl rfl rfl rfl
  | gcSweep minEpoch index own hpc htls hsweep => exact .sweep hpc htls hsweep

/-- The nodes that a call of `UnregisterThread` would leave behind. -/
def emptyHanded (shared : Shared Node) (thread : Thread Node) : Action Node → Prop
  | .unregisterThread => ∀ tcb, thread.tlsTcb = some tcb → shared.retiredNodes tcb = []
  | _ => True

/-- An idle thread stays with its block when it calls a function, or it has none and allocates
one. -/
theorem call_keeps {action : Action Node} (hidle : thread.pc = .idle)
    (hempty : emptyHanded shared thread action)
    (h : call shared thread action = (shared', thread')) :
    Keeps shared thread shared' thread' ∨
      thread.tlsTcb = none ∧ ∃ resume, beginRegister shared thread resume = (shared', thread') := by
  have hstep := call_cases shared thread action
  rw [h] at hstep
  obtain ⟨tls, depth, pc⟩ := thread
  obtain rfl : pc = .idle := hidle
  have hquiet : ∀ other : Thread Node, other.tlsTcb = tls → other.pc.newBlock = none →
      other.pc.leaving = false → Keeps shared ⟨tls, depth, .idle⟩ shared other :=
    fun other htls hnew hleaving =>
      .of_pc (fun _ => rfl) rfl rfl (.inl rfl) htls hleaving hnew
  cases hstep with
  | register hnone => exact .inr ⟨hnone, .done, rfl⟩
  | enterFirst hnone => exact .inr ⟨hnone, .enter, rfl⟩
  | retireFirst node hnone => exact .inr ⟨hnone, .retire node, rfl⟩
  | unregister tcb htls =>
      exact .inl (.of_same (fun _ => rfl) rfl rfl (fun _ h => by cases h) (fun _ => .inl)
        (.inl rfl) (fun _ => .inr hempty) fun h => absurd rfl h)
  | enter => refine .inl (hquiet _ rfl ?_ ?_) <;> dsimp only <;> split <;> rfl
  | exit => refine .inl (hquiet _ rfl ?_ ?_) <;> dsimp only <;> split <;> rfl
  | registered | unregistered | exitUnregistered | retire | retireNull | gc | run =>
      exact .inl (hquiet _ rfl rfl rfl)

/-- A node passed to `Retire` is in the hands of the call. -/
theorem call_retire {node : Node} (h : call shared thread (.retire (some node)) =
    (shared', thread')) : thread'.pc.inHand = some node := by
  simp only [call] at h
  split at h
  · cases h
    rfl
  · cases h
    rfl

end Steps

/-! ## The invariant -/

/-- Threads have blocks of their own, and a thread that unregisters has no nodes in its block. -/
structure BlocksInv (state : State Node) : Prop where
  allocated : ∀ tid tcb, (state.threads tid).block = some tcb → tcb < state.shared.tcbCount
  distinct : ∀ tid other tcb, (state.threads tid).block = some tcb →
    (state.threads other).block = some tcb → tid = other
  unallocated : ∀ tcb, state.shared.tcbCount ≤ tcb → state.shared.retiredNodes tcb = []
  unbound : ∀ tid, (state.threads tid).pc.newBlock ≠ none → (state.threads tid).tlsTcb = none
  leaving : ∀ tid tcb, (state.threads tid).pc.leaving = true →
    (state.threads tid).tlsTcb = some tcb → state.shared.retiredNodes tcb = []

section Invariant

variable {state : State Node} {shared' : Shared Node} {thread' : Thread Node} {tid : ThreadId}

/-- A bound thread has no other block. -/
theorem BlocksInv.block_eq (h : BlocksInv state) {tcb : TcbId}
    (htls : (state.threads tid).tlsTcb = some tcb) : (state.threads tid).block = some tcb := by
  have hnew : (state.threads tid).pc.newBlock = none := by
    by_contra hne
    rw [h.unbound tid hne] at htls
    cases htls
  rw [Thread.block, hnew, htls]
  rfl

/-- The step of a running thread keeps the invariant of the blocks. -/
theorem BlocksInv.run (h : BlocksInv state)
    (hkeeps : Keeps state.shared (state.threads tid) shared' thread') :
    BlocksInv ⟨shared', Function.update state.threads tid thread'⟩ := by
  have hblock : ∀ other tcb, (Function.update state.threads tid thread' other).block = some tcb →
      (state.threads other).block = some tcb := by
    intro other tcb hother
    by_cases heq : other = tid
    · subst heq
      rw [Function.update_self] at hother
      rcases hkeeps.block with hsame | hnone
      · exact hsame.symm.trans hother
      · rw [hnone] at hother
        cases hother
    · rwa [Function.update_of_ne heq] at hother
  refine ⟨fun other tcb hother => ?_, fun first second tcb hfirst hsecond => ?_,
    fun tcb hcount => ?_,
    fun other hnew => ?_, fun other tcb hleaving htls => ?_⟩
  · rw [hkeeps.count]
    exact h.allocated other tcb (hblock other tcb hother)
  · exact h.distinct first second tcb (hblock first tcb hfirst) (hblock second tcb hsecond)
  · rw [hkeeps.count] at hcount
    rw [hkeeps.others tcb fun htls => ?_]
    · exact h.unallocated tcb hcount
    · exact absurd (h.allocated tid tcb (h.block_eq htls)) (Nat.not_lt.mpr hcount)
  · by_cases heq : other = tid
    · subst heq
      simp only [Function.update_self] at hnew ⊢
      obtain ⟨htls, hold⟩ := hkeeps.registering hnew
      exact htls.trans (h.unbound other hold)
    · simp only [Function.update_of_ne heq] at hnew ⊢
      exact h.unbound other hnew
  · by_cases heq : other = tid
    · subst heq
      simp only [Function.update_self] at hleaving htls
      rcases hkeeps.leaving hleaving with ⟨hold, hsame, hnodes⟩ | hempty
      · exact (hnodes tcb).trans (h.leaving other tcb hold (hsame ▸ htls))
      · exact hempty tcb htls
    · simp only [Function.update_of_ne heq] at hleaving htls
      rw [hkeeps.others tcb fun hown => ?_]
      · exact h.leaving other tcb hleaving htls
      · exact heq (h.distinct other tid tcb (h.block_eq htls) (h.block_eq hown))

/-- The step of a running thread loses no node. -/
theorem AccountedFor.run {node : Node} (hinv : BlocksInv state) (h : AccountedFor state node)
    (hkeeps : Keeps state.shared (state.threads tid) shared' thread') :
    AccountedFor ⟨shared', Function.update state.threads tid thread'⟩ node := by
  rcases h with hdeleted | ⟨other, hhand⟩ | ⟨other, tcb, htls, hnode⟩
  · exact .inl (hkeeps.deleted hdeleted)
  · by_cases heq : other = tid
    · subst heq
      rcases hkeeps.hand node hhand with hhand | ⟨tcb, htls, hnode⟩
      · exact .inr (.inl ⟨other, by simpa using hhand⟩)
      · exact .inr (.inr ⟨other, tcb, by simpa using htls, hnode⟩)
    · exact .inr (.inl ⟨other, by simpa [Function.update_of_ne heq] using hhand⟩)
  · rcases hkeeps.nodes tcb node hnode with hkept | hdeleted
    · by_cases heq : other = tid
      · subst heq
        rcases hkeeps.bound tcb htls with hbound | hgone
        · exact .inr (.inr ⟨other, tcb, by simpa using hbound, hkept⟩)
        · -- The block that the thread lets go of holds no node.
          rw [hinv.leaving other tcb (by simp [hgone, Pc.leaving]) htls] at hnode
          cases hnode
      · exact .inr (.inr ⟨other, tcb, by simpa [Function.update_of_ne heq] using htls, hkept⟩)
    · exact .inl hdeleted

/-- The batches of the allocated blocks stay where they are when a thread allocates a block. -/
theorem BlocksInv.retiredNodes_register (h : BlocksInv state) {resume : Resume Node}
    {thread : Thread Node} (hregister : beginRegister state.shared thread resume =
      (shared', thread')) (tcb : TcbId) :
    shared'.retiredNodes tcb = state.shared.retiredNodes tcb := by
  cases hregister
  by_cases heq : tcb = state.shared.tcbCount
  · subst heq
    rw [h.unallocated _ (Nat.le_refl _)]
    simp [Shared.retiredNodes, Shared.setTcb]
  · simp [Shared.retiredNodes, Shared.setTcb, Function.update_of_ne heq]

/-- Allocating a block keeps the invariant of the blocks. -/
theorem BlocksInv.register (h : BlocksInv state) {resume : Resume Node}
    (hnone : (state.threads tid).tlsTcb = none)
    (hregister : beginRegister state.shared (state.threads tid) resume = (shared', thread')) :
    BlocksInv ⟨shared', Function.update state.threads tid thread'⟩ := by
  have hnodes := h.retiredNodes_register hregister
  cases hregister
  have hblock : ∀ other tcb, (Function.update state.threads tid
      { state.threads tid with pc := .registerLock state.shared.tcbCount resume }
        other).block = some tcb →
      other = tid ∧ tcb = state.shared.tcbCount ∨
        other ≠ tid ∧ (state.threads other).block = some tcb := by
    intro other tcb hother
    by_cases heq : other = tid
    · subst heq
      refine .inl ⟨rfl, ?_⟩
      simpa [Thread.block, Pc.newBlock, eq_comm] using hother
    · rw [Function.update_of_ne heq] at hother
      exact .inr ⟨heq, hother⟩
  refine ⟨fun other tcb hother => ?_, fun first second tcb hfirst hsecond => ?_,
    fun tcb hcount => ?_,
    fun other hnew => ?_, fun other tcb hleaving htls => ?_⟩
  · rcases hblock other tcb hother with ⟨-, rfl⟩ | ⟨-, hold⟩
    · exact Nat.lt_succ_self _
    · exact Nat.lt_succ_of_lt (h.allocated other tcb hold)
  · obtain ⟨heq, hnew⟩ | ⟨-, hold⟩ := hblock first tcb hfirst <;>
      rcases hblock second tcb hsecond with ⟨heq', hnew'⟩ | ⟨-, hold'⟩
    · exact heq.trans heq'.symm
    · exact absurd (h.allocated second tcb hold') (Nat.not_lt.mpr (Nat.le_of_eq hnew.symm))
    · exact absurd (h.allocated first tcb hold) (Nat.not_lt.mpr (Nat.le_of_eq hnew'.symm))
    · exact h.distinct first second tcb hold hold'
  · exact (hnodes tcb).trans (h.unallocated tcb (Nat.le_of_succ_le hcount))
  · by_cases heq : other = tid
    · subst heq
      simpa using hnone
    · simp only [Function.update_of_ne heq] at hnew ⊢
      exact h.unbound other hnew
  · by_cases heq : other = tid
    · subst heq
      simp [Pc.leaving] at hleaving
    · simp only [Function.update_of_ne heq] at hleaving htls
      exact (hnodes tcb).trans (h.leaving other tcb hleaving htls)

/-- Allocating a block loses no node. -/
theorem AccountedFor.register {node : Node} (hinv : BlocksInv state) {resume : Resume Node}
    (h : AccountedFor state node) (hidle : (state.threads tid).pc = .idle)
    (hnone : (state.threads tid).tlsTcb = none)
    (hregister : beginRegister state.shared (state.threads tid) resume = (shared', thread')) :
    AccountedFor ⟨shared', Function.update state.threads tid thread'⟩ node := by
  have hnodes := hinv.retiredNodes_register hregister
  cases hregister
  rcases h with hdeleted | ⟨other, hhand⟩ | ⟨other, tcb, htls, hnode⟩
  · exact .inl hdeleted
  · have hne : other ≠ tid := by
      rintro rfl
      simp [hidle, Pc.inHand] at hhand
    exact .inr (.inl ⟨other, by simpa [Function.update_of_ne hne] using hhand⟩)
  · have hne : other ≠ tid := by
      rintro rfl
      simp [hnone] at htls
    exact .inr (.inr ⟨other, tcb, by simpa [Function.update_of_ne hne] using htls,
      (hnodes tcb).symm ▸ hnode⟩)

/-- A thread that unregisters under the condition has no nodes. -/
theorem emptyHanded_of_allowed {action : Action Node}
    (h : leavesNodes state (.thread tid action) = false) :
    emptyHanded state.shared (state.threads tid) action := by
  cases action with
  | unregisterThread =>
      intro tcb htls
      simpa [leavesNodes, htls] using h
  | _ => trivial

/-- A node is passed to `Retire` by the step, or was before. -/
theorem mem_retired (state next : State Node) {nodes : List Node} {action : Action Node}
    {node : Node}
    (h : node ∈ retired.observe state (.thread tid action) next nodes) :
    node ∈ nodes ∨ action = .retire (some node) := by
  cases action with
  | retire passed =>
      cases passed with
      | none => exact .inl h
      | some passed =>
          rcases List.mem_append.mp h with hold | hnew
          · exact .inl hold
          · obtain rfl := List.mem_singleton.mp hnew
            exact .inr rfl
  | _ => exact .inl h

end Invariant

/-- No retired node is lost when threads unregister only while their batches hold no node. -/
theorem reachable_accounted {pair : State Node × List Node}
    (h : ((ebr Node).withHistory retired).Reachable
      (fun pair event => leavesNodes pair.1 event = false) pair) :
    BlocksInv pair.1 ∧ ∀ node ∈ pair.2, AccountedFor pair.1 node := by
  refine h.invariant (fun pair => BlocksInv pair.1 ∧ ∀ node ∈ pair.2,
    AccountedFor pair.1 node) ?_ ?_
  · intro ⟨state, nodes⟩ ⟨hstate, hnodes⟩
    obtain rfl : state = {} := hstate
    obtain rfl : nodes = [] := hnodes
    refine ⟨?_, fun node hnode => by cases hnode⟩
    constructor <;> simp [Thread.block, Pc.newBlock, Shared.retiredNodes, Pc.leaving]
  · intro ⟨state, nodes⟩ event ⟨next, nodes'⟩ ⟨hblocks, hnodes⟩ hallow hstep
    obtain ⟨hnext, hrecord⟩ := System.withHistory_step.mp hstep
    obtain rfl : nodes' = retired.observe state event next nodes := hrecord
    change Concurrency.step state event = some next at hnext
    cases event with
    | unlink node =>
        obtain rfl := Option.some.inj hnext
        exact ⟨hblocks, hnodes⟩
    | thread tid action =>
        simp only [Concurrency.step, Option.map_eq_some_iff] at hnext
        obtain ⟨⟨shared', thread'⟩, hact, rfl⟩ := hnext
        rcases act_cases hact with ⟨rfl, hrun⟩ | ⟨-, hidle, hcall⟩
        · have hkeeps := run_keeps (hblocks.unbound tid) hrun
          exact ⟨hblocks.run hkeeps, fun node hnode => (hnodes node hnode).run hblocks hkeeps⟩
        · have hempty := emptyHanded_of_allowed hallow
          have hstep : BlocksInv ⟨shared', Function.update state.threads tid thread'⟩ ∧
              ∀ node ∈ nodes,
                AccountedFor ⟨shared', Function.update state.threads tid thread'⟩ node := by
            rcases call_keeps hidle hempty hcall with hkeeps | ⟨hnone, resume, hregister⟩
            · exact ⟨hblocks.run hkeeps, fun node hnode =>
                (hnodes node hnode).run hblocks hkeeps⟩
            · exact ⟨hblocks.register hnone hregister, fun node hnode =>
                (hnodes node hnode).register hblocks hidle hnone hregister⟩
          refine ⟨hstep.1, fun node hnode => ?_⟩
          rcases mem_retired state ⟨shared', Function.update state.threads tid thread'⟩ hnode with
              hold | rfl
          · exact hstep.2 node hold
          · exact .inr (.inl ⟨tid, by simpa using call_retire hcall⟩)

end HotPath.Concurrency
