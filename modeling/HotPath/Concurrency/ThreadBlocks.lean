import HotPath.Concurrency.Retirement

/-!
# Control blocks and the threads that use them

A thread works on one control block at a time: the one it is registering, or the one that its
`tls_tcb` names. It stores in no other block (`BlockStep`), and no two threads work on the same
one (`Exclusive`). `ListInv` says where the blocks are: those of registered threads are active and
on the list, and one that is being registered joins the list under the mutex.

All of this holds of every run, whatever the threads call.
-/

namespace HotPath.Concurrency

open HotPath.Foundation

variable {Node : Type}

/-- The places at which a thread is registered with an active block, if it has one. -/
def Pc.settled : Pc Node → Bool
  | .registerLock .. | .registerLink .. | .registerPublish .. | .registerBind ..
  | .unregisterEpoch => false
  | _ => true

/-- The place between two calls. -/
def Pc.isIdle : Pc Node → Bool
  | .idle => true
  | _ => false

theorem idle_of_isIdle {pc : Pc Node} (h : pc.isIdle = true) : pc = .idle := by
  cases pc <;> simp_all [Pc.isIdle]

/-- A settled thread is not registering. -/
theorem newBlock_settled {pc : Pc Node} (h : pc.settled = true) : pc.newBlock = none := by
  cases pc <;> simp_all [Pc.settled, Pc.newBlock]

/-- A thread that is not registering works on its own block. -/
theorem block_eq_tls {thread : Thread Node} (h : thread.pc.newBlock = none) :
    thread.block = thread.tlsTcb := by
  simp [Thread.block, h]

@[simp] theorem beginEnter_settled (thread : Thread Node) :
    (beginEnter thread).pc.settled = true := by
  unfold beginEnter
  dsimp only
  split <;> rfl

@[simp] theorem beginEnter_tlsTcb (thread : Thread Node) :
    (beginEnter thread).tlsTcb = thread.tlsTcb := rfl

@[simp] theorem afterRegister_settled (thread : Thread Node) (resume : Resume Node) :
    (afterRegister thread resume).pc.settled = true := by
  cases resume with
  | done => rfl
  | enter => exact beginEnter_settled thread
  | retire node => rfl

@[simp] theorem afterRegister_tlsTcb (thread : Thread Node) (resume : Resume Node) :
    (afterRegister thread resume).tlsTcb = thread.tlsTcb := by
  cases resume <;> rfl

@[simp] theorem walkTo_settled (thread : Thread Node) (minEpoch : UInt64) (curr : Option TcbId) :
    (walkTo thread minEpoch curr).pc.settled = true := by
  cases curr <;> rfl

@[simp] theorem walkTo_tlsTcb (thread : Thread Node) (minEpoch : UInt64) (curr : Option TcbId) :
    (walkTo thread minEpoch curr).tlsTcb = thread.tlsTcb := by
  cases curr <;> rfl

@[simp] theorem beginSweep_settled (thread : Thread Node) (minEpoch : UInt64) :
    (beginSweep thread minEpoch).pc.settled = true := by
  unfold beginSweep
  split <;> rfl

@[simp] theorem beginSweep_tlsTcb (thread : Thread Node) (minEpoch : UInt64) :
    (beginSweep thread minEpoch).tlsTcb = thread.tlsTcb := by
  unfold beginSweep
  split <;> rfl

/-- A thread with a block sweeps its batches. -/
theorem beginSweep_pc {thread : Thread Node} {own : TcbId} {minEpoch : UInt64}
    (htls : thread.tlsTcb = some own) : (beginSweep thread minEpoch).pc = .gcSweep minEpoch 0 := by
  simp [beginSweep, htls]

/-- What a step of a thread does to the blocks: it stores in its own block only, and takes no
block of another thread. -/
structure BlockStep (shared : Shared Node) (thread : Thread Node) (shared' : Shared Node)
    (thread' : Thread Node) : Prop where
  others : ∀ tcb, tcb < shared.tcbCount → thread.block ≠ some tcb →
    shared'.tcbs tcb = shared.tcbs tcb
  block : ∀ tcb, thread'.block = some tcb → thread.block = some tcb ∨
    tcb = shared.tcbCount ∧ shared.tcbCount < shared'.tcbCount
  count : shared.tcbCount ≤ shared'.tcbCount

section Steps

variable {shared shared' : Shared Node} {tid : ThreadId} {thread thread' : Thread Node}

/-- A step that stores in no block. -/
theorem BlockStep.quiet (htcbs : shared'.tcbs = shared.tcbs)
    (hcount : shared'.tcbCount = shared.tcbCount)
    (hblock : thread'.block = thread.block ∨ thread'.block = none) :
    BlockStep shared thread shared' thread' := by
  refine ⟨fun tcb _ _ => by rw [htcbs], fun tcb htcb => .inl ?_, Nat.le_of_eq hcount.symm⟩
  rcases hblock with hblock | hblock
  · exact hblock ▸ htcb
  · simp [hblock] at htcb

/-- A step that stores in the block of its thread. -/
theorem BlockStep.store {own : TcbId} {block : ThreadControlBlock Node}
    (hown : thread.block = some own) (hblock : thread'.block = thread.block ∨ thread'.block = none)
    (deleted : List Node) :
    BlockStep shared thread { shared.setTcb own block with deleted := deleted } thread' := by
  refine ⟨fun tcb _ hne => ?_, fun tcb htcb => .inl ?_, Nat.le_refl _⟩
  · have hother : tcb ≠ own := by
      rintro rfl
      exact hne hown
    exact Function.update_of_ne hother ..
  · rcases hblock with hblock | hblock
    · exact hblock ▸ htcb
    · simp [hblock] at htcb

/-- `RegisterThread` allocates a block. -/
theorem BlockStep.allocate (resume : Resume Node) :
    BlockStep shared thread (beginRegister shared thread resume).1
      (beginRegister shared thread resume).2 := by
  refine ⟨fun tcb hlt _ => ?_, fun tcb htcb => .inr ?_, Nat.le_succ _⟩
  · exact Function.update_of_ne (Nat.ne_of_lt hlt) ..
  · exact ⟨(Option.some.inj htcb).symm, Nat.lt_succ_self _⟩

/-- A thread that is not registering, before and after a step, keeps its block. -/
theorem block_kept (h : thread.pc.newBlock = none) (h' : thread'.pc.newBlock = none)
    (htls : thread'.tlsTcb = thread.tlsTcb) : thread'.block = thread.block := by
  rw [block_eq_tls h, block_eq_tls h', htls]

/-- A step of the sweep stores in the thread's own block. -/
theorem SweepStep.blocks {own : TcbId} {minEpoch : UInt64} {index : Nat}
    (h : SweepStep shared thread own minEpoch index shared' thread')
    (hpc : thread.pc = .gcSweep minEpoch index) (htls : thread.tlsTcb = some own) :
    BlockStep shared thread shared' thread' := by
  have hjoin : thread.pc.newBlock = none := by simp [hpc, Pc.newBlock]
  have hown : thread.block = some own := (block_eq_tls hjoin).trans htls
  cases h with
  | finish => exact .quiet rfl rfl (.inl (block_kept hjoin rfl rfl))
  | skip => exact .quiet rfl rfl (.inl (block_kept hjoin rfl rfl))
  | delete => exact .store hown (.inl rfl) _
  | erase => exact .store hown (.inl rfl) _

/-- A step inside a function stores in the thread's own block. -/
theorem RunStep.blocks (h : RunStep shared tid thread shared' thread') :
    BlockStep shared thread shared' thread' := by
  have hjoin : ∀ tcb, thread.pc.newBlock = some tcb → thread.block = some tcb := by
    intro tcb htcb
    simp [Thread.block, htcb]
  have hkeep : thread.pc.newBlock = none → thread'.pc.newBlock = none →
      thread'.tlsTcb = thread.tlsTcb → thread'.block = thread.block ∨ thread'.block = none :=
    fun hbefore hafter htls => .inl (block_kept hbefore hafter htls)
  have hown : ∀ tcb, thread.pc.newBlock = none → thread.tlsTcb = some tcb →
      thread.block = some tcb := fun tcb hnone htls => (block_eq_tls hnone).trans htls
  cases h with
  | registerLock tcb resume hpc =>
      exact .quiet rfl rfl (.inl (hjoin tcb (by simp [hpc, Pc.newBlock])).symm)
  | registerLink tcb resume hpc =>
      have hblock := hjoin tcb (by simp [hpc, Pc.newBlock])
      refine .store hblock (.inl ?_) shared.deleted
      exact hblock.symm
  | registerPublish tcb resume hpc =>
      exact .quiet rfl rfl (.inl (hjoin tcb (by simp [hpc, Pc.newBlock])).symm)
  | registerBind tcb resume hpc =>
      refine .quiet rfl rfl (.inl ?_)
      rw [hjoin tcb (by simp [hpc, Pc.newBlock]), block_eq_tls (newBlock_settled (by simp))]
      simp
  | unregisterActive tcb hpc htls =>
      exact .store (hown tcb (by simp [hpc, Pc.newBlock]) htls)
        (hkeep (by simp [hpc, Pc.newBlock]) rfl rfl) shared.deleted
  | unregisterEpoch tcb hpc htls =>
      exact .store (hown tcb (by simp [hpc, Pc.newBlock]) htls) (.inr rfl) shared.deleted
  | enterStore epoch tcb hpc htls =>
      exact .store (hown tcb (by simp [hpc, Pc.newBlock]) htls)
        (hkeep (by simp [hpc, Pc.newBlock]) rfl rfl) shared.deleted
  | exitStore tcb hpc htls =>
      exact .store (hown tcb (by simp [hpc, Pc.newBlock]) htls)
        (hkeep (by simp [hpc, Pc.newBlock]) rfl rfl) shared.deleted
  | retirePush node currentEpoch tcb hpc htls =>
      refine .store (hown tcb (by simp [hpc, Pc.newBlock]) htls)
        (hkeep (by simp [hpc, Pc.newBlock]) ?_ rfl) shared.deleted
      dsimp only
      split <;> rfl
  | gcSweep minEpoch index tcb hpc htls hsweep => exact (sweep_cases hsweep).blocks hpc htls
  | enterLoad hpc | retireLoad _ hpc | gcLoad hpc | gcActive _ _ hpc | gcInactive _ _ hpc
  | gcLocal _ _ hpc | gcGlobal _ hpc =>
      exact .quiet rfl rfl (hkeep (by simp [hpc, Pc.newBlock]) rfl rfl)
  | gcHead _ hpc | gcNext _ _ hpc | gcBehind _ hpc | gcCas _ _ hpc =>
      exact .quiet rfl rfl
        (hkeep (by simp [hpc, Pc.newBlock]) (newBlock_settled (by simp)) (by simp))

/-- A call stores in no block of another thread. -/
theorem CallStep.blocks {action : Action Node}
    (h : CallStep shared thread action shared' thread') (hidle : thread.pc = .idle) :
    BlockStep shared thread shared' thread' := by
  have hjoin : thread.pc.newBlock = none := by simp [hidle, Pc.newBlock]
  have hquiet : thread'.pc.newBlock = none → thread'.tlsTcb = thread.tlsTcb →
      BlockStep shared thread shared thread' := fun hafter htls =>
    .quiet rfl rfl (.inl (block_kept hjoin hafter htls))
  cases h with
  | register | enterFirst | retireFirst => exact .allocate _
  | registered | unregistered | exitUnregistered | retireNull | run => exact hquiet hjoin rfl
  | unregister | retire | gc => exact hquiet rfl rfl
  | enter => exact hquiet (newBlock_settled (by simp)) rfl
  | exit =>
      refine hquiet ?_ rfl
      dsimp only
      split <;> rfl

/-- Every action of a thread stores in no block of another thread. -/
theorem act_blocks {action : Action Node}
    (h : act shared tid thread action = some (shared', thread')) :
    BlockStep shared thread shared' thread' := by
  rcases act_steps h with ⟨-, hrun⟩ | ⟨-, hidle, hcall⟩
  · exact hrun.blocks
  · exact hcall.blocks hidle

end Steps

/-! ## Blocks of different threads -/

/-- No two threads work on the same block. -/
structure Exclusive (state : State Node) : Prop where
  allocated : ∀ tid tcb, (state.threads tid).block = some tcb → tcb < state.shared.tcbCount
  distinct : ∀ tid other tcb, (state.threads tid).block = some tcb →
    (state.threads other).block = some tcb → tid = other

section Threads

variable {state next : State Node} {tid : ThreadId} {shared' : Shared Node}
  {thread' : Thread Node}

/-- The step of one thread keeps the blocks apart. -/
theorem Exclusive.step (h : Exclusive state)
    (hblocks : BlockStep state.shared (state.threads tid) shared' thread') :
    Exclusive ⟨shared', Function.update state.threads tid thread'⟩ := by
  have hcases : ∀ other tcb, (Function.update state.threads tid thread' other).block = some tcb →
      (state.threads other).block = some tcb ∨
        other = tid ∧ tcb = state.shared.tcbCount ∧ state.shared.tcbCount < shared'.tcbCount := by
    intro other tcb hother
    by_cases heq : other = tid
    · subst heq
      rw [Function.update_self] at hother
      exact (hblocks.block tcb hother).imp_right fun hnew => ⟨rfl, hnew⟩
    · rw [Function.update_of_ne heq] at hother
      exact .inl hother
  refine ⟨fun other tcb hother => ?_, fun first second tcb hfirst hsecond => ?_⟩
  · rcases hcases other tcb hother with hold | ⟨-, rfl, hlt⟩
    · exact Nat.lt_of_lt_of_le (h.allocated other tcb hold) hblocks.count
    · exact hlt
  · rcases hcases first tcb hfirst with hold | ⟨rfl, hnew, -⟩ <;>
      rcases hcases second tcb hsecond with hold' | ⟨rfl, hnew', -⟩
    · exact h.distinct first second tcb hold hold'
    · exact absurd (h.allocated first tcb hold) (Nat.not_lt.mpr (Nat.le_of_eq hnew'.symm))
    · exact absurd (h.allocated second tcb hold') (Nat.not_lt.mpr (Nat.le_of_eq hnew.symm))
    · rfl

/-- A step of one thread leaves the block of another thread as it is. -/
theorem Exclusive.other_block (h : Exclusive state)
    (hblocks : BlockStep state.shared (state.threads tid) shared' thread') {other : ThreadId}
    (hne : other ≠ tid) {tcb : TcbId} (hother : (state.threads other).block = some tcb) :
    shared'.tcbs tcb = state.shared.tcbs tcb :=
  hblocks.others tcb (h.allocated other tcb hother) fun hown =>
    hne (h.distinct other tid tcb hother hown)

/-- An event is the unlinking of a node, which changes nothing, or the action of a thread. -/
theorem step_thread {event : Event Node} (h : step state event = some next) :
    ((∃ node, event = .unlink node) ∧ next = state) ∨
      ∃ tid action shared' thread', event = .thread tid action ∧
        act state.shared tid (state.threads tid) action = some (shared', thread') ∧
        next = ⟨shared', Function.update state.threads tid thread'⟩ := by
  cases event with
  | unlink node => exact .inl ⟨⟨node, rfl⟩, (Option.some.inj h).symm⟩
  | thread tid action =>
      simp only [Concurrency.step, Option.map_eq_some_iff] at h
      obtain ⟨⟨shared', thread'⟩, hact, rfl⟩ := h
      exact .inr ⟨tid, action, shared', thread', rfl, hact, rfl⟩

/-! ## The list of blocks -/

/-- What holds of the block of a thread. `blocks` are the blocks on the list. -/
def PlaceInv (shared : Shared Node) (blocks : List TcbId) (tid : ThreadId)
    (thread : Thread Node) : Prop :=
  match thread.pc with
  | .registerLock tcb _ =>
      thread.tlsTcb = none ∧ (shared.tcbs tcb).active = true ∧ tcb ∉ blocks
  | .registerLink tcb _ =>
      thread.tlsTcb = none ∧ (shared.tcbs tcb).active = true ∧ tcb ∉ blocks ∧
        shared.listMutex = some tid
  | .registerPublish tcb _ =>
      thread.tlsTcb = none ∧ (shared.tcbs tcb).active = true ∧ tcb ∉ blocks ∧
        shared.listMutex = some tid ∧ (shared.tcbs tcb).next = shared.head
  | .registerBind tcb _ =>
      thread.tlsTcb = none ∧ (shared.tcbs tcb).active = true ∧ tcb ∈ blocks ∧
        shared.listMutex = some tid
  | .unregisterEpoch => ∀ tcb, thread.tlsTcb = some tcb → tcb ∈ blocks
  | _ => ∀ tcb, thread.tlsTcb = some tcb → tcb ∈ blocks ∧ (shared.tcbs tcb).active = true

/-- The block of a settled thread is active and on the list. -/
theorem placeInv_settled {shared : Shared Node} {blocks : List TcbId} {thread : Thread Node}
    (h : thread.pc.settled = true) :
    PlaceInv shared blocks tid thread ↔
      ∀ tcb, thread.tlsTcb = some tcb → tcb ∈ blocks ∧ (shared.tcbs tcb).active = true := by
  unfold PlaceInv
  split <;> simp_all [Pc.settled]

/-- What the other threads leave alone for a thread: its own block, its membership in the list,
and the list itself while it holds the mutex. -/
theorem PlaceInv.frame {shared : Shared Node} {blocks blocks' : List TcbId} {thread : Thread Node}
    (h : PlaceInv shared blocks tid thread)
    (hown : ∀ tcb, thread.block = some tcb →
      shared'.tcbs tcb = shared.tcbs tcb ∧ (tcb ∈ blocks ↔ tcb ∈ blocks'))
    (hlock : shared.listMutex = some tid →
      shared'.listMutex = some tid ∧ shared'.head = shared.head) :
    PlaceInv shared' blocks' tid thread := by
  obtain ⟨tls, depth, pc⟩ := thread
  cases pc with
  | registerLock tcb resume =>
      obtain ⟨hsame, hmem⟩ := hown tcb rfl
      simpa only [PlaceInv, hsame, ← hmem] using h
  | registerLink tcb resume =>
      obtain ⟨hsame, hmem⟩ := hown tcb rfl
      obtain ⟨htls, hactive, hout, hmutex⟩ := h
      exact ⟨htls, hsame ▸ hactive, fun hin => hout (hmem.mpr hin), (hlock hmutex).1⟩
  | registerPublish tcb resume =>
      obtain ⟨hsame, hmem⟩ := hown tcb rfl
      obtain ⟨htls, hactive, hout, hmutex, hnext⟩ := h
      obtain ⟨hmutex', hhead⟩ := hlock hmutex
      exact ⟨htls, hsame ▸ hactive, fun hin => hout (hmem.mpr hin), hmutex',
        by rw [hsame, hhead, hnext]⟩
  | registerBind tcb resume =>
      obtain ⟨hsame, hmem⟩ := hown tcb rfl
      obtain ⟨htls, hactive, hin, hmutex⟩ := h
      exact ⟨htls, hsame ▸ hactive, hmem.mp hin, (hlock hmutex).1⟩
  | unregisterEpoch =>
      intro tcb htls
      exact (hown tcb ((block_eq_tls rfl).trans htls)).2.mp (h tcb htls)
  | _ =>
      intro tcb htls
      obtain ⟨hsame, hmem⟩ := hown tcb ((block_eq_tls rfl).trans htls)
      rw [hsame, ← hmem]
      exact h tcb htls

/-- The list of blocks: its chain, and the place of every thread's block. -/
structure ListInv (state : State Node) (blocks : List TcbId) : Prop extends Exclusive state where
  chain : IsChain (fun tcb => (state.shared.tcbs tcb).next) state.shared.head blocks
  listed : ∀ tcb ∈ blocks, tcb < state.shared.tcbCount
  place : ∀ tid, PlaceInv state.shared blocks tid (state.threads tid)

/-- The list is kept by a step that puts at most its thread's own block on it. -/
theorem ListInv.step {blocks blocks' : List TcbId} (h : ListInv state blocks)
    (hblocks : BlockStep state.shared (state.threads tid) shared' thread')
    (hgrow : blocks' = blocks ∨
      ∃ own, (state.threads tid).block = some own ∧ blocks' = own :: blocks)
    (hchain : IsChain (fun tcb => (shared'.tcbs tcb).next) shared'.head blocks')
    (hplace : PlaceInv shared' blocks' tid thread')
    (hlock : ∀ other, other ≠ tid → state.shared.listMutex = some other →
      shared'.listMutex = some other ∧ shared'.head = state.shared.head) :
    ListInv ⟨shared', Function.update state.threads tid thread'⟩ blocks' := by
  refine ⟨h.toExclusive.step hblocks, hchain, fun tcb htcb => ?_, fun other => ?_⟩
  · refine Nat.lt_of_lt_of_le ?_ hblocks.count
    rcases hgrow with rfl | ⟨own, hown, rfl⟩
    · exact h.listed tcb htcb
    · rcases List.mem_cons.mp htcb with rfl | hmem
      · exact h.allocated tid tcb hown
      · exact h.listed tcb hmem
  · by_cases heq : other = tid
    · subst heq
      simpa only [Function.update_self] using hplace
    · simp only [Function.update_of_ne heq]
      refine (h.place other).frame (fun tcb htcb => ?_) (hlock other heq)
      refine ⟨h.toExclusive.other_block hblocks heq htcb, ?_⟩
      rcases hgrow with rfl | ⟨own, hown, rfl⟩
      · rfl
      · have hne : tcb ≠ own := by
          rintro rfl
          exact heq (h.distinct other tid tcb htcb hown)
        simp [hne]

/-- A step that leaves the list and every block's link and flag as they are. -/
structure SameList (shared shared' : Shared Node) : Prop where
  head : shared'.head = shared.head
  listMutex : shared'.listMutex = shared.listMutex
  tcbs : ∀ tcb, (shared'.tcbs tcb).next = (shared.tcbs tcb).next ∧
    (shared'.tcbs tcb).active = (shared.tcbs tcb).active

/-- A store in a block that keeps its link and its flag. -/
theorem SameList.store {shared : Shared Node} {own : TcbId} {block : ThreadControlBlock Node}
    (hhead : shared'.head = shared.head) (hmutex : shared'.listMutex = shared.listMutex)
    (htcbs : shared'.tcbs = Function.update shared.tcbs own block)
    (hnext : block.next = (shared.tcbs own).next)
    (hactive : block.active = (shared.tcbs own).active) : SameList shared shared' := by
  refine ⟨hhead, hmutex, fun tcb => ?_⟩
  rw [htcbs]
  by_cases heq : tcb = own
  · subst heq
    simp [hnext, hactive]
  · simp [heq]

/-- The list is kept by a settled thread that leaves links and flags alone. -/
theorem ListInv.settled {blocks : List TcbId} (h : ListInv state blocks)
    (hblocks : BlockStep state.shared (state.threads tid) shared' thread')
    (hsame : SameList state.shared shared') (hbefore : (state.threads tid).pc.settled = true)
    (hafter : thread'.pc.settled = true) (htls : thread'.tlsTcb = (state.threads tid).tlsTcb) :
    ListInv ⟨shared', Function.update state.threads tid thread'⟩ blocks := by
  refine h.step hblocks (.inl rfl) ?_ ?_ fun other _ hmutex => ?_
  · rw [hsame.head]
    exact h.chain.congr fun tcb _ => (hsame.tcbs tcb).1
  · have hplace := (placeInv_settled hbefore).mp (h.place tid)
    refine (placeInv_settled hafter).mpr fun tcb htcb => ?_
    rw [(hsame.tcbs tcb).2]
    exact hplace tcb (htls ▸ htcb)
  · exact ⟨hsame.listMutex.trans hmutex, hsame.head⟩

/-- The block of a registered thread is active and on the list. -/
theorem ListInv.registered {blocks : List TcbId} (h : ListInv state blocks)
    (hsettled : (state.threads tid).pc.settled = true) {tcb : TcbId}
    (htls : (state.threads tid).tlsTcb = some tcb) :
    tcb ∈ blocks ∧ (state.shared.tcbs tcb).active = true :=
  (placeInv_settled hsettled).mp (h.place tid) tcb htls

/-- A step inside a function keeps the list, or puts the thread's block in front of it. -/
theorem ListInv.run {blocks : List TcbId} (h : ListInv state blocks)
    (hrun : RunStep state.shared tid (state.threads tid) shared' thread') :
    ∃ blocks', blocks ⊆ blocks' ∧
      ListInv ⟨shared', Function.update state.threads tid thread'⟩ blocks' := by
  have hblocks := hrun.blocks
  have hplace := h.place tid
  have hsame := List.Subset.refl blocks
  cases hrun with
  | registerLock tcb resume hpc hfree =>
      simp only [PlaceInv, hpc] at hplace
      obtain ⟨htls, hactive, hout⟩ := hplace
      refine ⟨blocks, hsame, h.step hblocks (.inl rfl) h.chain ⟨htls, hactive, hout, rfl⟩ ?_⟩
      intro other _ hmutex
      simp [hfree] at hmutex
  | registerLink tcb resume hpc =>
      simp only [PlaceInv, hpc] at hplace
      obtain ⟨htls, hactive, hout, hmutex⟩ := hplace
      refine ⟨blocks, hsame, h.step hblocks (.inl rfl) ?_ ?_ fun other _ hother => ⟨hother, rfl⟩⟩
      · refine h.chain.congr fun other hmem => ?_
        have hne : other ≠ tcb := by
          rintro rfl
          exact hout hmem
        simp [Shared.setTcb, hne]
      · simpa [PlaceInv, Shared.setTcb] using ⟨htls, hactive, hout, hmutex⟩
  | registerPublish tcb resume hpc =>
      simp only [PlaceInv, hpc] at hplace
      obtain ⟨htls, hactive, hout, hmutex, hnext⟩ := hplace
      refine ⟨tcb :: blocks, List.subset_cons_self .., h.step hblocks (.inr ⟨tcb, ?_, rfl⟩)
        ⟨rfl, ?_⟩ ?_ ?_⟩
      · simp [Thread.block, hpc, Pc.newBlock]
      · simpa only [hnext] using h.chain
      · exact ⟨htls, hactive, List.mem_cons_self, hmutex⟩
      · intro other hne hother
        exact absurd (Option.some.inj (hother.symm.trans hmutex)) hne
  | registerBind tcb resume hpc =>
      simp only [PlaceInv, hpc] at hplace
      obtain ⟨htls, hactive, hin, hmutex⟩ := hplace
      refine ⟨blocks, hsame, h.step hblocks (.inl rfl) h.chain ?_ ?_⟩
      · refine (placeInv_settled (by simp)).mpr fun own hown => ?_
        obtain rfl : tcb = own := by simpa using hown
        exact ⟨hin, hactive⟩
      · intro other hne hother
        exact absurd (Option.some.inj (hother.symm.trans hmutex)) hne
  | unregisterActive tcb hpc htls =>
      obtain ⟨hin, -⟩ := h.registered (by simp [hpc, Pc.settled]) htls
      refine ⟨blocks, hsame, h.step hblocks (.inl rfl) ?_ ?_ fun _ _ hother => ⟨hother, rfl⟩⟩
      · refine h.chain.congr fun other _ => ?_
        by_cases heq : other = tcb
        · subst heq
          simp [Shared.setTcb]
        · simp [Shared.setTcb, heq]
      · intro own hown
        obtain rfl : tcb = own := Option.some.inj (htls.symm.trans hown)
        exact hin
  | unregisterEpoch tcb hpc htls =>
      refine ⟨blocks, hsame, h.step hblocks (.inl rfl) ?_ ?_ fun _ _ hother => ⟨hother, rfl⟩⟩
      · refine h.chain.congr fun other _ => ?_
        by_cases heq : other = tcb
        · subst heq
          simp [Shared.setTcb]
        · simp [Shared.setTcb, heq]
      · intro own hown
        cases hown
  | enterStore _ tcb hpc | exitStore tcb hpc =>
      exact ⟨blocks, hsame, h.settled hblocks (.store rfl rfl rfl rfl rfl)
        (by simp [hpc, Pc.settled]) rfl rfl⟩
  | retirePush node currentEpoch tcb hpc =>
      refine ⟨blocks, hsame, h.settled hblocks (.store rfl rfl rfl rfl rfl)
        (by simp [hpc, Pc.settled]) ?_ rfl⟩
      dsimp only
      split <;> rfl
  | gcSweep minEpoch index own hpc htls hsweep =>
      have hbefore : (state.threads tid).pc.settled = true := by simp [hpc, Pc.settled]
      cases sweep_cases hsweep with
      | finish | skip =>
          exact ⟨blocks, hsame, h.settled hblocks ⟨rfl, rfl, fun _ => ⟨rfl, rfl⟩⟩ hbefore rfl rfl⟩
      | delete | erase =>
          exact ⟨blocks, hsame, h.settled hblocks (.store rfl rfl rfl rfl rfl) hbefore hbefore rfl⟩
  | enterLoad hpc | retireLoad _ hpc | gcLoad hpc | gcActive _ _ hpc | gcInactive _ _ hpc
  | gcLocal _ _ hpc | gcGlobal _ hpc =>
      exact ⟨blocks, hsame, h.settled hblocks ⟨rfl, rfl, fun _ => ⟨rfl, rfl⟩⟩
        (by simp [hpc, Pc.settled]) rfl rfl⟩
  | gcHead _ hpc | gcNext _ _ hpc | gcBehind _ hpc | gcCas _ _ hpc =>
      exact ⟨blocks, hsame, h.settled hblocks ⟨rfl, rfl, fun _ => ⟨rfl, rfl⟩⟩
        (by simp [hpc, Pc.settled]) (by simp) (by simp)⟩

/-- A block that has just been allocated is not on the list. -/
theorem ListInv.allocate {blocks : List TcbId} (h : ListInv state blocks) {resume : Resume Node}
    (hblocks : BlockStep state.shared (state.threads tid) shared' thread')
    (hresult : beginRegister state.shared (state.threads tid) resume = (shared', thread'))
    (hnone : (state.threads tid).tlsTcb = none) :
    ListInv ⟨shared', Function.update state.threads tid thread'⟩ blocks := by
  obtain ⟨rfl, rfl⟩ := Prod.mk.inj hresult
  refine h.step hblocks (.inl rfl) ?_ ?_ fun _ _ hmutex => ⟨hmutex, rfl⟩
  · refine h.chain.congr fun other hmem => ?_
    have hne : other ≠ state.shared.tcbCount := Nat.ne_of_lt (h.listed other hmem)
    simp [Shared.setTcb, hne]
  · refine ⟨hnone, by simp [Shared.setTcb], fun hin => ?_⟩
    exact Nat.lt_irrefl _ (h.listed _ hin)

/-- A call keeps the list. -/
theorem ListInv.call {blocks : List TcbId} {action : Action Node} (h : ListInv state blocks)
    (hcall : CallStep state.shared (state.threads tid) action shared' thread')
    (hidle : (state.threads tid).pc = .idle) :
    ListInv ⟨shared', Function.update state.threads tid thread'⟩ blocks := by
  have hblocks := hcall.blocks hidle
  have hbefore : (state.threads tid).pc.settled = true := by simp [hidle, Pc.settled]
  have hsame : SameList state.shared state.shared := ⟨rfl, rfl, fun _ => ⟨rfl, rfl⟩⟩
  cases hcall with
  | register hnone | enterFirst hnone | retireFirst _ hnone =>
      exact h.allocate hblocks rfl hnone
  | registered | unregistered | exitUnregistered | retireNull | run =>
      exact h.settled hblocks hsame hbefore hbefore rfl
  | unregister | retire | gc => exact h.settled hblocks hsame hbefore rfl rfl
  | enter => exact h.settled hblocks hsame hbefore (by simp) rfl
  | exit =>
      refine h.settled hblocks hsame hbefore ?_ rfl
      dsimp only
      split <;> rfl

/-- An action of a thread keeps the list, which only grows. -/
theorem ListInv.act {blocks : List TcbId} {action : Action Node} (h : ListInv state blocks)
    (hact : act state.shared tid (state.threads tid) action = some (shared', thread')) :
    ∃ blocks', blocks ⊆ blocks' ∧
      ListInv ⟨shared', Function.update state.threads tid thread'⟩ blocks' := by
  rcases act_steps hact with ⟨-, hrun⟩ | ⟨-, hidle, hcall⟩
  · exact h.run hrun
  · exact ⟨blocks, List.Subset.refl _, h.call hcall hidle⟩

/-- Every step keeps the blocks of different threads apart and the list in order. -/
theorem listed_step {event : Event Node} (h : ∃ blocks, ListInv state blocks)
    (hstep : Concurrency.step state event = some next) : ∃ blocks, ListInv next blocks := by
  obtain ⟨blocks, h⟩ := h
  rcases step_thread hstep with ⟨-, rfl⟩ | ⟨tid, action, shared', thread', -, hact, rfl⟩
  · exact ⟨blocks, h⟩
  · obtain ⟨blocks', -, hnext⟩ := h.act hact
    exact ⟨blocks', hnext⟩

/-- The list is empty at first. -/
theorem listInv_init : ListInv ({} : State Node) [] where
  allocated := nofun
  distinct := nofun
  chain := rfl
  listed := nofun
  place := fun _ => nofun

/-- The list is in order in every run. -/
theorem reachable_listed {allow : State Node → Event Node → Prop}
    (h : (ebr Node).Reachable allow state) : ∃ blocks, ListInv state blocks := by
  refine h.invariant (fun state => ∃ blocks, ListInv state blocks) ?_ ?_
  · rintro _ rfl
    exact ⟨[], listInv_init⟩
  · intro state event next hinv _ hstep
    exact listed_step hinv hstep

end Threads

end HotPath.Concurrency
