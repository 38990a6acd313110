import HotPath.Concurrency.Ebr
import HotPath.Foundation.Chain
import Mathlib.Data.List.Nodup

/-!
# Pinned nodes and what protects them

A thread pins a node if it had published an epoch when the node was unlinked and is still inside
the same outermost critical section. `SafeReclamation` says that no deleted node is pinned and
that no node is deleted twice.

The invariant behind it relates four moments. A thread that pins a node published an epoch no
later than the one at which the node was unlinked, so no later than the one that `Retire` reads
afterwards and writes into the batch (`History.PinnedUpTo`). Its block is on the list when a later
scan starts, and stays ahead of the scan until the scan reads the published epoch (`Scanned`). So
the scan ends with a minimum that is not above the epoch of the batch, and the sweep skips the
batch.

The invariant is split into what holds of the shared memory (`SharedInv`) and what holds of one
thread (`ThreadInv`). `Rely` is what a thread may assume about the steps of the others.
-/

namespace HotPath.Concurrency

open HotPath.Foundation

variable {Node : Type}

/-! ## What is remembered of a run -/

/-- The life of a node. It is retired from the call of `Retire` on. -/
inductive Stage where
  | live
  | unlinked
  | retiring (thread : ThreadId)
  | batched (tcb : TcbId)
  | deleted
deriving DecidableEq

/-- What is remembered of a run: the stage of every node, the block and the epoch that a thread
published for its current outermost critical section, the threads that pin a node, and the thread
that allocated a block. -/
structure History (Node : Type) where
  stage : Node → Stage
  announced : ThreadId → Option (TcbId × UInt64)
  pins : Node → ThreadId → Bool
  owner : TcbId → Option ThreadId

section Recording

variable [DecidableEq Node]

/-- A node moves on to another stage. -/
def History.setStage (history : History Node) (node : Node) (stage : Stage) : History Node :=
  { history with stage := Function.update history.stage node stage }

/-- A node is unlinked. The threads that have published an epoch pin it. -/
def History.unlink (history : History Node) (node : Node) : History Node :=
  { history.setStage node .unlinked with
    pins := Function.update history.pins node fun tid => (history.announced tid).isSome }

/-- A thread leaves its outermost critical section. -/
def History.leave (history : History Node) (tid : ThreadId) : History Node :=
  { history with
    announced := Function.update history.announced tid none
    pins := fun node other => history.pins node other && other != tid }

/-- What an action of a thread adds to the history. -/
def History.act (history : History Node) (tid : ThreadId) (thread : Thread Node)
    (deleted : List Node) : Action Node → History Node
  | .retire (some node) => history.setStage node (.retiring tid)
  | .run =>
      match thread.pc, thread.tlsTcb with
      | .enterStore epoch, some tcb =>
          { history with announced := Function.update history.announced tid (some (tcb, epoch)) }
      | .exitStore, _ => history.leave tid
      | .retirePush node _, some tcb => history.setStage node (.batched tcb)
      | .gcSweep _ _, _ =>
          { history with stage := fun node =>
              if node ∈ deleted then .deleted else history.stage node }
      | _, _ => history
  | _ => history

/-- A thread may have allocated the next block. -/
def History.allocate (history : History Node) (tid : ThreadId) (tcbCount tcbCount' : Nat) :
    History Node :=
  if tcbCount' = tcbCount then history
  else { history with owner := Function.update history.owner tcbCount (some tid) }

/-- The history of a run. -/
def remember : Recorder (State Node) (Event Node) (History Node) where
  start _ := ⟨fun _ => .live, fun _ => none, fun _ _ => false, fun _ => none⟩
  observe state event next history :=
    match event with
    | .unlink node => history.unlink node
    | .thread tid action =>
        (history.act tid (state.threads tid) next.shared.deleted action).allocate tid
          state.shared.tcbCount next.shared.tcbCount

/-- What the callers owe: a node is unlinked once, passed to `Retire` once and after it was
unlinked, and no thread unregisters inside a critical section. -/
def disciplined (pair : State Node × History Node) : Event Node → Bool
  | .unlink node => pair.2.stage node == .live
  | .thread _ (.retire (some node)) => pair.2.stage node == .unlinked
  | .thread tid .unregisterThread => !isInCritical (pair.1.threads tid)
  | _ => true

/-- The event is a successful compare-and-swap that takes the global epoch from its largest value
to zero. -/
def wraps (state : State Node) : Event Node → Bool
  | .thread tid .run =>
      match (state.threads tid).pc with
      | .gcCas _ currentGlobal =>
          state.shared.globalEpoch == currentGlobal && currentGlobal + 1 == 0
      | _ => false
  | _ => false

/-- In every run whose events meet `allow`, no deleted node is pinned and no node is deleted
twice. -/
def SafeReclamation (Node : Type) [DecidableEq Node]
    (allow : State Node × History Node → Event Node → Prop) : Prop :=
  ∀ pair, ((ebr Node).withHistory remember).Reachable allow pair →
    (∀ node ∈ pair.1.shared.deleted, ∀ thread, pair.2.pins node thread = false) ∧
      pair.1.shared.deleted.Nodup

end Recording

/-! ## The invariant -/

/-- Every thread that pins the node published an epoch up to the given one. -/
def History.PinnedUpTo (history : History Node) (node : Node) (epoch : UInt64) : Prop :=
  ∀ thread tcb published, history.pins node thread = true →
    history.announced thread = some (tcb, published) → published ≤ epoch

/-- What a thread's own batches and a scan have to do with each other: a thread that pins one of
the nodes has its block ahead of the scan, or the minimum is already low enough for the batch. -/
def Scanned (shared : Shared Node) (history : History Node) (tls : Option TcbId)
    (ahead : List TcbId) (minEpoch : UInt64) : Prop :=
  ∀ own, tls = some own → ∀ batch ∈ (shared.tcbs own).retirementBatches, ∀ node ∈ batch.nodes,
    ∀ thread tcb published, history.pins node thread = true →
      history.announced thread = some (tcb, published) → tcb ∈ ahead ∨ minEpoch ≤ batch.epoch

/-- A scan that continues at a block, or at the end of the list. -/
def Scanning (shared : Shared Node) (history : History Node) (blocks : List TcbId)
    (tls : Option TcbId) (start : Option TcbId) (minEpoch : UInt64) : Prop :=
  ∃ ahead, ahead ⊆ blocks ∧ IsChain (fun tcb => (shared.tcbs tcb).next) start ahead ∧
    Scanned shared history tls ahead minEpoch

/-- What holds of the shared memory. `blocks` are the blocks on the list. -/
structure SharedInv (shared : Shared Node) (history : History Node) (blocks : List TcbId) :
    Prop where
  chain : IsChain (fun tcb => (shared.tcbs tcb).next) shared.head blocks
  allocated : ∀ tcb ∈ blocks, tcb < shared.tcbCount
  owned : ∀ tcb tid, history.owner tcb = some tid → tcb < shared.tcbCount
  epoch : shared.globalEpoch ≠ 0
  listed : ∀ tid tcb epoch, history.announced tid = some (tcb, epoch) →
    tcb ∈ blocks ∧ history.owner tcb = some tid
  published : ∀ tid tcb epoch, history.announced tid = some (tcb, epoch) →
    (shared.tcbs tcb).active = true ∧ (shared.tcbs tcb).localEpoch = epoch ∧ epoch ≠ 0 ∧
      epoch ≤ shared.globalEpoch
  pins : ∀ node thread, history.pins node thread = true →
    history.stage node ≠ .live ∧ history.stage node ≠ .deleted ∧
      history.announced thread ≠ none
  batched : ∀ tcb, ∀ batch ∈ (shared.tcbs tcb).retirementBatches, ∀ node ∈ batch.nodes,
    history.stage node = .batched tcb ∧ history.PinnedUpTo node batch.epoch
  distinct : ∀ tcb, ((shared.tcbs tcb).retirementBatches.flatMap Batch.nodes).Nodup
  deleted : ∀ node ∈ shared.deleted, history.stage node = .deleted
  once : shared.deleted.Nodup

/-- What holds after `RegisterThread`: a node to be retired is known to be so. -/
def ResumeInv (history : History Node) (tid : ThreadId) : Resume Node → Prop
  | .retire node => history.stage node = .retiring tid
  | _ => True

/-- The block of a thread that registers. -/
def Registering (shared : Shared Node) (history : History Node) (tid : ThreadId)
    (tls : Option TcbId) (tcb : TcbId) (resume : Resume Node) : Prop :=
  tls = none ∧ history.owner tcb = some tid ∧ (shared.tcbs tcb).active = true ∧
    ResumeInv history tid resume

/-- What holds at a place inside a function. -/
def PcInv (shared : Shared Node) (history : History Node) (blocks : List TcbId) (tid : ThreadId)
    (tls : Option TcbId) : Pc Node → Prop
  | .registerLock tcb resume =>
      Registering shared history tid tls tcb resume ∧ tcb ∉ blocks
  | .registerLink tcb resume =>
      Registering shared history tid tls tcb resume ∧ tcb ∉ blocks ∧
        shared.listMutex = some tid
  | .registerPublish tcb resume =>
      Registering shared history tid tls tcb resume ∧ tcb ∉ blocks ∧
        shared.listMutex = some tid ∧ (shared.tcbs tcb).next = shared.head
  | .registerBind tcb resume =>
      Registering shared history tid tls tcb resume ∧ tcb ∈ blocks ∧
        shared.listMutex = some tid
  | .enterStore epoch => epoch ≠ 0 ∧ epoch ≤ shared.globalEpoch
  | .retireLoad node => history.stage node = .retiring tid
  | .retirePush node epoch =>
      history.stage node = .retiring tid ∧ history.PinnedUpTo node epoch
  | .gcActive minEpoch curr | .gcLocal minEpoch curr =>
      Scanning shared history blocks tls (some curr) minEpoch
  | .gcNext minEpoch curr =>
      curr ∈ blocks ∧ Scanning shared history blocks tls (shared.tcbs curr).next minEpoch
  | .gcGlobal minEpoch | .gcCas minEpoch _ | .gcSweep minEpoch _ =>
      Scanned shared history tls [] minEpoch
  | _ => True

/-- The places at which a thread has not published an epoch. -/
def Pc.outside : Pc Node → Bool
  | .enterLoad | .enterStore _ | .unregisterActive | .unregisterEpoch => true
  | _ => false

/-- The places inside `EnterCritical` of an outermost section. -/
def Pc.entering : Pc Node → Bool
  | .enterLoad | .enterStore _ => true
  | _ => false

/-- What holds of one thread. -/
structure ThreadInv (shared : Shared Node) (history : History Node) (blocks : List TcbId)
    (tid : ThreadId) (thread : Thread Node) : Prop where
  bound : ∀ tcb, thread.tlsTcb = some tcb → history.owner tcb = some tid ∧ tcb ∈ blocks
  active : ∀ tcb, thread.tlsTcb = some tcb → thread.pc ≠ .unregisterEpoch →
    (shared.tcbs tcb).active = true
  inside : ∀ tcb epoch, history.announced tid = some (tcb, epoch) →
    thread.tlsTcb = some tcb ∧
      (thread.pc = .exitStore ∨ 0 < thread.criticalDepth ∧ thread.pc.outside = false)
  entering : thread.pc.entering = true → 0 < thread.criticalDepth
  pc : PcInv shared history blocks tid thread.tlsTcb thread.pc

/-! ## What a thread relies on -/

/-- What a thread may assume about a step of another one. -/
structure Rely (tid : ThreadId) (shared : Shared Node) (history : History Node)
    (blocks : List TcbId) (shared' : Shared Node) (history' : History Node)
    (blocks' : List TcbId) : Prop where
  epoch : shared.globalEpoch ≤ shared'.globalEpoch
  locked : shared.listMutex = some tid →
    shared'.listMutex = some tid ∧ shared'.head = shared.head
  grow : blocks ⊆ blocks'
  own : ∀ tcb, history.owner tcb = some tid →
    shared'.tcbs tcb = shared.tcbs tcb ∧ history'.owner tcb = some tid ∧
      (tcb ∈ blocks' → tcb ∈ blocks)
  next : ∀ tcb ∈ blocks, (shared'.tcbs tcb).next = (shared.tcbs tcb).next
  announced : history'.announced tid = history.announced tid
  stage : ∀ node, history.stage node = .retiring tid → history'.stage node = .retiring tid
  gone : ∀ node, history.stage node ≠ .live → history'.stage node ≠ .live
  pins : ∀ node thread, history.stage node ≠ .live → history'.pins node thread = true →
    history.pins node thread = true ∧ history'.announced thread = history.announced thread

section Stability

variable {shared shared' shared'' : Shared Node} {history history' history'' : History Node}
  {blocks blocks' blocks'' : List TcbId} {tid : ThreadId} {thread : Thread Node}
  {node : Node} {epoch minEpoch : UInt64} {start : Option TcbId} {tls : Option TcbId}

theorem Rely.refl : Rely tid shared history blocks shared history blocks where
  epoch := UInt64.le_refl _
  locked := fun h => ⟨h, rfl⟩
  grow := List.Subset.refl _
  own := fun _ h => ⟨rfl, h, id⟩
  next := fun _ _ => rfl
  announced := rfl
  stage := fun _ h => h
  gone := fun _ h => h
  pins := fun _ _ _ h => ⟨h, rfl⟩

theorem Rely.trans (h : Rely tid shared history blocks shared' history' blocks')
    (h' : Rely tid shared' history' blocks' shared'' history'' blocks'') :
    Rely tid shared history blocks shared'' history'' blocks'' where
  epoch := UInt64.le_trans h.epoch h'.epoch
  locked := fun hlocked =>
    have ⟨hlocked', hhead⟩ := h.locked hlocked
    have ⟨hlocked'', hhead'⟩ := h'.locked hlocked'
    ⟨hlocked'', hhead'.trans hhead⟩
  grow := fun _ hmem => h'.grow (h.grow hmem)
  own := fun tcb howner =>
    have ⟨hsame, howner', hold⟩ := h.own tcb howner
    have ⟨hsame', howner'', hold'⟩ := h'.own tcb howner'
    ⟨hsame'.trans hsame, howner'', fun hmem => hold (hold' hmem)⟩
  next := fun tcb hmem => (h'.next tcb (h.grow hmem)).trans (h.next tcb hmem)
  announced := h'.announced.trans h.announced
  stage := fun node hstage => h'.stage node (h.stage node hstage)
  gone := fun node hstage => h'.gone node (h.gone node hstage)
  pins := fun node thread hstage hpins =>
    have ⟨hpins', hsame'⟩ := h'.pins node thread (h.gone node hstage) hpins
    have ⟨hpins'', hsame⟩ := h.pins node thread hstage hpins'
    ⟨hpins'', hsame'.trans hsame⟩

/-- The threads that pin a retired node do not publish anything else. -/
theorem Rely.pinnedUpTo (hrely : Rely tid shared history blocks shared' history' blocks')
    (hstage : history.stage node ≠ .live) (h : history.PinnedUpTo node epoch) :
    history'.PinnedUpTo node epoch := by
  intro thread tcb published hpins hannounced
  obtain ⟨hpins, hsame⟩ := hrely.pins node thread hstage hpins
  exact h thread tcb published hpins (hsame ▸ hannounced)

/-- A scan of one thread is not disturbed by the others. -/
theorem Rely.scanned (hrely : Rely tid shared history blocks shared' history' blocks')
    (hshared : SharedInv shared history blocks)
    (hbound : ∀ tcb, tls = some tcb → history.owner tcb = some tid) {ahead : List TcbId}
    (h : Scanned shared history tls ahead minEpoch) :
    Scanned shared' history' tls ahead minEpoch := by
  intro own htls batch hbatch node hnode thread tcb published hpins hannounced
  rw [(hrely.own own (hbound own htls)).1] at hbatch
  have hstage : history.stage node ≠ .live := by
    rw [(hshared.batched own batch hbatch node hnode).1]
    simp
  obtain ⟨hpins, hsame⟩ := hrely.pins node thread hstage hpins
  exact h own htls batch hbatch node hnode thread tcb published hpins (hsame ▸ hannounced)

theorem Rely.scanning (hrely : Rely tid shared history blocks shared' history' blocks')
    (hshared : SharedInv shared history blocks)
    (hbound : ∀ tcb, tls = some tcb → history.owner tcb = some tid)
    (h : Scanning shared history blocks tls start minEpoch) :
    Scanning shared' history' blocks' tls start minEpoch := by
  obtain ⟨ahead, hsub, hchain, hscanned⟩ := h
  refine ⟨ahead, fun tcb htcb => hrely.grow (hsub htcb), ?_,
    hrely.scanned hshared hbound hscanned⟩
  exact hchain.congr fun tcb htcb => hrely.next tcb (hsub htcb)

theorem Rely.registering (hrely : Rely tid shared history blocks shared' history' blocks')
    {tcb : TcbId} {resume : Resume Node} (h : Registering shared history tid tls tcb resume) :
    Registering shared' history' tid tls tcb resume := by
  obtain ⟨htls, howner, hactive, hresume⟩ := h
  obtain ⟨hsame, howner', -⟩ := hrely.own tcb howner
  refine ⟨htls, howner', by rwa [hsame], ?_⟩
  cases resume with
  | retire node => exact hrely.stage node hresume
  | done => trivial
  | enter => trivial

/-- Steps of the other threads keep what holds of a thread. -/
theorem Rely.threadInv (hrely : Rely tid shared history blocks shared' history' blocks')
    (hshared : SharedInv shared history blocks)
    (h : ThreadInv shared history blocks tid thread) :
    ThreadInv shared' history' blocks' tid thread := by
  have howner : ∀ tcb, thread.tlsTcb = some tcb → history.owner tcb = some tid :=
    fun tcb htls => (h.bound tcb htls).1
  refine ⟨fun tcb htls => ?_, fun tcb htls hpc => ?_, fun tcb epoch hannounced => ?_,
    h.entering, ?_⟩
  · obtain ⟨hown, hmem⟩ := h.bound tcb htls
    exact ⟨(hrely.own tcb hown).2.1, hrely.grow hmem⟩
  · rw [(hrely.own tcb (howner tcb htls)).1]
    exact h.active tcb htls hpc
  · exact h.inside tcb epoch (hrely.announced ▸ hannounced)
  · have hpc := h.pc
    revert hpc
    cases thread.pc with
    | registerLock tcb resume =>
        rintro ⟨hreg, hout⟩
        exact ⟨hrely.registering hreg, fun hin => hout ((hrely.own tcb hreg.2.1).2.2 hin)⟩
    | registerLink tcb resume =>
        rintro ⟨hreg, hout, hmutex⟩
        exact ⟨hrely.registering hreg, fun hin => hout ((hrely.own tcb hreg.2.1).2.2 hin),
          (hrely.locked hmutex).1⟩
    | registerPublish tcb resume =>
        rintro ⟨hreg, hout, hmutex, hnext⟩
        obtain ⟨hmutex', hhead⟩ := hrely.locked hmutex
        refine ⟨hrely.registering hreg, fun hin => hout ((hrely.own tcb hreg.2.1).2.2 hin),
          hmutex', ?_⟩
        rw [(hrely.own tcb hreg.2.1).1, hhead, hnext]
    | registerBind tcb resume =>
        rintro ⟨hreg, hin, hmutex⟩
        exact ⟨hrely.registering hreg, hrely.grow hin, (hrely.locked hmutex).1⟩
    | enterStore epoch =>
        rintro ⟨hne, hle⟩
        exact ⟨hne, UInt64.le_trans hle hrely.epoch⟩
    | retireLoad node => exact hrely.stage node
    | retirePush node epoch =>
        rintro ⟨hstage, hpinned⟩
        exact ⟨hrely.stage node hstage, hrely.pinnedUpTo (by simp [hstage]) hpinned⟩
    | gcActive minEpoch curr => exact hrely.scanning hshared howner
    | gcLocal minEpoch curr => exact hrely.scanning hshared howner
    | gcNext minEpoch curr =>
        rintro ⟨hcurr, hscan⟩
        have hscan := hrely.scanning hshared howner hscan
        exact ⟨hrely.grow hcurr, by rwa [hrely.next curr hcurr]⟩
    | gcGlobal minEpoch => exact hrely.scanned hshared howner
    | gcCas minEpoch current => exact hrely.scanned hshared howner
    | gcSweep minEpoch index => exact hrely.scanned hshared howner
    | _ => exact id

end Stability

/-! ## Stores -/

section Stores

variable {shared : Shared Node} {history : History Node} {blocks : List TcbId}
  {tid other : ThreadId} {tcb : TcbId} {block : ThreadControlBlock Node}

/-- The batches of a block satisfy the invariant. -/
structure BatchesInv (history : History Node) (tcb : TcbId) (batches : List (Batch Node)) :
    Prop where
  batched : ∀ batch ∈ batches, ∀ node ∈ batch.nodes,
    history.stage node = .batched tcb ∧ history.PinnedUpTo node batch.epoch
  distinct : (batches.flatMap Batch.nodes).Nodup

theorem SharedInv.batches (h : SharedInv shared history blocks) (tcb : TcbId) :
    BatchesInv history tcb (shared.tcbs tcb).retirementBatches :=
  ⟨h.batched tcb, h.distinct tcb⟩

/-- A block that a thread owns is announced by that thread at most. -/
theorem SharedInv.not_announced (h : SharedInv shared history blocks)
    (howner : history.owner tcb = some tid) (hnone : history.announced tid = none)
    (thread : ThreadId) (epoch : UInt64) : history.announced thread ≠ some (tcb, epoch) := by
  intro hannounced
  have howner' := (h.listed thread tcb epoch hannounced).2
  rw [howner] at howner'
  obtain rfl := Option.some.inj howner'
  rw [hnone] at hannounced
  cases hannounced

/-- A block may change as long as it stays on the list, its batches stay sound, and a published
epoch stays what it is. -/
theorem SharedInv.setTcb (h : SharedInv shared history blocks)
    (hsame : ∀ thread epoch, history.announced thread = some (tcb, epoch) →
      block.active = (shared.tcbs tcb).active ∧
        block.localEpoch = (shared.tcbs tcb).localEpoch)
    (hnext : tcb ∈ blocks → block.next = (shared.tcbs tcb).next)
    (hbatches : BatchesInv history tcb block.retirementBatches) :
    SharedInv (shared.setTcb tcb block) history blocks := by
  have hother : ∀ other, other ≠ tcb → (shared.setTcb tcb block).tcbs other = shared.tcbs other :=
    fun other hne => Function.update_of_ne hne _ _
  have hself : (shared.setTcb tcb block).tcbs tcb = block := Function.update_self ..
  refine { h with chain := ?_, published := ?_, batched := ?_, distinct := ?_ }
  · refine h.chain.congr fun other hmem => ?_
    by_cases heq : other = tcb
    · subst heq
      rw [hself, hnext hmem]
    · rw [hother other heq]
  · intro thread other epoch hannounced
    by_cases heq : other = tcb
    · subst heq
      obtain ⟨hactive, hlocal⟩ := hsame thread epoch hannounced
      rw [hself, hactive, hlocal]
      exact h.published thread other epoch hannounced
    · rw [hother other heq]
      exact h.published thread other epoch hannounced
  · intro other
    by_cases heq : other = tcb
    · subst heq
      rw [hself]
      exact hbatches.batched
    · rw [hother other heq]
      exact h.batched other
  · intro other
    by_cases heq : other = tcb
    · subst heq
      rw [hself]
      exact hbatches.distinct
    · rw [hother other heq]
      exact h.distinct other

theorem setTcb_self (tcb : TcbId) (block : ThreadControlBlock Node) :
    (shared.setTcb tcb block).tcbs tcb = block := Function.update_self ..

/-- A store to a block that leaves its flag alone. -/
theorem setTcb_active (h : block.active = (shared.tcbs tcb).active) (other : TcbId) :
    ((shared.setTcb tcb block).tcbs other).active = (shared.tcbs other).active := by
  by_cases heq : other = tcb
  · subst heq
    rw [← h]
    exact congrArg ThreadControlBlock.active (Function.update_self ..)
  · exact congrArg ThreadControlBlock.active (Function.update_of_ne heq ..)

/-- The other threads do not notice a store to a block that this thread owns. -/
theorem Rely.setTcb (howner : history.owner tcb = some tid) (hne : other ≠ tid)
    (hnext : tcb ∈ blocks → block.next = (shared.tcbs tcb).next) :
    Rely other shared history blocks (shared.setTcb tcb block) history blocks := by
  refine { Rely.refl with own := ?_, next := ?_ }
  · intro own hown
    refine ⟨Function.update_of_ne ?_ _ _, hown, id⟩
    rintro rfl
    rw [howner] at hown
    exact hne (Option.some.inj hown).symm
  · intro listed hmem
    by_cases heq : listed = tcb
    · subst heq
      rw [show (shared.setTcb listed block).tcbs listed = block from Function.update_self ..]
      exact hnext hmem
    · rw [show (shared.setTcb tcb block).tcbs listed = shared.tcbs listed from
        Function.update_of_ne heq _ _]

/-- A thread publishes an epoch. -/
theorem SharedInv.announce (h : SharedInv shared history blocks)
    (hnone : history.announced tid = none) (howner : history.owner tcb = some tid)
    (hmem : tcb ∈ blocks) {epoch : UInt64}
    (hpublished : (shared.tcbs tcb).active = true ∧ (shared.tcbs tcb).localEpoch = epoch ∧
      epoch ≠ 0 ∧ epoch ≤ shared.globalEpoch) :
    SharedInv shared { history with
      announced := Function.update history.announced tid (some (tcb, epoch)) } blocks := by
  have hpins : ∀ node, history.pins node tid ≠ true :=
    fun node hpins => (h.pins node tid hpins).2.2 hnone
  refine { h with listed := ?_, published := ?_, pins := ?_, batched := ?_ }
  · intro thread other published hannounced
    by_cases heq : thread = tid
    · subst heq
      simp only [Function.update_self, Option.some.injEq, Prod.mk.injEq] at hannounced
      obtain ⟨rfl, rfl⟩ := hannounced
      exact ⟨hmem, howner⟩
    · simp only [Function.update_of_ne heq] at hannounced
      exact h.listed thread other published hannounced
  · intro thread other published hannounced
    by_cases heq : thread = tid
    · subst heq
      simp only [Function.update_self, Option.some.injEq, Prod.mk.injEq] at hannounced
      obtain ⟨rfl, rfl⟩ := hannounced
      exact hpublished
    · simp only [Function.update_of_ne heq] at hannounced
      exact h.published thread other published hannounced
  · intro node thread hpinned
    have hne : thread ≠ tid := by
      rintro rfl
      exact hpins node hpinned
    simpa only [Function.update_of_ne hne] using h.pins node thread hpinned
  · intro own batch hbatch node hnode
    refine ⟨(h.batched own batch hbatch node hnode).1, ?_⟩
    intro thread other published hpinned hannounced
    have hne : thread ≠ tid := by
      rintro rfl
      exact hpins node hpinned
    simp only [Function.update_of_ne hne] at hannounced
    exact (h.batched own batch hbatch node hnode).2 thread other published hpinned hannounced

theorem Rely.announce (h : SharedInv shared history blocks)
    (hnone : history.announced tid = none) (hne : other ≠ tid) (entry : Option (TcbId × UInt64)) :
    Rely other shared history blocks shared { history with
      announced := Function.update history.announced tid entry } blocks := by
  refine { Rely.refl with announced := Function.update_of_ne hne _ _, pins := ?_ }
  intro node thread hstage hpinned
  have hne' : thread ≠ tid := by
    rintro rfl
    exact (h.pins node thread hpinned).2.2 hnone
  exact ⟨hpinned, Function.update_of_ne hne' _ _⟩

/-- A thread leaves its outermost critical section. -/
theorem SharedInv.leave (h : SharedInv shared history blocks) (tid : ThreadId) :
    SharedInv shared (history.leave tid) blocks := by
  have hannounced : ∀ thread entry, (history.leave tid).announced thread = some entry →
      history.announced thread = some entry := by
    intro thread entry hentry
    by_cases heq : thread = tid
    · subst heq
      simp [History.leave] at hentry
    · simpa [History.leave, Function.update_of_ne heq] using hentry
  have hpins : ∀ node thread, (history.leave tid).pins node thread = true →
      history.pins node thread = true ∧ thread ≠ tid := by
    intro node thread hpinned
    simpa [History.leave] using hpinned
  refine { h with listed := ?_, published := ?_, pins := ?_, batched := ?_ }
  · exact fun thread tcb epoch hentry => h.listed thread tcb epoch (hannounced _ _ hentry)
  · exact fun thread tcb epoch hentry => h.published thread tcb epoch (hannounced _ _ hentry)
  · intro node thread hpinned
    obtain ⟨hpinned, hne⟩ := hpins node thread hpinned
    simpa [History.leave, Function.update_of_ne hne] using h.pins node thread hpinned
  · intro own batch hbatch node hnode
    refine ⟨(h.batched own batch hbatch node hnode).1, ?_⟩
    intro thread tcb published hpinned hentry
    exact (h.batched own batch hbatch node hnode).2 thread tcb published
      (hpins node thread hpinned).1 (hannounced _ _ hentry)

theorem Rely.leave (hne : other ≠ tid) :
    Rely other shared history blocks shared (history.leave tid) blocks := by
  refine { Rely.refl with announced := Function.update_of_ne hne _ _, pins := ?_ }
  intro node thread hstage hpinned
  obtain ⟨hpinned, hne'⟩ : history.pins node thread = true ∧ thread ≠ tid := by
    simpa [History.leave] using hpinned
  exact ⟨hpinned, Function.update_of_ne hne' _ _⟩

/-- A node that is not in a batch moves on to another stage. -/
theorem SharedInv.setStage [DecidableEq Node] (h : SharedInv shared history blocks) {node : Node}
    {stage : Stage} (hold : ∀ tcb, history.stage node ≠ .batched tcb)
    (hnode : node ∉ shared.deleted) (hnew : stage ≠ .live ∧ stage ≠ .deleted) :
    SharedInv shared (history.setStage node stage) blocks := by
  refine { h with pins := ?_, batched := ?_, deleted := ?_ }
  · intro other thread hpinned
    have hpins := h.pins other thread hpinned
    by_cases heq : other = node
    · subst heq
      simpa [History.setStage, hnew] using hpins.2.2
    · simpa [History.setStage, Function.update_of_ne heq] using hpins
  · intro own batch hbatch other hother
    obtain ⟨hstage, hpinned⟩ := h.batched own batch hbatch other hother
    have hne : other ≠ node := by
      rintro rfl
      exact hold own hstage
    exact ⟨by simpa [History.setStage, Function.update_of_ne hne] using hstage, hpinned⟩
  · intro other hother
    have hne : other ≠ node := by
      rintro rfl
      exact hnode hother
    simpa [History.setStage, Function.update_of_ne hne] using h.deleted other hother

theorem Rely.setStage [DecidableEq Node] {node : Node} {stage : Stage}
    (hold : history.stage node ≠ .retiring other) (hnew : stage ≠ .live) :
    Rely other shared history blocks shared (history.setStage node stage) blocks := by
  refine { Rely.refl with stage := ?_, gone := ?_ }
  · intro moved hstage
    have hne : moved ≠ node := by
      rintro rfl
      exact hold hstage
    simpa [History.setStage, Function.update_of_ne hne] using hstage
  · intro moved hstage
    by_cases heq : moved = node
    · subst heq
      simpa [History.setStage] using hnew
    · simpa [History.setStage, Function.update_of_ne heq] using hstage

/-- A deleted node is in stage `deleted`. -/
theorem SharedInv.not_deleted (h : SharedInv shared history blocks) {node : Node}
    (hstage : history.stage node ≠ .deleted) : node ∉ shared.deleted :=
  fun hmem => hstage (h.deleted node hmem)

/-! ## Batches -/

/-- A node of the batches after a push was there before, or it is the pushed node. -/
theorem mem_pushRetired {batches : List (Batch Node)} {node pushed : Node} {epoch : UInt64}
    {batch : Batch Node} (hbatch : batch ∈ pushRetired batches pushed epoch)
    (hnode : node ∈ batch.nodes) :
    (node = pushed ∧ batch.epoch = epoch) ∨
      ∃ old ∈ batches, node ∈ old.nodes ∧ old.epoch = batch.epoch := by
  unfold pushRetired at hbatch
  cases hlast : batches.getLast? with
  | none =>
      simp only [hlast, List.mem_singleton] at hbatch
      subst hbatch
      exact .inl ⟨by simpa using hnode, rfl⟩
  | some last =>
      obtain ⟨front, rfl⟩ := List.getLast?_eq_some_iff.mp hlast
      simp only [hlast] at hbatch
      split at hbatch
      · rcases List.mem_append.mp hbatch with hold | hnew
        · exact .inr ⟨batch, hold, hnode, rfl⟩
        · obtain rfl := List.mem_singleton.mp hnew
          exact .inl ⟨by simpa using hnode, rfl⟩
      · next hepoch =>
          rw [List.dropLast_concat] at hbatch
          rcases List.mem_append.mp hbatch with hold | hnew
          · exact .inr ⟨batch, by simp [hold], hnode, rfl⟩
          · obtain rfl := List.mem_singleton.mp hnew
            rcases List.mem_append.mp hnode with hin | hpushed
            · exact .inr ⟨last, by simp, hin, rfl⟩
            · exact .inl ⟨by simpa using hpushed, by simpa using hepoch⟩

/-- A push appends the node. -/
theorem flatMap_pushRetired (batches : List (Batch Node)) (node : Node) (epoch : UInt64) :
    (pushRetired batches node epoch).flatMap Batch.nodes =
      batches.flatMap Batch.nodes ++ [node] := by
  unfold pushRetired
  cases hlast : batches.getLast? with
  | none =>
      rw [List.getLast?_eq_none_iff] at hlast
      simp [hlast]
  | some last =>
      obtain ⟨front, rfl⟩ := List.getLast?_eq_some_iff.mp hlast
      dsimp only
      split <;> simp

/-- The node that a thread retires joins its batches. -/
theorem BatchesInv.push [DecidableEq Node] {batches : List (Batch Node)} {node : Node}
    {epoch : UInt64} (h : BatchesInv history tcb batches)
    (hstage : history.stage node = .retiring tid) (hpinned : history.PinnedUpTo node epoch) :
    BatchesInv (history.setStage node (.batched tcb)) tcb (pushRetired batches node epoch) := by
  have hout : node ∉ batches.flatMap Batch.nodes := by
    intro hmem
    obtain ⟨batch, hbatch, hnode⟩ := List.mem_flatMap.mp hmem
    rw [(h.batched batch hbatch node hnode).1] at hstage
    cases hstage
  constructor
  · intro batch hbatch other hother
    rcases mem_pushRetired hbatch hother with ⟨rfl, rfl⟩ | ⟨old, hold, hmem, hepoch⟩
    · exact ⟨by simp [History.setStage], hpinned⟩
    · obtain ⟨hstage', hpinned'⟩ := h.batched old hold other hmem
      refine ⟨?_, hepoch ▸ hpinned'⟩
      by_cases heq : other = node
      · simp [History.setStage, heq]
      · simpa [History.setStage, Function.update_of_ne heq] using hstage'
  · rw [flatMap_pushRetired]
    exact List.nodup_append.mpr ⟨h.distinct, by simp, by
      intro a ha b hb
      obtain rfl := List.mem_singleton.mp hb
      rintro rfl
      exact hout ha⟩

/-- Taking nodes away from the batches keeps their invariant. -/
theorem BatchesInv.sublist {batches batches' : List (Batch Node)}
    (h : BatchesInv history tcb batches)
    (hsub : (batches'.flatMap Batch.nodes).Sublist (batches.flatMap Batch.nodes))
    (hmem : ∀ batch ∈ batches', ∃ old ∈ batches, old.epoch = batch.epoch ∧
      batch.nodes ⊆ old.nodes) : BatchesInv history tcb batches' := by
  refine ⟨fun batch hbatch node hnode => ?_, h.distinct.sublist hsub⟩
  obtain ⟨old, hold, hepoch, hnodes⟩ := hmem batch hbatch
  exact hepoch ▸ h.batched old hold node (hnodes hnode)

/-- The batch at an index splits the list. -/
theorem split_at_index {α : Type*} {items : List α} {index : Nat} {item : α}
    (h : items[index]? = some item) : ∃ before after, items = before ++ item :: after ∧
      (∀ other, items.set index other = before ++ other :: after) ∧
      items.eraseIdx index = before ++ after := by
  obtain ⟨hlt, hitem⟩ := List.getElem?_eq_some_iff.mp h
  refine ⟨items.take index, items.drop (index + 1), ?_, fun other => ?_, ?_⟩
  · rw [← hitem, List.getElem_cons_drop, List.take_append_drop]
  · exact List.set_eq_take_append_cons_drop.trans (by simp [hlt])
  · exact List.eraseIdx_eq_take_drop_succ ..

/-- What holds of the items before an index and of the one there. -/
theorem forall_take_succ {α : Type*} {items : List α} {index : Nat} {item : α} {p : α → Prop}
    (h : ∀ other ∈ items.take index, p other) (hitem : items[index]? = some item) (hp : p item) :
    ∀ other ∈ items.take (index + 1), p other := by
  intro other hmem
  rw [List.take_add_one, hitem] at hmem
  rcases List.mem_append.mp hmem with hbefore | hlast
  · exact h other hbefore
  · obtain rfl := List.mem_singleton.mp hlast
    exact hp

end Stores

end HotPath.Concurrency
