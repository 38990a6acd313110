import HotPath.Foundation.Transition
import Mathlib.Logic.Function.Basic
import Mathlib.Data.List.Basic

/-!
# Epoch-based reclamation, one atomic step at a time

`EpochBasedReclamation` with any number of threads. A thread is idle, or it is inside one of the
functions, between two accesses to shared memory; `Pc` names the places. `Shared` holds the
global epoch, the list of thread control blocks with its mutex, and the nodes deleted so far. The
thread-local variables are part of `Thread`.

Every access to an atomic variable is a step of its own, and so is every deletion of a node.
Accesses to thread-local variables and to the retirement batches, which only their thread uses,
are taken together with the step before or after them.

`sweep_cases`, `run_cases` and `call_cases` say what a step can do, and `act_steps` puts them
together.
-/

namespace HotPath.Concurrency

open HotPath.Foundation

/-- A thread, by number. -/
abbrev ThreadId := Nat

/-- The address of a thread control block. Blocks are never freed. -/
abbrev TcbId := Nat

/-- `kEpochInactive`. -/
def kEpochInactive : UInt64 := 0

/-- `kBatchThreshold`. -/
def kBatchThreshold : Nat := 64

/-- `ThreadControlBlock::Batch`. -/
structure Batch (Node : Type) where
  epoch : UInt64
  nodes : List Node

/-- `ThreadControlBlock`. -/
structure ThreadControlBlock (Node : Type) where
  localEpoch : UInt64 := kEpochInactive
  active : Bool := true
  next : Option TcbId := none
  retirementBatches : List (Batch Node) := []

/-- What a thread does once `RegisterThread` has returned. -/
inductive Resume (Node : Type) where
  | done
  | enter
  | retire (node : Node)

/-- Where a thread is. The names of the places inside `Gc` say which access comes next. -/
inductive Pc (Node : Type) where
  | idle
  | registerLock (tcb : TcbId) (resume : Resume Node)
  | registerLink (tcb : TcbId) (resume : Resume Node)
  | registerPublish (tcb : TcbId) (resume : Resume Node)
  | registerBind (tcb : TcbId) (resume : Resume Node)
  | unregisterActive
  | unregisterEpoch
  | enterLoad
  | enterStore (epoch : UInt64)
  | exitStore
  | retireLoad (node : Node)
  | retirePush (node : Node) (currentEpoch : UInt64)
  | gcLoad
  | gcHead (minEpoch : UInt64)
  | gcActive (minEpoch : UInt64) (curr : TcbId)
  | gcLocal (minEpoch : UInt64) (curr : TcbId)
  | gcNext (minEpoch : UInt64) (curr : TcbId)
  | gcGlobal (minEpoch : UInt64)
  | gcCas (minEpoch currentGlobal : UInt64)
  | gcSweep (minEpoch : UInt64) (index : Nat)

/-- A thread with its thread-local variables. -/
structure Thread (Node : Type) where
  tlsTcb : Option TcbId := none
  criticalDepth : Int := 0
  pc : Pc Node := .idle

/-- The memory that the threads share. Blocks are allocated in order. -/
structure Shared (Node : Type) where
  globalEpoch : UInt64 := 1
  head : Option TcbId := none
  listMutex : Option ThreadId := none
  tcbs : TcbId → ThreadControlBlock Node := fun _ => {}
  tcbCount : Nat := 0
  deleted : List Node := []

/-- The state of the engine. -/
structure State (Node : Type) where
  shared : Shared Node := {}
  threads : ThreadId → Thread Node := fun _ => {}

/-- What a thread can do next: call a function while it is idle, or take its next step. -/
inductive Action (Node : Type) where
  | registerThread
  | unregisterThread
  | enterCritical
  | exitCritical
  | retire (node : Option Node)
  | gc
  | run

/-- A step of a thread, or the moment at which a data structure unlinks a node, after which no
reader can find it any more. -/
inductive Event (Node : Type) where
  | thread (thread : ThreadId) (action : Action Node)
  | unlink (node : Node)

variable {Node : Type}

/-- Replace a thread control block. -/
def Shared.setTcb (shared : Shared Node) (tcb : TcbId) (block : ThreadControlBlock Node) :
    Shared Node :=
  { shared with tcbs := Function.update shared.tcbs tcb block }

/-! ## Calls -/

/-- The start of `RegisterThread` for a thread without a block: allocate one. -/
def beginRegister (shared : Shared Node) (thread : Thread Node) (resume : Resume Node) :
    Shared Node × Thread Node :=
  ({ shared.setTcb shared.tcbCount {} with tcbCount := shared.tcbCount + 1 },
    { thread with pc := .registerLock shared.tcbCount resume })

/-- `critical_depth++ == 0` of `EnterCritical`. -/
def beginEnter (thread : Thread Node) : Thread Node :=
  { thread with
    criticalDepth := thread.criticalDepth + 1
    pc := if thread.criticalDepth = 0 then .enterLoad else .idle }

/-- `IsInCritical`. -/
def isInCritical (thread : Thread Node) : Bool := thread.criticalDepth > 0

/-- A call of an idle thread, up to its first access to shared memory. -/
def call (shared : Shared Node) (thread : Thread Node) : Action Node → Shared Node × Thread Node
  | .registerThread =>
      match thread.tlsTcb with
      | some _ => (shared, thread)
      | none => beginRegister shared thread .done
  | .unregisterThread =>
      match thread.tlsTcb with
      | some _ => (shared, { thread with pc := .unregisterActive })
      | none => (shared, thread)
  | .enterCritical =>
      match thread.tlsTcb with
      | some _ => (shared, beginEnter thread)
      | none => beginRegister shared thread .enter
  | .exitCritical =>
      match thread.tlsTcb with
      | some _ => (shared, { thread with
          criticalDepth := thread.criticalDepth - 1
          pc := if thread.criticalDepth - 1 = 0 then .exitStore else .idle })
      | none => (shared, thread)
  | .retire (some node) =>
      match thread.tlsTcb with
      | some _ => (shared, { thread with pc := .retireLoad node })
      | none => beginRegister shared thread (.retire node)
  | .retire none => (shared, thread)
  | .run => (shared, thread)
  | .gc => (shared, { thread with pc := .gcLoad })

/-! ## Steps -/

/-- A thread goes on after `RegisterThread`. -/
def afterRegister (thread : Thread Node) : Resume Node → Thread Node
  | .done => { thread with pc := .idle }
  | .enter => beginEnter thread
  | .retire node => { thread with pc := .retireLoad node }

/-- Push a node to the last batch, or to a new one if the epoch has changed since. -/
def pushRetired (batches : List (Batch Node)) (node : Node) (currentEpoch : UInt64) :
    List (Batch Node) :=
  match batches.getLast? with
  | some last =>
      if last.epoch ≠ currentEpoch then batches ++ [⟨currentEpoch, [node]⟩]
      else batches.dropLast ++ [⟨last.epoch, last.nodes ++ [node]⟩]
  | none => [⟨currentEpoch, [node]⟩]

/-- The size of the last batch. -/
def lastBatchSize (batches : List (Batch Node)) : Nat :=
  match batches.getLast? with
  | some last => last.nodes.length
  | none => 0

/-- A node that finds no batch of its epoch opens one. -/
theorem pushRetired_new {batches : List (Batch Node)} {epoch : UInt64} (node : Node)
    (hlast : ∀ last ∈ batches.getLast?, last.epoch ≠ epoch) :
    pushRetired batches node epoch = batches ++ [⟨epoch, [node]⟩] := by
  unfold pushRetired
  split
  · next last hsome => rw [if_pos (hlast last hsome)]
  · next hnone => rw [List.getLast?_eq_none_iff.mp hnone, List.nil_append]

/-- A node joins the last batch if that has its epoch. -/
theorem pushRetired_last (batches : List (Batch Node)) (epoch : UInt64) (nodes : List Node)
    (node : Node) : pushRetired (batches ++ [⟨epoch, nodes⟩]) node epoch =
      batches ++ [⟨epoch, nodes ++ [node]⟩] := by
  simp [pushRetired]

theorem lastBatchSize_last (batches : List (Batch Node)) (epoch : UInt64) (nodes : List Node) :
    lastBatchSize (batches ++ [⟨epoch, nodes⟩]) = nodes.length := by
  simp [lastBatchSize]

/-- The thread reaches the sweep over its own batches, if it has any. -/
def beginSweep (thread : Thread Node) (minEpoch : UInt64) : Thread Node :=
  match thread.tlsTcb with
  | some _ => { thread with pc := .gcSweep minEpoch 0 }
  | none => { thread with pc := .idle }

/-- The walk of `Gc` goes on at a block, or is over. -/
def walkTo (thread : Thread Node) (minEpoch : UInt64) : Option TcbId → Thread Node
  | some curr => { thread with pc := .gcActive minEpoch curr }
  | none => { thread with pc := .gcGlobal minEpoch }

/-- One step of the sweep over the batches of the thread's own block: skip a batch that is too
young, delete the next node of an old batch, or erase an old batch whose nodes are deleted. -/
def sweep (shared : Shared Node) (thread : Thread Node) (tcb : TcbId) (minEpoch : UInt64)
    (index : Nat) : Shared Node × Thread Node :=
  let block := shared.tcbs tcb
  match block.retirementBatches[index]? with
  | none => (shared, { thread with pc := .idle })
  | some batch =>
      if batch.epoch < minEpoch then
        match batch.nodes with
        | node :: nodes =>
            ({ shared.setTcb tcb { block with
                retirementBatches := block.retirementBatches.set index { batch with nodes } } with
              deleted := shared.deleted ++ [node] }, thread)
        | [] =>
            (shared.setTcb tcb { block with
              retirementBatches := block.retirementBatches.eraseIdx index }, thread)
      else
        (shared, { thread with pc := .gcSweep minEpoch (index + 1) })

/-- The next step of a thread that is inside a function. A thread whose `tls_tcb` is null never
gets to a place that dereferences it. -/
def run (shared : Shared Node) (tid : ThreadId) (thread : Thread Node) :
    Option (Shared Node × Thread Node) :=
  match thread.pc, thread.tlsTcb with
  | .idle, _ => none
  | .registerLock tcb resume, _ =>
      if shared.listMutex = none then
        some ({ shared with listMutex := some tid },
          { thread with pc := .registerLink tcb resume })
      else none
  | .registerLink tcb resume, _ =>
      some (shared.setTcb tcb { shared.tcbs tcb with next := shared.head },
        { thread with pc := .registerPublish tcb resume })
  | .registerPublish tcb resume, _ =>
      some ({ shared with head := some tcb }, { thread with pc := .registerBind tcb resume })
  | .registerBind tcb resume, _ =>
      some ({ shared with listMutex := none },
        afterRegister { thread with tlsTcb := some tcb } resume)
  | .unregisterActive, some tcb =>
      some (shared.setTcb tcb { shared.tcbs tcb with active := false },
        { thread with pc := .unregisterEpoch })
  | .unregisterEpoch, some tcb =>
      some (shared.setTcb tcb { shared.tcbs tcb with localEpoch := kEpochInactive },
        { thread with tlsTcb := none, pc := .idle })
  | .enterLoad, _ => some (shared, { thread with pc := .enterStore shared.globalEpoch })
  | .enterStore epoch, some tcb =>
      some (shared.setTcb tcb { shared.tcbs tcb with localEpoch := epoch },
        { thread with pc := .idle })
  | .exitStore, some tcb =>
      some (shared.setTcb tcb { shared.tcbs tcb with localEpoch := kEpochInactive },
        { thread with pc := .idle })
  | .retireLoad node, _ =>
      some (shared, { thread with pc := .retirePush node shared.globalEpoch })
  | .retirePush node currentEpoch, some tcb =>
      let batches := pushRetired (shared.tcbs tcb).retirementBatches node currentEpoch
      some (shared.setTcb tcb { shared.tcbs tcb with retirementBatches := batches },
        { thread with pc := if lastBatchSize batches ≥ kBatchThreshold then .gcLoad else .idle })
  | .gcLoad, _ => some (shared, { thread with pc := .gcHead shared.globalEpoch })
  | .gcHead minEpoch, _ => some (shared, walkTo thread minEpoch shared.head)
  | .gcActive minEpoch curr, _ =>
      some (shared, { thread with
        pc := if (shared.tcbs curr).active then .gcLocal minEpoch curr else .gcNext minEpoch curr })
  | .gcLocal minEpoch curr, _ =>
      let localEpoch := (shared.tcbs curr).localEpoch
      let minEpoch :=
        if localEpoch ≠ kEpochInactive ∧ localEpoch < minEpoch then localEpoch else minEpoch
      some (shared, { thread with pc := .gcNext minEpoch curr })
  | .gcNext minEpoch curr, _ => some (shared, walkTo thread minEpoch (shared.tcbs curr).next)
  | .gcGlobal minEpoch, _ =>
      if minEpoch = shared.globalEpoch then
        some (shared, { thread with pc := .gcCas minEpoch shared.globalEpoch })
      else
        some (shared, beginSweep thread minEpoch)
  | .gcCas minEpoch currentGlobal, _ =>
      some ({ shared with globalEpoch :=
          if shared.globalEpoch = currentGlobal then currentGlobal + 1 else shared.globalEpoch },
        beginSweep thread minEpoch)
  | .gcSweep minEpoch index, some tcb => some (sweep shared thread tcb minEpoch index)
  | _, none => none

/-- Everything that one step of the sweep can do. -/
inductive SweepStep (shared : Shared Node) (thread : Thread Node) (tcb : TcbId)
    (minEpoch : UInt64) (index : Nat) : Shared Node → Thread Node → Prop where
  | finish : (shared.tcbs tcb).retirementBatches[index]? = none →
      SweepStep shared thread tcb minEpoch index shared { thread with pc := .idle }
  | delete {batch : Batch Node} {node : Node} {nodes : List Node} :
      (shared.tcbs tcb).retirementBatches[index]? = some batch → batch.epoch < minEpoch →
      batch.nodes = node :: nodes →
      SweepStep shared thread tcb minEpoch index
        { shared.setTcb tcb { shared.tcbs tcb with retirementBatches :=
            (shared.tcbs tcb).retirementBatches.set index { batch with nodes } } with
          deleted := shared.deleted ++ [node] } thread
  | erase {batch : Batch Node} :
      (shared.tcbs tcb).retirementBatches[index]? = some batch → batch.epoch < minEpoch →
      batch.nodes = [] →
      SweepStep shared thread tcb minEpoch index
        (shared.setTcb tcb { shared.tcbs tcb with
          retirementBatches := (shared.tcbs tcb).retirementBatches.eraseIdx index }) thread
  | skip {batch : Batch Node} :
      (shared.tcbs tcb).retirementBatches[index]? = some batch → ¬ batch.epoch < minEpoch →
      SweepStep shared thread tcb minEpoch index shared
        { thread with pc := .gcSweep minEpoch (index + 1) }

theorem sweep_cases {shared shared' : Shared Node} {thread thread' : Thread Node} {tcb : TcbId}
    {minEpoch : UInt64} {index : Nat}
    (h : sweep shared thread tcb minEpoch index = (shared', thread')) :
    SweepStep shared thread tcb minEpoch index shared' thread' := by
  unfold sweep at h
  dsimp only at h
  split at h
  · next hnone =>
      obtain ⟨rfl, rfl⟩ := Prod.mk.inj h
      exact .finish hnone
  · next batch hbatch =>
      split at h
      · next hold =>
          split at h
          · next node nodes hnodes =>
              obtain ⟨rfl, rfl⟩ := Prod.mk.inj h
              exact .delete hbatch hold hnodes
          · next hnodes =>
              obtain ⟨rfl, rfl⟩ := Prod.mk.inj h
              exact .erase hbatch hold hnodes
      · next hyoung =>
          obtain ⟨rfl, rfl⟩ := Prod.mk.inj h
          exact .skip hbatch hyoung

/-- Everything that the next step of a thread inside a function can do. -/
inductive RunStep (shared : Shared Node) (tid : ThreadId) (thread : Thread Node) :
    Shared Node → Thread Node → Prop where
  | registerLock (tcb : TcbId) (resume : Resume Node) : thread.pc = .registerLock tcb resume →
      shared.listMutex = none →
      RunStep shared tid thread { shared with listMutex := some tid }
        { thread with pc := .registerLink tcb resume }
  | registerLink (tcb : TcbId) (resume : Resume Node) : thread.pc = .registerLink tcb resume →
      RunStep shared tid thread
        (shared.setTcb tcb { shared.tcbs tcb with next := shared.head })
        { thread with pc := .registerPublish tcb resume }
  | registerPublish (tcb : TcbId) (resume : Resume Node) :
      thread.pc = .registerPublish tcb resume →
      RunStep shared tid thread { shared with head := some tcb }
        { thread with pc := .registerBind tcb resume }
  | registerBind (tcb : TcbId) (resume : Resume Node) : thread.pc = .registerBind tcb resume →
      RunStep shared tid thread { shared with listMutex := none }
        (afterRegister { thread with tlsTcb := some tcb } resume)
  | unregisterActive (tcb : TcbId) : thread.pc = .unregisterActive → thread.tlsTcb = some tcb →
      RunStep shared tid thread (shared.setTcb tcb { shared.tcbs tcb with active := false })
        { thread with pc := .unregisterEpoch }
  | unregisterEpoch (tcb : TcbId) : thread.pc = .unregisterEpoch → thread.tlsTcb = some tcb →
      RunStep shared tid thread
        (shared.setTcb tcb { shared.tcbs tcb with localEpoch := kEpochInactive })
        { thread with tlsTcb := none, pc := .idle }
  | enterLoad : thread.pc = .enterLoad →
      RunStep shared tid thread shared { thread with pc := .enterStore shared.globalEpoch }
  | enterStore (epoch : UInt64) (tcb : TcbId) : thread.pc = .enterStore epoch →
      thread.tlsTcb = some tcb →
      RunStep shared tid thread (shared.setTcb tcb { shared.tcbs tcb with localEpoch := epoch })
        { thread with pc := .idle }
  | exitStore (tcb : TcbId) : thread.pc = .exitStore → thread.tlsTcb = some tcb →
      RunStep shared tid thread
        (shared.setTcb tcb { shared.tcbs tcb with localEpoch := kEpochInactive })
        { thread with pc := .idle }
  | retireLoad (node : Node) : thread.pc = .retireLoad node →
      RunStep shared tid thread shared { thread with pc := .retirePush node shared.globalEpoch }
  | retirePush (node : Node) (currentEpoch : UInt64) (tcb : TcbId) :
      thread.pc = .retirePush node currentEpoch → thread.tlsTcb = some tcb →
      RunStep shared tid thread
        (shared.setTcb tcb { shared.tcbs tcb with
          retirementBatches := pushRetired (shared.tcbs tcb).retirementBatches node currentEpoch })
        { thread with
          pc := if lastBatchSize (pushRetired (shared.tcbs tcb).retirementBatches node
              currentEpoch) ≥ kBatchThreshold then .gcLoad else .idle }
  | gcLoad : thread.pc = .gcLoad →
      RunStep shared tid thread shared { thread with pc := .gcHead shared.globalEpoch }
  | gcHead (minEpoch : UInt64) : thread.pc = .gcHead minEpoch →
      RunStep shared tid thread shared (walkTo thread minEpoch shared.head)
  | gcActive (minEpoch : UInt64) (curr : TcbId) : thread.pc = .gcActive minEpoch curr →
      (shared.tcbs curr).active = true →
      RunStep shared tid thread shared { thread with pc := .gcLocal minEpoch curr }
  | gcInactive (minEpoch : UInt64) (curr : TcbId) : thread.pc = .gcActive minEpoch curr →
      ¬ (shared.tcbs curr).active = true →
      RunStep shared tid thread shared { thread with pc := .gcNext minEpoch curr }
  | gcLocal (minEpoch : UInt64) (curr : TcbId) : thread.pc = .gcLocal minEpoch curr →
      RunStep shared tid thread shared { thread with
        pc := .gcNext (if (shared.tcbs curr).localEpoch ≠ kEpochInactive ∧
            (shared.tcbs curr).localEpoch < minEpoch then (shared.tcbs curr).localEpoch
          else minEpoch) curr }
  | gcNext (minEpoch : UInt64) (curr : TcbId) : thread.pc = .gcNext minEpoch curr →
      RunStep shared tid thread shared (walkTo thread minEpoch (shared.tcbs curr).next)
  | gcGlobal (minEpoch : UInt64) : thread.pc = .gcGlobal minEpoch →
      minEpoch = shared.globalEpoch →
      RunStep shared tid thread shared { thread with pc := .gcCas minEpoch shared.globalEpoch }
  | gcBehind (minEpoch : UInt64) : thread.pc = .gcGlobal minEpoch →
      minEpoch ≠ shared.globalEpoch →
      RunStep shared tid thread shared (beginSweep thread minEpoch)
  | gcCas (minEpoch currentGlobal : UInt64) : thread.pc = .gcCas minEpoch currentGlobal →
      RunStep shared tid thread
        { shared with globalEpoch :=
            if shared.globalEpoch = currentGlobal then currentGlobal + 1 else shared.globalEpoch }
        (beginSweep thread minEpoch)
  | gcSweep (minEpoch : UInt64) (index : Nat) (tcb : TcbId) {shared' : Shared Node}
      {thread' : Thread Node} : thread.pc = .gcSweep minEpoch index → thread.tlsTcb = some tcb →
      sweep shared thread tcb minEpoch index = (shared', thread') →
      RunStep shared tid thread shared' thread'

theorem run_cases {shared shared' : Shared Node} {tid : ThreadId} {thread thread' : Thread Node}
    (h : run shared tid thread = some (shared', thread')) :
    RunStep shared tid thread shared' thread' := by
  unfold run at h
  split at h
  · simp at h
  · next tcb resume hpc =>
      split at h
      · next hfree =>
          obtain ⟨rfl, rfl⟩ := Prod.mk.inj (Option.some.inj h)
          exact .registerLock tcb resume hpc hfree
      · simp at h
  · next tcb resume hpc =>
      obtain ⟨rfl, rfl⟩ := Prod.mk.inj (Option.some.inj h)
      exact .registerLink tcb resume hpc
  · next tcb resume hpc =>
      obtain ⟨rfl, rfl⟩ := Prod.mk.inj (Option.some.inj h)
      exact .registerPublish tcb resume hpc
  · next tcb resume hpc =>
      obtain ⟨rfl, rfl⟩ := Prod.mk.inj (Option.some.inj h)
      exact .registerBind tcb resume hpc
  · next tcb hpc htls =>
      obtain ⟨rfl, rfl⟩ := Prod.mk.inj (Option.some.inj h)
      exact .unregisterActive tcb hpc htls
  · next tcb hpc htls =>
      obtain ⟨rfl, rfl⟩ := Prod.mk.inj (Option.some.inj h)
      exact .unregisterEpoch tcb hpc htls
  · next hpc =>
      obtain ⟨rfl, rfl⟩ := Prod.mk.inj (Option.some.inj h)
      exact .enterLoad hpc
  · next epoch tcb hpc htls =>
      obtain ⟨rfl, rfl⟩ := Prod.mk.inj (Option.some.inj h)
      exact .enterStore epoch tcb hpc htls
  · next tcb hpc htls =>
      obtain ⟨rfl, rfl⟩ := Prod.mk.inj (Option.some.inj h)
      exact .exitStore tcb hpc htls
  · next node hpc =>
      obtain ⟨rfl, rfl⟩ := Prod.mk.inj (Option.some.inj h)
      exact .retireLoad node hpc
  · next node currentEpoch tcb hpc htls =>
      obtain ⟨rfl, rfl⟩ := Prod.mk.inj (Option.some.inj h)
      exact .retirePush node currentEpoch tcb hpc htls
  · next hpc =>
      obtain ⟨rfl, rfl⟩ := Prod.mk.inj (Option.some.inj h)
      exact .gcLoad hpc
  · next minEpoch hpc =>
      obtain ⟨rfl, rfl⟩ := Prod.mk.inj (Option.some.inj h)
      exact .gcHead minEpoch hpc
  · next minEpoch curr hpc =>
      obtain ⟨rfl, rfl⟩ := Prod.mk.inj (Option.some.inj h)
      split
      · next hactive => exact .gcActive minEpoch curr hpc hactive
      · next hinactive => exact .gcInactive minEpoch curr hpc hinactive
  · next minEpoch curr hpc =>
      obtain ⟨rfl, rfl⟩ := Prod.mk.inj (Option.some.inj h)
      exact .gcLocal minEpoch curr hpc
  · next minEpoch curr hpc =>
      obtain ⟨rfl, rfl⟩ := Prod.mk.inj (Option.some.inj h)
      exact .gcNext minEpoch curr hpc
  · next minEpoch hpc =>
      split at h
      · next hglobal =>
          obtain ⟨rfl, rfl⟩ := Prod.mk.inj (Option.some.inj h)
          exact .gcGlobal minEpoch hpc hglobal
      · next hbehind =>
          obtain ⟨rfl, rfl⟩ := Prod.mk.inj (Option.some.inj h)
          exact .gcBehind minEpoch hpc hbehind
  · next minEpoch currentGlobal hpc =>
      obtain ⟨rfl, rfl⟩ := Prod.mk.inj (Option.some.inj h)
      exact .gcCas minEpoch currentGlobal hpc
  · next minEpoch index tcb hpc htls =>
      exact .gcSweep minEpoch index tcb hpc htls (Option.some.inj h)
  · simp at h

/-- What a thread does: it takes its next step, or calls a function if it is idle. -/
def act (shared : Shared Node) (tid : ThreadId) (thread : Thread Node) (action : Action Node) :
    Option (Shared Node × Thread Node) :=
  match action, thread.pc with
  | .run, _ => run shared tid thread
  | action, .idle => some (call shared thread action)
  | _, _ => none

/-- A thread runs, or it is idle and calls a function. -/
theorem act_cases {shared : Shared Node} {tid : ThreadId} {thread : Thread Node}
    {action : Action Node} {result : Shared Node × Thread Node}
    (h : act shared tid thread action = some result) :
    (action = .run ∧ run shared tid thread = some result) ∨
      (action ≠ .run ∧ thread.pc = .idle ∧ call shared thread action = result) := by
  unfold act at h
  split at h
  · exact .inl ⟨rfl, h⟩
  · next hne hidle => exact .inr ⟨hne, hidle, Option.some.inj h⟩
  · cases h

/-- Everything that a call of an idle thread can do. -/
inductive CallStep (shared : Shared Node) (thread : Thread Node) :
    Action Node → Shared Node → Thread Node → Prop where
  | register : thread.tlsTcb = none →
      CallStep shared thread .registerThread (beginRegister shared thread .done).1
        (beginRegister shared thread .done).2
  | registered (tcb : TcbId) : thread.tlsTcb = some tcb →
      CallStep shared thread .registerThread shared thread
  | unregister (tcb : TcbId) : thread.tlsTcb = some tcb →
      CallStep shared thread .unregisterThread shared { thread with pc := .unregisterActive }
  | unregistered : thread.tlsTcb = none →
      CallStep shared thread .unregisterThread shared thread
  | enterFirst : thread.tlsTcb = none →
      CallStep shared thread .enterCritical (beginRegister shared thread .enter).1
        (beginRegister shared thread .enter).2
  | enter (tcb : TcbId) : thread.tlsTcb = some tcb →
      CallStep shared thread .enterCritical shared (beginEnter thread)
  | exit (tcb : TcbId) : thread.tlsTcb = some tcb →
      CallStep shared thread .exitCritical shared { thread with
        criticalDepth := thread.criticalDepth - 1
        pc := if thread.criticalDepth - 1 = 0 then .exitStore else .idle }
  | exitUnregistered : thread.tlsTcb = none →
      CallStep shared thread .exitCritical shared thread
  | retireFirst (node : Node) : thread.tlsTcb = none →
      CallStep shared thread (.retire (some node)) (beginRegister shared thread (.retire node)).1
        (beginRegister shared thread (.retire node)).2
  | retire (node : Node) (tcb : TcbId) : thread.tlsTcb = some tcb →
      CallStep shared thread (.retire (some node)) shared { thread with pc := .retireLoad node }
  | retireNull : CallStep shared thread (.retire none) shared thread
  | gc : CallStep shared thread .gc shared { thread with pc := .gcLoad }
  | run : CallStep shared thread .run shared thread

theorem call_cases (shared : Shared Node) (thread : Thread Node) (action : Action Node) :
    CallStep shared thread action (call shared thread action).1
      (call shared thread action).2 := by
  cases htls : thread.tlsTcb with
  | none =>
      cases action with
      | registerThread => simpa [call, htls] using CallStep.register htls
      | unregisterThread => simpa [call, htls] using CallStep.unregistered htls
      | enterCritical => simpa [call, htls] using CallStep.enterFirst htls
      | exitCritical => simpa [call, htls] using CallStep.exitUnregistered htls
      | retire node =>
          cases node with
          | none => exact .retireNull
          | some node => simpa [call, htls] using CallStep.retireFirst node htls
      | gc => exact .gc
      | run => exact .run
  | some tcb =>
      cases action with
      | registerThread => simpa [call, htls] using CallStep.registered tcb htls
      | unregisterThread => simpa [call, htls] using CallStep.unregister tcb htls
      | enterCritical => simpa [call, htls] using CallStep.enter tcb htls
      | exitCritical => simpa [call, htls] using CallStep.exit tcb htls
      | retire node =>
          cases node with
          | none => exact .retireNull
          | some node => simpa [call, htls] using CallStep.retire node tcb htls
      | gc => exact .gc
      | run => exact .run

/-- A thread takes a step inside a function, or it is idle and calls one. -/
theorem act_steps {shared shared' : Shared Node} {tid : ThreadId} {thread thread' : Thread Node}
    {action : Action Node} (h : act shared tid thread action = some (shared', thread')) :
    (action = .run ∧ RunStep shared tid thread shared' thread') ∨
      (action ≠ .run ∧ thread.pc = .idle ∧ CallStep shared thread action shared' thread') := by
  rcases act_cases h with ⟨hrun, hstep⟩ | ⟨hne, hidle, hcall⟩
  · exact .inl ⟨hrun, run_cases hstep⟩
  · have hstep := call_cases shared thread action
    rw [hcall] at hstep
    exact .inr ⟨hne, hidle, hstep⟩

/-- One step of the engine. Unlinking a node is a matter of the data structure and changes
nothing here. -/
def step (state : State Node) : Event Node → Option (State Node)
  | .thread tid action =>
      (act state.shared tid (state.threads tid) action).map fun result =>
        { shared := result.1, threads := Function.update state.threads tid result.2 }
  | .unlink _ => some state

/-- The engine as a transition system. It starts without threads. -/
def ebr (Node : Type) : System (State Node) (Event Node) where
  init state := state = {}
  step := step

end HotPath.Concurrency
