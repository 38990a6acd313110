import HotPath.Concurrency.SequentialMap
import HotPath.Foundation.Chain

/-!
# How `Retire` advances the epoch

A thread replaces the value of a key over and over again. Every 64th replacement fills a batch, and
`Retire` calls `Gc`. If no block shows an epoch, that call advances the global epoch and deletes
what the thread has retired before (`Quiet.advance`).
-/

namespace HotPath.Concurrency.MapSteps

open HotPath.Foundation

variable {K V : Type}

/-- A caller asks for `Gc`, which otherwise only runs inside `Retire`. -/
def callsGc : Event K V → Bool
  | .call _ .gc => true
  | _ => false

/-- A state of a sequentially consistent run in which `Gc` only runs inside `Retire`. -/
def Reached [DecidableEq K] (cfg : MapConfig K) (state : State K V) : Prop :=
  (sequential cfg).Reachable (fun _ event => callsGc event = false) state

section Steps

variable [DecidableEq K] {cfg : MapConfig K} {memory memory' : Memory K V}
  {workers : ThreadId → Worker K V} {tid : ThreadId} {worker worker' : Worker K V}

/-- A step that stores nothing. -/
theorem Reached.run (h : Reached cfg ⟨memory, Function.update workers tid worker⟩)
    (hrun : MapSteps.run cfg memory tid worker = some (memory', worker'))
    (hbuffer : worker'.buffer = []) :
    Reached cfg ⟨memory', Function.update workers tid worker'⟩ := by
  have hsame : { worker' with buffer := [] } = worker' := by rw [← hbuffer]
  have hstep : (sequential cfg).step ⟨memory, Function.update workers tid worker⟩ (.run tid) =
      some ⟨memory', Function.update workers tid worker'⟩ := by
    simp [sequential, step, act, Event.thread, hrun, settle, hbuffer, hsame]
  exact .step h rfl hstep

/-- A step with a store, which drains at once. -/
theorem Reached.store {store : Store}
    (h : Reached cfg ⟨memory, Function.update workers tid worker⟩)
    (hrun : MapSteps.run cfg memory tid worker = some (memory', worker'))
    (hbuffer : worker'.buffer = [store]) :
    Reached cfg ⟨memory'.apply store,
      Function.update workers tid { worker' with buffer := [] }⟩ := by
  have hstep : (sequential cfg).step ⟨memory, Function.update workers tid worker⟩ (.run tid) =
      some ⟨memory'.apply store, Function.update workers tid { worker' with buffer := [] }⟩ := by
    simp [sequential, step, act, Event.thread, hrun, settle, hbuffer]
  exact .step h rfl hstep

/-- A call. -/
theorem Reached.call (h : Reached cfg ⟨memory, Function.update workers tid worker⟩)
    (op : Op K V) (hop : callsGc (.call tid op) = false)
    (hready : worker.ready = true) (hcall : MapSteps.call memory worker op = (memory', worker'))
    (hbuffer : worker'.buffer = []) :
    Reached cfg ⟨memory', Function.update workers tid worker'⟩ := by
  have hsame : { worker' with buffer := [] } = worker' := by rw [← hbuffer]
  have hstep : (sequential cfg).step ⟨memory, Function.update workers tid worker⟩ (.call tid op) =
      some ⟨memory', Function.update workers tid worker'⟩ := by
    simp [sequential, step, act, Event.thread, hready, hcall, settle, hbuffer, hsame]
  exact .step h hop hstep

end Steps

/-! ## `Gc` -/

/-- An engine step that deletes nothing. -/
theorem Memory.withEbr_keep (memory : Memory K V) (ebr : Shared Object)
    (hdeleted : ebr.deleted = memory.ebr.deleted) :
    memory.withEbr ebr = { memory with ebr := ebr } := by
  simp [Memory.withEbr, hdeleted]

/-- No block on the list shows an epoch. -/
def Unread (ebr : Shared Object) : Prop :=
  ∃ blocks, IsChain (fun tcb => (ebr.tcbs tcb).next) ebr.head blocks ∧
    ∀ tcb ∈ blocks, (ebr.tcbs tcb).localEpoch = kEpochInactive

/-- What the sweep of a thread changes at most: its own batches, and what has been deleted. -/
structure Swept (own : TcbId) (memory memory' : Memory K V) : Prop where
  map : memory'.map = memory.map
  writeMutex : memory'.writeMutex = memory.writeMutex
  globalEpoch : memory'.ebr.globalEpoch = memory.ebr.globalEpoch
  unread : Unread memory.ebr → Unread memory'.ebr
  freed : memory.freed ⊆ memory'.freed

theorem Swept.refl (own : TcbId) (memory : Memory K V) : Swept own memory memory :=
  ⟨rfl, rfl, rfl, id, List.Subset.refl _⟩

theorem Swept.trans {own : TcbId} {first second third : Memory K V} (h : Swept own first second)
    (h' : Swept own second third) : Swept own first third :=
  ⟨h'.map.trans h.map, h'.writeMutex.trans h.writeMutex, h'.globalEpoch.trans h.globalEpoch,
    fun hunread => h'.unread (h.unread hunread), List.Subset.trans h.freed h'.freed⟩

/-- A block may change, but must not show an epoch. -/
theorem Unread.setTcb {ebr : Shared Object} (h : Unread ebr) (own : TcbId)
    (block : ThreadControlBlock Object) (hnext : block.next = (ebr.tcbs own).next)
    (hepoch : block.localEpoch = (ebr.tcbs own).localEpoch ∨ block.localEpoch = kEpochInactive)
    (deleted : List Object) : Unread { ebr.setTcb own block with deleted := deleted } := by
  obtain ⟨blocks, hchain, hquiet⟩ := h
  have hsame : ∀ tcb, (Function.update ebr.tcbs own block tcb).next = (ebr.tcbs tcb).next := by
    intro tcb
    by_cases heq : tcb = own
    · subst heq
      rw [Function.update_self, hnext]
    · rw [Function.update_of_ne heq]
  refine ⟨blocks, ?_, fun tcb hmem => ?_⟩
  · simpa only [Shared.setTcb, hsame] using hchain
  · by_cases heq : tcb = own
    · subst heq
      simp only [Shared.setTcb, Function.update_self]
      rcases hepoch with hepoch | hepoch
      · rw [hepoch, hquiet tcb hmem]
      · exact hepoch
    · simpa only [Shared.setTcb, Function.update_of_ne heq] using hquiet tcb hmem

/-- The batches of a block say nothing about its epoch. -/
theorem Unread.setBatches {ebr : Shared Object} (h : Unread ebr) (own : TcbId)
    (batches : List (Batch Object)) (deleted : List Object) :
    Unread { ebr.setTcb own { ebr.tcbs own with retirementBatches := batches } with
      deleted := deleted } :=
  h.setTcb own { ebr.tcbs own with retirementBatches := batches } rfl (.inl rfl) deleted

section Gc

variable [DecidableEq K] {cfg : MapConfig K} {memory : Memory K V}
  {workers : ThreadId → Worker K V} {tid : ThreadId} {thread : Thread Object} {pc : Pc K V}

/-- The scan of `Gc` finds no epoch. -/
theorem Reached.scan {minEpoch : UInt64} {blocks : List TcbId} {start : Option TcbId}
    (hchain : IsChain (fun tcb => (memory.ebr.tcbs tcb).next) start blocks)
    (hquiet : ∀ tcb ∈ blocks, (memory.ebr.tcbs tcb).localEpoch = kEpochInactive)
    (h : Reached cfg ⟨memory, Function.update workers tid
      { thread := walkTo thread minEpoch start, pc := pc }⟩) :
    Reached cfg ⟨memory, Function.update workers tid
      { thread := { thread with pc := .gcGlobal minEpoch }, pc := pc }⟩ := by
  induction blocks generalizing start with
  | nil =>
      obtain rfl : start = none := hchain
      exact h
  | cons curr rest ih =>
      obtain ⟨rfl, hrest⟩ := hchain
      have hkeep : memory.withEbr memory.ebr = memory := memory.withEbr_keep memory.ebr rfl
      have hnext : Reached cfg ⟨memory, Function.update workers tid
          { thread := { thread with pc := .gcNext minEpoch curr }, pc := pc }⟩ := by
        cases hactive : (memory.ebr.tcbs curr).active with
        | true =>
            have hzero := hquiet curr List.mem_cons_self
            have hlocal : Reached cfg ⟨memory, Function.update workers tid
                { thread := { thread with pc := .gcLocal minEpoch curr }, pc := pc }⟩ := by
              refine h.run ?_ rfl
              simp [MapSteps.run, runEbr, walkTo, waitsForBuffer, Concurrency.run, hactive, hkeep]
            refine hlocal.run ?_ rfl
            simp [MapSteps.run, runEbr, lowered, viewEpoch, hzero]
        | false =>
            refine h.run ?_ rfl
            simp [MapSteps.run, runEbr, walkTo, waitsForBuffer, Concurrency.run, hactive, hkeep]
      refine ih hrest (fun tcb hmem => hquiet tcb (List.mem_cons_of_mem _ hmem)) (hnext.run ?_ ?_)
      · simp [MapSteps.run, runEbr, waitsForBuffer, Concurrency.run, hkeep, walkTo]
      · rfl

/-- What the sweep leaves of the batches. -/
def remaining (minEpoch : UInt64) (batches : List (Batch Object)) : List (Batch Object) :=
  batches.filter fun batch => ¬ batch.epoch < minEpoch

/-- The sweep deletes the nodes of an old batch, and erases it. -/
theorem Reached.sweepBatch {own : TcbId} {minEpoch epoch : UInt64} {nodes : List Object}
    {kept rest : List (Batch Object)} (htls : thread.tlsTcb = some own) (hold : epoch < minEpoch)
    (hbatches : (memory.ebr.tcbs own).retirementBatches = kept ++ ⟨epoch, nodes⟩ :: rest)
    (h : Reached cfg ⟨memory, Function.update workers tid
      { thread := { thread with pc := .gcSweep minEpoch kept.length }, pc := pc }⟩) :
    ∃ memory', Reached cfg ⟨memory', Function.update workers tid
        { thread := { thread with pc := .gcSweep minEpoch kept.length }, pc := pc }⟩ ∧
      Swept own memory memory' ∧ (memory'.ebr.tcbs own).retirementBatches = kept ++ rest ∧
      ∀ object ∈ nodes, object ∈ memory'.freed := by
  induction nodes generalizing memory with
  | nil =>
      have hrun : MapSteps.run cfg memory tid
          { thread := { thread with pc := .gcSweep minEpoch kept.length }, pc := pc } =
          some ({ memory with ebr := memory.ebr.setTcb own { memory.ebr.tcbs own with
              retirementBatches := kept ++ rest } },
            { thread := { thread with pc := .gcSweep minEpoch kept.length }, pc := pc }) := by
        have hkeep := memory.withEbr_keep (memory.ebr.setTcb own { memory.ebr.tcbs own with
          retirementBatches := kept ++ rest }) rfl
        simp [MapSteps.run, runEbr, waitsForBuffer, Concurrency.run, htls, sweep, hbatches, hold,
          hkeep, List.eraseIdx_append_of_length_le]
      refine ⟨_, h.run hrun rfl, ⟨rfl, rfl, rfl, fun hunread => ?_, List.Subset.refl _⟩, ?_, ?_⟩
      · exact hunread.setBatches own (kept ++ rest) memory.ebr.deleted
      · simp [Shared.setTcb]
      · simp
  | cons node nodes ih =>
      let swept : Memory K V := { memory with
        ebr := { memory.ebr.setTcb own { memory.ebr.tcbs own with
            retirementBatches := kept ++ ⟨epoch, nodes⟩ :: rest } with
          deleted := memory.ebr.deleted ++ [node] }
        freed := memory.freed ++ destroyed memory.map node }
      have hrun : MapSteps.run cfg memory tid
          { thread := { thread with pc := .gcSweep minEpoch kept.length }, pc := pc } =
          some (swept,
            { thread := { thread with pc := .gcSweep minEpoch kept.length }, pc := pc }) := by
        simp [MapSteps.run, runEbr, waitsForBuffer, Concurrency.run, htls, sweep, hbatches, hold,
          Memory.withEbr, Shared.setTcb, swept]
      have hswept : Swept own memory swept :=
        ⟨rfl, rfl, rfl, fun hunread => hunread.setBatches own _ _, List.subset_append_left _ _⟩
      have hdestroyed : node ∈ destroyed memory.map node := by
        cases node <;> exact List.mem_cons_self
      obtain ⟨final, hreached, hfinal, hleft, hnodes⟩ :=
        @ih swept (by simp [swept, Shared.setTcb]) (h.run hrun rfl)
      refine ⟨final, hreached, hswept.trans hfinal, hleft, fun object hobject => ?_⟩
      rcases List.mem_cons.mp hobject with rfl | hobject
      · exact hfinal.freed (List.mem_append_right _ hdestroyed)
      · exact hnodes object hobject

/-- The sweep deletes what the old batches hold, and leaves the others. -/
theorem Reached.sweepAll {own : TcbId} {minEpoch : UInt64} {kept rest : List (Batch Object)}
    (htls : thread.tlsTcb = some own)
    (hbatches : (memory.ebr.tcbs own).retirementBatches = kept ++ rest)
    (h : Reached cfg ⟨memory, Function.update workers tid
      { thread := { thread with pc := .gcSweep minEpoch kept.length }, pc := pc }⟩) :
    ∃ memory', Reached cfg ⟨memory', Function.update workers tid
        { thread := { thread with pc := .idle }, pc := pc }⟩ ∧
      Swept own memory memory' ∧
      (memory'.ebr.tcbs own).retirementBatches = kept ++ remaining minEpoch rest ∧
      ∀ batch ∈ rest, batch.epoch < minEpoch → ∀ object ∈ batch.nodes, object ∈ memory'.freed := by
  induction rest generalizing memory kept with
  | nil =>
      refine ⟨memory, h.run ?_ rfl, .refl own memory, by simpa [remaining] using hbatches, by simp⟩
      have hkeep : memory.withEbr memory.ebr = memory := memory.withEbr_keep memory.ebr rfl
      simp [MapSteps.run, runEbr, waitsForBuffer, Concurrency.run, htls, sweep, hbatches, hkeep]
  | cons batch rest ih =>
      by_cases hold : batch.epoch < minEpoch
      · obtain ⟨middle, hreached, hmiddle, hleft, hnodes⟩ := h.sweepBatch htls hold hbatches
        obtain ⟨final, hreached, hfinal, hleft, hrest⟩ := ih hleft hreached
        refine ⟨final, hreached, hmiddle.trans hfinal, ?_,
          fun other hother hlt object hobject => ?_⟩
        · simpa [remaining, hold] using hleft
        · rcases List.mem_cons.mp hother with rfl | hother
          · exact hfinal.freed (hnodes object hobject)
          · exact hrest other hother hlt object hobject
      · have hskip : Reached cfg ⟨memory, Function.update workers tid
            { thread := { thread with pc := .gcSweep minEpoch (kept ++ [batch]).length },
              pc := pc }⟩ := by
          refine h.run ?_ rfl
          have hkeep : memory.withEbr memory.ebr = memory := memory.withEbr_keep memory.ebr rfl
          simp [MapSteps.run, runEbr, waitsForBuffer, Concurrency.run, htls, sweep, hbatches, hold,
            hkeep]
        obtain ⟨final, hreached, hfinal, hleft, hrest⟩ :=
          ih (by rw [hbatches, List.append_assoc]; rfl) hskip
        refine ⟨final, hreached, hfinal, ?_, fun other hother hlt => ?_⟩
        · simpa [remaining, UInt64.not_lt.mp hold] using hleft
        · rcases List.mem_cons.mp hother with rfl | hother
          · exact absurd hlt hold
          · exact hrest other hother hlt

/-- A call of `Gc` that finds no epoch advances the global epoch, deletes what the old batches
hold, and leaves the others. -/
theorem Reached.gc {own : TcbId} (htls : thread.tlsTcb = some own) (hunread : Unread memory.ebr)
    (h : Reached cfg ⟨memory, Function.update workers tid
      { thread := { thread with pc := .gcLoad }, pc := pc }⟩) :
    ∃ memory', Reached cfg ⟨memory', Function.update workers tid
        { thread := { thread with pc := .idle }, pc := pc }⟩ ∧
      memory'.map = memory.map ∧ memory'.writeMutex = memory.writeMutex ∧
      memory'.ebr.globalEpoch = memory.ebr.globalEpoch + 1 ∧ Unread memory'.ebr ∧
      memory.freed ⊆ memory'.freed ∧
      (memory'.ebr.tcbs own).retirementBatches =
        remaining memory.ebr.globalEpoch (memory.ebr.tcbs own).retirementBatches ∧
      ∀ batch ∈ (memory.ebr.tcbs own).retirementBatches, batch.epoch < memory.ebr.globalEpoch →
        ∀ object ∈ batch.nodes, object ∈ memory'.freed := by
  have hkeep : memory.withEbr memory.ebr = memory := memory.withEbr_keep memory.ebr rfl
  obtain ⟨blocks, hchain, hquiet⟩ := hunread
  have hhead : Reached cfg ⟨memory, Function.update workers tid
      { thread := { thread with pc := .gcHead memory.ebr.globalEpoch }, pc := pc }⟩ := by
    refine h.run ?_ rfl
    simp [MapSteps.run, runEbr, waitsForBuffer, Concurrency.run, hkeep]
  have hstart : Reached cfg ⟨memory, Function.update workers tid
      { thread := walkTo thread memory.ebr.globalEpoch memory.ebr.head, pc := pc }⟩ := by
    refine hhead.run ?_ rfl
    have hwalk : walkTo { thread with pc := .gcHead memory.ebr.globalEpoch }
        memory.ebr.globalEpoch memory.ebr.head =
          walkTo thread memory.ebr.globalEpoch memory.ebr.head := by
      cases memory.ebr.head <;> rfl
    simp [MapSteps.run, runEbr, waitsForBuffer, Concurrency.run, hkeep, hwalk]
  have hcas : Reached cfg ⟨memory, Function.update workers tid
      { thread := { thread with pc := .gcCas memory.ebr.globalEpoch memory.ebr.globalEpoch },
        pc := pc }⟩ := by
    refine (hstart.scan hchain hquiet).run ?_ rfl
    simp [MapSteps.run, runEbr, waitsForBuffer, Concurrency.run, hkeep]
  let advanced : Memory K V :=
    { memory with ebr := { memory.ebr with globalEpoch := memory.ebr.globalEpoch + 1 } }
  have hsweep : Reached cfg ⟨advanced, Function.update workers tid
      { thread := { thread with pc := .gcSweep memory.ebr.globalEpoch 0 }, pc := pc }⟩ := by
    refine hcas.run ?_ rfl
    have hadvanced := memory.withEbr_keep advanced.ebr rfl
    simp only [advanced] at hadvanced
    simp [MapSteps.run, runEbr, waitsForBuffer, Concurrency.run, beginSweep, htls, hadvanced,
      advanced]
  obtain ⟨final, hreached, hfinal, hleft, hfreed⟩ :=
    Reached.sweepAll htls (List.nil_append _).symm hsweep
  exact ⟨final, hreached, hfinal.map, hfinal.writeMutex, hfinal.globalEpoch,
    hfinal.unread ⟨blocks, hchain, hquiet⟩, hfinal.freed, hleft, hfreed⟩

end Gc

/-! ## Replacing a value -/

/-- The first node of its bucket has the key, and the next `Put` does not resize. -/
structure Replaceable [DecidableEq K] (cfg : MapConfig K) (key : K) (node : NodeId)
    (map : RcuHashMap K V) : Prop where
  bucket : (map.tables map.table).buckets (map.bucketIndex cfg map.table key) = some node
  present : (map.nodes node).key = key
  room : map.isFull = false

/-- A thread between two calls. -/
def resting (own : TcbId) : Worker K V := { thread := { tlsTcb := some own } }

section Put

variable [DecidableEq K] {cfg : MapConfig K} {memory : Memory K V}
  {workers : ThreadId → Worker K V} {tid : ThreadId} {own : TcbId} {key : K} {node : NodeId}

/-- `Put` of a key in the first node of its bucket prepares a store to the bucket. -/
theorem Replaceable.preparePut {map : RcuHashMap K V} (h : Replaceable cfg key node map)
    (value : V) : MapSteps.preparePut cfg map key value =
      some ({ key, value, next := (map.nodes node).next },
        .bucket map.table (map.bucketIndex cfg map.table key) (some map.nodeCount), some node) := by
  simp [MapSteps.preparePut, RcuHashMap.search, RcuHashMap.find, h.bucket, h.present, linkStore]

/-- The map after the value of the first node of a bucket has been replaced. -/
def replaceFirst (cfg : MapConfig K) (map : RcuHashMap K V) (key : K) (value : V) (node : NodeId) :
    RcuHashMap K V :=
  ((map.newNode { key, value, next := (map.nodes node).next }).storeBucket map.table
    (map.bucketIndex cfg map.table key) (some map.nodeCount)).nextGeneration

/-- The key is in the first node of its bucket again. -/
theorem Replaceable.again {map : RcuHashMap K V} (h : Replaceable cfg key node map)
    (value : V) : Replaceable cfg key map.nodeCount (replaceFirst cfg map key value node) := by
  have hindex : (replaceFirst cfg map key value node).bucketIndex cfg map.table key =
      map.bucketIndex cfg map.table key := by
    simp [replaceFirst, RcuHashMap.bucketIndex, RcuHashMap.nextGeneration]
  refine ⟨?_, ?_, ?_⟩
  · change ((replaceFirst cfg map key value node).tables map.table).buckets
      ((replaceFirst cfg map key value node).bucketIndex cfg map.table key) = _
    rw [hindex]
    simp [replaceFirst, RcuHashMap.nextGeneration]
  · simp [replaceFirst, RcuHashMap.nextGeneration]
  · have hroom := h.room
    simpa [replaceFirst, RcuHashMap.nextGeneration, RcuHashMap.isFull,
      RcuHashMap.tableSize] using hroom

/-- `Put` replaces the node and retires it, up to the decision whether the batch is full. -/
theorem Replaceable.retire (hmap : Replaceable cfg key node memory.map)
    (hmutex : memory.writeMutex = none) (value : V) {batches : List (Batch Object)}
    (hpush : pushRetired (memory.ebr.tcbs own).retirementBatches (.node node)
      memory.ebr.globalEpoch = batches)
    (h : Reached cfg ⟨memory, Function.update workers tid (resting own)⟩) :
    Reached cfg ⟨{ memory with
        map := replaceFirst cfg memory.map key value node
        ebr := memory.ebr.setTcb own { memory.ebr.tcbs own with retirementBatches := batches }
        writeMutex := some tid },
      Function.update workers tid
        { thread :=
            { tlsTcb := some own
              pc := if lastBatchSize batches ≥ kBatchThreshold then .gcLoad else .idle }
          pc := .unlock }⟩ := by
  have hcall : Reached cfg ⟨memory, Function.update workers tid
      { thread := { tlsTcb := some own }, pc := .putLock key value }⟩ :=
    h.call (.put key value) rfl rfl rfl rfl
  have hlock : Reached cfg ⟨{ memory with writeMutex := some tid }, Function.update workers tid
      { thread := { tlsTcb := some own }, pc := .putGrow key value }⟩ := by
    refine hcall.run ?_ rfl
    simp [run, runMap, hmutex, Worker.goto]
  have hgrow : Reached cfg ⟨{ memory with writeMutex := some tid }, Function.update workers tid
      { thread := { tlsTcb := some own }, pc := .putLink key value }⟩ := by
    refine hlock.run ?_ rfl
    simp [run, runMap, hmap.room, Worker.goto]
  let linked : RcuHashMap K V :=
    (memory.map.newNode { key, value, next := (memory.map.nodes node).next }).storeBucket
      memory.map.table (memory.map.bucketIndex cfg memory.map.table key)
      (some memory.map.nodeCount)
  have hlink : Reached cfg ⟨{ memory with map := linked, writeMutex := some tid },
      Function.update workers tid
        { thread := { tlsTcb := some own }, pc := .generation (some node) }⟩ := by
    have hrun : run cfg { memory with writeMutex := some tid } tid
        { thread := { tlsTcb := some own }, pc := .putLink key value } =
        some ({ memory with
            map := memory.map.newNode { key, value, next := (memory.map.nodes node).next }
            writeMutex := some tid },
          { thread := { tlsTcb := some own }
            pc := .generation (some node)
            buffer := [.bucket memory.map.table
              (memory.map.bucketIndex cfg memory.map.table key)
                (some memory.map.nodeCount)] }) := by
      simp [run, runMap, view, hmap.preparePut value, Worker.goto, Worker.issue]
    exact hgrow.store hrun rfl
  have hgeneration : Reached cfg ⟨{ memory with
        map := replaceFirst cfg memory.map key value node, writeMutex := some tid },
      Function.update workers tid
        { thread := { tlsTcb := some own, pc := .retireLoad (.node node) }, pc := .unlock }⟩ := by
    refine hlink.run ?_ rfl
    simp [run, runMap, Worker.goto, beginRetire, Concurrency.call, replaceFirst, linked]
  have hload : Reached cfg ⟨{ memory with
        map := replaceFirst cfg memory.map key value node, writeMutex := some tid },
      Function.update workers tid
        { thread := { tlsTcb := some own
                      pc := .retirePush (.node node) memory.ebr.globalEpoch },
          pc := .unlock }⟩ := by
    refine hgeneration.run ?_ rfl
    simp [run, runEbr, waitsForBuffer, Concurrency.run, Memory.withEbr]
  refine hload.run ?_ rfl
  simp [run, runEbr, waitsForBuffer, Concurrency.run, Memory.withEbr, hpush, Shared.setTcb]

/-- A thread that has the write mutex and nothing else to do releases it. -/
theorem Reached.unlock (h : Reached cfg ⟨memory, Function.update workers tid
      { thread := { tlsTcb := some own }, pc := .unlock }⟩) :
    Reached cfg ⟨{ memory with writeMutex := none },
      Function.update workers tid (resting own)⟩ := by
  refine h.run ?_ rfl
  simp [MapSteps.run, runMap, Worker.goto, resting]

/-! ## A full batch -/

/-- Between two calls of a thread: nobody has the write mutex, the next `Put` of the key replaces
the node, and no block shows an epoch. -/
structure Quiet [DecidableEq K] (cfg : MapConfig K) (key : K) (node : NodeId)
    (memory : Memory K V) : Prop where
  unlocked : memory.writeMutex = none
  map : Replaceable cfg key node memory.map
  unread : Unread memory.ebr

/-- As long as the batch is not full, `Put` only adds the replaced node to it. -/
theorem Quiet.fill (hquiet : Quiet cfg key node memory) (value : V)
    {batches : List (Batch Object)} {nodes : List Object} (hnodes : nodes.length < kBatchThreshold)
    (hpush : pushRetired (memory.ebr.tcbs own).retirementBatches (.node node)
      memory.ebr.globalEpoch = batches ++ [⟨memory.ebr.globalEpoch, nodes⟩])
    (h : Reached cfg ⟨memory, Function.update workers tid (resting own)⟩) :
    ∃ memory' node', Reached cfg ⟨memory', Function.update workers tid (resting own)⟩ ∧
      Quiet cfg key node' memory' ∧ memory'.ebr.globalEpoch = memory.ebr.globalEpoch ∧
      memory'.freed = memory.freed ∧
      (memory'.ebr.tcbs own).retirementBatches =
        batches ++ [⟨memory.ebr.globalEpoch, nodes⟩] := by
  have hretire := hquiet.map.retire hquiet.unlocked value hpush h
  simp only [lastBatchSize_last, ge_iff_le, if_neg (Nat.not_le.mpr hnodes)] at hretire
  refine ⟨_, _, hretire.unlock, ⟨rfl, hquiet.map.again value, ?_⟩, rfl, rfl, ?_⟩
  · exact hquiet.unread.setBatches own _ memory.ebr.deleted
  · simp [Shared.setTcb]

/-- After some calls of `Put` there is a batch with as many nodes. -/
theorem Quiet.collect (hquiet : Quiet cfg key node memory) (value : V) (count : Nat)
    (hcount : count + 1 < kBatchThreshold)
    (hlast : ∀ last ∈ (memory.ebr.tcbs own).retirementBatches.getLast?,
      last.epoch ≠ memory.ebr.globalEpoch)
    (h : Reached cfg ⟨memory, Function.update workers tid (resting own)⟩) :
    ∃ memory' node' nodes, Reached cfg ⟨memory', Function.update workers tid (resting own)⟩ ∧
      Quiet cfg key node' memory' ∧ memory'.ebr.globalEpoch = memory.ebr.globalEpoch ∧
      memory'.freed = memory.freed ∧
      (memory'.ebr.tcbs own).retirementBatches =
        (memory.ebr.tcbs own).retirementBatches ++ [⟨memory.ebr.globalEpoch, nodes⟩] ∧
      nodes.length = count + 1 ∧ Object.node node ∈ nodes := by
  induction count with
  | zero =>
      have hsize : [Object.node node].length < kBatchThreshold := hcount
      obtain ⟨memory', node', hreached, hquiet', hepoch, hfreed, hbatches⟩ :=
        hquiet.fill value hsize (pushRetired_new _ hlast) h
      exact ⟨memory', node', _, hreached, hquiet', hepoch, hfreed, hbatches, rfl,
        List.mem_singleton_self _⟩
  | succ count ih =>
      obtain ⟨middle, last, nodes, hreached, hmiddle, hepoch, hfreed, hbatches, hlength, hmem⟩ :=
        ih (Nat.lt_of_succ_lt hcount)
      have hpush : pushRetired (middle.ebr.tcbs own).retirementBatches (.node last)
          middle.ebr.globalEpoch = (memory.ebr.tcbs own).retirementBatches ++
            [⟨middle.ebr.globalEpoch, nodes ++ [.node last]⟩] := by
        rw [hbatches, hepoch, pushRetired_last]
      obtain ⟨memory', node', hreached', hquiet', hepoch', hfreed', hbatches'⟩ :=
        hmiddle.fill value (by simpa [hlength] using hcount) hpush hreached
      refine ⟨memory', node', _, hreached', hquiet', hepoch'.trans hepoch, hfreed'.trans hfreed,
        hepoch ▸ hbatches', by simp [hlength], List.mem_append_left _ hmem⟩

/-- A full batch of calls of `Put` advances the epoch, and deletes what the old batches hold. The
node that the first call replaces is in the new batch. -/
theorem Quiet.advance (hquiet : Quiet cfg key node memory) (value : V)
    (hlast : ∀ last ∈ (memory.ebr.tcbs own).retirementBatches.getLast?,
      last.epoch ≠ memory.ebr.globalEpoch)
    (h : Reached cfg ⟨memory, Function.update workers tid (resting own)⟩) :
    ∃ memory' node' nodes, Reached cfg ⟨memory', Function.update workers tid (resting own)⟩ ∧
      Quiet cfg key node' memory' ∧
      memory'.ebr.globalEpoch = memory.ebr.globalEpoch + 1 ∧
      (memory'.ebr.tcbs own).retirementBatches =
        remaining memory.ebr.globalEpoch (memory.ebr.tcbs own).retirementBatches ++
          [⟨memory.ebr.globalEpoch, nodes⟩] ∧
      Object.node node ∈ nodes ∧
      ∀ batch ∈ (memory.ebr.tcbs own).retirementBatches,
        batch.epoch < memory.ebr.globalEpoch → ∀ object ∈ batch.nodes, object ∈ memory'.freed := by
  obtain ⟨middle, last, nodes, hreached, hmiddle, hepoch, hfreed, hbatches, hlength, hmem⟩ :=
    hquiet.collect value 62 (by decide) hlast h
  have hpush : pushRetired (middle.ebr.tcbs own).retirementBatches (.node last)
      middle.ebr.globalEpoch = (memory.ebr.tcbs own).retirementBatches ++
        [⟨memory.ebr.globalEpoch, nodes ++ [.node last]⟩] := by
    rw [hbatches, hepoch, pushRetired_last]
  let full : List (Batch Object) := (memory.ebr.tcbs own).retirementBatches ++
    [⟨memory.ebr.globalEpoch, nodes ++ [.node last]⟩]
  let retired : Memory K V := { middle with
    map := replaceFirst cfg middle.map key value last
    ebr := middle.ebr.setTcb own { middle.ebr.tcbs own with retirementBatches := full }
    writeMutex := some tid }
  have hretire : Reached cfg ⟨retired, Function.update workers tid
      { thread := { tlsTcb := some own, pc := .gcLoad }, pc := .unlock }⟩ := by
    have hretire := hmiddle.map.retire hmiddle.unlocked value hpush hreached
    have hsize : lastBatchSize full ≥ kBatchThreshold := by
      simp [full, lastBatchSize_last, hlength, kBatchThreshold]
    rwa [if_pos hsize] at hretire
  have hunread : Unread retired.ebr := hmiddle.unread.setBatches own full middle.ebr.deleted
  have hthread : ({ tlsTcb := some own } : Thread Object).tlsTcb = some own := rfl
  obtain ⟨final, hfinal, hmap, hmutex, hadvanced, hquiet', hkept, hleft, hdeleted⟩ :=
    Reached.gc hthread hunread hretire
  have hbatch : (retired.ebr.tcbs own).retirementBatches = full := by
    simp [retired, Shared.setTcb]
  have hglobal : retired.ebr.globalEpoch = memory.ebr.globalEpoch := hepoch
  rw [hbatch, hglobal] at hleft hdeleted
  refine ⟨_, middle.map.nodeCount, nodes ++ [.node last], hfinal.unlock, ⟨rfl, ?_, hquiet'⟩,
    hadvanced.trans (by rw [hglobal]), ?_, List.mem_append_left _ hmem, fun batch hbatch hold => ?_⟩
  · simp only [hmap, retired]
    exact hmiddle.map.again value
  · simpa [full, remaining] using hleft
  · exact hdeleted batch (List.mem_append_left _ hbatch) hold

/-- The epoch advances any number of times. -/
theorem Quiet.rounds (hquiet : Quiet cfg key node memory) (value : V) (count : Nat)
    (hlast : ∀ last ∈ (memory.ebr.tcbs own).retirementBatches.getLast?,
      last.epoch ≠ memory.ebr.globalEpoch)
    (h : Reached cfg ⟨memory, Function.update workers tid (resting own)⟩) :
    ∃ memory' node', Reached cfg ⟨memory', Function.update workers tid (resting own)⟩ ∧
      Quiet cfg key node' memory' ∧
      memory'.ebr.globalEpoch = memory.ebr.globalEpoch + UInt64.ofNat count ∧
      ∀ last ∈ (memory'.ebr.tcbs own).retirementBatches.getLast?,
        last.epoch ≠ memory'.ebr.globalEpoch := by
  induction count with
  | zero => exact ⟨memory, node, h, hquiet, by simp, hlast⟩
  | succ count ih =>
      obtain ⟨middle, last, hreached, hmiddle, hepoch, hmost⟩ := ih
      obtain ⟨memory', node', nodes, hreached', hquiet', hadvanced, hbatches, -, -⟩ :=
        hmiddle.advance value hmost hreached
      refine ⟨memory', node', hreached', hquiet', ?_, fun batch hbatch => ?_⟩
      · rw [hadvanced, hepoch, UInt64.ofNat_add, UInt64.add_assoc]
        rfl
      · rw [hbatches, List.getLast?_append] at hbatch
        obtain rfl : ⟨middle.ebr.globalEpoch, nodes⟩ = batch := by simpa using hbatch
        simp [hadvanced]

/-! ## A reader in epoch zero -/

/-- In epoch zero a reader comes to the first node of a bucket, and its block shows no epoch. -/
theorem Quiet.hold {reader : TcbId} {pc : Pc K V} (hquiet : Quiet cfg key node memory)
    (hzero : memory.ebr.globalEpoch = 0)
    (hready : ((resting reader).goto pc).ready = true)
    (h : Reached cfg ⟨memory, Function.update workers tid ((resting reader).goto pc)⟩) :
    ∃ memory' reading, Reached cfg ⟨memory', Function.update workers tid reading⟩ ∧
      reading.pc = .getKey key node ∧ Quiet cfg key node memory' ∧
      memory'.ebr.globalEpoch = 0 ∧
      ∀ own, (memory'.ebr.tcbs own).retirementBatches =
        (memory.ebr.tcbs own).retirementBatches := by
  have hkeep : memory.withEbr memory.ebr = memory := memory.withEbr_keep memory.ebr rfl
  have hcall : Reached cfg ⟨memory, Function.update workers tid
      { thread := { tlsTcb := some reader, criticalDepth := 1, pc := .enterLoad }
        pc := .getTable key }⟩ :=
    h.call (.get key) rfl hready rfl rfl
  have hload : Reached cfg ⟨memory, Function.update workers tid
      { thread := { tlsTcb := some reader, criticalDepth := 1, pc := .enterStore 0 }
        pc := .getTable key }⟩ := by
    refine hcall.run ?_ rfl
    simp [run, runEbr, waitsForBuffer, Concurrency.run, hkeep, hzero]
  have hstore : Reached cfg ⟨memory.apply (.localEpoch reader 0), Function.update workers tid
      { thread := { tlsTcb := some reader, criticalDepth := 1 }, pc := .getTable key }⟩ := by
    have hrun : run cfg memory tid
        { thread := { tlsTcb := some reader, criticalDepth := 1, pc := .enterStore 0 }
          pc := .getTable key } =
        some (memory,
          { thread := { tlsTcb := some reader, criticalDepth := 1 }, pc := .getTable key
            buffer := [.localEpoch reader 0] }) := rfl
    exact hload.store hrun rfl
  have htable : Reached cfg ⟨memory.apply (.localEpoch reader 0), Function.update workers tid
      { thread := { tlsTcb := some reader, criticalDepth := 1 }
        pc := .getBucket key memory.map.table }⟩ := by
    exact hstore.run rfl rfl
  have hbucket : Reached cfg ⟨memory.apply (.localEpoch reader 0), Function.update workers tid
      { thread := { tlsTcb := some reader, criticalDepth := 1 }, pc := .getKey key node }⟩ := by
    refine htable.run ?_ rfl
    simp [run, runMap, Memory.apply, Store.onMap, hquiet.map.bucket, Worker.goto]
  refine ⟨_, _, hbucket, rfl, ⟨hquiet.unlocked, hquiet.map, ?_⟩, hzero, fun own => ?_⟩
  · exact hquiet.unread.setTcb reader { memory.ebr.tcbs reader with localEpoch := 0 } rfl (.inr rfl)
      memory.ebr.deleted
  · by_cases heq : own = reader
    · subst heq
      simp [Memory.apply, Store.onEbr, Shared.setTcb]
    · simp [Memory.apply, Store.onEbr, Shared.setTcb, heq]

end Put

end HotPath.Concurrency.MapSteps
