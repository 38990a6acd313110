import HotPath.Concurrency.Ebr
import HotPath.Concurrency.RcuHashMap

/-!
# The hash map and its reclamation, with store buffers

Any number of threads call `Get`, `Put`, `Remove` and `Gc`. Every thread has a FIFO buffer of
stores that have not reached memory yet (`Store`). A load takes the newest store to its address
from the thread's own buffer, and otherwise what is in memory. Read-modify-writes and mutex
operations wait until the buffer is empty. Draining the oldest store of a buffer is an event of
its own.

`Get` takes one step for each load. Under the write mutex nobody else stores to the map, so a
writer's loads are taken together with its next store. The fields of a node or a table that is not
reachable yet are in memory at once, since they drain before the store that makes it reachable.
The stores of `RegisterThread` come between locking and unlocking `list_mutex_` with no load
behind them, and are taken at the moment at which they drain.

A node or a table that is deleted keeps its contents and its address. Nothing is allocated there
again.

`runMap_cases` says what a step in a function of the map can do.
-/

namespace HotPath.Concurrency.MapSteps

open HotPath.Foundation

/-- What is handed to `Retire`. -/
inductive Object where
  | node (node : NodeId)
  | table (table : TableId)
deriving DecidableEq

/-- A store that can stay in a buffer. -/
inductive Store where
  | localEpoch (tcb : TcbId) (epoch : UInt64)
  | table (table : TableId)
  | bucket (table : TableId) (index : Nat) (target : Option NodeId)
  | next (node : NodeId) (target : Option NodeId)

/-- Where a thread is in a function of the map. Inside the functions of the reclamation engine
it also has a place there, and moves on here once it is idle there. -/
inductive Pc (K V : Type) where
  | idle
  | getTable (key : K)
  | getBucket (key : K) (table : TableId)
  | getKey (key : K) (current : NodeId)
  | getSeqBefore (key : K) (current : NodeId)
  | getValue (key : K) (current : NodeId) (seq : UInt32)
  | getSeqAfter (key : K) (current : NodeId) (seq : UInt32) (value : V)
  | getNext (key : K) (current : NodeId)
  | getExit (key : K) (result : Option V)
  | returned (key : K) (result : Option V)
  | putLock (key : K) (value : V)
  | putGrow (key : K) (value : V)
  | putRetireTable (key : K) (value : V) (oldTable : TableId)
  | putLink (key : K) (value : V)
  | putCount
  | removeLock (key : K)
  | removeLink (key : K)
  | removeCount (current : NodeId)
  | generation (retired : Option NodeId)
  | unlock

/-- A thread with its store buffer, oldest store first. -/
structure Worker (K V : Type) where
  thread : Thread Object := {}
  pc : Pc K V := .idle
  buffer : List Store := []

/-- What the threads share. `freed` lists what has been deleted, in this order. -/
structure Memory (K V : Type) where
  map : RcuHashMap K V
  ebr : Shared Object := {}
  writeMutex : Option ThreadId := none
  freed : List Object := []

/-- The state of the machine. -/
structure State (K V : Type) where
  memory : Memory K V
  workers : ThreadId → Worker K V := fun _ => {}

/-- What a caller asks for. -/
inductive Op (K V : Type) where
  | get (key : K)
  | put (key : K) (value : V)
  | remove (key : K)
  | gc

/-- A thread calls a function, takes its next step, or its oldest buffered store drains. -/
inductive Event (K V : Type) where
  | call (thread : ThreadId) (op : Op K V)
  | run (thread : ThreadId)
  | drain (thread : ThreadId)

variable {K V : Type}

/-! ## Stores -/

/-- The effect of a store on the map. -/
def Store.onMap (map : RcuHashMap K V) : Store → RcuHashMap K V
  | .localEpoch _ _ => map
  | .table newTable => map.publish newTable
  | .bucket owner index target => map.storeBucket owner index target
  | .next node target => map.storeNext node target

/-- The effect of a store on the control blocks. -/
def Store.onEbr (ebr : Shared Object) : Store → Shared Object
  | .localEpoch tcb epoch => ebr.setTcb tcb { ebr.tcbs tcb with localEpoch := epoch }
  | _ => ebr

/-- A store reaches memory. -/
def Memory.apply (memory : Memory K V) (store : Store) : Memory K V :=
  { memory with map := store.onMap memory.map, ebr := store.onEbr memory.ebr }

/-- The map as the owner of the buffer sees it. -/
def view (map : RcuHashMap K V) (buffer : List Store) : RcuHashMap K V :=
  buffer.foldl Store.onMap map

/-- The `local_epoch` of a block as the owner of the buffer sees it. -/
def viewEpoch (ebr : Shared Object) (buffer : List Store) (tcb : TcbId) : UInt64 :=
  ((buffer.foldl Store.onEbr ebr).tcbs tcb).localEpoch

/-- A thread moves on. -/
def Worker.goto (worker : Worker K V) (pc : Pc K V) : Worker K V := { worker with pc := pc }

/-- A thread stores. -/
def Worker.issue (worker : Worker K V) (store : Store) : Worker K V :=
  { worker with buffer := worker.buffer ++ [store] }

/-- The thread is in no function. -/
def Worker.ready (worker : Worker K V) : Bool :=
  match worker.pc, worker.thread.pc with
  | .idle, .idle => true
  | .returned _ _, .idle => true
  | _, _ => false

/-! ## Deleting -/

/-- The nodes from a pointer on, which the destructor of a table deletes one after the other. -/
def walk (map : RcuHashMap K V) : Nat → Option NodeId → List NodeId
  | 0, _ => []
  | _ + 1, none => []
  | fuel + 1, some curr => curr :: walk map fuel (map.nodes curr).next

/-- What the deletion of an object deletes: `~Table` also deletes the nodes in its buckets. -/
def destroyed (map : RcuHashMap K V) : Object → List Object
  | .node node => [.node node]
  | .table table => .table table :: (List.range (map.tables table).size).flatMap fun i =>
      (walk map (map.nodeCount + 1) ((map.tables table).buckets i)).map .node

/-- The engine has moved on, and may have deleted objects. -/
def Memory.withEbr (memory : Memory K V) (ebr : Shared Object) : Memory K V :=
  { memory with
    ebr := ebr
    freed := memory.freed ++
      (ebr.deleted.drop memory.ebr.deleted.length).flatMap (destroyed memory.map) }

/-! ## Steps inside the reclamation engine -/

/-- The next access locks or unlocks a mutex, or is a read-modify-write. -/
def waitsForBuffer : Concurrency.Pc Object → Bool
  | .registerLock _ _ | .registerBind _ _ | .gcCas _ _ => true
  | _ => false

/-- The minimum of `Gc` after it has read the epoch of a block. -/
def lowered (minEpoch localEpoch : UInt64) : UInt64 :=
  if localEpoch ≠ kEpochInactive ∧ localEpoch < minEpoch then localEpoch else minEpoch

/-- The next step of a thread inside the engine. The stores of `EnterCritical` and `ExitCritical`
go to the buffer, and the scan of `Gc` reads the thread's own epoch through it. -/
def runEbr (memory : Memory K V) (tid : ThreadId) (worker : Worker K V) :
    Option (Memory K V × Worker K V) :=
  match worker.thread.pc, worker.thread.tlsTcb with
  | .enterStore epoch, some tcb =>
      some (memory, { worker with thread := { worker.thread with pc := .idle } }.issue
        (.localEpoch tcb epoch))
  | .exitStore, some tcb =>
      some (memory, { worker with thread := { worker.thread with pc := .idle } }.issue
        (.localEpoch tcb kEpochInactive))
  | .gcLocal minEpoch curr, _ =>
      let minEpoch := lowered minEpoch (viewEpoch memory.ebr worker.buffer curr)
      some (memory, { worker with thread := { worker.thread with pc := .gcNext minEpoch curr } })
  | pc, _ =>
      if waitsForBuffer pc ∧ ¬ worker.buffer.isEmpty then none
      else (Concurrency.run memory.ebr tid worker.thread).map fun (ebr, thread) =>
        (memory.withEbr ebr, { worker with thread := thread })

/-! ## Steps of the map -/

variable [DecidableEq K] (cfg : MapConfig K)

/-- A store behind the previous node, or to the bucket of the current table. -/
def linkStore (map : RcuHashMap K V) (index : Nat) (prev target : Option NodeId) : Store :=
  match prev with
  | some prev => .next prev target
  | none => .bucket map.table index target

/-- `Put` from the search to the store that makes the new node visible: the fields of the node,
the store, and the node that is replaced. -/
def preparePut (map : RcuHashMap K V) (key : K) (value : V) :
    Option (MapNode K V × Store × Option NodeId) :=
  let idx := map.bucketIndex cfg map.table key
  (map.search cfg key).map fun (prev, current) =>
    match current with
    | some current =>
        ({ key, value, next := (map.nodes current).next },
          linkStore map idx prev (some map.nodeCount), some current)
    | none =>
        ({ key, value, next := (map.tables map.table).buckets idx },
          linkStore map idx none (some map.nodeCount), none)

/-- `Remove` from the search to the store that unlinks the node. -/
def prepareRemove (map : RcuHashMap K V) (key : K) : Option (Option (Store × NodeId)) :=
  let idx := map.bucketIndex cfg map.table key
  (map.search cfg key).map fun (prev, current) =>
    current.map fun current => (linkStore map idx prev (map.nodes current).next, current)

/-- A call of `Retire`, up to its first access to shared memory. -/
def beginRetire (memory : Memory K V) (worker : Worker K V) (object : Object) :
    Memory K V × Worker K V :=
  let (ebr, thread) := Concurrency.call memory.ebr worker.thread (.retire (some object))
  ({ memory with ebr := ebr }, { worker with thread := thread })

/-- The next step of a thread inside a function of the map. -/
def runMap (memory : Memory K V) (tid : ThreadId) (worker : Worker K V) :
    Option (Memory K V × Worker K V) :=
  let map := memory.map
  match worker.pc with
  | .idle | .returned _ _ => none
  | .getTable key => some (memory, worker.goto (.getBucket key map.table))
  | .getBucket key table =>
      match (map.tables table).buckets (map.bucketIndex cfg table key) with
      | some current => some (memory, worker.goto (.getKey key current))
      | none => some (memory, worker.goto (.getExit key none))
  | .getKey key current =>
      if (map.nodes current).key = key then some (memory, worker.goto (.getSeqBefore key current))
      else some (memory, worker.goto (.getNext key current))
  | .getSeqBefore key current =>
      if (map.nodes current).seq &&& 1 ≠ 0 then some (memory, worker)
      else some (memory, worker.goto (.getValue key current (map.nodes current).seq))
  | .getValue key current seq =>
      some (memory, worker.goto (.getSeqAfter key current seq (map.nodes current).value))
  | .getSeqAfter key current seq value =>
      if seq = (map.nodes current).seq then
        some (memory, worker.goto (.getExit key (some value)))
      else some (memory, worker.goto (.getSeqBefore key current))
  | .getNext key current =>
      match (map.nodes current).next with
      | some current => some (memory, worker.goto (.getKey key current))
      | none => some (memory, worker.goto (.getExit key none))
  | .getExit key result =>
      let (ebr, thread) := Concurrency.call memory.ebr worker.thread .exitCritical
      some ({ memory with ebr := ebr },
        { worker with thread := thread }.goto (.returned key result))
  | .putLock key value =>
      if memory.writeMutex = none ∧ worker.buffer.isEmpty then
        some ({ memory with writeMutex := some tid }, worker.goto (.putGrow key value))
      else none
  | .putGrow key value =>
      if map.isFull then
        (RcuHashMap.buildTable cfg map (map.tableSize * 2)).map fun built =>
          ({ memory with map := built },
            (worker.goto (.putRetireTable key value map.table)).issue (.table map.tableCount))
      else some (memory, worker.goto (.putLink key value))
  | .putRetireTable key value oldTable =>
      let (retiring, next) := beginRetire memory (worker.goto (.putLink key value))
        (.table oldTable)
      -- A thread with a control block comes to the load of the global epoch. A thread without
      -- one comes to the mutex of `RegisterThread`, which waits for the buffer.
      match worker.thread.tlsTcb with
      | some _ => runEbr retiring tid next
      | none => if worker.buffer.isEmpty then some (retiring, next) else none
  | .putLink key value =>
      (preparePut cfg (view map worker.buffer) key value).map fun (node, store, replaced) =>
        ({ memory with map := map.newNode node },
          (worker.goto (match replaced with
            | some current => .generation (some current)
            | none => .putCount)).issue store)
  | .putCount =>
      if worker.buffer.isEmpty then
        some ({ memory with map := map.countUp }, worker.goto (.generation none))
      else none
  | .removeLock key =>
      if memory.writeMutex = none ∧ worker.buffer.isEmpty then
        some ({ memory with writeMutex := some tid }, worker.goto (.removeLink key))
      else none
  | .removeLink key =>
      (prepareRemove cfg (view map worker.buffer) key).map fun found =>
        match found with
        | some (store, current) => (memory, (worker.goto (.removeCount current)).issue store)
        | none => (memory, worker.goto .unlock)
  | .removeCount current =>
      if worker.buffer.isEmpty then
        some ({ memory with map := map.countDown }, worker.goto (.generation (some current)))
      else none
  | .generation retired =>
      if worker.buffer.isEmpty then
        let memory := { memory with map := map.nextGeneration }
        match retired with
        | some current => some (beginRetire memory (worker.goto .unlock) (.node current))
        | none => some (memory, worker.goto .unlock)
      else none
  | .unlock =>
      if worker.buffer.isEmpty then
        some ({ memory with writeMutex := none }, worker.goto .idle)
      else none

/-- Everything that the next step of a thread inside a function of the map can do. -/
inductive MapStep (memory : Memory K V) (tid : ThreadId) (worker : Worker K V) :
    Memory K V → Worker K V → Prop where
  | getTable (key : K) : worker.pc = .getTable key →
      MapStep memory tid worker memory (worker.goto (.getBucket key memory.map.table))
  | getHead (key : K) (table : TableId) (current : NodeId) : worker.pc = .getBucket key table →
      (memory.map.tables table).buckets (memory.map.bucketIndex cfg table key) = some current →
      MapStep memory tid worker memory (worker.goto (.getKey key current))
  | getEmpty (key : K) (table : TableId) : worker.pc = .getBucket key table →
      (memory.map.tables table).buckets (memory.map.bucketIndex cfg table key) = none →
      MapStep memory tid worker memory (worker.goto (.getExit key none))
  | getFound (key : K) (current : NodeId) : worker.pc = .getKey key current →
      (memory.map.nodes current).key = key →
      MapStep memory tid worker memory (worker.goto (.getSeqBefore key current))
  | getPassed (key : K) (current : NodeId) : worker.pc = .getKey key current →
      (memory.map.nodes current).key ≠ key →
      MapStep memory tid worker memory (worker.goto (.getNext key current))
  | getOdd (key : K) (current : NodeId) : worker.pc = .getSeqBefore key current →
      (memory.map.nodes current).seq &&& 1 ≠ 0 →
      MapStep memory tid worker memory worker
  | getEven (key : K) (current : NodeId) : worker.pc = .getSeqBefore key current →
      ¬ (memory.map.nodes current).seq &&& 1 ≠ 0 →
      MapStep memory tid worker memory
        (worker.goto (.getValue key current (memory.map.nodes current).seq))
  | getValue (key : K) (current : NodeId) (seq : UInt32) :
      worker.pc = .getValue key current seq →
      MapStep memory tid worker memory
        (worker.goto (.getSeqAfter key current seq (memory.map.nodes current).value))
  | getSame (key : K) (current : NodeId) (seq : UInt32) (value : V) :
      worker.pc = .getSeqAfter key current seq value → seq = (memory.map.nodes current).seq →
      MapStep memory tid worker memory (worker.goto (.getExit key (some value)))
  | getChanged (key : K) (current : NodeId) (seq : UInt32) (value : V) :
      worker.pc = .getSeqAfter key current seq value → seq ≠ (memory.map.nodes current).seq →
      MapStep memory tid worker memory (worker.goto (.getSeqBefore key current))
  | getNext (key : K) (current successor : NodeId) : worker.pc = .getNext key current →
      (memory.map.nodes current).next = some successor →
      MapStep memory tid worker memory (worker.goto (.getKey key successor))
  | getEnd (key : K) (current : NodeId) : worker.pc = .getNext key current →
      (memory.map.nodes current).next = none →
      MapStep memory tid worker memory (worker.goto (.getExit key none))
  | getExit (key : K) (result : Option V) : worker.pc = .getExit key result →
      MapStep memory tid worker
        { memory with ebr := (Concurrency.call memory.ebr worker.thread .exitCritical).1 }
        ({ worker with
          thread := (Concurrency.call memory.ebr worker.thread .exitCritical).2 }.goto
            (.returned key result))
  | putLock (key : K) (value : V) : worker.pc = .putLock key value → memory.writeMutex = none →
      worker.buffer = [] →
      MapStep memory tid worker { memory with writeMutex := some tid }
        (worker.goto (.putGrow key value))
  | putGrow (key : K) (value : V) (built : RcuHashMap K V) : worker.pc = .putGrow key value →
      memory.map.isFull = true →
      RcuHashMap.buildTable cfg memory.map (memory.map.tableSize * 2) = some built →
      MapStep memory tid worker { memory with map := built }
        ((worker.goto (.putRetireTable key value memory.map.table)).issue
          (.table memory.map.tableCount))
  | putFits (key : K) (value : V) : worker.pc = .putGrow key value →
      ¬ memory.map.isFull = true →
      MapStep memory tid worker memory (worker.goto (.putLink key value))
  | putRetireTable (key : K) (value : V) (oldTable : TableId) (own : TcbId)
      {memory' : Memory K V} {worker' : Worker K V} :
      worker.pc = .putRetireTable key value oldTable → worker.thread.tlsTcb = some own →
      runEbr (beginRetire memory (worker.goto (.putLink key value)) (.table oldTable)).1 tid
        (beginRetire memory (worker.goto (.putLink key value)) (.table oldTable)).2 =
          some (memory', worker') →
      MapStep memory tid worker memory' worker'
  | putRegister (key : K) (value : V) (oldTable : TableId) :
      worker.pc = .putRetireTable key value oldTable → worker.thread.tlsTcb = none →
      worker.buffer = [] →
      MapStep memory tid worker
        (beginRetire memory (worker.goto (.putLink key value)) (.table oldTable)).1
        (beginRetire memory (worker.goto (.putLink key value)) (.table oldTable)).2
  | putLink (key : K) (value : V) (node : MapNode K V) (store : Store)
      (replaced : Option NodeId) : worker.pc = .putLink key value →
      preparePut cfg (view memory.map worker.buffer) key value = some (node, store, replaced) →
      MapStep memory tid worker { memory with map := memory.map.newNode node }
        ((worker.goto (match replaced with
          | some current => .generation (some current)
          | none => .putCount)).issue store)
  | putCount : worker.pc = .putCount → worker.buffer = [] →
      MapStep memory tid worker { memory with map := memory.map.countUp }
        (worker.goto (.generation none))
  | removeLock (key : K) : worker.pc = .removeLock key → memory.writeMutex = none →
      worker.buffer = [] →
      MapStep memory tid worker { memory with writeMutex := some tid }
        (worker.goto (.removeLink key))
  | removeLink (key : K) (store : Store) (current : NodeId) : worker.pc = .removeLink key →
      prepareRemove cfg (view memory.map worker.buffer) key = some (some (store, current)) →
      MapStep memory tid worker memory ((worker.goto (.removeCount current)).issue store)
  | removeAbsent (key : K) : worker.pc = .removeLink key →
      prepareRemove cfg (view memory.map worker.buffer) key = some none →
      MapStep memory tid worker memory (worker.goto .unlock)
  | removeCount (current : NodeId) : worker.pc = .removeCount current → worker.buffer = [] →
      MapStep memory tid worker { memory with map := memory.map.countDown }
        (worker.goto (.generation (some current)))
  | generation : worker.pc = .generation none → worker.buffer = [] →
      MapStep memory tid worker { memory with map := memory.map.nextGeneration }
        (worker.goto .unlock)
  | generationRetire (current : NodeId) : worker.pc = .generation (some current) →
      worker.buffer = [] →
      MapStep memory tid worker
        (beginRetire { memory with map := memory.map.nextGeneration } (worker.goto .unlock)
          (.node current)).1
        (beginRetire { memory with map := memory.map.nextGeneration } (worker.goto .unlock)
          (.node current)).2
  | unlock : worker.pc = .unlock → worker.buffer = [] →
      MapStep memory tid worker { memory with writeMutex := none } (worker.goto .idle)

section Cases

variable {cfg} {memory memory' : Memory K V} {tid : ThreadId} {worker worker' : Worker K V}

/-- `Get` loads the head of the bucket. -/
theorem runMap_getBucket {key : K} {table : TableId} (hpc : worker.pc = .getBucket key table)
    (h : runMap cfg memory tid worker = some (memory', worker')) :
    MapStep cfg memory tid worker memory' worker' := by
  simp only [runMap, hpc] at h
  split at h
  · next current hbucket =>
      obtain ⟨rfl, rfl⟩ := Prod.mk.inj (Option.some.inj h)
      exact .getHead key table current hpc hbucket
  · next hbucket =>
      obtain ⟨rfl, rfl⟩ := Prod.mk.inj (Option.some.inj h)
      exact .getEmpty key table hpc hbucket

/-- `Get` compares the key of a node. -/
theorem runMap_getKey {key : K} {current : NodeId} (hpc : worker.pc = .getKey key current)
    (h : runMap cfg memory tid worker = some (memory', worker')) :
    MapStep cfg memory tid worker memory' worker' := by
  simp only [runMap, hpc] at h
  split at h
  · next hkey =>
      obtain ⟨rfl, rfl⟩ := Prod.mk.inj (Option.some.inj h)
      exact .getFound key current hpc hkey
  · next hkey =>
      obtain ⟨rfl, rfl⟩ := Prod.mk.inj (Option.some.inj h)
      exact .getPassed key current hpc hkey

/-- `Get` loads the version of the node that it found. -/
theorem runMap_getSeqBefore {key : K} {current : NodeId}
    (hpc : worker.pc = .getSeqBefore key current)
    (h : runMap cfg memory tid worker = some (memory', worker')) :
    MapStep cfg memory tid worker memory' worker' := by
  simp only [runMap, hpc] at h
  split at h
  · next hodd =>
      obtain ⟨rfl, rfl⟩ := Prod.mk.inj (Option.some.inj h)
      exact .getOdd key current hpc hodd
  · next heven =>
      obtain ⟨rfl, rfl⟩ := Prod.mk.inj (Option.some.inj h)
      exact .getEven key current hpc heven

/-- `Get` loads the version again. -/
theorem runMap_getSeqAfter {key : K} {current : NodeId} {seq : UInt32} {value : V}
    (hpc : worker.pc = .getSeqAfter key current seq value)
    (h : runMap cfg memory tid worker = some (memory', worker')) :
    MapStep cfg memory tid worker memory' worker' := by
  simp only [runMap, hpc] at h
  split at h
  · next hsame =>
      obtain ⟨rfl, rfl⟩ := Prod.mk.inj (Option.some.inj h)
      exact .getSame key current seq value hpc hsame
  · next hchanged =>
      obtain ⟨rfl, rfl⟩ := Prod.mk.inj (Option.some.inj h)
      exact .getChanged key current seq value hpc hchanged

/-- `Get` follows the chain. -/
theorem runMap_getNext {key : K} {current : NodeId} (hpc : worker.pc = .getNext key current)
    (h : runMap cfg memory tid worker = some (memory', worker')) :
    MapStep cfg memory tid worker memory' worker' := by
  simp only [runMap, hpc] at h
  split at h
  · next successor hnext =>
      obtain ⟨rfl, rfl⟩ := Prod.mk.inj (Option.some.inj h)
      exact .getNext key current successor hpc hnext
  · next hnext =>
      obtain ⟨rfl, rfl⟩ := Prod.mk.inj (Option.some.inj h)
      exact .getEnd key current hpc hnext

/-- `Put` takes the mutex. -/
theorem runMap_putLock {key : K} {value : V} (hpc : worker.pc = .putLock key value)
    (h : runMap cfg memory tid worker = some (memory', worker')) :
    MapStep cfg memory tid worker memory' worker' := by
  simp only [runMap, hpc] at h
  split at h
  · next hfree =>
      obtain ⟨rfl, rfl⟩ := Prod.mk.inj (Option.some.inj h)
      exact .putLock key value hpc hfree.1 (List.isEmpty_iff.mp hfree.2)
  · cases h

/-- `Put` builds a larger table, if the table is full. -/
theorem runMap_putGrow {key : K} {value : V} (hpc : worker.pc = .putGrow key value)
    (h : runMap cfg memory tid worker = some (memory', worker')) :
    MapStep cfg memory tid worker memory' worker' := by
  simp only [runMap, hpc] at h
  split at h
  · next hfull =>
      obtain ⟨built, hbuilt, hresult⟩ := Option.map_eq_some_iff.mp h
      obtain ⟨rfl, rfl⟩ := Prod.mk.inj hresult
      exact .putGrow key value built hpc hfull hbuilt
  · next hroom =>
      obtain ⟨rfl, rfl⟩ := Prod.mk.inj (Option.some.inj h)
      exact .putFits key value hpc hroom

/-- `Put` retires the old table. -/
theorem runMap_putRetireTable {key : K} {value : V} {oldTable : TableId}
    (hpc : worker.pc = .putRetireTable key value oldTable)
    (h : runMap cfg memory tid worker = some (memory', worker')) :
    MapStep cfg memory tid worker memory' worker' := by
  simp only [runMap, hpc] at h
  split at h
  · next own htls => exact .putRetireTable key value oldTable own hpc htls h
  · next htls =>
      split at h
      · next hempty =>
          obtain ⟨rfl, rfl⟩ := Prod.mk.inj (Option.some.inj h)
          exact .putRegister key value oldTable hpc htls (List.isEmpty_iff.mp hempty)
      · cases h

/-- `Put` links the new node. -/
theorem runMap_putLink {key : K} {value : V} (hpc : worker.pc = .putLink key value)
    (h : runMap cfg memory tid worker = some (memory', worker')) :
    MapStep cfg memory tid worker memory' worker' := by
  simp only [runMap, hpc] at h
  obtain ⟨⟨node, store, replaced⟩, hprepare, hresult⟩ := Option.map_eq_some_iff.mp h
  obtain ⟨rfl, rfl⟩ := Prod.mk.inj hresult
  exact .putLink key value node store replaced hpc hprepare

/-- `Put` counts the new key. -/
theorem runMap_putCount (hpc : worker.pc = .putCount)
    (h : runMap cfg memory tid worker = some (memory', worker')) :
    MapStep cfg memory tid worker memory' worker' := by
  simp only [runMap, hpc] at h
  split at h
  · next hempty =>
      obtain ⟨rfl, rfl⟩ := Prod.mk.inj (Option.some.inj h)
      exact .putCount hpc (List.isEmpty_iff.mp hempty)
  · cases h

/-- `Remove` takes the mutex. -/
theorem runMap_removeLock {key : K} (hpc : worker.pc = .removeLock key)
    (h : runMap cfg memory tid worker = some (memory', worker')) :
    MapStep cfg memory tid worker memory' worker' := by
  simp only [runMap, hpc] at h
  split at h
  · next hfree =>
      obtain ⟨rfl, rfl⟩ := Prod.mk.inj (Option.some.inj h)
      exact .removeLock key hpc hfree.1 (List.isEmpty_iff.mp hfree.2)
  · cases h

/-- `Remove` unlinks the node of the key, if there is one. -/
theorem runMap_removeLink {key : K} (hpc : worker.pc = .removeLink key)
    (h : runMap cfg memory tid worker = some (memory', worker')) :
    MapStep cfg memory tid worker memory' worker' := by
  simp only [runMap, hpc] at h
  obtain ⟨found, hprepare, hresult⟩ := Option.map_eq_some_iff.mp h
  cases found with
  | some found =>
      obtain ⟨rfl, rfl⟩ := Prod.mk.inj hresult
      exact .removeLink key found.1 found.2 hpc hprepare
  | none =>
      obtain ⟨rfl, rfl⟩ := Prod.mk.inj hresult
      exact .removeAbsent key hpc hprepare

/-- `Remove` counts the key off. -/
theorem runMap_removeCount {current : NodeId} (hpc : worker.pc = .removeCount current)
    (h : runMap cfg memory tid worker = some (memory', worker')) :
    MapStep cfg memory tid worker memory' worker' := by
  simp only [runMap, hpc] at h
  split at h
  · next hempty =>
      obtain ⟨rfl, rfl⟩ := Prod.mk.inj (Option.some.inj h)
      exact .removeCount current hpc (List.isEmpty_iff.mp hempty)
  · cases h

/-- A writer ends its change, and retires the node that it unlinked. -/
theorem runMap_generation {retired : Option NodeId} (hpc : worker.pc = .generation retired)
    (h : runMap cfg memory tid worker = some (memory', worker')) :
    MapStep cfg memory tid worker memory' worker' := by
  simp only [runMap, hpc] at h
  split at h
  · next hempty =>
      cases retired with
      | some current =>
          obtain ⟨rfl, rfl⟩ := Prod.mk.inj (Option.some.inj h)
          exact .generationRetire current hpc (List.isEmpty_iff.mp hempty)
      | none =>
          obtain ⟨rfl, rfl⟩ := Prod.mk.inj (Option.some.inj h)
          exact .generation hpc (List.isEmpty_iff.mp hempty)
  · cases h

/-- A writer releases the mutex. -/
theorem runMap_unlock (hpc : worker.pc = .unlock)
    (h : runMap cfg memory tid worker = some (memory', worker')) :
    MapStep cfg memory tid worker memory' worker' := by
  simp only [runMap, hpc] at h
  split at h
  · next hempty =>
      obtain ⟨rfl, rfl⟩ := Prod.mk.inj (Option.some.inj h)
      exact .unlock hpc (List.isEmpty_iff.mp hempty)
  · cases h

/-- A step in a function of the map is one of those that `MapStep` lists. -/
theorem runMap_cases (h : runMap cfg memory tid worker = some (memory', worker')) :
    MapStep cfg memory tid worker memory' worker' := by
  cases hpc : worker.pc with
  | idle => simp [runMap, hpc] at h
  | returned => simp [runMap, hpc] at h
  | getTable key =>
      simp only [runMap, hpc] at h
      obtain ⟨rfl, rfl⟩ := Prod.mk.inj (Option.some.inj h)
      exact .getTable key hpc
  | getBucket => exact runMap_getBucket hpc h
  | getKey => exact runMap_getKey hpc h
  | getSeqBefore => exact runMap_getSeqBefore hpc h
  | getValue key current seq =>
      simp only [runMap, hpc] at h
      obtain ⟨rfl, rfl⟩ := Prod.mk.inj (Option.some.inj h)
      exact .getValue key current seq hpc
  | getSeqAfter => exact runMap_getSeqAfter hpc h
  | getNext => exact runMap_getNext hpc h
  | getExit key result =>
      simp only [runMap, hpc] at h
      obtain ⟨rfl, rfl⟩ := Prod.mk.inj (Option.some.inj h)
      exact .getExit key result hpc
  | putLock => exact runMap_putLock hpc h
  | putGrow => exact runMap_putGrow hpc h
  | putRetireTable => exact runMap_putRetireTable hpc h
  | putLink => exact runMap_putLink hpc h
  | putCount => exact runMap_putCount hpc h
  | removeLock => exact runMap_removeLock hpc h
  | removeLink => exact runMap_removeLink hpc h
  | removeCount => exact runMap_removeCount hpc h
  | generation => exact runMap_generation hpc h
  | unlock => exact runMap_unlock hpc h

end Cases

/-- The next step of a thread. -/
def run (memory : Memory K V) (tid : ThreadId) (worker : Worker K V) :
    Option (Memory K V × Worker K V) :=
  match worker.thread.pc with
  | .idle => runMap cfg memory tid worker
  | _ => runEbr memory tid worker

/-- A call of a thread that is in no function, up to its first access to shared memory. -/
def call (memory : Memory K V) (worker : Worker K V) : Op K V → Memory K V × Worker K V
  | .get key =>
      let (ebr, thread) := Concurrency.call memory.ebr worker.thread .enterCritical
      ({ memory with ebr := ebr }, { worker with thread := thread }.goto (.getTable key))
  | .put key value => (memory, worker.goto (.putLock key value))
  | .remove key => (memory, worker.goto (.removeLock key))
  | .gc =>
      let (ebr, thread) := Concurrency.call memory.ebr worker.thread .gc
      ({ memory with ebr := ebr }, { worker with thread := thread }.goto .idle)

/-- What an event does to the memory and to its thread. -/
def act (memory : Memory K V) (tid : ThreadId) (worker : Worker K V) :
    Event K V → Option (Memory K V × Worker K V)
  | .call _ op => if worker.ready then some (call memory worker op) else none
  | .run _ => run cfg memory tid worker
  | .drain _ =>
      match worker.buffer with
      | store :: rest => some (memory.apply store, { worker with buffer := rest })
      | [] => none

/-- The thread of an event. -/
def Event.thread : Event K V → ThreadId
  | .call tid _ | .run tid | .drain tid => tid

/-- One step of the machine. -/
def step (state : State K V) (event : Event K V) : Option (State K V) :=
  (act cfg state.memory event.thread (state.workers event.thread) event).map fun result =>
    { memory := result.1, workers := Function.update state.workers event.thread result.2 }

/-- The machine as a transition system. It starts with the map that the constructor makes, before
any thread has registered. -/
def machine : System (State K V) (Event K V) where
  init state := ∃ memory, state = { memory := { map := RcuHashMap.create cfg memory } }
  step := step cfg

end HotPath.Concurrency.MapSteps
