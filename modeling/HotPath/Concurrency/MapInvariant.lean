import HotPath.Concurrency.BufferedEpoch
import HotPath.Concurrency.TableChains

/-!
# Who may still dereference what

A table is safe for a thread while it is live, or if the thread pins it: the thread had published
an epoch when the table was replaced, and is still in the same critical section. A node is safe
while it is in a chain of a safe table, or if the thread pins it. What a safe node points to is
safe as well, also when the node has been unlinked, and nothing safe has been deleted.

`Inv` collects the invariants of the engine (`SharedInv`, `ThreadInv`), of the chains (`HeapInv`,
`LifeInv`) and of the places in `Get`, `Put` and `Remove` (`PlaceInv`). `Frame` is what a thread
may assume about the steps of the others.
-/

namespace HotPath.Concurrency.MapSteps

open HotPath.Foundation

variable {K V : Type} {cfg : MapConfig K} {map : RcuHashMap K V}
  {history history' : History Object} {chains chains' : Chains} {contents contents' : K → Option V}
  {tid : ThreadId}

/-! ## Objects -/

/-- The object has been allocated. -/
def Allocated (map : RcuHashMap K V) : Object → Prop
  | .node node => node < map.nodeCount
  | .table table => table < map.tableCount

/-- What is deleted together with an object: a table owns the nodes in its chains. -/
def owned (map : RcuHashMap K V) (chains : Chains) : Object → List Object
  | .node node => [.node node]
  | .table table => .table table :: (List.range (map.tables table).size).flatMap fun i =>
      (chains table i).map .node

/-- The destructor of a table walks to the end of a chain. -/
theorem walk_eq {start : Option NodeId} {nodes : List NodeId} {fuel : Nat}
    (h : IsChain map.next start nodes) (hfuel : nodes.length < fuel) :
    walk map fuel start = nodes := by
  induction nodes generalizing start fuel with
  | nil =>
      obtain rfl : start = none := h
      cases fuel <;> rfl
  | cons node rest ih =>
      obtain ⟨rfl, hrest⟩ := h
      obtain ⟨fuel, rfl⟩ : ∃ n, fuel = n + 1 := ⟨fuel - 1, by simp at hfuel; omega⟩
      exact congrArg (node :: ·) (ih hrest (by simpa using hfuel))

/-- The destructor of a table deletes the nodes in its chains. -/
theorem destroyed_eq (h : HeapInv cfg map chains contents) {object : Object}
    (halloc : Allocated map object) : destroyed map object = owned map chains object := by
  cases object with
  | node node => rfl
  | table table =>
      refine congrArg (Object.table table :: ·) (List.flatMap_congr fun i hi => ?_)
      have hchain := h.chain table halloc i (List.mem_range.mp hi)
      rw [walk_eq hchain (Nat.lt_succ_of_le (hchain.length_le fun node hmem =>
        (h.allocated table i node hmem).2.2))]

/-- What is owned depends on the chains of the object only. -/
theorem owned_congr {map' : RcuHashMap K V} {object : Object}
    (hsame : ∀ table, object = .table table →
      (map'.tables table).size = (map.tables table).size ∧ chains' table = chains table) :
    owned map' chains' object = owned map chains object := by
  cases object with
  | node node => rfl
  | table table =>
      obtain ⟨hsize, hchains⟩ := hsame table rfl
      simp only [owned, hsize, hchains]

/-! ## Safety -/

/-- The thread may dereference the table. -/
def SafeTable (history : History Object) (tid : ThreadId) (table : TableId) : Prop :=
  history.stage (.table table) = .live ∨ history.pins (.table table) tid = true

/-- The thread may dereference the node. -/
def SafeNode (history : History Object) (chains : Chains) (tid : ThreadId) (node : NodeId) : Prop :=
  (∃ table i, node ∈ chains table i ∧ SafeTable history tid table) ∨
    history.pins (.node node) tid = true

/-- How the stages of the objects relate to the chains. -/
structure LifeInv (map : RcuHashMap K V) (chains : Chains) (history : History Object) : Prop where
  live : ∀ table i, ∀ node ∈ chains table i, history.stage (.node node) = .live
  current : history.stage (.table map.table) = .live
  retired : ∀ object, history.stage object ≠ .live → Allocated map object
  pinned : ∀ node tid successor, history.pins (.node node) tid = true →
    map.next node = some successor → SafeNode history chains tid successor

/-- What has been deleted: the objects that `Gc` has deleted, each with what it owns. -/
def FreedInv (memory : Memory K V) (chains : Chains) : Prop :=
  memory.freed = memory.ebr.deleted.flatMap (owned memory.map chains)

/-- A pinned object is not live. -/
theorem not_live_of_pins {shared : Shared Object} {blocks : List TcbId} {object : Object}
    (h : SharedInv shared history blocks) (hpins : history.pins object tid = true) :
    history.stage object ≠ .live := (h.pins object tid hpins).1

/-- A safe table has not been deleted. -/
theorem SafeTable.not_deleted {shared : Shared Object} {blocks : List TcbId} {table : TableId}
    (hshared : SharedInv shared history blocks) (h : SafeTable history tid table) :
    history.stage (.table table) ≠ .deleted := by
  rcases h with hlive | hpins
  · simp [hlive]
  · exact (hshared.pins _ tid hpins).2.1

/-- A freed object was deleted itself, or it is a node in a chain of a deleted table. -/
theorem FreedInv.cases {memory : Memory K V} {blocks : List TcbId} {object : Object}
    (h : FreedInv memory chains) (hshared : SharedInv memory.ebr history blocks)
    (hmem : object ∈ memory.freed) : history.stage object = .deleted ∨
      ∃ node table i, object = .node node ∧ node ∈ chains table i ∧
        history.stage (.table table) = .deleted := by
  rw [h] at hmem
  obtain ⟨owner, howner, hmem⟩ := List.mem_flatMap.mp hmem
  have hdeleted := hshared.deleted owner howner
  cases owner with
  | node node =>
      obtain rfl := List.mem_singleton.mp hmem
      exact .inl hdeleted
  | table table =>
      rcases List.mem_cons.mp hmem with rfl | hmem
      · exact .inl hdeleted
      · obtain ⟨i, -, hmem⟩ := List.mem_flatMap.mp hmem
        obtain ⟨node, hnode, rfl⟩ := List.mem_map.mp hmem
        exact .inr ⟨node, table, i, rfl, hnode, hdeleted⟩

/-- A safe table has not been freed. -/
theorem SafeTable.not_freed {memory : Memory K V} {blocks : List TcbId} {table : TableId}
    (hshared : SharedInv memory.ebr history blocks) (hfreed : FreedInv memory chains)
    (h : SafeTable history tid table) : Object.table table ∉ memory.freed := by
  intro hmem
  rcases hfreed.cases hshared hmem with hdeleted | ⟨node, other, i, heq, -, -⟩
  · exact h.not_deleted hshared hdeleted
  · cases heq

/-- A safe node has not been freed. -/
theorem SafeNode.not_freed {memory : Memory K V} {blocks : List TcbId} {node : NodeId}
    (hshared : SharedInv memory.ebr history blocks)
    (hheap : HeapInv cfg memory.map chains contents) (hlife : LifeInv memory.map chains history)
    (hfreed : FreedInv memory chains) (h : SafeNode history chains tid node) :
    Object.node node ∉ memory.freed := by
  intro hmem
  rcases hfreed.cases hshared hmem with hdeleted | ⟨other, table, i, heq, hchain, htable⟩
  · rcases h with ⟨table, i, hchain, -⟩ | hpins
    · rw [hlife.live table i node hchain] at hdeleted
      cases hdeleted
    · exact (hshared.pins _ tid hpins).2.1 hdeleted
  · cases heq
    rcases h with ⟨owner, j, howner, hsafe⟩ | hpins
    · -- A node is in the chains of one table only.
      obtain ⟨rfl, -⟩ := hheap.unique owner j table i node howner hchain
      exact hsafe.not_deleted hshared htable
    · exact not_live_of_pins hshared hpins (hlife.live table i node hchain)

/-- What a safe table points to is safe. -/
theorem SafeTable.head {table : TableId} {i : Nat} {node : NodeId}
    (hsafe : SafeTable history tid table) (h : HeapInv cfg map chains contents)
    (htable : table < map.tableCount) (hi : i < (map.tables table).size)
    (hhead : (map.tables table).buckets i = some node) : SafeNode history chains tid node := by
  have hchain := h.chain table htable i hi
  rw [hhead] at hchain
  obtain ⟨rest, hnodes, -⟩ := hchain.of_some
  exact .inl ⟨table, i, by simp [hnodes], hsafe⟩

/-- What a safe node points to is safe. -/
theorem SafeNode.next {node successor : NodeId} (h : SafeNode history chains tid node)
    (hheap : HeapInv cfg map chains contents) (hlife : LifeInv map chains history)
    (hnext : map.next node = some successor) : SafeNode history chains tid successor := by
  rcases h with ⟨table, i, hmem, hsafe⟩ | hpins
  · obtain ⟨htable, hi, -⟩ := hheap.allocated table i node hmem
    exact .inl ⟨table, i, (hheap.chain table htable i hi).next_mem hmem hnext, hsafe⟩
  · exact hlife.pinned node tid successor hpins hnext

/-! ## Prepared links -/

theorem linkStore_onMap (map : RcuHashMap K V) (i : Nat) (prev target : Option NodeId) :
    (linkStore map i prev target).onMap map = map.storeLink i prev target := by
  cases prev <;> rfl

theorem linkStore_onEbr (map : RcuHashMap K V) (i : Nat) (prev target : Option NodeId)
    (ebr : Shared Object) : (linkStore map i prev target).onEbr ebr = ebr := by
  cases prev <;> rfl

theorem linkStore_newNode (map : RcuHashMap K V) (node : MapNode K V) (i : Nat)
    (prev target : Option NodeId) :
    linkStore map i prev target = linkStore (map.newNode node) i prev target := by
  cases prev <;> rfl

section Links

variable [DecidableEq K]

/-- `Put` of a single caller allocates the prepared node and stores the prepared link. -/
theorem linkPut_eq (cfg : MapConfig K) (map : RcuHashMap K V) (key : K) (value : V) :
    map.linkPut cfg key value = (preparePut cfg map key value).map fun (node, store, replaced) =>
      (store.onMap (map.newNode node), replaced) := by
  simp only [RcuHashMap.linkPut, preparePut, Option.map_map]
  congr 1
  funext found
  obtain ⟨prev, current⟩ := found
  cases current with
  | none => rfl
  | some current =>
      simp only [Function.comp_apply]
      rw [linkStore_newNode, linkStore_onMap]

/-- `Remove` of a single caller stores the prepared link. -/
theorem linkRemove_eq (cfg : MapConfig K) (map : RcuHashMap K V) (key : K) :
    map.linkRemove cfg key = (prepareRemove cfg map key).map fun found =>
      match found with
      | some (store, current) => (store.onMap map, some current)
      | none => (map, none) := by
  simp only [RcuHashMap.linkRemove, prepareRemove, Option.map_map]
  congr 1
  funext found
  obtain ⟨prev, current⟩ := found
  cases current with
  | none => rfl
  | some current =>
      simp only [Function.comp_apply, Option.map_some]
      rw [linkStore_onMap]

/-- A node that replaces no other goes to the front of its chain. -/
theorem preparePut_absent {cfg : MapConfig K} {key : K} {value : V} {node : MapNode K V}
    {store : Store} (h : preparePut cfg map key value = some (node, store, none)) :
    ∃ i, store = .bucket map.table i (some map.nodeCount) := by
  obtain ⟨⟨prev, current⟩, -, hfound⟩ := Option.map_eq_some_iff.mp h
  cases current with
  | none =>
      obtain ⟨-, hstore⟩ : node = _ ∧ store = _ := by simpa [eq_comm] using hfound
      exact ⟨_, hstore⟩
  | some current => simp at hfound

/-- What `Put` prepares is a splice that changes the contents at the key. -/
theorem preparePut_spec (h : HeapInv cfg map chains contents) (key : K) (value : V) :
    ∃ node replaced i before after,
      preparePut cfg map key value = some (node,
        linkStore (map.newNode node) i before.getLast? ([map.nodeCount] ++ after).head?,
        replaced) ∧
      Splice cfg (map.newNode node) chains i before replaced.toList [map.nodeCount] after
        (Function.update contents key (some value)) := by
  have hlt := h.represents.bucket_lt key
  have hfresh : ∀ node : MapNode K V, ∀ fresh ∈ [map.nodeCount],
      fresh < (map.newNode node).nodeCount ∧ ∀ table j, fresh ∉ chains table j := by
    intro node fresh hmem
    obtain rfl := List.mem_singleton.mp hmem
    exact ⟨Nat.lt_succ_self _, fun table j hin =>
      absurd (h.allocated table j _ hin).2.2 (Nat.lt_irrefl _)⟩
  rcases h.represents.search key with
      ⟨hnone, -, prev, hsearch⟩ | ⟨before, current, after, hsplit, hkey, -, hsearch⟩
  · obtain ⟨-, hrepresents⟩ := h.represents.put_absent value hnone
    refine ⟨_, none, map.bucketIndex cfg map.table key, [], chains map.table
      (map.bucketIndex cfg map.table key), ?_, hlt, rfl, hfresh _, hrepresents⟩
    simp only [preparePut, hsearch, Option.map_some]
    rfl
  · obtain ⟨-, hrepresents⟩ := h.represents.put_present value hsplit hkey
    refine ⟨_, some current, map.bucketIndex cfg map.table key, before, after, ?_, hlt, hsplit,
      hfresh _, hrepresents⟩
    simp only [preparePut, hsearch, Option.map_some]
    rw [linkStore_newNode]
    rfl

/-- What `Remove` prepares is a splice that removes the key from the contents. -/
theorem prepareRemove_spec (h : HeapInv cfg map chains contents) (key : K) :
    (contents key = none ∧ prepareRemove cfg map key = some none) ∨
    ∃ i before removed after,
      prepareRemove cfg map key = some (some
        (linkStore map i before.getLast? ([] ++ after).head?, removed)) ∧
      Splice cfg map chains i before [removed] [] after (Function.update contents key none) := by
  have hlt := h.represents.bucket_lt key
  rcases h.represents.search key with
      ⟨-, hcontents, prev, hsearch⟩ | ⟨before, removed, after, hsplit, hkey, -, hsearch⟩
  · refine .inl ⟨hcontents, ?_⟩
    simp only [prepareRemove, hsearch, Option.map_some, Option.map_none]
  · obtain ⟨hhead, -, hrepresents⟩ := h.represents.remove_present hsplit hkey
    rw [hhead] at hrepresents
    refine .inr ⟨map.bucketIndex cfg map.table key, before, removed, after, ?_, hlt, hsplit,
      by simp, hrepresents⟩
    simp only [prepareRemove, hsearch, Option.map_some, List.nil_append, ← hhead]
    rfl

end Links

/-! ## Places -/

/-- The thread is in a critical section, and its epoch is in memory. -/
structure Reading (history : History Object) (tid : ThreadId) (worker : Worker K V) : Prop where
  announced : history.announced tid ≠ none
  idle : worker.thread.pc = .idle
  depth : worker.thread.criticalDepth = 1
  buffer : worker.buffer = []

/-- The thread is on its way to the load of the table: it is inside `EnterCritical`, or the store
of its epoch has drained, or that store is the last one in its buffer. -/
def Arriving (shared : Shared Object) (history : History Object) (tid : ThreadId)
    (worker : Worker K V) : Prop :=
  (entering worker.thread.pc = true ∧
      worker.thread.criticalDepth = entryDepth worker.thread.pc ∧
      Zeros worker.thread.tlsTcb worker.buffer) ∨
    Reading history tid worker ∨
    (history.announced tid = none ∧ worker.thread.pc = .idle ∧ worker.thread.criticalDepth = 1 ∧
      ∃ own zeros epoch, worker.thread.tlsTcb = some own ∧ Zeros (some own) zeros ∧
        worker.buffer = zeros ++ [.localEpoch own epoch] ∧ epoch ≠ 0 ∧
        epoch ≤ shared.globalEpoch)

/-- The thread is outside every critical section, and has announced nothing. -/
structure Resting (worker : Worker K V) : Prop where
  serving : serving worker.thread.pc = true
  depth : worker.thread.criticalDepth = 0

/-- The thread holds the write mutex. -/
structure Writing (memory : Memory K V) (tid : ThreadId) (worker : Worker K V) : Prop
    extends Resting worker where
  locked : memory.writeMutex = some tid

/-- The store that publishes a new table has drained, or it is in the buffer. -/
def Publishing (cfg : MapConfig K) (map : RcuHashMap K V) (history : History Object)
    (chains : Chains) (contents : K → Option V) (buffer : List Store) (oldTable : TableId) : Prop :=
  (buffer = [] ∧ history.stage (.table oldTable) = .unlinked) ∨
    ∃ newTable, buffer = [.table newTable] ∧ oldTable = map.table ∧ newTable ≠ map.table ∧
      history.stage (.table newTable) = .live ∧
      Represents cfg (map.publish newTable) (chains newTable) contents

/-- The store of a link has drained, or it is in the buffer. It unlinks at most one node. -/
def Linking (cfg : MapConfig K) (map : RcuHashMap K V) (history : History Object)
    (chains : Chains) (buffer : List Store) (unlinked : Option NodeId) : Prop :=
  (buffer = [] ∧ ∀ node, unlinked = some node → history.stage (.node node) = .unlinked) ∨
    ∃ i before fresh after contents',
      buffer = [linkStore map i before.getLast? (fresh ++ after).head?] ∧
      Splice cfg map chains i before unlinked.toList fresh after contents' ∧
      ∀ node ∈ fresh, history.stage (.node node) = .live

/-- What holds at a place. -/
def PlaceInv (cfg : MapConfig K) (memory : Memory K V) (history : History Object) (chains : Chains)
    (contents : K → Option V) (tid : ThreadId) (worker : Worker K V) : Prop :=
  match worker.pc with
  | .idle => Resting worker ∧ Zeros worker.thread.tlsTcb worker.buffer
  | .returned _ _ => worker.thread.criticalDepth = 0 ∧
      (worker.thread.pc = .exitStore ∧ worker.buffer = [] ∨
        worker.thread.pc = .idle ∧ Zeros worker.thread.tlsTcb worker.buffer)
  | .getTable _ => Arriving memory.ebr history tid worker
  | .getBucket _ table => Reading history tid worker ∧ SafeTable history tid table ∧
      table < memory.map.tableCount
  | .getKey _ current | .getSeqBefore _ current | .getValue _ current _
  | .getSeqAfter _ current _ _ | .getNext _ current =>
      Reading history tid worker ∧ SafeNode history chains tid current
  | .getExit _ _ => Reading history tid worker
  | .putLock _ _ | .removeLock _ => Resting worker ∧ worker.thread.pc = .idle ∧
      Zeros worker.thread.tlsTcb worker.buffer
  | .putGrow _ _ | .removeLink _ => Writing memory tid worker ∧ worker.thread.pc = .idle ∧
      worker.buffer = []
  | .putRetireTable _ _ oldTable => Writing memory tid worker ∧ worker.thread.pc = .idle ∧
      Publishing cfg memory.map history chains contents worker.buffer oldTable
  | .putLink _ _ | .unlock => Writing memory tid worker ∧ worker.buffer = []
  | .putCount => Writing memory tid worker ∧ worker.thread.pc = .idle ∧
      Linking cfg memory.map history chains worker.buffer none
  | .removeCount current => Writing memory tid worker ∧ worker.thread.pc = .idle ∧
      Linking cfg memory.map history chains worker.buffer (some current)
  | .generation retired => Writing memory tid worker ∧ worker.thread.pc = .idle ∧
      Linking cfg memory.map history chains worker.buffer retired

/-! ## What a thread relies on -/

/-- What a thread may assume about a step of another one. -/
structure Frame (tid : ThreadId) (memory : Memory K V) (history : History Object)
    (chains : Chains) (contents : K → Option V) (memory' : Memory K V)
    (history' : History Object) (chains' : Chains) (contents' : K → Option V) : Prop where
  announced : history'.announced tid = history.announced tid
  epoch : memory.ebr.globalEpoch ≤ memory'.ebr.globalEpoch
  tableCount : memory.map.tableCount ≤ memory'.map.tableCount
  table : history.announced tid ≠ none → ∀ table, SafeTable history tid table →
    SafeTable history' tid table
  node : history.announced tid ≠ none → ∀ node, SafeNode history chains tid node →
    SafeNode history' chains' tid node
  locked : memory.writeMutex = some tid → memory'.writeMutex = some tid ∧
    memory'.map = memory.map ∧ chains' = chains ∧ contents' = contents ∧
    ∀ object, history.stage object = .unlinked ∨ history.stage object = .live →
      history'.stage object = history.stage object

section Stability

variable {memory memory' : Memory K V} {worker worker' : Worker K V}

/-- Whether a thread rests does not depend on its place in the map. -/
theorem Resting.of_thread (h : Resting worker) (hthread : worker'.thread = worker.thread) :
    Resting worker' := ⟨hthread ▸ h.serving, hthread ▸ h.depth⟩

theorem Writing.moved (h : Writing memory tid worker) (hthread : worker'.thread = worker.thread)
    (hmutex : memory'.writeMutex = memory.writeMutex) : Writing memory' tid worker' :=
  ⟨h.toResting.of_thread hthread, hmutex.trans h.locked⟩

theorem Reading.frame (h : Reading history tid worker)
    (hframe : Frame tid memory history chains contents memory' history' chains' contents') :
    Reading history' tid worker :=
  { h with announced := hframe.announced ▸ h.announced }

theorem Writing.frame (h : Writing memory tid worker)
    (hframe : Frame tid memory history chains contents memory' history' chains' contents') :
    Writing memory' tid worker :=
  { h with locked := (hframe.locked h.locked).1 }

/-- Steps of the other threads keep what holds at a place. -/
theorem PlaceInv.frame (h : PlaceInv cfg memory history chains contents tid worker)
    (hframe : Frame tid memory history chains contents memory' history' chains' contents') :
    PlaceInv cfg memory' history' chains' contents' tid worker := by
  have hnode : ∀ node, Reading history tid worker ∧ SafeNode history chains tid node →
      Reading history' tid worker ∧ SafeNode history' chains' tid node :=
    fun node hinv => ⟨hinv.1.frame hframe, hframe.node hinv.1.announced node hinv.2⟩
  have hlinking : ∀ unlinked, Writing memory tid worker ∧ worker.thread.pc = .idle ∧
      Linking cfg memory.map history chains worker.buffer unlinked →
      Writing memory' tid worker ∧ worker.thread.pc = .idle ∧
        Linking cfg memory'.map history' chains' worker.buffer unlinked := by
    rintro unlinked ⟨hwriting, hidle, hlinking⟩
    obtain ⟨-, hmap, rfl, -, hstage⟩ := hframe.locked hwriting.locked
    refine ⟨hwriting.frame hframe, hidle, ?_⟩
    rw [hmap]
    rcases hlinking with
        ⟨hbuffer, hunlinked⟩ | ⟨i, before, fresh, after, target, hbuffer, hsplice, hlive⟩
    · exact .inl ⟨hbuffer, fun node hnode =>
        (hstage _ (.inl (hunlinked node hnode))).trans (hunlinked node hnode)⟩
    · exact .inr ⟨i, before, fresh, after, target, hbuffer, hsplice, fun node hnode =>
        (hstage _ (.inr (hlive node hnode))).trans (hlive node hnode)⟩
  unfold PlaceInv at h ⊢
  cases hpc : worker.pc with
  | idle => simpa only [hpc] using h
  | returned key result => simpa only [hpc] using h
  | putLock key value => simpa only [hpc] using h
  | removeLock key => simpa only [hpc] using h
  | getTable key =>
      simp only [hpc] at h ⊢
      rcases h with
          hentering | hreading |
          ⟨hnone, hidle, hdepth, own, zeros, epoch, htls, hzeros, hbuffer, hne, hle⟩
      · exact .inl hentering
      · exact .inr (.inl (hreading.frame hframe))
      · exact .inr (.inr ⟨hframe.announced.trans hnone, hidle, hdepth, own, zeros, epoch, htls,
          hzeros, hbuffer, hne, UInt64.le_trans hle hframe.epoch⟩)
  | getBucket key table =>
      simp only [hpc] at h ⊢
      exact ⟨h.1.frame hframe, hframe.table h.1.announced table h.2.1,
        Nat.lt_of_lt_of_le h.2.2 hframe.tableCount⟩
  | getKey key current => simp only [hpc] at h ⊢; exact hnode current h
  | getSeqBefore key current => simp only [hpc] at h ⊢; exact hnode current h
  | getValue key current seq => simp only [hpc] at h ⊢; exact hnode current h
  | getSeqAfter key current seq value => simp only [hpc] at h ⊢; exact hnode current h
  | getNext key current => simp only [hpc] at h ⊢; exact hnode current h
  | getExit key result =>
      simp only [hpc] at h ⊢
      exact h.frame hframe
  | putGrow key value =>
      simp only [hpc] at h ⊢
      exact ⟨h.1.frame hframe, h.2⟩
  | removeLink key =>
      simp only [hpc] at h ⊢
      exact ⟨h.1.frame hframe, h.2⟩
  | putRetireTable key value oldTable =>
      simp only [hpc] at h ⊢
      obtain ⟨hwriting, hidle, hpublishing⟩ := h
      obtain ⟨-, hmap, rfl, rfl, hstage⟩ := hframe.locked hwriting.locked
      refine ⟨hwriting.frame hframe, hidle, ?_⟩
      rw [hmap]
      rcases hpublishing with
          ⟨hbuffer, hunlinked⟩ | ⟨newTable, hbuffer, hold, hnew, hlive, hrepresents⟩
      · exact .inl ⟨hbuffer, (hstage _ (.inl hunlinked)).trans hunlinked⟩
      · exact .inr ⟨newTable, hbuffer, hold, hnew, (hstage _ (.inr hlive)).trans hlive,
          hrepresents⟩
  | putLink key value =>
      simp only [hpc] at h ⊢
      exact ⟨h.1.frame hframe, h.2⟩
  | unlock =>
      simp only [hpc] at h ⊢
      exact ⟨h.1.frame hframe, h.2⟩
  | putCount => simp only [hpc] at h ⊢; exact hlinking none h
  | removeCount current => simp only [hpc] at h ⊢; exact hlinking (some current) h
  | generation retired => simp only [hpc] at h ⊢; exact hlinking retired h

end Stability

end HotPath.Concurrency.MapSteps
