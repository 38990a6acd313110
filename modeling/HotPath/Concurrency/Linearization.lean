import HotPath.Concurrency.BufferedEpoch
import HotPath.Concurrency.MapInvariant
import HotPath.Concurrency.SequentialMap
import HotPath.Concurrency.TableWalks

/-!
# `Get` is linearizable

With sequentially consistent memory, the contents of the map change at the store of a link in `Put`
and `Remove`. `observer` records them, and for every `Get` the values that its key has had since
the call. `gets_linearizable` says that `Get` returns one of these, also if it walks nodes that
have been unlinked or a table that has been replaced.

The invariant of a reader (`Reads`) says what it would return if nobody interfered any more. Writers
interfere in three ways (`Follows`): they count, they replace the table, and they store a link.
-/

namespace HotPath.Concurrency.MapSteps

open HotPath.Foundation

variable {K V : Type}

/-! ## What a `Get` may return -/

/-- The contents of the map, and for every thread the values that the key of its `Get` has had
since the call. -/
structure Observed (K V : Type) where
  contents : K → Option V
  seen : ThreadId → List (Option V)

/-- The key of a `Get` that has not returned. -/
def Pc.reading : Pc K V → Option K
  | .getTable key | .getBucket key _ | .getKey key _ | .getSeqBefore key _ | .getValue key _ _
  | .getSeqAfter key _ _ _ | .getNext key _ | .getExit key _ => some key
  | _ => none

/-- The thread calls `Get`. -/
def startsGet (tid : ThreadId) : Event K V → Bool
  | .call caller (.get _) => caller = tid
  | _ => false

variable [DecidableEq K]

/-- The contents after an event. `Put` and `Remove` change them with the store of the link. -/
def linked (state : State K V) (contents : K → Option V) : Event K V → K → Option V
  | .run tid =>
      match (state.workers tid).pc, (state.workers tid).thread.pc with
      | .putLink key value, .idle => Function.update contents key (some value)
      | .removeLink key, .idle => Function.update contents key none
      | _, _ => contents
  | _ => contents

/-- Records the contents, and what every `Get` could have returned so far. -/
def observer : Recorder (State K V) (Event K V) (Observed K V) where
  start _ := ⟨fun _ => none, fun _ => []⟩
  observe state event next observed :=
    let contents := linked state observed.contents event
    { contents
      seen := fun tid =>
        match (next.workers tid).pc.reading with
        | some key => (if startsGet tid event then [] else observed.seen tid) ++ [contents key]
        | none => observed.seen tid }

/-- In every sequentially consistent run, the recorded contents are what `Get` returns if nobody
interferes, and every `Get` returns a value that its key had between the call and the return. -/
def LinearizableGets (cfg : MapConfig K) (V : Type) : Prop :=
  ∀ pair, ((sequential cfg).withHistory observer).Reachable (fun _ _ => True)
      (pair : State K V × Observed K V) →
    (∀ key, pair.1.memory.map.get cfg key = some (pair.2.contents key)) ∧
      ∀ tid key result, (pair.1.workers tid).pc = .returned key result → result ∈ pair.2.seen tid

/-! ## How writers interfere -/

section Writers

variable {cfg : MapConfig K} {map map' : RcuHashMap K V} {contents contents' : K → Option V}
  {chains : Chains} {home home' : NodeId → TableId → Nat → Prop}

omit [DecidableEq K] in
/-- What readers rely on: memory is kept, and something that was seen stays ahead of them. -/
structure Interferes (cfg : MapConfig K) (map : RcuHashMap K V)
    (home : NodeId → TableId → Nat → Prop) (map' : RcuHashMap K V) (contents' : K → Option V)
    (home' : NodeId → TableId → Nat → Prop) : Prop where
  nodeCount : map.nodeCount ≤ map'.nodeCount
  tableCount : map.tableCount ≤ map'.tableCount
  size : ∀ table < map.tableCount, (map'.tables table).size = (map.tables table).size
  fields : ∀ node < map.nodeCount, map'.entry node = map.entry node
  stay : ∀ node table i, home node table i → home' node table i
  ahead : ∀ key seen seen' table start, seen ⊆ seen' → contents' key ∈ seen' →
    (∀ node, start = some node → home node table (map.bucketIndex cfg table key)) →
    Ahead map key seen start → Ahead map' key seen' start
  bucket : ∀ key seen seen' table, seen ⊆ seen' → contents' key ∈ seen' →
    table < map.tableCount →
    Ahead map key seen ((map.tables table).buckets (map.bucketIndex cfg table key)) →
    Ahead map' key seen' ((map'.tables table).buckets (map'.bucketIndex cfg table key))

/-- A step of a writer keeps the invariants of the memory, and readers can rely on it. -/
def Follows (cfg : MapConfig K) (map : RcuHashMap K V) (home : NodeId → TableId → Nat → Prop)
    (map' : RcuHashMap K V) (contents' : K → Option V) : Prop :=
  ∃ chains' home', HeapInv cfg map' chains' contents' ∧ HomeInv map' chains' home' ∧
    Interferes cfg map home map' contents' home'

variable {key : K} {table : TableId}

omit [DecidableEq K] in
/-- Where memory that is in use stays as it is, nothing changes for the readers. -/
theorem Interferes.of_same (hheap : HeapInv cfg map chains contents)
    (hhome : HomeInv map chains home) (hnodeCount : map.nodeCount ≤ map'.nodeCount)
    (htableCount : map.tableCount ≤ map'.tableCount)
    (hnodes : ∀ node < map.nodeCount, map'.nodes node = map.nodes node)
    (htables : ∀ table < map.tableCount, map'.tables table = map.tables table)
    (hstay : ∀ node table i, home node table i → home' node table i) :
    Interferes cfg map home map' contents' home' where
  nodeCount := hnodeCount
  tableCount := htableCount
  size := fun table hlt => by rw [htables table hlt]
  fields := fun node hlt => by simp only [RcuHashMap.entry, hnodes node hlt]
  stay := hstay
  ahead := fun key seen seen' table start hseen _ hstart hahead =>
    hahead.extend hhome hstart hnodes hseen
  bucket := fun key seen seen' table hseen _ hlt hahead => by
    simp only [RcuHashMap.bucketIndex, htables table hlt]
    exact hahead.extend hhome (hhome.head hheap hlt (Nat.mod_lt _ (hheap.size_pos table hlt)))
      hnodes hseen

omit [DecidableEq K] in
/-- The counters change. -/
theorem Follows.counters (hheap : HeapInv cfg map chains contents)
    (hhome : HomeInv map chains home) (count : Nat) (generation : UInt64) :
    Follows cfg map home { map with count := count, generation := generation } contents := by
  obtain ⟨hext, hheap'⟩ := hheap.counters count generation
  exact ⟨chains, home, hheap', ⟨hhome.placed, hhome.allocated, hhome.unique, hhome.next⟩,
    .of_same hheap hhome (Nat.le_refl _) (Nat.le_refl _) hext.nodes hext.tables
      fun _ _ _ h => h⟩

/-- A new table is built and published. -/
theorem Follows.resize (hheap : HeapInv cfg map chains contents)
    (hhome : HomeInv map chains home) {newSize : Nat} (hsize : 0 < newSize)
    {built : RcuHashMap K V} (hbuilt : RcuHashMap.buildTable cfg map newSize = some built) :
    Follows cfg map home (built.publish map.tableCount) contents := by
  obtain ⟨copy, newChains, hcopy, hext, -, hfresh, hheap', hnew⟩ := hheap.build hsize
  obtain rfl := Option.some.inj (hbuilt.symm.trans hcopy)
  have hpublished : HeapInv cfg (built.publish map.tableCount)
      (Function.update chains map.tableCount newChains) contents :=
    hheap'.publish (by rwa [Function.update_self])
  have hhome' := hhome.grow hpublished hext.nodeCount hfresh fun node hlt =>
    .inl (hext.next_eq hlt)
  exact ⟨_, _, hpublished, hhome', .of_same hheap hhome hext.nodeCount hext.tableCount hext.nodes
    hext.tables fun _ _ _ h => .inl h⟩

/-- The store of a link. -/
theorem Follows.link (hheap : HeapInv cfg map chains contents) (hhome : HomeInv map chains home)
    {prepared : RcuHashMap K V} {i : Nat} {before middle fresh after : List NodeId}
    (hext : Extends map prepared) (hcount : prepared.tableCount = map.tableCount)
    (hfresh : ∀ node ∈ fresh, map.nodeCount ≤ node)
    (hsplice : Splice cfg prepared chains i before middle fresh after contents')
    (hlink : Link map (prepared.storeLink i before.getLast? (fresh ++ after).head?) i before
      (fresh ++ after)) :
    Follows cfg map home (prepared.storeLink i before.getLast? (fresh ++ after).head?)
      contents' := by
  have hprepared := hheap.extend hext hcount
  have hheap' := hprepared.splice hsplice
  have hi : i < map.tableSize := by
    have hbucket := hsplice.bucket
    rwa [RcuHashMap.tableSize, hext.table, hext.tables _ hheap.represents.table_lt] at hbucket
  have hchain : chains map.table i = before ++ (middle ++ after) := hext.table ▸ hsplice.chain
  have hnew : Represents cfg (prepared.storeLink i before.getLast? (fresh ++ after).head?)
      (Function.update (chains map.table) i (before ++ (fresh ++ after))) contents' :=
    hext.table ▸ hsplice.represents
  have hhome' := hhome.grow hheap' hlink.grow ?_ ?_
  · refine ⟨_, _, hheap', hhome', hlink.grow, Nat.le_of_eq hlink.tableCount.symm,
      fun table _ => hlink.size table, fun node hlt => (hlink.fields node hlt).1,
      fun _ _ _ h => .inl h, ?_, ?_⟩
    · intro key seen seen' table start hseen hcontents hstart hahead
      exact hahead.link hhome hlink hheap hi hchain hnew hseen hcontents hstart
    · intro key seen seen' table hseen hcontents hlt hahead
      exact hahead.linkBucket hhome hlink hheap hlt hi hchain hnew hseen hcontents
  · intro table j node hmem
    rcases hsplice.mem_old hmem with hold | ⟨-, -, hnode⟩
    · exact .inl hold
    · exact .inr (hfresh node hnode)
  · intro node hlt
    rw [hlink.next node hlt]
    split
    · next hlast =>
        -- The last node before the link stays in its chain.
        refine .inr ⟨prepared.table, i, ?_⟩
        simp [spliced, List.mem_of_getLast? hlast]
    · exact .inl rfl

/-- `Put` links its node. -/
theorem Follows.put (hheap : HeapInv cfg map chains contents) (hhome : HomeInv map chains home)
    (key : K) (value : V) : ∃ node store replaced,
      preparePut cfg map key value = some (node, store, replaced) ∧
      Follows cfg map home (store.onMap (map.newNode node))
        (Function.update contents key (some value)) := by
  obtain ⟨node, replaced, i, before, after, hprepare, hsplice⟩ := preparePut_spec hheap key value
  refine ⟨node, _, replaced, hprepare, ?_⟩
  rw [linkStore_onMap]
  refine .link hheap hhome (.newNode map node) rfl ?_ hsplice
    (link_storeLink (map.newNode node) i before _).after_newNode
  intro fresh hmem
  obtain rfl := List.mem_singleton.mp hmem
  exact Nat.le_refl _

/-- `Remove` unlinks a node, or finds none. -/
theorem Follows.remove (hheap : HeapInv cfg map chains contents) (hhome : HomeInv map chains home)
    (key : K) :
    (prepareRemove cfg map key = some none ∧ Function.update contents key none = contents) ∨
    ∃ store removed, prepareRemove cfg map key = some (some (store, removed)) ∧
      Follows cfg map home (store.onMap map) (Function.update contents key none) := by
  rcases prepareRemove_spec hheap key with
      ⟨hnone, hprepare⟩ | ⟨i, before, removed, after, hprepare, hsplice⟩
  · exact .inl ⟨hprepare, Function.update_eq_self_iff.mpr hnone.symm⟩
  · refine .inr ⟨_, removed, hprepare, ?_⟩
    rw [linkStore_onMap]
    exact .link hheap hhome ⟨rfl, Nat.le_refl _, Nat.le_refl _, fun _ _ => rfl, fun _ _ => rfl⟩ rfl
      (by simp) hsplice (link_storeLink map i before _)

end Writers

/-! ## Readers -/

section Readers

variable {cfg : MapConfig K} {map map' : RcuHashMap K V} {contents contents' : K → Option V}
  {chains : Chains} {home home' : NodeId → TableId → Nat → Prop} {seen seen' : List (Option V)}

omit [DecidableEq K] in
/-- The reader stands on a node of the bucket of its key, in a table that it has loaded. -/
def Standing (cfg : MapConfig K) (map : RcuHashMap K V) (home : NodeId → TableId → Nat → Prop)
    (key : K) (current : NodeId) : Prop :=
  ∃ table < map.tableCount, home current table (map.bucketIndex cfg table key)

/-- The value of the node has been seen. -/
def ValueSeen (map : RcuHashMap K V) (seen : List (Option V)) (current : NodeId) : Prop :=
  current < map.nodeCount ∧ some (map.nodes current).value ∈ seen

/-- What holds at each place in `Get`. -/
def Reads (cfg : MapConfig K) (map : RcuHashMap K V) (contents : K → Option V)
    (home : NodeId → TableId → Nat → Prop) (seen : List (Option V)) : Pc K V → Prop
  | .getTable key => contents key ∈ seen
  | .getBucket key table => table < map.tableCount ∧
      Ahead map key seen ((map.tables table).buckets (map.bucketIndex cfg table key))
  | .getKey key current => Standing cfg map home key current ∧ Ahead map key seen (some current)
  | .getNext key current => Standing cfg map home key current ∧ (map.nodes current).key ≠ key ∧
      Ahead map key seen (some current)
  | .getSeqBefore _ current | .getValue _ current _ => ValueSeen map seen current
  | .getSeqAfter _ current _ value => ValueSeen map seen current ∧ some value ∈ seen
  | .getExit _ result | .returned _ result => result ∈ seen
  | _ => True

omit [DecidableEq K] in
theorem ValueSeen.interferes {current : NodeId} (h : ValueSeen map seen current)
    (hmap : Interferes cfg map home map' contents' home') (hseen : seen ⊆ seen') :
    ValueSeen map' seen' current := by
  obtain ⟨hlt, hmem⟩ := h
  have hvalue : (map'.nodes current).value = (map.nodes current).value :=
    congrArg Prod.snd (hmap.fields current hlt)
  exact ⟨Nat.lt_of_lt_of_le hlt hmap.nodeCount, hvalue ▸ hseen hmem⟩

omit [DecidableEq K] in
theorem Standing.interferes {key : K} {current : NodeId}
    (h : Standing cfg map home key current)
    (hmap : Interferes cfg map home map' contents' home') :
    Standing cfg map' home' key current := by
  obtain ⟨table, hlt, hhome⟩ := h
  refine ⟨table, Nat.lt_of_lt_of_le hlt hmap.tableCount, hmap.stay _ _ _ ?_⟩
  rwa [RcuHashMap.bucketIndex, hmap.size table hlt]

omit [DecidableEq K] in
theorem Standing.allocated {key : K} {current : NodeId} (h : Standing cfg map home key current)
    (hhome : HomeInv map chains home) : current < map.nodeCount := by
  obtain ⟨table, -, hin⟩ := h
  exact hhome.allocated current table _ hin

omit [DecidableEq K] in
/-- What is ahead of a reader on a node stays ahead of it. -/
theorem Standing.ahead {key : K} {current : NodeId} (h : Standing cfg map home key current)
    (hahead : Ahead map key seen (some current))
    (hmap : Interferes cfg map home map' contents' home') (hseen : seen ⊆ seen')
    (hcontents : contents' key ∈ seen') : Ahead map' key seen' (some current) := by
  obtain ⟨table, -, hhome⟩ := h
  refine hmap.ahead key seen seen' table _ hseen hcontents ?_ hahead
  rintro node ⟨⟩
  exact hhome

omit [DecidableEq K] in
/-- A reader goes on relying on what holds at its place. -/
theorem Reads.interferes {pc : Pc K V} (h : Reads cfg map contents home seen pc)
    (hhome : HomeInv map chains home) (hmap : Interferes cfg map home map' contents' home')
    (hseen : seen ⊆ seen') (hcontents : ∀ key, pc.reading = some key → contents' key ∈ seen') :
    Reads cfg map' contents' home' seen' pc := by
  cases pc with
  | getTable key => exact hcontents key rfl
  | getBucket key table =>
      exact ⟨Nat.lt_of_lt_of_le h.1 hmap.tableCount,
        hmap.bucket key seen seen' table hseen (hcontents key rfl) h.1 h.2⟩
  | getKey key current =>
      exact ⟨h.1.interferes hmap, h.1.ahead h.2 hmap hseen (hcontents key rfl)⟩
  | getNext key current =>
      obtain ⟨hstanding, hkey, hahead⟩ := h
      have hlt := hstanding.allocated hhome
      have hkey' : (map'.nodes current).key = (map.nodes current).key :=
        congrArg Prod.fst (hmap.fields current hlt)
      exact ⟨hstanding.interferes hmap, hkey' ▸ hkey,
        hstanding.ahead hahead hmap hseen (hcontents key rfl)⟩
  | getSeqBefore key current => exact ValueSeen.interferes h hmap hseen
  | getValue key current seq => exact ValueSeen.interferes h hmap hseen
  | getSeqAfter key current seq value => exact ⟨h.1.interferes hmap hseen, hseen h.2⟩
  | getExit key result => exact hseen h
  | returned key result => exact hseen h
  | _ => trivial

/-- A reader takes its next step in `Get`. -/
theorem Reads.run {memory memory' : Memory K V} {tid : ThreadId} {worker worker' : Worker K V}
    {key : K} (h : Reads cfg memory.map contents home seen worker.pc)
    (hheap : HeapInv cfg memory.map chains contents) (hhome : HomeInv memory.map chains home)
    (hreading : worker.pc.reading = some key)
    (hrun : runMap cfg memory tid worker = some (memory', worker')) :
    memory'.map = memory.map ∧ worker'.buffer = worker.buffer ∧
      Reads cfg memory.map contents home seen worker'.pc := by
  cases runMap_cases hrun with
  | getTable key hpc =>
      simp only [hpc] at h
      exact ⟨rfl, rfl, hheap.represents.table_lt, hheap.represents.ahead h⟩
  | getHead key table current hpc hbucket =>
      simp only [hpc] at h
      obtain ⟨hlt, hahead⟩ := h
      have hi := Nat.mod_lt (cfg.hash key).toNat (hheap.size_pos table hlt)
      rw [hbucket] at hahead
      exact ⟨rfl, rfl, ⟨table, hlt, hhome.head hheap hlt hi current hbucket⟩, hahead⟩
  | getEmpty key table hpc hbucket =>
      simp only [hpc] at h
      obtain ⟨hlt, hahead⟩ := h
      rw [hbucket] at hahead
      exact ⟨rfl, rfl, hahead.none⟩
  | getFound key current hpc hkey =>
      simp only [hpc] at h
      obtain ⟨hstanding, hahead⟩ := h
      exact ⟨rfl, rfl, hstanding.allocated hhome, hahead.value hkey⟩
  | getPassed key current hpc hkey =>
      simp only [hpc] at h
      obtain ⟨hstanding, hahead⟩ := h
      exact ⟨rfl, rfl, hstanding, hkey, hahead⟩
  | getOdd key current hpc => exact ⟨rfl, rfl, h⟩
  | getEven key current hpc =>
      simp only [hpc] at h
      exact ⟨rfl, rfl, h⟩
  | getValue key current seq hpc =>
      simp only [hpc] at h
      exact ⟨rfl, rfl, h, h.2⟩
  | getSame key current seq value hpc hsame =>
      simp only [hpc] at h
      exact ⟨rfl, rfl, h.2⟩
  | getChanged key current seq value hpc hchanged =>
      simp only [hpc] at h
      exact ⟨rfl, rfl, h.1⟩
  | getNext key current successor hpc hnext =>
      simp only [hpc] at h
      obtain ⟨⟨table, hlt, hin⟩, hkey, hahead⟩ := h
      have htail := hahead.tail hkey
      rw [RcuHashMap.next, hnext] at htail
      exact ⟨rfl, rfl, ⟨table, hlt, hhome.next current table _ successor hin hnext⟩, htail⟩
  | getEnd key current hpc hnext =>
      simp only [hpc] at h
      obtain ⟨-, hkey, hahead⟩ := h
      have htail := hahead.tail hkey
      rw [RcuHashMap.next, hnext] at htail
      exact ⟨rfl, rfl, htail.none⟩
  | getExit key result hpc =>
      simp only [hpc] at h
      exact ⟨rfl, rfl, h⟩
  | putLock _ _ hpc | putGrow _ _ _ hpc | putFits _ _ hpc | putRetireTable _ _ _ _ hpc
  | putRegister _ _ _ hpc | putLink _ _ _ _ _ hpc | putCount hpc | removeLock _ hpc
  | removeLink _ _ _ hpc | removeAbsent _ hpc | removeCount _ hpc | generation hpc
  | generationRetire _ hpc | unlock hpc => simp [hpc, Pc.reading] at hreading

end Readers

/-! ## Every step -/

section Steps

variable {cfg : MapConfig K} {state : State K V} {memory memory' : Memory K V} {tid : ThreadId}
  {worker worker' : Worker K V} {contents : K → Option V} {chains : Chains}
  {home : NodeId → TableId → Nat → Prop} {seen : List (Option V)}

omit [DecidableEq K] in
/-- A step inside the engine leaves the map alone, and the place in it. -/
theorem runEbr_map (hbuffer : worker.buffer = [])
    (hrun : runEbr memory tid worker = some (memory', worker')) :
    view memory'.map worker'.buffer = memory.map ∧ worker'.pc = worker.pc := by
  rcases runEbr_cases hrun with
      ⟨epoch, tcb, -, -, rfl, rfl⟩ | ⟨tcb, -, -, rfl, rfl⟩ | ⟨minEpoch, curr, -, rfl, rfl⟩ |
      ⟨ebr, thread, -, -, -, rfl, rfl⟩
  · exact ⟨by rw [hbuffer]; rfl, rfl⟩
  · exact ⟨by rw [hbuffer]; rfl, rfl⟩
  · exact ⟨by rw [hbuffer]; rfl, rfl⟩
  · exact ⟨by rw [hbuffer]; rfl, rfl⟩

/-- A writer takes its next step in `Put` or `Remove`, and comes to a place outside of `Get`. -/
theorem Follows.run (hheap : HeapInv cfg state.memory.map chains contents)
    (hhome : HomeInv state.memory.map chains home)
    (hbuffer : (state.workers tid).buffer = [])
    (hidle : (state.workers tid).thread.pc = .idle)
    (hreading : (state.workers tid).pc.reading = none)
    (hrun : runMap cfg state.memory tid (state.workers tid) = some (memory', worker')) :
    Follows cfg state.memory.map home (view memory'.map worker'.buffer)
        (linked state contents (.run tid)) ∧
      Reads cfg state.memory.map contents home seen worker'.pc := by
  have hcounters := Follows.counters hheap hhome
  have hsame : Follows cfg state.memory.map home state.memory.map contents :=
    hcounters state.memory.map.count state.memory.map.generation
  simp only [linked, hidle]
  cases runMap_cases hrun with
  | putLock key value hpc | removeLock key hpc | unlock hpc =>
      simp only [hpc, Worker.goto, hbuffer]
      exact ⟨hsame, trivial⟩
  | putGrow key value built hpc hfull hbuilt =>
      simp only [hpc, Worker.goto, Worker.issue, hbuffer]
      exact ⟨.resize hheap hhome (Nat.mul_pos hheap.represents.size_pos (by decide)) hbuilt,
        trivial⟩
  | putFits key value hpc =>
      simp only [hpc, Worker.goto, hbuffer]
      exact ⟨hsame, trivial⟩
  | putRetireTable key value oldTable own hpc htls hload =>
      obtain ⟨hmap, hpc'⟩ := runEbr_map (by exact hbuffer) hload
      rw [hmap, hpc']
      simp only [hpc]
      exact ⟨hsame, trivial⟩
  | putRegister key value oldTable hpc =>
      simp only [hpc, Worker.goto, beginRetire, hbuffer]
      exact ⟨hsame, trivial⟩
  | putLink key value node store replaced hpc hprepare =>
      obtain ⟨node', store', replaced', hprepare', hfollows⟩ := Follows.put hheap hhome key value
      rw [hbuffer, show view state.memory.map [] = state.memory.map from rfl, hprepare'] at hprepare
      cases hprepare
      simp only [hpc, Worker.goto, Worker.issue, hbuffer]
      exact ⟨hfollows, by cases replaced <;> trivial⟩
  | putCount hpc | removeCount current hpc | generation hpc =>
      simp only [hpc, Worker.goto, hbuffer]
      exact ⟨hcounters _ _, trivial⟩
  | removeLink key store current hpc hprepare =>
      rw [hbuffer, show view state.memory.map [] = state.memory.map from rfl] at hprepare
      rcases Follows.remove hheap hhome key with
          ⟨hnone, -⟩ | ⟨store', removed, hprepare', hfollows⟩
      · cases hnone.symm.trans hprepare
      · cases hprepare'.symm.trans hprepare
        simp only [hpc, Worker.goto, Worker.issue, hbuffer]
        exact ⟨hfollows, trivial⟩
  | removeAbsent key hpc hprepare =>
      rw [hbuffer, show view state.memory.map [] = state.memory.map from rfl] at hprepare
      rcases Follows.remove hheap hhome key with ⟨-, hcontents⟩ | ⟨store, removed, hsome, -⟩
      · simp only [hpc, Worker.goto, hbuffer, hcontents]
        exact ⟨hsame, trivial⟩
      · cases hsome.symm.trans hprepare
  | generationRetire current hpc =>
      simp only [hpc, Worker.goto, beginRetire, hbuffer]
      exact ⟨hcounters _ _, trivial⟩
  | getTable _ hpc | getHead _ _ _ hpc | getEmpty _ _ hpc | getFound _ _ hpc | getPassed _ _ hpc
  | getOdd _ _ hpc | getEven _ _ hpc | getValue _ _ _ hpc | getSame _ _ _ _ hpc
  | getChanged _ _ _ _ hpc | getNext _ _ _ hpc | getEnd _ _ hpc | getExit _ _ hpc =>
      simp [hpc, Pc.reading] at hreading

/-- What an event does, as readers see it: a writer may interfere, and the thread comes to a place
where the invariant of `Get` holds, or calls `Get`. -/
theorem Follows.act {event : Event K V} (hheap : HeapInv cfg state.memory.map chains contents)
    (hhome : HomeInv state.memory.map chains home)
    (hbuffer : (state.workers event.thread).buffer = [])
    (hreads : Reads cfg state.memory.map contents home seen (state.workers event.thread).pc)
    (hact : MapSteps.act cfg state.memory event.thread (state.workers event.thread) event =
      some (memory', worker')) :
    Follows cfg state.memory.map home (view memory'.map worker'.buffer)
        (linked state contents event) ∧
      ((∃ key, worker'.pc = .getTable key) ∨ startsGet event.thread event = false ∧
        Reads cfg state.memory.map contents home seen worker'.pc) := by
  have hsame : Follows cfg state.memory.map home state.memory.map contents :=
    .counters hheap hhome state.memory.map.count state.memory.map.generation
  cases event with
  | call tid op =>
      simp only [MapSteps.act, Option.ite_none_right_eq_some, Option.some.injEq] at hact
      obtain ⟨-, hcall⟩ := hact
      cases op with
      | get key =>
          obtain ⟨rfl, rfl⟩ := Prod.mk.inj hcall
          refine ⟨?_, .inl ⟨key, rfl⟩⟩
          simp only [Worker.goto, hbuffer]
          exact hsame
      | _ =>
          obtain ⟨rfl, rfl⟩ := Prod.mk.inj hcall
          refine ⟨?_, .inr ⟨rfl, trivial⟩⟩
          simp only [Worker.goto, hbuffer]
          exact hsame
  | run tid =>
      change MapSteps.run cfg state.memory tid (state.workers tid) = some (memory', worker') at hact
      unfold MapSteps.run at hact
      split at hact
      · next hidle =>
          cases hreading : (state.workers tid).pc.reading with
          | none =>
              obtain ⟨hfollows, hplace⟩ := Follows.run hheap hhome hbuffer hidle hreading hact
              exact ⟨hfollows, .inr ⟨rfl, hplace⟩⟩
          | some key =>
              obtain ⟨hmap, hbuffer', hplace⟩ := hreads.run hheap hhome hreading hact
              have hlinked : linked state contents (.run tid) = contents := by
                cases hpc : (state.workers tid).pc <;>
                  simp [hpc, Pc.reading] at hreading <;> simp [linked, hpc]
              rw [hbuffer', hbuffer, hlinked, hmap]
              exact ⟨hsame, .inr ⟨rfl, hplace⟩⟩
      · next hidle =>
          obtain ⟨hmap, hpc⟩ := runEbr_map hbuffer hact
          have hlinked : linked state contents (.run tid) = contents := by
            cases hthread : (state.workers tid).thread.pc with
            | idle => exact absurd hthread hidle
            | _ => simp [linked, hthread]
          rw [hmap, hpc, hlinked]
          exact ⟨hsame, .inr ⟨rfl, hreads⟩⟩
  | drain tid =>
      simp [MapSteps.act, hbuffer] at hact

end Steps

section Runs

variable {cfg : MapConfig K} {pair next : State K V × Observed K V} {event : Event K V}

omit [DecidableEq K] in
/-- Draining a buffer puts its stores into the map. -/
theorem settle_map (state : State K V) (tid : ThreadId) :
    (settle state tid).memory.map = view state.memory.map (state.workers tid).buffer := by
  have hfold : ∀ (buffer : List Store) (memory : Memory K V),
      (buffer.foldl Memory.apply memory).map = view memory.map buffer := by
    intro buffer
    induction buffer with
    | nil => exact fun _ => rfl
    | cons store rest ih => exact fun memory => ih (memory.apply store)
  exact hfold _ _

/-- The invariant of a run. -/
structure GetsInv (cfg : MapConfig K) (pair : State K V × Observed K V) : Prop where
  settled : Settled pair.1
  reads : ∃ chains home, HeapInv cfg pair.1.memory.map chains pair.2.contents ∧
    HomeInv pair.1.memory.map chains home ∧ ∀ tid, Reads cfg pair.1.memory.map pair.2.contents home
      (pair.2.seen tid) (pair.1.workers tid).pc

omit [DecidableEq K] in
theorem GetsInv.init (cfg : MapConfig K) (memory : NodeId → MapNode K V) :
    GetsInv cfg (({ memory := { map := RcuHashMap.create cfg memory } } : State K V),
      (⟨fun _ => none, fun _ => []⟩ : Observed K V)) :=
  ⟨fun _ => rfl, fun _ _ => [], fun _ _ _ => False, .create cfg memory, .create _, fun _ => trivial⟩

/-- Every step keeps the invariant. -/
theorem GetsInv.step (h : GetsInv cfg pair)
    (hstep : ((sequential cfg).withHistory observer).step pair event = some next) :
    GetsInv cfg next := by
  obtain ⟨state, observed⟩ := pair
  obtain ⟨hsettled, chains, home, hheap, hhome, hreads⟩ := h
  obtain ⟨hstate, hobserved⟩ := System.withHistory_step.mp hstep
  have hsettled' := hsettled.step hstate
  obtain ⟨middle, hmiddle, hsettle⟩ := Option.map_eq_some_iff.mp hstate
  obtain ⟨⟨memory', worker'⟩, hact, rfl⟩ := Option.map_eq_some_iff.mp hmiddle
  obtain ⟨⟨chains', home', hheap', hhome', hmap⟩, hplace⟩ :=
    Follows.act hheap hhome (hsettled event.thread) (hreads event.thread) hact
  have hmemory : next.1.memory.map = view memory'.map worker'.buffer := by
    rw [← hsettle, settle_map]
    simp only [Function.update_self]
  have hself : (next.1.workers event.thread).pc = worker'.pc := by
    rw [← hsettle]
    simp only [settle, Function.update_self]
  have hother : ∀ tid, tid ≠ event.thread → next.1.workers tid = state.workers tid := by
    intro tid hne
    rw [← hsettle]
    simp only [settle, Function.update_of_ne hne]
  have hcontents : next.2.contents = linked state observed.contents event := by
    rw [hobserved]
    rfl
  refine ⟨hsettled', chains', home', ?_, ?_, fun tid => ?_⟩
  · rwa [hmemory, hcontents]
  · rwa [hmemory]
  rw [hmemory, hcontents]
  -- The value of the key is recorded after every event.
  have hrecorded : ∀ key, (next.1.workers tid).pc.reading = some key →
      linked state observed.contents event key ∈ next.2.seen tid := by
    intro key hreading
    rw [hobserved]
    simp [observer, hreading]
  have hgrows : startsGet tid event = false → observed.seen tid ⊆ next.2.seen tid := by
    intro hstarts
    rw [hobserved]
    simp only [observer, hstarts]
    split <;> simp
  by_cases heq : tid = event.thread
  · subst heq
    rcases hplace with ⟨key, hpc⟩ | ⟨hstarts, hplace⟩
    · rw [hself, hpc]
      exact hrecorded key (by rw [hself, hpc]; rfl)
    · rw [hself] at hrecorded ⊢
      exact hplace.interferes hhome hmap (hgrows hstarts) hrecorded
  · have hstarts : startsGet tid event = false := by
      cases event with
      | call caller op =>
          cases op with
          | get key => exact decide_eq_false fun hcaller => heq hcaller.symm
          | _ => rfl
      | _ => rfl
    rw [hother tid heq] at hrecorded ⊢
    exact (hreads tid).interferes hhome hmap (hgrows hstarts) hrecorded

end Runs

/-- The invariant holds in every recorded run. -/
theorem GetsInv.of_reachable {cfg : MapConfig K} {pair : State K V × Observed K V}
    (hreach : ((sequential cfg).withHistory observer).Reachable (fun _ _ => True) pair) :
    GetsInv cfg pair := by
  refine hreach.invariant (GetsInv cfg) ?_ ?_
  · rintro ⟨state, observed⟩ ⟨⟨memory, hstate⟩, hobserved⟩
    obtain rfl : state = _ := hstate
    obtain rfl : observed = ⟨fun _ => none, fun _ => []⟩ := hobserved
    exact GetsInv.init cfg memory
  · exact fun pair event next h _ hstep => h.step hstep

/-- `Get` is linearizable. -/
theorem gets_linearizable (cfg : MapConfig K) (V : Type) : LinearizableGets cfg V := by
  intro pair hreach
  obtain ⟨-, chains, home, hheap, -, hreads⟩ := GetsInv.of_reachable hreach
  refine ⟨fun key => hheap.represents.get key, fun tid key result hpc => ?_⟩
  have hplace := hreads tid
  rw [hpc] at hplace
  exact hplace

end HotPath.Concurrency.MapSteps
