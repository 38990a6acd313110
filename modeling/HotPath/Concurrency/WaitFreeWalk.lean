import HotPath.Concurrency.Linearization

/-!
# The walk of `Get` is wait-free

With sequentially consistent memory, `walker` records for every thread the chain that the bucket
held when its `Get` loaded the head, and the nodes that this `Get` has visited since. A node of the
chain has its index as its position, and the node that replaces another one in `Put` takes over
its position. Every other node is out of the chain, at a position beyond its end.

Whatever writers do, a node of the chain only leads to nodes of the chain further on (`Forward`):
`Put` and `Remove` redirect one link, past a removed node or to the node that replaces its target
(`Relinks`). So the visited positions increase. The sequence number of a node is never stored to
(`Still`), and one round of the inner loop is enough.
-/

namespace HotPath.Concurrency.MapSteps

open HotPath.Foundation

variable {K V : Type}

/-! ## What is recorded -/

/-- The last `Get` of a thread, from the load of its head on. -/
structure Walk where
  chain : List NodeId := []
  position : NodeId → Nat := fun _ => 0
  visited : List NodeId := []
  rounds : Nat := 0
  steps : Nat := 0

/-- `Get` has loaded the head of the chain. -/
def Pc.walking : Pc K V → Bool
  | .getKey _ _ | .getSeqBefore _ _ | .getValue _ _ _ | .getSeqAfter _ _ _ _ | .getNext _ _
  | .getExit _ _ | .returned _ _ => true
  | _ => false

/-- The node whose key is loaded next. -/
def Pc.visiting : Pc K V → Option NodeId
  | .getKey _ current => some current
  | _ => none

/-- The event is a step of the thread. -/
def runs (tid : ThreadId) : Event K V → Bool
  | .run runner => runner = tid
  | _ => false

/-- The bucket of a key in a table holds this chain. -/
def chainAt (cfg : MapConfig K) (map : RcuHashMap K V) (key : K) (table : TableId) : List NodeId :=
  walk map (map.nodeCount + 1) ((map.tables table).buckets (map.bucketIndex cfg table key))

/-- A step of the thread in `Get`, from one place to the next. -/
def Walk.advance (walk : Walk) (cfg : MapConfig K) (map : RcuHashMap K V) (pc pc' : Pc K V) :
    Walk :=
  match pc with
  | .getBucket key table =>
      { chain := chainAt cfg map key table
        position := fun node => (chainAt cfg map key table).idxOf node
        visited := pc'.visiting.toList }
  | .getSeqBefore _ _ => { walk with rounds := walk.rounds + 1, steps := walk.steps + 1 }
  | _ => { walk with visited := walk.visited ++ pc'.visiting.toList, steps := walk.steps + 1 }

/-- A node takes the position of the one that it replaces. -/
def Walk.inherit (walk : Walk) : Option (NodeId × NodeId) → Walk
  | some (node, current) =>
      { walk with position := Function.update walk.position node (walk.position current) }
  | none => walk

variable [DecidableEq K] (cfg : MapConfig K)

/-- The node that a step of `Put` links, and the one that it replaces. -/
def replacement (state : State K V) : Event K V → Option (NodeId × NodeId)
  | .run tid =>
      match (state.workers tid).pc, (state.workers tid).thread.pc with
      | .putLink key value, .idle =>
          (preparePut cfg state.memory.map key value).bind fun (_, _, replaced) =>
            replaced.map fun current => (state.memory.map.nodeCount, current)
      | _, _ => none
  | _ => none

/-- Records the walk of every thread. -/
def walker : Recorder (State K V) (Event K V) (ThreadId → Walk) where
  start _ _ := {}
  observe state event next walks tid :=
    let walk :=
      if runs tid event then
        (walks tid).advance cfg state.memory.map (state.workers tid).pc (next.workers tid).pc
      else walks tid
    walk.inherit (replacement cfg state event)

/-- The thread has returned from `Get`, and its critical section is over. -/
def Worker.finished (worker : Worker K V) : Prop :=
  (∃ key result, worker.pc = .returned key result) ∧ worker.thread.pc = .idle

/-- What is known about a `Get` that has loaded the head of its chain. It visits nodes at
increasing positions, and it ends after a number of its own steps that depends on the chain
only. -/
structure WaitFree (state : State K V) (walk : Walk) (tid : ThreadId) : Prop where
  positions : ∀ node ∈ walk.visited, walk.position node < walk.chain.length
  increasing : walk.visited.Pairwise fun node later => walk.position node < walk.position later
  visits : walk.visited.length ≤ walk.chain.length
  rounds : walk.rounds ≤ 1
  once : ∀ key value, (state.workers tid).pc = .returned key (some value) → walk.rounds = 1
  steps : walk.steps ≤ 2 * walk.chain.length + 4
  enabled : ¬ (state.workers tid).finished → ((sequential cfg).step state (.run tid)).isSome

/-- In every sequentially consistent run, the chain that is recorded is the one that the bucket
holds, and every walk through it is wait-free. -/
def WaitFreeGets (V : Type) : Prop :=
  ∀ pair, ((sequential cfg).withHistory (walker cfg)).Reachable (fun _ _ => True)
      (pair : State K V × (ThreadId → Walk)) → ∀ tid,
    (∀ key table, (pair.1.workers tid).pc = .getBucket key table →
      IsChain pair.1.memory.map.next ((pair.1.memory.map.tables table).buckets
        (pair.1.memory.map.bucketIndex cfg table key)) (chainAt cfg pair.1.memory.map key table)) ∧
    ((pair.1.workers tid).pc.walking → WaitFree cfg pair.1 (pair.2 tid) tid)

/-! ## What writers do to the links -/

section Writers

variable {cfg : MapConfig K} {map map' : RcuHashMap K V} {chains : Chains}
  {contents contents' : K → Option V} {walk : Walk} {replaced : Option (NodeId × NodeId)}

omit [DecidableEq K] in
/-- One step redirects links past a node, or from a replaced node to the one in its place. -/
structure Relinks (map map' : RcuHashMap K V) (replaced : Option (NodeId × NodeId)) : Prop where
  grow : map.nodeCount ≤ map'.nodeCount
  next : ∀ node < map.nodeCount, map'.next node = map.next node ∨
    (∃ removed, map.next node = some removed ∧ map'.next node = map.next removed) ∨
    ∃ fresh current, replaced = some (fresh, current) ∧ map.next node = some current ∧
      map'.next node = some fresh
  fresh : ∀ fresh current, replaced = some (fresh, current) →
    map.nodeCount ≤ fresh ∧ fresh < map'.nodeCount ∧ map'.next fresh = map.next current

/-- No sequence number has been stored to. -/
def Still (map : RcuHashMap K V) : Prop := ∀ node < map.nodeCount, (map.nodes node).seq = 0

/-- The nodes of the chain lead to nodes of the chain further on. -/
structure Forward (map : RcuHashMap K V) (walk : Walk) : Prop where
  allocated : ∀ node, walk.position node < walk.chain.length → node < map.nodeCount
  ahead : ∀ node successor, walk.position node < walk.chain.length →
    map.next node = some successor →
    walk.position node < walk.position successor ∧ walk.position successor < walk.chain.length

omit [DecidableEq K] in
/-- The position of a node that is there already does not change. -/
theorem Relinks.position_eq (h : Relinks map map' replaced) (hforward : Forward map walk)
    {node : NodeId} (hin : walk.position node < walk.chain.length) :
    (walk.inherit replaced).position node = walk.position node := by
  cases replaced with
  | none => rfl
  | some pair =>
      obtain ⟨hfresh, -⟩ := h.fresh pair.1 pair.2 rfl
      have hlt := hforward.allocated node hin
      exact Function.update_of_ne (Nat.ne_of_lt (Nat.lt_of_lt_of_le hlt hfresh)) ..

omit [DecidableEq K] in
theorem Walk.inherit_chain (walk : Walk) (replaced : Option (NodeId × NodeId)) :
    (walk.inherit replaced).chain = walk.chain := by
  cases replaced <;> rfl

omit [DecidableEq K] in
/-- A node in the chain was there before, or has just taken the place of one that was. -/
theorem Forward.origin (hin : (walk.inherit replaced).position node <
      (walk.inherit replaced).chain.length) :
    (walk.position node < walk.chain.length ∧
      (walk.inherit replaced).position node = walk.position node) ∨
    ∃ current, replaced = some (node, current) ∧ walk.position current < walk.chain.length ∧
      (walk.inherit replaced).position node = walk.position current := by
  rw [walk.inherit_chain] at hin
  cases replaced with
  | none => exact .inl ⟨hin, rfl⟩
  | some pair =>
      obtain ⟨fresh, current⟩ := pair
      simp only [Walk.inherit] at hin ⊢
      by_cases hnode : node = fresh
      · subst hnode
        rw [Function.update_self] at hin ⊢
        exact .inr ⟨current, rfl, hin, rfl⟩
      · rw [Function.update_of_ne hnode] at hin ⊢
        exact .inl ⟨hin, rfl⟩

omit [DecidableEq K] in
/-- Whatever a writer does to the links, the chain still leads forward. -/
theorem Forward.relinks (h : Forward map walk) (hmap : Relinks map map' replaced) :
    Forward map' (walk.inherit replaced) := by
  -- A link of the chain that is left alone.
  have hold : ∀ node successor, walk.position node < walk.chain.length →
      map.next node = some successor →
      walk.position node < (walk.inherit replaced).position successor ∧
        (walk.inherit replaced).position successor < walk.chain.length := by
    intro node successor hin hnext
    obtain ⟨hlt, hin'⟩ := h.ahead node successor hin hnext
    rw [hmap.position_eq h hin']
    exact ⟨hlt, hin'⟩
  refine ⟨fun node hin => ?_, fun node successor hin hnext => ?_⟩
  · rcases Forward.origin hin with ⟨hin, -⟩ | ⟨current, hreplaced, -, -⟩
    · exact Nat.lt_of_lt_of_le (h.allocated node hin) hmap.grow
    · exact (hmap.fresh node current hreplaced).2.1
  · rw [walk.inherit_chain]
    rcases Forward.origin hin with ⟨hpos, heq⟩ | ⟨current, hreplaced, hpos, heq⟩
    · rw [heq]
      rcases hmap.next node (h.allocated node hpos) with
          hsame | ⟨removed, hremoved, hskip⟩ | ⟨fresh, current, hreplaced, hcurrent, hfresh⟩
      · exact hold node successor hpos (hsame ▸ hnext)
      · obtain ⟨hlt, hin'⟩ := h.ahead node removed hpos hremoved
        obtain ⟨hlt', hin''⟩ := hold removed successor hin' (hskip ▸ hnext)
        exact ⟨Nat.lt_trans hlt hlt', hin''⟩
      · obtain rfl : fresh = successor := Option.some.inj (hfresh.symm.trans hnext)
        subst hreplaced
        simp only [Walk.inherit, Function.update_self]
        exact h.ahead node current hpos hcurrent
    · rw [heq]
      exact hold current successor hpos ((hmap.fresh node current hreplaced).2.2 ▸ hnext)

omit [DecidableEq K] in
/-- Where the nodes in use stay as they are, no link is redirected. -/
theorem Relinks.of_same (hgrow : map.nodeCount ≤ map'.nodeCount)
    (hnodes : ∀ node < map.nodeCount, map'.nodes node = map.nodes node) :
    Relinks map map' none :=
  ⟨hgrow, fun node hlt => .inl (congrArg MapNode.next (hnodes node hlt)), by simp⟩

omit [DecidableEq K] in
/-- The pointer of the last node in front of a link leads to the first node behind it. -/
theorem next_of_last {next : NodeId → Option NodeId} {start : Option NodeId}
    {before behind : List NodeId} {last : NodeId} (h : IsChain next start (before ++ behind))
    (hlast : before.getLast? = some last) : next last = behind.head? := by
  obtain ⟨front, rfl⟩ := List.getLast?_eq_some_iff.mp hlast
  rw [List.append_assoc, List.singleton_append] at h
  exact h.suffix.2.head_eq

/-- `Put` puts a node in the place of another one, or in front of the chain. -/
theorem Relinks.put (hheap : HeapInv cfg map chains contents) {key : K} {value : V}
    {node : MapNode K V} {store : Store} {current : Option NodeId}
    (hprepare : preparePut cfg map key value = some (node, store, current)) :
    Relinks map (store.onMap (map.newNode node))
      (current.map fun current => (map.nodeCount, current)) := by
  cases current with
  | none =>
      obtain ⟨prev, hstore⟩ := preparePut_absent hprepare
      subst hstore
      exact .of_same (Nat.le_succ _) fun other hlt => map.newNode_of_lt node hlt
  | some current =>
      obtain ⟨node', replaced, i, before, after, hprepare', hsplice⟩ :=
        preparePut_spec hheap key value
      obtain ⟨rfl, rfl, rfl⟩ : node = node' ∧ store = _ ∧ some current = replaced := by
        simpa using hprepare.symm.trans hprepare'
      rw [linkStore_onMap]
      have hlink : Link (map.newNode node)
          ((map.newNode node).storeLink i before.getLast? (some map.nodeCount)) i before
          (map.nodeCount :: after) := link_storeLink _ i before (map.nodeCount :: after)
      have hchain := hheap.represents.chain i hsplice.bucket
      rw [show chains map.table i = before ++ ([current] ++ after) from hsplice.chain] at hchain
      have hchain' : IsChain
          ((map.newNode node).storeLink i before.getLast? (some map.nodeCount)).next _ _ :=
        hsplice.represents.chain i (hlink.tableSize_eq ▸ hsplice.bucket)
      rw [Function.update_self, List.singleton_append] at hchain'
      refine ⟨hlink.after_newNode.grow, fun other hlt => ?_, ?_⟩
      · rw [hlink.after_newNode.next other hlt]
        split
        · next hlast =>
            exact .inr (.inr ⟨_, current, rfl, next_of_last hchain hlast, rfl⟩)
        · exact .inl rfl
      · rintro _ _ ⟨⟩
        refine ⟨Nat.le_refl _, hlink.grow, ?_⟩
        exact hchain'.suffix.2.head_eq.trans hchain.suffix.2.head_eq.symm

/-- `Remove` redirects the link to a node past it. -/
theorem Relinks.remove (hheap : HeapInv cfg map chains contents) {key : K} {store : Store}
    {removed : NodeId} (hprepare : prepareRemove cfg map key = some (some (store, removed))) :
    Relinks map (store.onMap map) none := by
  rcases prepareRemove_spec hheap key with
      ⟨-, hnone⟩ | ⟨i, before, current, after, hprepare', hsplice⟩
  · cases hnone.symm.trans hprepare
  obtain ⟨rfl, rfl⟩ : store = _ ∧ removed = current := by
    simpa using hprepare.symm.trans hprepare'
  rw [linkStore_onMap]
  have hlink := link_storeLink map i before after
  have hchain := hheap.represents.chain i hsplice.bucket
  rw [show chains map.table i = before ++ ([removed] ++ after) from hsplice.chain] at hchain
  refine ⟨hlink.grow, fun other hlt => ?_, by simp⟩
  rw [hlink.next other hlt]
  split
  · next hlast =>
      exact .inr (.inl ⟨removed, next_of_last hchain hlast, hchain.suffix.2.head_eq.symm⟩)
  · exact .inl rfl

/-! ## Sequence numbers -/

omit [DecidableEq K] in
/-- A new node starts with the sequence number 0. -/
theorem Still.newNode (h : Still map) {node : MapNode K V} (hseq : node.seq = 0) :
    Still (map.newNode node) := by
  intro other hlt
  rcases Nat.lt_succ_iff_lt_or_eq.mp hlt with hlt | rfl
  · rw [map.newNode_of_lt node hlt]
    exact h other hlt
  · rw [map.newNode_self]
    exact hseq

omit [DecidableEq K] in
/-- No store goes to a sequence number. -/
theorem Still.onMap (h : Still map) (store : Store) : Still (store.onMap map) := by
  cases store with
  | localEpoch tcb epoch => exact h
  | table newTable => exact h
  | bucket owner index target => exact h
  | next node target =>
      intro other hlt
      rw [Store.onMap, (map.storeNext_fields node other target).2]
      exact h other hlt

omit [DecidableEq K] in
/-- The copies in a new table start with the sequence number 0. -/
theorem Still.copyChain {newTable : TableId} {fuel : Nat} {start : Option NodeId}
    (h : Still map) (hcopy : RcuHashMap.copyChain cfg newTable fuel map start = some map') :
    Still map' := by
  induction fuel generalizing map start with
  | zero => cases hcopy
  | succ fuel ih =>
      cases start with
      | none => exact Option.some.inj hcopy ▸ h
      | some curr => exact ih ((h.newNode rfl).onMap (.bucket _ _ _)) hcopy

omit [DecidableEq K] in
theorem Still.buildTable {newSize : Nat} (h : Still map)
    (hbuilt : RcuHashMap.buildTable cfg map newSize = some map') : Still map' := by
  have hfold : ∀ (buckets : List Nat) (copy : RcuHashMap K V), Still copy →
      buckets.foldlM (fun copy i => RcuHashMap.copyChain cfg map.tableCount (copy.nodeCount + 1)
        copy ((copy.tables map.table).buckets i)) copy = some map' → Still map' := by
    intro buckets
    induction buckets with
    | nil => exact fun copy hcopy hdone => Option.some.inj hdone ▸ hcopy
    | cons i rest ih =>
        intro copy hcopy hdone
        obtain ⟨next, hnext, hrest⟩ := Option.bind_eq_some_iff.mp hdone
        exact ih next (hcopy.copyChain hnext) hrest
  exact hfold _ (map.newTable newSize) h hbuilt

/-- The node that `Put` allocates has the sequence number 0. -/
theorem preparePut_seq {key : K} {value : V} {node : MapNode K V} {store : Store}
    {current : Option NodeId}
    (hprepare : preparePut cfg map key value = some (node, store, current)) : node.seq = 0 := by
  obtain ⟨⟨prev, found⟩, -, hfound⟩ := Option.map_eq_some_iff.mp hprepare
  cases found with
  | none => exact (Prod.mk.inj hfound).1 ▸ rfl
  | some found => exact (Prod.mk.inj hfound).1 ▸ rfl

end Writers

/-! ## A reader -/

section Readers

variable {cfg : MapConfig K} {map map' : RcuHashMap K V} {walk : Walk}
  {replaced : Option (NodeId × NodeId)} {worker worker' : Worker K V}
  {memory memory' : Memory K V} {tid : ThreadId}

omit [DecidableEq K] in
/-- The visited nodes are in the chain, one behind the other. -/
structure Trail (walk : Walk) : Prop where
  positions : ∀ node ∈ walk.visited, walk.position node < walk.chain.length
  increasing : walk.visited.Pairwise fun node later => walk.position node < walk.position later

/-- How far the thread has come at each place in `Get`. -/
def Progress (walk : Walk) (thread : Thread Object) : Pc K V → Prop
  | .getBucket _ _ => thread.pc = .idle
  | .getKey _ current => thread.pc = .idle ∧ walk.visited.getLast? = some current ∧
      walk.rounds = 0 ∧ walk.steps + 2 = 2 * walk.visited.length
  | .getNext _ current => thread.pc = .idle ∧ walk.visited.getLast? = some current ∧
      walk.rounds = 0 ∧ walk.steps + 1 = 2 * walk.visited.length
  | .getSeqBefore _ current => thread.pc = .idle ∧ walk.visited.getLast? = some current ∧
      walk.rounds = 0 ∧ walk.steps + 1 = 2 * walk.visited.length
  | .getValue _ current seq => thread.pc = .idle ∧ walk.visited.getLast? = some current ∧
      seq = 0 ∧ walk.rounds = 1 ∧ walk.steps = 2 * walk.visited.length
  | .getSeqAfter _ current seq _ => thread.pc = .idle ∧ walk.visited.getLast? = some current ∧
      seq = 0 ∧ walk.rounds = 1 ∧ walk.steps = 2 * walk.visited.length + 1
  | .getExit _ result => thread.pc = .idle ∧ walk.rounds = result.toList.length ∧
      walk.steps ≤ 2 * walk.visited.length + 2
  | .returned _ result => walk.rounds = result.toList.length ∧
      (thread.pc = .idle ∧ walk.steps ≤ 2 * walk.visited.length + 4 ∨
        thread.pc = .exitStore ∧ thread.tlsTcb.isSome ∧
          walk.steps ≤ 2 * walk.visited.length + 3)
  | _ => True

/-- What holds of the walk of a thread. -/
structure WalkInv (map : RcuHashMap K V) (walk : Walk) (worker : Worker K V) : Prop where
  forward : Forward map walk
  trail : Trail walk
  progress : Progress walk worker.thread worker.pc

omit [DecidableEq K] in
/-- A thread that has not called `Get` yet. -/
theorem WalkInv.start (map : RcuHashMap K V) : WalkInv map {} ({} : Worker K V) :=
  ⟨⟨by simp, by simp⟩, ⟨by simp, .nil⟩, trivial⟩

omit [DecidableEq K] in
/-- Writers do not disturb a walk. -/
theorem WalkInv.relinks (h : WalkInv map walk worker) (hmap : Relinks map map' replaced) :
    WalkInv map' (walk.inherit replaced) worker := by
  have hvisited : (walk.inherit replaced).visited = walk.visited := by cases replaced <;> rfl
  have hposition : ∀ node ∈ walk.visited,
      (walk.inherit replaced).position node = walk.position node := fun node hmem =>
    hmap.position_eq h.forward (h.trail.positions node hmem)
  refine ⟨h.forward.relinks hmap, ⟨?_, ?_⟩, ?_⟩
  · intro node hmem
    rw [hvisited] at hmem
    rw [hposition node hmem, walk.inherit_chain]
    exact h.trail.positions node hmem
  · rw [hvisited]
    refine h.trail.increasing.imp_of_mem fun {node later} hnode hlater hlt => ?_
    rwa [hposition node hnode, hposition later hlater]
  · have hprogress := h.progress
    cases replaced with
    | none => exact hprogress
    | some pair => cases hpc : worker.pc <;> rw [hpc] at hprogress <;> exact hprogress

omit [DecidableEq K] in
/-- A reader moves on to a node behind the last one. -/
theorem Trail.visit (h : Trail walk) (hforward : Forward map walk) {current successor : NodeId}
    (hlast : walk.visited.getLast? = some current) (hnext : map.next current = some successor)
    (steps : Nat) :
    Trail { walk with visited := walk.visited ++ [successor], steps := steps } := by
  have hcurrent := h.positions current (List.mem_of_getLast? hlast)
  obtain ⟨hlt, hin⟩ := hforward.ahead current successor hcurrent hnext
  refine ⟨?_, List.pairwise_append.mpr ⟨h.increasing, List.pairwise_singleton .., ?_⟩⟩
  · intro node hmem
    rcases List.mem_append.mp hmem with hmem | hmem
    · exact h.positions node hmem
    · obtain rfl := List.mem_singleton.mp hmem
      exact hin
  · intro node hmem later hlater
    obtain rfl := List.mem_singleton.mp hlater
    have hincreasing := h.increasing
    obtain ⟨front, hfront⟩ := List.getLast?_eq_some_iff.mp hlast
    rw [hfront, List.pairwise_append] at hincreasing
    rw [hfront] at hmem
    rcases List.mem_append.mp hmem with hmem | hmem
    · exact Nat.lt_trans (hincreasing.2.2 node hmem current (by simp)) hlt
    · obtain rfl := List.mem_singleton.mp hmem
      exact hlt

omit [DecidableEq K] in
/-- The walk starts at the head of the chain that the bucket holds. -/
theorem Forward.load {key : K} {table : TableId} {start : Option NodeId}
    (hchain : IsChain map.next start (chainAt cfg map key table))
    (hlt : ∀ node ∈ chainAt cfg map key table, node < map.nodeCount) (visited : List NodeId) :
    Forward map { chain := chainAt cfg map key table
                  position := fun node => (chainAt cfg map key table).idxOf node
                  visited := visited } := by
  refine ⟨fun node hin => hlt node (List.idxOf_lt_length_iff.mp hin), ?_⟩
  intro node successor hin hnext
  have hmem := List.idxOf_lt_length_iff.mp hin
  have hsuccessor := hchain.next_mem hmem hnext
  exact ⟨Nat.lt_of_lt_of_eq (Nat.lt_succ_self _) (hchain.idxOf_next hmem hnext).symm,
    List.idxOf_lt_length_iff.mpr hsuccessor⟩

omit [DecidableEq K] in
/-- A step in the engine leaves the place in the map alone. -/
theorem runEbr_pc (hrun : runEbr memory tid worker = some (memory', worker')) :
    worker'.pc = worker.pc := by
  rcases runEbr_cases hrun with
      ⟨epoch, tcb, -, -, -, rfl⟩ | ⟨tcb, -, -, -, rfl⟩ | ⟨minEpoch, curr, -, -, rfl⟩ |
      ⟨ebr, thread, -, -, -, -, rfl⟩ <;> rfl

/-- The end of a critical section needs one store at most. -/
theorem exitCritical_pc (ebr : Shared Object) {thread : Thread Object}
    (hidle : thread.pc = .idle) :
    (Concurrency.call ebr thread .exitCritical).2.pc = .idle ∨
      (Concurrency.call ebr thread .exitCritical).2.pc = .exitStore ∧
        (Concurrency.call ebr thread .exitCritical).2.tlsTcb.isSome := by
  cases htls : thread.tlsTcb with
  | none =>
      simp only [Concurrency.call, htls]
      exact .inl hidle
  | some own =>
      by_cases hlast : thread.criticalDepth - 1 = 0
      · simp [Concurrency.call, htls, hlast]
      · simp [Concurrency.call, htls, hlast]

omit [DecidableEq K] in
/-- A step that visits no node. -/
theorem WalkInv.stay (h : WalkInv map walk worker) (rounds steps : Nat) :
    Forward map { walk with visited := walk.visited ++ [], rounds := rounds, steps := steps } ∧
      Trail { walk with visited := walk.visited ++ [], rounds := rounds, steps := steps } := by
  rw [List.append_nil]
  exact ⟨⟨h.forward.allocated, h.forward.ahead⟩, h.trail.positions, h.trail.increasing⟩

omit [DecidableEq K] in
/-- The reader loads the head of a chain and visits it. -/
theorem WalkInv.loadHead {key : K} {table : TableId} {current : NodeId}
    (hpc : worker.pc = .getBucket key table)
    (hchain : IsChain map.next (some current) (chainAt cfg map key table))
    (hlt : ∀ node ∈ chainAt cfg map key table, node < map.nodeCount)
    (hidle : worker.thread.pc = .idle) :
    WalkInv map (walk.advance cfg map worker.pc (.getKey key current))
      (worker.goto (.getKey key current)) := by
  obtain ⟨rest, hrest, -⟩ := hchain.of_some
  simp only [hpc, Walk.advance, Worker.goto, Pc.visiting, Option.toList]
  refine ⟨.load hchain hlt _, ⟨?_, List.pairwise_singleton ..⟩, hidle, rfl, rfl, rfl⟩
  intro node hmem
  obtain rfl := List.mem_singleton.mp hmem
  exact List.idxOf_lt_length_iff.mpr (by simp [hrest])

omit [DecidableEq K] in
/-- The reader follows the chain to the next node. -/
theorem WalkInv.loadNext (h : WalkInv map walk worker) {key : K} {current successor : NodeId}
    (hpc : worker.pc = .getNext key current) (hnext : map.next current = some successor) :
    WalkInv map (walk.advance cfg map worker.pc (.getKey key successor))
      (worker.goto (.getKey key successor)) := by
  obtain ⟨hforward, htrail, hprogress⟩ := h
  simp only [hpc, Progress] at hprogress
  obtain ⟨hidle, hlast, hrounds, hsteps⟩ := hprogress
  simp only [hpc, Walk.advance, Worker.goto, Pc.visiting, Option.toList]
  refine ⟨⟨hforward.allocated, hforward.ahead⟩, htrail.visit hforward hlast hnext _, hidle,
    List.getLast?_concat .., hrounds, ?_⟩
  simp only [List.length_append, List.length_singleton]
  omega

omit [DecidableEq K] in
/-- The reader leaves its critical section at the end of `Get`. -/
theorem WalkInv.exit (h : WalkInv map walk worker) (ebr : Shared Object) {key : K}
    {result : Option V} (hpc : worker.pc = .getExit key result) :
    WalkInv map (walk.advance cfg map worker.pc (.returned key result))
      ({ worker with thread := (Concurrency.call ebr worker.thread .exitCritical).2 }.goto
        (.returned key result)) := by
  have hprogress := h.progress
  simp only [hpc, Progress] at hprogress
  obtain ⟨hidle, hrounds, hsteps⟩ := hprogress
  simp only [hpc, Walk.advance, Worker.goto, Pc.visiting, Option.toList]
  refine ⟨(h.stay _ _).1, (h.stay _ _).2, hrounds, ?_⟩
  simp only [List.append_nil]
  rcases exitCritical_pc ebr hidle with hpc' | ⟨hpc', htls⟩
  · exact .inl ⟨hpc', by omega⟩
  · exact .inr ⟨hpc', htls, by omega⟩

/-- A reader takes its next step in `Get`, or the thread is in another function. -/
theorem WalkInv.runMap (h : WalkInv memory.map walk worker) (hstill : Still memory.map)
    (hchain : ∀ key table, worker.pc = .getBucket key table →
      IsChain memory.map.next ((memory.map.tables table).buckets
        (memory.map.bucketIndex cfg table key)) (chainAt cfg memory.map key table) ∧
      ∀ node ∈ chainAt cfg memory.map key table, node < memory.map.nodeCount)
    (hidle : worker.thread.pc = .idle)
    (hrun : runMap cfg memory tid worker = some (memory', worker')) :
    WalkInv memory.map (walk.advance cfg memory.map worker.pc worker'.pc) worker' := by
  have hprogress := h.progress
  -- The node that the reader stands on has the sequence number 0.
  have hseq : ∀ current, walk.visited.getLast? = some current →
      (memory.map.nodes current).seq = 0 := fun current hlast => hstill current
    (h.forward.allocated current (h.trail.positions current (List.mem_of_getLast? hlast)))
  cases runMap_cases hrun with
  | getTable key hpc =>
      simp only [hpc, Walk.advance, Worker.goto, Pc.visiting, Option.toList]
      exact ⟨(h.stay _ _).1, (h.stay _ _).2, hidle⟩
  | getHead key table current hpc hbucket =>
      obtain ⟨hnodes, hlt⟩ := hchain key table hpc
      exact .loadHead hpc (hbucket ▸ hnodes) hlt hidle
  | getEmpty key table hpc hbucket =>
      obtain ⟨hnodes, hlt⟩ := hchain key table hpc
      simp only [hpc, Walk.advance, Worker.goto, Pc.visiting, Option.toList]
      exact ⟨.load hnodes hlt _, ⟨by simp, .nil⟩, hidle, rfl, Nat.zero_le _⟩
  | getFound key current hpc | getPassed key current hpc =>
      simp only [hpc, Progress] at hprogress
      obtain ⟨-, hlast, hrounds, hsteps⟩ := hprogress
      simp only [hpc, Walk.advance, Worker.goto, Pc.visiting, Option.toList]
      refine ⟨(h.stay _ _).1, (h.stay _ _).2, hidle, ?_, hrounds, ?_⟩ <;>
        simp only [List.append_nil]
      · exact hlast
      · omega
  | getOdd key current hpc hodd =>
      simp only [hpc, Progress] at hprogress
      exact absurd (by rw [hseq current hprogress.2.1]; rfl) hodd
  | getEven key current hpc heven =>
      simp only [hpc, Progress] at hprogress
      obtain ⟨-, hlast, hrounds, hsteps⟩ := hprogress
      simp only [hpc, Walk.advance, Worker.goto]
      refine ⟨⟨h.forward.allocated, h.forward.ahead⟩,
        ⟨h.trail.positions, h.trail.increasing⟩, hidle, hlast, hseq current hlast, ?_, ?_⟩
      · exact congrArg (· + 1) hrounds
      · exact hsteps
  | getValue key current seq hpc =>
      simp only [hpc, Progress] at hprogress
      obtain ⟨-, hlast, hzero, hrounds, hsteps⟩ := hprogress
      simp only [hpc, Walk.advance, Worker.goto, Pc.visiting, Option.toList]
      refine ⟨(h.stay _ _).1, (h.stay _ _).2, hidle, ?_, hzero, hrounds, ?_⟩ <;>
        simp only [List.append_nil]
      · exact hlast
      · exact congrArg (· + 1) hsteps
  | getSame key current seq value hpc hsame =>
      simp only [hpc, Progress] at hprogress
      obtain ⟨-, hlast, hzero, hrounds, hsteps⟩ := hprogress
      simp only [hpc, Walk.advance, Worker.goto, Pc.visiting, Option.toList]
      refine ⟨(h.stay _ _).1, (h.stay _ _).2, hidle, hrounds, ?_⟩
      simp only [List.append_nil]
      omega
  | getChanged key current seq value hpc hchanged =>
      simp only [hpc, Progress] at hprogress
      obtain ⟨-, hlast, hzero, -⟩ := hprogress
      exact absurd (hzero.trans (hseq current hlast).symm) hchanged
  | getNext key current successor hpc hnext => exact h.loadNext hpc hnext
  | getEnd key current hpc hnext =>
      simp only [hpc, Progress] at hprogress
      obtain ⟨-, hlast, hrounds, hsteps⟩ := hprogress
      simp only [hpc, Walk.advance, Worker.goto, Pc.visiting, Option.toList]
      refine ⟨(h.stay _ _).1, (h.stay _ _).2, hidle, hrounds, ?_⟩
      simp only [List.append_nil]
      omega
  | getExit key result hpc => exact h.exit memory.ebr hpc
  | putLock _ _ hpc | putGrow _ _ _ hpc | putFits _ _ hpc | putRegister _ _ _ hpc
  | putCount hpc | removeLock _ hpc | removeLink _ _ _ hpc | removeAbsent _ hpc
  | removeCount _ hpc | generation hpc | generationRetire _ hpc | unlock hpc =>
      simp only [hpc, Walk.advance, Worker.goto, Worker.issue, beginRetire, Pc.visiting,
        Option.toList]
      exact ⟨(h.stay _ _).1, (h.stay _ _).2, trivial⟩
  | putRetireTable key value oldTable own hpc htls hload =>
      have hpc' : worker'.pc = .putLink key value := runEbr_pc hload
      simp only [hpc, hpc', Walk.advance, Pc.visiting, Option.toList]
      exact ⟨(h.stay _ _).1, (h.stay _ _).2, hpc' ▸ trivial⟩
  | putLink key value node store current hpc hprepare =>
      cases current <;>
        simp only [hpc, Walk.advance, Worker.goto, Worker.issue, Pc.visiting, Option.toList] <;>
        exact ⟨(h.stay _ _).1, (h.stay _ _).2, trivial⟩

omit [DecidableEq K] in
/-- A thread takes its next step in the engine. After `Get` this is the store of
`ExitCritical`. -/
theorem WalkInv.runEbr (h : WalkInv map walk worker) (hbusy : worker.thread.pc ≠ .idle)
    (hrun : runEbr memory tid worker = some (memory', worker')) :
    WalkInv map (walk.advance cfg memory.map worker.pc worker'.pc) worker' := by
  obtain ⟨hforward, htrail, hprogress⟩ := h
  have hpc' := runEbr_pc hrun
  cases hpc : worker.pc with
  | returned key result =>
      simp only [hpc, Progress] at hprogress
      obtain ⟨hrounds, ⟨hidle, -⟩ | ⟨hexit, htls, hsteps⟩⟩ := hprogress
      · exact absurd hidle hbusy
      obtain ⟨own, htls⟩ := Option.isSome_iff_exists.mp htls
      simp only [MapSteps.runEbr, hexit, htls] at hrun
      obtain ⟨rfl, rfl⟩ := Prod.mk.inj (Option.some.inj hrun)
      simp only [Walk.advance, Worker.issue, hpc, Pc.visiting, Option.toList, List.append_nil]
      exact ⟨⟨hforward.allocated, hforward.ahead⟩, ⟨htrail.positions, htrail.increasing⟩, hrounds,
        .inl ⟨rfl, by simp only; omega⟩⟩
  | getBucket _ _ =>
      simp only [hpc, Progress] at hprogress
      exact absurd hprogress hbusy
  | getKey _ _ | getSeqBefore _ _ | getValue _ _ _ | getSeqAfter _ _ _ _ | getNext _ _
  | getExit _ _ =>
      simp only [hpc, Progress] at hprogress
      exact absurd hprogress.1 hbusy
  | _ =>
      rw [hpc] at hpc'
      simp only [hpc', Walk.advance, Pc.visiting, Option.toList, List.append_nil]
      exact ⟨⟨hforward.allocated, hforward.ahead⟩, ⟨htrail.positions, htrail.increasing⟩,
        hpc' ▸ trivial⟩

/-- What an event of a thread does to its walk. -/
theorem WalkInv.act {event : Event K V} (h : WalkInv memory.map walk worker)
    (hstill : Still memory.map)
    (hchain : ∀ key table, worker.pc = .getBucket key table →
      IsChain memory.map.next ((memory.map.tables table).buckets
        (memory.map.bucketIndex cfg table key)) (chainAt cfg memory.map key table) ∧
      ∀ node ∈ chainAt cfg memory.map key table, node < memory.map.nodeCount)
    (hbuffer : worker.buffer = [])
    (hact : MapSteps.act cfg memory event.thread worker event = some (memory', worker')) :
    WalkInv memory.map (if runs event.thread event then
      walk.advance cfg memory.map worker.pc worker'.pc else walk) worker' := by
  cases event with
  | call caller op =>
      simp only [MapSteps.act, Option.ite_none_right_eq_some, Option.some.injEq] at hact
      obtain ⟨-, hcall⟩ := hact
      cases op <;> obtain ⟨rfl, rfl⟩ := Prod.mk.inj hcall <;>
        exact ⟨h.forward, h.trail, trivial⟩
  | run runner =>
      change MapSteps.run cfg memory runner worker = some (memory', worker') at hact
      simp only [runs, Event.thread, decide_true, if_true]
      unfold MapSteps.run at hact
      split at hact
      · next hidle => exact h.runMap hstill hchain hidle hact
      · next hbusy => exact h.runEbr hbusy hact
  | drain drained => simp [MapSteps.act, hbuffer] at hact

end Readers

/-! ## Every step -/

section Steps

variable {cfg : MapConfig K} {state next : State K V} {memory' : Memory K V} {tid : ThreadId}
  {worker' : Worker K V} {contents : K → Option V} {chains : Chains} {event : Event K V}

/-- A thread takes its next step in a function of the map. -/
theorem Relinks.run (hheap : HeapInv cfg state.memory.map chains contents)
    (hstill : Still state.memory.map) (hbuffer : (state.workers tid).buffer = [])
    (hidle : (state.workers tid).thread.pc = .idle)
    (hrun : runMap cfg state.memory tid (state.workers tid) = some (memory', worker')) :
    Relinks state.memory.map (view memory'.map worker'.buffer)
        (replacement cfg state (.run tid)) ∧
      Still (view memory'.map worker'.buffer) := by
  have hsame : ∀ count generation,
      Relinks state.memory.map
        { state.memory.map with count := count, generation := generation } none ∧
      Still { state.memory.map with count := count, generation := generation } :=
    fun _ _ => ⟨.of_same (Nat.le_refl _) fun _ _ => rfl, hstill⟩
  have hkept := hsame state.memory.map.count state.memory.map.generation
  simp only [replacement, hidle]
  cases runMap_cases hrun with
  | putGrow key value built hpc hfull hbuilt =>
      obtain ⟨copy, -, hcopy, hext, -⟩ :=
        hheap.build (Nat.mul_pos hheap.represents.size_pos (by decide : 0 < 2))
      obtain rfl := Option.some.inj (hbuilt.symm.trans hcopy)
      simp only [hpc, Worker.goto, Worker.issue, hbuffer]
      exact ⟨.of_same hext.nodeCount hext.nodes,
        (hstill.buildTable hbuilt).onMap (.table state.memory.map.tableCount)⟩
  | putRetireTable key value oldTable own hpc htls hload =>
      obtain ⟨hmap, -⟩ := runEbr_map (by exact hbuffer) hload
      rw [hmap]
      simp only [hpc]
      exact hkept
  | putLink key value node store current hpc hprepare =>
      rw [hbuffer, show view state.memory.map [] = state.memory.map from rfl] at hprepare
      simp only [hpc, hprepare, Worker.goto, Worker.issue, hbuffer]
      exact ⟨.put hheap hprepare, (hstill.newNode (preparePut_seq hprepare)).onMap store⟩
  | removeLink key store current hpc hprepare =>
      rw [hbuffer, show view state.memory.map [] = state.memory.map from rfl] at hprepare
      simp only [hpc, Worker.goto, Worker.issue, hbuffer]
      exact ⟨.remove hheap hprepare, hstill.onMap store⟩
  | putCount hpc | removeCount _ hpc | generation hpc | generationRetire _ hpc =>
      simp only [hpc, Worker.goto, beginRetire, hbuffer]
      exact hsame _ _
  | getOdd _ _ hpc =>
      simp only [hpc, hbuffer]
      exact hkept
  | getTable _ hpc | getHead _ _ _ hpc | getEmpty _ _ hpc | getFound _ _ hpc | getPassed _ _ hpc
  | getEven _ _ hpc | getValue _ _ _ hpc | getSame _ _ _ _ hpc
  | getChanged _ _ _ _ hpc | getNext _ _ _ hpc | getEnd _ _ hpc | getExit _ _ hpc
  | putLock _ _ hpc | putFits _ _ hpc | putRegister _ _ _ hpc | removeLock _ hpc
  | removeAbsent _ hpc | unlock hpc =>
      simp only [hpc, Worker.goto, beginRetire, hbuffer]
      exact hkept

/-- What an event does to the links. -/
theorem Relinks.act (hheap : HeapInv cfg state.memory.map chains contents)
    (hstill : Still state.memory.map) (hbuffer : (state.workers event.thread).buffer = [])
    (hact : MapSteps.act cfg state.memory event.thread (state.workers event.thread) event =
      some (memory', worker')) :
    Relinks state.memory.map (view memory'.map worker'.buffer) (replacement cfg state event) ∧
      Still (view memory'.map worker'.buffer) := by
  have hkept : Relinks state.memory.map state.memory.map none ∧ Still state.memory.map :=
    ⟨.of_same (Nat.le_refl _) fun _ _ => rfl, hstill⟩
  cases event with
  | call caller op =>
      simp only [MapSteps.act, Option.ite_none_right_eq_some, Option.some.injEq] at hact
      obtain ⟨-, hcall⟩ := hact
      cases op <;> obtain ⟨rfl, rfl⟩ := Prod.mk.inj hcall <;>
        simp only [Worker.goto, hbuffer] <;> exact hkept
  | run runner =>
      change MapSteps.run cfg state.memory runner (state.workers runner) =
        some (memory', worker') at hact
      unfold MapSteps.run at hact
      split at hact
      · next hidle => exact Relinks.run hheap hstill hbuffer hidle hact
      · next hbusy =>
          obtain ⟨hmap, -⟩ := runEbr_map hbuffer hact
          rw [hmap, replacement]
          split
          · next hidle => exact absurd hidle hbusy
          · exact hkept
  | drain drained => simp [MapSteps.act, hbuffer] at hact

/-- What holds of the memory between the events. -/
theorem reachable_heap (hreach : (sequential cfg).Reachable (fun _ _ => True) state) :
    Settled state ∧ ∃ contents chains, HeapInv cfg state.memory.map chains contents ∧
      ∀ tid key table, (state.workers tid).pc = .getBucket key table →
        table < state.memory.map.tableCount := by
  obtain ⟨observed, hrecorded⟩ := hreach.record observer
  obtain ⟨hsettled, chains, home, hheap, -, hreads⟩ := GetsInv.of_reachable hrecorded
  refine ⟨hsettled, observed.contents, chains, hheap, fun tid key table hpc => ?_⟩
  have hplace := hreads tid
  rw [hpc] at hplace
  exact hplace.1

omit [DecidableEq K] in
/-- The recorded chain is the one that the bucket holds. -/
theorem chainAt_isChain (hheap : HeapInv cfg state.memory.map chains contents) (key : K)
    {table : TableId} (hlt : table < state.memory.map.tableCount) :
    IsChain state.memory.map.next ((state.memory.map.tables table).buckets
        (state.memory.map.bucketIndex cfg table key)) (chainAt cfg state.memory.map key table) ∧
      ∀ node ∈ chainAt cfg state.memory.map key table, node < state.memory.map.nodeCount := by
  have hi : state.memory.map.bucketIndex cfg table key < (state.memory.map.tables table).size :=
    Nat.mod_lt _ (hheap.size_pos table hlt)
  have hchain := hheap.chain table hlt _ hi
  have halloc : ∀ node ∈ chains table (state.memory.map.bucketIndex cfg table key),
      node < state.memory.map.nodeCount := fun node hmem => (hheap.allocated _ _ node hmem).2.2
  rw [chainAt, walk_eq hchain (Nat.lt_succ_of_le (hchain.length_le halloc))]
  exact ⟨hchain, halloc⟩

/-- The invariant of a run. -/
structure WalksInv (cfg : MapConfig K) (pair : State K V × (ThreadId → Walk)) : Prop where
  reachable : (sequential cfg).Reachable (fun _ _ => True) pair.1
  still : Still pair.1.memory.map
  walks : ∀ tid, WalkInv pair.1.memory.map (pair.2 tid) (pair.1.workers tid)

/-- Every step keeps the invariant. -/
theorem WalksInv.step {pair next : State K V × (ThreadId → Walk)} (h : WalksInv cfg pair)
    (hstep : ((sequential cfg).withHistory (walker cfg)).step pair event = some next) :
    WalksInv cfg next := by
  obtain ⟨state, walks⟩ := pair
  obtain ⟨hreach, hstill, hwalks⟩ := h
  obtain ⟨hsettled, contents, chains, hheap, hbucket⟩ := reachable_heap hreach
  obtain ⟨hstate, hrecorded⟩ := System.withHistory_step.mp hstep
  obtain ⟨middle, hmiddle, hsettle⟩ := Option.map_eq_some_iff.mp hstate
  obtain ⟨⟨memory', worker'⟩, hact, rfl⟩ := Option.map_eq_some_iff.mp hmiddle
  obtain ⟨hrelinks, hstill'⟩ := Relinks.act hheap hstill (hsettled event.thread) hact
  have hmemory : next.1.memory.map = view memory'.map worker'.buffer := by
    rw [← hsettle, settle_map]
    simp only [Function.update_self]
  have hself : next.1.workers event.thread = { worker' with buffer := [] } := by
    rw [← hsettle]
    simp only [settle, Function.update_self]
  have hother : ∀ tid, tid ≠ event.thread → next.1.workers tid = state.workers tid := by
    intro tid hne
    rw [← hsettle]
    simp only [settle, Function.update_of_ne hne]
  refine ⟨.step hreach trivial hstate, hmemory ▸ hstill', fun tid => ?_⟩
  rw [hmemory, hrecorded]
  refine WalkInv.relinks ?_ hrelinks
  by_cases heq : tid = event.thread
  · subst heq
    have hwalk := (hwalks event.thread).act hstill
      (fun key table hpc => chainAt_isChain hheap key (hbucket _ key table hpc)) (hsettled _) hact
    rw [hself]
    exact ⟨hwalk.forward, hwalk.trail, hwalk.progress⟩
  · have hruns : runs tid event = false := by
      cases event with
      | run runner => exact decide_eq_false fun hrunner => heq hrunner.symm
      | _ => rfl
    simp only [hruns, hother tid heq]
    exact hwalks tid

end Steps

/-! ## The bound -/

omit [DecidableEq K] in
/-- A walk visits every position of the chain at most once. -/
theorem Trail.visits {walk : Walk} (h : Trail walk) :
    walk.visited.length ≤ walk.chain.length := by
  have hsub : walk.visited.map walk.position ⊆ List.range walk.chain.length := by
    intro position hmem
    obtain ⟨node, hnode, rfl⟩ := List.mem_map.mp hmem
    exact List.mem_range.mpr (h.positions node hnode)
  have hnodup : (walk.visited.map walk.position).Nodup :=
    List.pairwise_map.mpr (h.increasing.imp fun hlt => Nat.ne_of_lt hlt)
  simpa using (List.subperm_of_subset hnodup hsub).length_le

omit [DecidableEq K] in
/-- There is one round at most, and two steps for each node. -/
theorem Progress.bounds {walk : Walk} {thread : Thread Object} {pc : Pc K V}
    (h : Progress walk thread pc) (hwalking : pc.walking) :
    walk.rounds ≤ 1 ∧ walk.steps ≤ 2 * walk.visited.length + 4 := by
  have hresult : ∀ result : Option V, result.toList.length ≤ 1 := by
    intro result
    cases result <;> simp
  cases pc with
  | getKey key current | getNext key current | getSeqBefore key current =>
      obtain ⟨-, -, hrounds, hsteps⟩ := h
      omega
  | getValue key current seq | getSeqAfter key current seq value =>
      obtain ⟨-, -, -, hrounds, hsteps⟩ := h
      omega
  | getExit key result =>
      obtain ⟨-, hrounds, hsteps⟩ := h
      exact ⟨hrounds ▸ hresult result, by omega⟩
  | returned key result =>
      obtain ⟨hrounds, ⟨-, hsteps⟩ | ⟨-, -, hsteps⟩⟩ := h <;>
        exact ⟨hrounds ▸ hresult result, by omega⟩
  | _ => cases hwalking

/-- Nothing keeps a thread from taking its next step in `Get`. -/
theorem Progress.enabled {walk : Walk} {memory : Memory K V} {tid : ThreadId}
    {worker : Worker K V} (h : Progress walk worker.thread worker.pc)
    (hwalking : worker.pc.walking) (hfinished : ¬ worker.finished) :
    (run cfg memory tid worker).isSome := by
  cases hpc : worker.pc with
  | getKey key current | getNext key current | getSeqBefore key current =>
      simp only [hpc, Progress] at h
      simp only [run, h.1, runMap, hpc]
      split <;> rfl
  | getValue key current seq =>
      simp only [hpc, Progress] at h
      simp only [run, h.1, runMap, hpc, Option.isSome_some]
  | getSeqAfter key current seq value =>
      simp only [hpc, Progress] at h
      simp only [run, h.1, runMap, hpc]
      split <;> rfl
  | getExit key result =>
      simp only [hpc, Progress] at h
      simp only [run, h.1, runMap, hpc, Option.isSome_some]
  | returned key result =>
      simp only [hpc, Progress] at h
      obtain ⟨-, ⟨hidle, -⟩ | ⟨hexit, htls, -⟩⟩ := h
      · exact absurd ⟨⟨key, result, hpc⟩, hidle⟩ hfinished
      · obtain ⟨own, htls⟩ := Option.isSome_iff_exists.mp htls
        simp only [run, hexit, MapSteps.runEbr, htls, Option.isSome_some]
  | _ => simp [hpc, Pc.walking] at hwalking

/-- A walk that has loaded its head is wait-free. -/
theorem WalkInv.waitFree {state : State K V} {walk : Walk} {tid : ThreadId}
    (h : WalkInv state.memory.map walk (state.workers tid))
    (hwalking : (state.workers tid).pc.walking) : WaitFree cfg state walk tid := by
  obtain ⟨-, htrail, hprogress⟩ := h
  have hvisits := htrail.visits
  obtain ⟨hrounds, hsteps⟩ := hprogress.bounds hwalking
  refine ⟨htrail.positions, htrail.increasing, hvisits, hrounds, fun key value hpc => ?_,
    by omega, fun hfinished => ?_⟩
  · rw [hpc] at hprogress
    exact hprogress.1
  · simp only [sequential, MapSteps.step, Option.isSome_map]
    exact hprogress.enabled cfg hwalking hfinished

/-- `Get` is wait-free once it has loaded the head of its chain. -/
theorem gets_wait_free (cfg : MapConfig K) (V : Type) : WaitFreeGets cfg V := by
  intro pair hreach tid
  have hinv : WalksInv cfg pair := by
    refine hreach.invariant (WalksInv cfg) ?_ fun pair event next h _ hstep => h.step hstep
    rintro ⟨state, walks⟩ ⟨⟨memory, hstate⟩, hwalks⟩
    obtain rfl : state = _ := hstate
    obtain rfl : walks = fun _ => {} := hwalks
    exact ⟨.init ⟨memory, rfl⟩, fun node hlt => absurd hlt (Nat.not_lt_zero _),
      fun _ => .start _⟩
  obtain ⟨-, contents, chains, hheap, hbucket⟩ := reachable_heap hinv.reachable
  exact ⟨fun key table hpc => (chainAt_isChain hheap key (hbucket tid key table hpc)).1,
    (hinv.walks tid).waitFree cfg⟩

end HotPath.Concurrency.MapSteps
