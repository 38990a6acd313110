import HotPath.Concurrency.Representation

/-!
# The chains of all tables

A table that has been replaced is not changed any more, but readers may still walk its chains.
`HeapInv` says that every table that was ever allocated, not only the current one, has a chain for
each of its buckets, and that no node is in two of them.

What an operation does to the memory is an allocation (`Extends`), the construction of a table
(`HeapInv.build`), the store that publishes it (`HeapInv.publish`), or the store of a link
(`Splice`).
-/

namespace HotPath.Concurrency

open HotPath.Foundation

/-- The nodes in the buckets of all tables. -/
abbrev Chains := TableId → Nat → List NodeId

variable {K V : Type} {cfg : MapConfig K} {map map' : RcuHashMap K V} {chains : Chains}
  {contents contents' : K → Option V}

/-- Every table has its chains, and the current one represents the contents. -/
structure HeapInv (cfg : MapConfig K) (map : RcuHashMap K V) (chains : Chains)
    (contents : K → Option V) : Prop where
  represents : Represents cfg map (chains map.table) contents
  chain : ∀ table < map.tableCount, ∀ i < (map.tables table).size,
    IsChain map.next ((map.tables table).buckets i) (chains table i)
  size_pos : ∀ table < map.tableCount, 0 < (map.tables table).size
  allocated : ∀ table i, ∀ node ∈ chains table i,
    table < map.tableCount ∧ i < (map.tables table).size ∧ node < map.nodeCount
  unique : ∀ table i other j node, node ∈ chains table i → node ∈ chains other j →
    table = other ∧ i = j

/-- The constructor makes one table without nodes. -/
theorem HeapInv.create (cfg : MapConfig K) (memory : NodeId → MapNode K V) :
    HeapInv cfg (RcuHashMap.create cfg memory) (fun _ _ => []) fun _ => none := by
  have hsize : ∀ table, ((RcuHashMap.create cfg memory).tables table).size =
      cfg.initialBuckets := fun _ => rfl
  refine ⟨?_, fun _ _ _ _ => rfl, fun _ _ => cfg.initialBuckets_pos, by simp, by simp⟩
  refine ⟨cfg.initialBuckets_pos, Nat.zero_lt_one, fun _ _ => rfl, by simp, by simp, by simp,
    by simp, by simp⟩

/-! ## Allocation -/

/-- Memory is allocated, or a field that no chain depends on is changed. -/
structure Extends (map map' : RcuHashMap K V) : Prop where
  table : map'.table = map.table
  nodeCount : map.nodeCount ≤ map'.nodeCount
  tableCount : map.tableCount ≤ map'.tableCount
  nodes : ∀ node < map.nodeCount, map'.nodes node = map.nodes node
  tables : ∀ table < map.tableCount, map'.tables table = map.tables table

theorem Extends.newNode (map : RcuHashMap K V) (node : MapNode K V) :
    Extends map (map.newNode node) :=
  ⟨rfl, Nat.le_succ _, Nat.le_refl _, fun _ hlt => map.newNode_of_lt node hlt, fun _ _ => rfl⟩

theorem Extends.next_eq (h : Extends map map') {node : NodeId} (hlt : node < map.nodeCount) :
    map'.next node = map.next node := congrArg MapNode.next (h.nodes node hlt)

theorem Extends.chain (h : Extends map map') {start : Option NodeId} {nodes : List NodeId}
    (hchain : IsChain map.next start nodes) (hlt : ∀ node ∈ nodes, node < map.nodeCount) :
    IsChain map'.next start nodes := hchain.congr fun node hmem => h.next_eq (hlt node hmem)

/-- An allocation does not change what the current table represents. -/
theorem Represents.extend {chains : Nat → List NodeId} (h : Represents cfg map chains contents)
    (hext : Extends map map') : Represents cfg map' chains contents := by
  have htables : map'.tables map.table = map.tables map.table := hext.tables _ h.table_lt
  have hsize : map'.tableSize = map.tableSize := by
    simp only [RcuHashMap.tableSize, hext.table, htables]
  have hindex : ∀ key, map'.bucketIndex cfg map'.table key = map.bucketIndex cfg map.table key :=
    fun key => by simp only [RcuHashMap.bucketIndex, hext.table, htables]
  have hentry : ∀ i < map.tableSize, ∀ node ∈ chains i, map'.nodes node = map.nodes node :=
    fun i hi node hmem => hext.nodes node (h.allocated i hi node hmem)
  refine ⟨hsize ▸ h.size_pos, ?_, ?_, ?_, ?_, ?_, ?_, ?_⟩
  · rw [hext.table]
    exact Nat.lt_of_lt_of_le h.table_lt hext.tableCount
  · intro i hi
    rw [hext.table, htables]
    exact hext.chain (h.chain i (hsize ▸ hi)) (h.allocated i (hsize ▸ hi))
  · exact fun i hi node hmem =>
      Nat.lt_of_lt_of_le (h.allocated i (hsize ▸ hi) node hmem) hext.nodeCount
  · intro i hi node hmem
    rw [hindex, RcuHashMap.entry, hentry i (hsize ▸ hi) node hmem]
    exact h.hashed i (hsize ▸ hi) node hmem
  · intro i hi
    refine (List.map_congr_left fun node hmem => ?_) ▸ h.distinct i (hsize ▸ hi)
    rw [RcuHashMap.entry, RcuHashMap.entry, hentry i (hsize ▸ hi) node hmem]
  · intro i hi node hmem
    rw [hentry i (hsize ▸ hi) node hmem]
    exact h.even i (hsize ▸ hi) node hmem
  · intro key value
    rw [hindex, h.holds]
    refine exists_congr fun node => and_congr_right fun hmem => ?_
    rw [RcuHashMap.entry, RcuHashMap.entry, hentry _ (h.bucket_lt key) node hmem]

/-- Nodes are allocated. -/
theorem HeapInv.extend (h : HeapInv cfg map chains contents) (hext : Extends map map')
    (hcount : map'.tableCount = map.tableCount) : HeapInv cfg map' chains contents := by
  refine ⟨?_, fun table htable i hi => ?_, fun table htable => ?_, fun table i node hmem => ?_,
    h.unique⟩
  · rw [hext.table]
    exact h.represents.extend hext
  · rw [hcount] at htable
    rw [hext.tables table htable] at hi ⊢
    exact hext.chain (h.chain table htable i hi) fun node hmem => (h.allocated _ _ node hmem).2.2
  · rw [hcount] at htable
    rw [hext.tables table htable]
    exact h.size_pos table htable
  · obtain ⟨htable, hi, hlt⟩ := h.allocated table i node hmem
    rw [hcount, hext.tables table htable]
    exact ⟨htable, hi, Nat.lt_of_lt_of_le hlt hext.nodeCount⟩

/-- The counters do not matter to the chains. -/
theorem HeapInv.counters (h : HeapInv cfg map chains contents) (count : Nat)
    (generation : UInt64) :
    Extends map { map with count := count, generation := generation } ∧
      HeapInv cfg { map with count := count, generation := generation } chains contents := by
  have hext : Extends map { map with count := count, generation := generation } :=
    ⟨rfl, Nat.le_refl _, Nat.le_refl _, fun _ _ => rfl, fun _ _ => rfl⟩
  exact ⟨hext, h.extend hext rfl⟩

/-! ## A new table -/

theorem Copying.extends {newSize : Nat} {copy : RcuHashMap K V} {newChains : Nat → List NodeId}
    {copied : List NodeId} (h : Copying cfg map newSize copy newChains copied) :
    Extends map copy :=
  ⟨h.table, h.grow, h.tableCount ▸ Nat.le_succ _, h.nodes,
    fun table hlt => h.tables table (Nat.ne_of_lt hlt)⟩

/-- `Resize` builds a table that holds the contents as well. -/
theorem HeapInv.build [DecidableEq K] (h : HeapInv cfg map chains contents) {newSize : Nat}
    (hsize : 0 < newSize) : ∃ built newChains,
      RcuHashMap.buildTable cfg map newSize = some built ∧ Extends map built ∧
      built.tableCount = map.tableCount + 1 ∧
      (∀ table i node, node ∈ Function.update chains map.tableCount newChains table i →
        node ∈ chains table i ∨ map.nodeCount ≤ node) ∧
      HeapInv cfg built (Function.update chains map.tableCount newChains) contents ∧
      Represents cfg (built.publish map.tableCount) newChains contents := by
  obtain ⟨built, newChains, copied, hbuilt, hcopying, hnew⟩ := h.represents.build hsize
  have hext := hcopying.extends
  have hold : ∀ table < map.tableCount,
      Function.update chains map.tableCount newChains table = chains table :=
    fun table hlt => Function.update_of_ne (Nat.ne_of_lt hlt) ..
  -- The new table has no chains beyond its last bucket.
  have hbucket : ∀ i, ∀ node ∈ newChains i, i < newSize ∧
      (cfg.hash (built.entry node).1).toNat % newSize = i := by
    intro i node hmem
    have hentry := hcopying.entries i ▸ List.mem_map_of_mem (f := built.entry) hmem
    have hindex : (cfg.hash (built.entry node).1).toNat % newSize = i := by
      simpa using (List.mem_filter.mp (List.mem_reverse.mp hentry)).2
    exact ⟨hindex ▸ Nat.mod_lt _ hsize, hindex⟩
  have hsplit : ∀ table < built.tableCount, table < map.tableCount ∨ table = map.tableCount := by
    intro table hlt
    rw [hcopying.tableCount] at hlt
    exact Nat.lt_succ_iff_lt_or_eq.mp hlt
  refine ⟨built, newChains, hbuilt, hext, hcopying.tableCount, fun table i node hmem => ?_,
    ⟨?_, ?_, ?_, ?_, ?_⟩, hnew⟩
  · by_cases heq : table = map.tableCount
    · subst heq
      rw [Function.update_self] at hmem
      exact .inr (hcopying.fresh i node hmem).1
    · rw [Function.update_of_ne heq] at hmem
      exact .inl hmem
  · rw [hext.table, hold _ h.represents.table_lt]
    exact h.represents.extend hext
  · intro table htable i hi
    rcases hsplit table htable with hlt | rfl
    · rw [hext.tables table hlt] at hi ⊢
      rw [hold table hlt]
      exact hext.chain (h.chain table hlt i hi) fun node hmem => (h.allocated _ _ node hmem).2.2
    · rw [Function.update_self]
      exact hcopying.chain i
  · intro table htable
    rcases hsplit table htable with hlt | rfl
    · rw [hext.tables table hlt]
      exact h.size_pos table hlt
    · rw [hcopying.size]
      exact hsize
  · intro table i node hmem
    by_cases heq : table = map.tableCount
    · subst heq
      rw [Function.update_self] at hmem
      rw [hcopying.tableCount, hcopying.size]
      exact ⟨Nat.lt_succ_self _, (hbucket i node hmem).1, (hcopying.fresh i node hmem).2⟩
    · rw [Function.update_of_ne heq] at hmem
      obtain ⟨htable, hi, hlt⟩ := h.allocated table i node hmem
      rw [hext.tables table htable]
      exact ⟨Nat.lt_of_lt_of_le htable hext.tableCount, hi, Nat.lt_of_lt_of_le hlt hext.nodeCount⟩
  · -- The copies are new nodes.
    intro table i other j node hmem hother
    have hfresh : ∀ i, node ∈ newChains i → ∀ table j, node ∉ chains table j :=
      fun i hnode table j hin =>
        absurd (h.allocated table j node hin).2.2 (Nat.not_lt.mpr (hcopying.fresh i node hnode).1)
    by_cases htable : table = map.tableCount <;> by_cases hother' : other = map.tableCount
    · subst htable
      subst hother'
      rw [Function.update_self] at hmem hother
      exact ⟨rfl, (hbucket i node hmem).2.symm.trans (hbucket j node hother).2⟩
    · subst htable
      rw [Function.update_self] at hmem
      rw [Function.update_of_ne hother'] at hother
      exact absurd hother (hfresh i hmem other j)
    · subst hother'
      rw [Function.update_self] at hother
      rw [Function.update_of_ne htable] at hmem
      exact absurd hmem (hfresh j hother table i)
    · rw [Function.update_of_ne htable] at hmem
      rw [Function.update_of_ne hother'] at hother
      exact h.unique table i other j node hmem hother

/-- A table is published. -/
theorem HeapInv.publish (h : HeapInv cfg map chains contents) {newTable : TableId}
    (hnew : Represents cfg (map.publish newTable) (chains newTable) contents) :
    HeapInv cfg (map.publish newTable) chains contents :=
  ⟨hnew, h.chain, h.size_pos, h.allocated, h.unique⟩

/-! ## Links -/

/-- The chains after the chain of a bucket has been replaced. -/
def spliced (chains : Chains) (table : TableId) (i : Nat) (nodes : List NodeId) : Chains :=
  Function.update chains table (Function.update (chains table) i nodes)

/-- The store of a link that takes the nodes `middle` out of a chain and puts the nodes `fresh` in
their place. -/
structure Splice (cfg : MapConfig K) (map : RcuHashMap K V) (chains : Chains) (i : Nat)
    (before middle fresh after : List NodeId) (contents' : K → Option V) : Prop where
  bucket : i < map.tableSize
  chain : chains map.table i = before ++ (middle ++ after)
  isFresh : ∀ node ∈ fresh, node < map.nodeCount ∧ ∀ table j, node ∉ chains table j
  represents : Represents cfg (map.storeLink i before.getLast? (fresh ++ after).head?)
    (Function.update (chains map.table) i (before ++ (fresh ++ after))) contents'

section Links

variable {i : Nat} {before middle fresh after : List NodeId}

/-- A node of the new chains was there before, or it is fresh. -/
theorem Splice.mem_old (h : Splice cfg map chains i before middle fresh after contents')
    {table : TableId} {j : Nat} {node : NodeId}
    (hmem : node ∈ spliced chains map.table i (before ++ (fresh ++ after)) table j) :
    node ∈ chains table j ∨ (table = map.table ∧ j = i ∧ node ∈ fresh) := by
  unfold spliced at hmem
  by_cases htable : table = map.table
  · subst htable
    rw [Function.update_self] at hmem
    by_cases hj : j = i
    · subst hj
      rw [Function.update_self] at hmem
      rw [h.chain]
      simp only [List.mem_append] at hmem ⊢
      rcases hmem with hmem | hmem | hmem
      · exact .inl (.inl hmem)
      · exact .inr ⟨trivial, trivial, hmem⟩
      · exact .inl (.inr (.inr hmem))
    · rw [Function.update_of_ne hj] at hmem
      exact .inl hmem
  · rw [Function.update_of_ne htable] at hmem
    exact .inl hmem

/-- A node of the old chains is still there, or it is taken out. -/
theorem Splice.mem_new (h : Splice cfg map chains i before middle fresh after contents')
    {table : TableId} {j : Nat} {node : NodeId} (hmem : node ∈ chains table j) :
    node ∈ spliced chains map.table i (before ++ (fresh ++ after)) table j ∨ node ∈ middle := by
  unfold spliced
  by_cases htable : table = map.table
  · subst htable
    rw [Function.update_self]
    by_cases hj : j = i
    · subst hj
      rw [Function.update_self]
      rw [h.chain] at hmem
      simp only [List.mem_append] at hmem ⊢
      rcases hmem with hmem | hmem | hmem
      · exact .inl (.inl hmem)
      · exact .inr hmem
      · exact .inl (.inr (.inr hmem))
    · rw [Function.update_of_ne hj]
      exact .inl hmem
  · rw [Function.update_of_ne htable]
    exact .inl hmem

/-- The nodes that are taken out are in no chain any more. -/
theorem Splice.gone (h : Splice cfg map chains i before middle fresh after contents')
    (hheap : HeapInv cfg map chains contents) {node : NodeId} (hmem : node ∈ middle)
    (table : TableId) (j : Nat) :
    node ∉ spliced chains map.table i (before ++ (fresh ++ after)) table j := by
  intro hin
  have hold : node ∈ chains map.table i := by simp [h.chain, hmem]
  have hfresh : node ∉ fresh := fun hnode => (h.isFresh node hnode).2 _ _ hold
  rcases h.mem_old hin with hin' | ⟨-, -, hin'⟩
  · obtain ⟨rfl, rfl⟩ := hheap.unique _ _ _ _ node hin' hold
    simp only [spliced, Function.update_self, List.mem_append] at hin
    have hnodup := (hheap.represents.chain j h.bucket).nodup
    rw [h.chain, List.nodup_append] at hnodup
    obtain ⟨-, hrest, hbefore⟩ := hnodup
    rcases hin with hin | hin | hin
    · exact hbefore node hin node (by simp [hmem]) rfl
    · exact hfresh hin
    · exact (List.nodup_append.mp hrest).2.2 node hmem node hin rfl
  · exact hfresh hin'

/-- The store of a link changes the pointer of the last node before the link only. -/
theorem Splice.next_eq (h : Splice cfg map chains i before middle fresh after contents')
    {node : NodeId}
    (hnode : node ∉ chains map.table i) (hlt : node < map.nodeCount) :
    (map.storeLink i before.getLast? (fresh ++ after).head?).next node = map.next node := by
  have hlink := link_storeLink map i before (fresh ++ after)
  rw [hlink.next node hlt, if_neg]
  intro hlast
  refine hnode ?_
  simp [h.chain, List.mem_of_getLast? hlast]

/-- The successor of a node that is taken out of a chain stays in the chain. -/
theorem Splice.next_removed {node successor : NodeId}
    (hheap : HeapInv cfg map chains contents)
    (h : Splice cfg map chains i before [node] fresh after contents')
    (hnext : (map.storeLink i before.getLast? (fresh ++ after).head?).next node =
      some successor) : successor ∈ after := by
  have hchain := hheap.represents.chain i h.bucket
  have hmem : node ∈ chains map.table i := by simp [h.chain]
  have hnodup := hchain.nodup
  rw [h.chain] at hchain hnodup
  have hlast : before.getLast? ≠ some node := fun hlast =>
    (List.nodup_append.mp hnodup).2.2 node (List.mem_of_getLast? hlast) node (by simp) rfl
  rw [(link_storeLink map i before (fresh ++ after)).next node (hheap.allocated _ _ node hmem).2.2,
    if_neg hlast] at hnext
  have hafter : IsChain map.next (map.next node) after := hchain.suffix.2
  rw [hnext] at hafter
  obtain ⟨rest, rfl, -⟩ := hafter.of_some
  exact List.mem_cons_self ..

/-- The store of a link. -/
theorem HeapInv.splice (hheap : HeapInv cfg map chains contents)
    (h : Splice cfg map chains i before middle fresh after contents') :
    HeapInv cfg (map.storeLink i before.getLast? (fresh ++ after).head?)
      (spliced chains map.table i (before ++ (fresh ++ after))) contents' := by
  have hlink := link_storeLink map i before (fresh ++ after)
  have hnodes : (map.storeLink i before.getLast? (fresh ++ after).head?).nodeCount =
      map.nodeCount := by
    cases before.getLast? <;> rfl
  refine ⟨?_, ?_, ?_, ?_, ?_⟩
  · rw [hlink.table, spliced, Function.update_self]
    exact h.represents
  · intro table htable j hj
    rw [hlink.tableCount] at htable
    by_cases heq : table = map.table
    · subst heq
      have hchain := h.represents.chain j (by rwa [RcuHashMap.tableSize, hlink.table])
      rw [hlink.table] at hchain
      rw [spliced, Function.update_self]
      exact hchain
    · rw [hlink.size] at hj
      rw [hlink.bucket, if_neg fun hall => heq hall.2.1, spliced, Function.update_of_ne heq]
      refine (hheap.chain table htable j hj).congr fun node hmem => ?_
      refine h.next_eq (fun hin => heq ?_) (hheap.allocated table j node hmem).2.2
      exact (hheap.unique _ _ _ _ node hmem hin).1
  · intro table htable
    rw [hlink.tableCount] at htable
    rw [hlink.size]
    exact hheap.size_pos table htable
  · intro table j node hmem
    rw [hlink.tableCount, hlink.size, hnodes]
    rcases h.mem_old hmem with hold | ⟨rfl, rfl, hnode⟩
    · exact hheap.allocated table j node hold
    · exact ⟨hheap.represents.table_lt, h.bucket, (h.isFresh node hnode).1⟩
  · intro table j other k node hmem hother
    rcases h.mem_old hmem with hold | ⟨rfl, rfl, hnode⟩
    · rcases h.mem_old hother with hold' | ⟨rfl, rfl, hnode'⟩
      · exact hheap.unique table j other k node hold hold'
      · exact absurd hold ((h.isFresh node hnode').2 table j)
    · rcases h.mem_old hother with hold' | ⟨rfl, rfl, -⟩
      · exact absurd hold' ((h.isFresh node hnode).2 other k)
      · exact ⟨rfl, rfl⟩

end Links

end HotPath.Concurrency
