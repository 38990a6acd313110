import HotPath.Concurrency.TableChains
import HotPath.Foundation.Search

/-!
# Walks that others interfere with

A reader stands somewhere in a chain, maybe on a node that has been unlinked, and walks on while
writers store links. `Ahead` says that the walk, if nobody interfered any more, would find one of
the values that have been seen. `HomeInv` says that a node only ever leads to nodes of the same
bucket of the same table, also after it has been unlinked. So a store of a link matters only to
readers of its own bucket, and behind the link they find what the bucket holds now.
-/

namespace HotPath.Concurrency

open HotPath.Foundation

variable {K V : Type} {cfg : MapConfig K} {map map' : RcuHashMap K V} {chains chains' : Chains}
  {contents contents' : K → Option V} {home : NodeId → TableId → Nat → Prop}

/-! ## The bucket that a node belongs to -/

/-- The nodes that have been in a bucket of a table, now or earlier, lead to such nodes only. -/
structure HomeInv (map : RcuHashMap K V) (chains : Chains)
    (home : NodeId → TableId → Nat → Prop) : Prop where
  placed : ∀ table i, ∀ node ∈ chains table i, home node table i
  allocated : ∀ node table i, home node table i → node < map.nodeCount
  unique : ∀ node table i other j, home node table i → node ∈ chains other j →
    table = other ∧ i = j
  next : ∀ node table i successor, home node table i → map.next node = some successor →
    home successor table i

theorem HomeInv.create (map : RcuHashMap K V) : HomeInv map (fun _ _ => []) fun _ _ _ => False :=
  ⟨by simp, by simp, by simp, by simp⟩

/-- Chains get new nodes, and only nodes in the chains get new successors. -/
theorem HomeInv.grow (h : HomeInv map chains home) (hheap : HeapInv cfg map' chains' contents')
    (hcount : map.nodeCount ≤ map'.nodeCount)
    (hfresh : ∀ table i node, node ∈ chains' table i →
      node ∈ chains table i ∨ map.nodeCount ≤ node)
    (hnext : ∀ node < map.nodeCount, map'.next node = map.next node ∨
      ∃ table i, node ∈ chains' table i) :
    HomeInv map' chains' fun node table i => home node table i ∨ node ∈ chains' table i := by
  -- An old node in the new chains was there before.
  have hold : ∀ node table i other j, home node table i → node ∈ chains' other j →
      table = other ∧ i = j := by
    intro node table i other j hhome hmem
    rcases hfresh other j node hmem with hmem | hge
    · exact h.unique node table i other j hhome hmem
    · exact absurd (h.allocated node table i hhome) (Nat.not_lt.mpr hge)
  refine ⟨fun table i node hmem => .inr hmem, ?_, ?_, ?_⟩
  · intro node table i hhome
    rcases hhome with hhome | hmem
    · exact Nat.lt_of_lt_of_le (h.allocated node table i hhome) hcount
    · exact (hheap.allocated table i node hmem).2.2
  · intro node table i other j hhome hmem
    rcases hhome with hhome | hmem'
    · exact hold node table i other j hhome hmem
    · exact hheap.unique table i other j node hmem' hmem
  · intro node table i successor hhome hsuccessor
    have hchain : ∀ other j, node ∈ chains' other j → successor ∈ chains' other j := by
      intro other j hmem
      obtain ⟨htable, hj, -⟩ := hheap.allocated other j node hmem
      exact (hheap.chain other htable j hj).next_mem hmem hsuccessor
    rcases hhome with hhome | hmem
    · rcases hnext node (h.allocated node table i hhome) with hsame | ⟨other, j, hmem⟩
      · exact .inl (h.next node table i successor hhome (hsame ▸ hsuccessor))
      · obtain ⟨rfl, rfl⟩ := hold node table i other j hhome hmem
        exact .inr (hchain _ _ hmem)
    · exact .inr (hchain table i hmem)

/-- The first node of a bucket belongs to it. -/
theorem HomeInv.head (h : HomeInv map chains home) (hheap : HeapInv cfg map chains contents)
    {table : TableId} {i : Nat} (htable : table < map.tableCount)
    (hi : i < (map.tables table).size) :
    ∀ node, (map.tables table).buckets i = some node → home node table i := by
  intro node hnode
  have hchain := hheap.chain table htable i hi
  rw [hnode] at hchain
  obtain ⟨rest, hnodes, -⟩ := hchain.of_some
  exact h.placed table i node (by simp [hnodes])

/-! ## What is ahead of a reader -/

/-- The walk from a pointer finds a value that has been seen, or nothing, and that was seen. -/
def Ahead (map : RcuHashMap K V) (key : K) (seen : List (Option V)) (start : Option NodeId) :
    Prop :=
  ∃ found, Search map.next (fun node => (map.nodes node).key = key) start found ∧
    found.map (fun node => (map.nodes node).value) ∈ seen

section Walks

variable [DecidableEq K] {key : K} {seen seen' : List (Option V)} {start : Option NodeId}
  {table : TableId}

omit [DecidableEq K] in
/-- Behind a node with another key the walk goes on. -/
theorem Ahead.tail {node : NodeId} (h : Ahead map key seen (some node))
    (hmiss : (map.nodes node).key ≠ key) : Ahead map key seen (map.next node) := by
  obtain ⟨found, hsearch, hmem⟩ := h
  exact ⟨found, hsearch.tail hmiss, hmem⟩

omit [DecidableEq K] in
/-- The value of a node with the key has been seen. -/
theorem Ahead.value {node : NodeId} (h : Ahead map key seen (some node))
    (hhit : (map.nodes node).key = key) : some (map.nodes node).value ∈ seen := by
  obtain ⟨found, hsearch, hmem⟩ := h
  obtain rfl := hsearch.head hhit
  exact hmem

omit [DecidableEq K] in
/-- At the end of a chain, that there is no value has been seen. -/
theorem Ahead.none (h : Ahead map key seen none) : none ∈ seen := by
  obtain ⟨found, hsearch, hmem⟩ := h
  obtain rfl := hsearch.unique .miss
  exact hmem

/-- The contents are the value of the first node with the key. -/
theorem Represents.lookup {chains : Nat → List NodeId} (h : Represents cfg map chains contents)
    (key : K) : contents key =
      ((chains (map.bucketIndex cfg map.table key)).find? fun node =>
        (map.nodes node).key = key).map fun node => (map.nodes node).value := by
  cases hfind : (chains (map.bucketIndex cfg map.table key)).find? fun node =>
      (map.nodes node).key = key with
  | none =>
      cases hcontents : contents key with
      | none => rfl
      | some value =>
          obtain ⟨node, hnode, hentry⟩ := (h.holds key value).mp hcontents
          have hmiss := List.find?_eq_none.mp hfind node hnode
          exact absurd (congrArg Prod.fst hentry) (by simpa [RcuHashMap.entry] using hmiss)
  | some node =>
      have hkey : (map.nodes node).key = key := by simpa using List.find?_some hfind
      exact (h.holds key _).mpr ⟨node, List.mem_of_find?_eq_some hfind, Prod.ext hkey rfl⟩

/-- A reader in front of the current table finds the contents. -/
theorem Represents.ahead {chains : Nat → List NodeId} (h : Represents cfg map chains contents)
    (hseen : contents key ∈ seen) :
    Ahead map key seen
      ((map.tables map.table).buckets (map.bucketIndex cfg map.table key)) :=
  ⟨_, .of_chain (h.chain _ (h.bucket_lt key)), h.lookup key ▸ hseen⟩

omit [DecidableEq K] in
/-- Allocations do not interfere. -/
theorem Ahead.extend (h : Ahead map key seen start) (hhome : HomeInv map chains home) {i : Nat}
    (hstart : ∀ node, start = some node → home node table i)
    (hnodes : ∀ node < map.nodeCount, map'.nodes node = map.nodes node) (hseen : seen ⊆ seen') :
    Ahead map' key seen' start := by
  obtain ⟨found, hsearch, hmem⟩ := h
  have hsame : ∀ node, home node table i → map'.nodes node = map.nodes node :=
    fun node hin => hnodes node (hhome.allocated node table i hin)
  have hinside := hsearch.inside hstart fun node successor => hhome.next node table i successor
  refine hsearch.relink (fun found => found.map (fun node => (map'.nodes node).value) ∈ seen')
    ?_ hstart
    (fun node successor => hhome.next node table i successor) ?_ ?_
  · refine hseen ?_
    cases found with
    | none => exact hmem
    | some node => simpa [hsame node (hinside node rfl)] using hmem
  · exact fun node hin => by rw [hsame node hin]
  · exact fun node _ hin hne => absurd (congrArg MapNode.next (hsame node hin)) hne

/-! ## Links -/

section Links

variable {i : Nat} {before behind old : List NodeId}

omit [DecidableEq K] in
/-- A key is in a chain once. -/
theorem no_hit_behind {front rest : List NodeId}
    (hdistinct : ((front ++ rest).map fun node => (map.entry node).1).Nodup) {node : NodeId}
    (hmem : node ∈ front) (hkey : (map.entry node).1 = key) :
    ∀ other ∈ rest, (map.nodes other).key ≠ key := by
  intro other hother hhit
  rw [List.map_append, List.nodup_append] at hdistinct
  exact hdistinct.2.2 _ (List.mem_map_of_mem hmem) _ (List.mem_map_of_mem hother)
    (hkey.trans hhit.symm)

/-- Behind the link is what the bucket holds now, unless the key is in front of it. -/
theorem Link.ahead (hlink : Link map map' i before behind)
    (hheap : HeapInv cfg map chains contents) (hi : i < map.tableSize)
    (hchain : chains map.table i = before ++ old)
    (hnew : Represents cfg map' (Function.update (chains map.table) i (before ++ behind)) contents')
    (hcontents : contents' key ∈ seen') (hbucket : map.bucketIndex cfg map.table key = i)
    {node : NodeId} (hlast : before.getLast? = some node) {found : Option NodeId}
    (hsearch : Search map.next (fun node => (map.nodes node).key = key) (map.next node) found)
    (hfound : found.map (fun node => (map'.nodes node).value) ∈ seen') :
    Ahead map' key seen' (map'.next node) := by
  obtain ⟨front, rfl⟩ := List.getLast?_eq_some_iff.mp hlast
  have hi' : i < map'.tableSize := hlink.tableSize_eq ▸ hi
  have hbucket' : map'.bucketIndex cfg map'.table key = i := by
    rw [hlink.table, hlink.bucketIndex_eq, hbucket]
  have hchain' := hnew.chain i hi'
  have hdistinct' := hnew.distinct i hi'
  have hlookup := hnew.lookup key
  rw [Function.update_self] at hchain' hdistinct'
  rw [hbucket', Function.update_self, List.find?_append] at hlookup
  rw [List.append_assoc, List.singleton_append] at hchain'
  refine ⟨_, .of_chain hchain'.suffix.2, ?_⟩
  cases hfront : (front ++ [node]).find? fun node => (map'.nodes node).key = key with
  | none =>
      rw [hfront, Option.none_or] at hlookup
      exact hlookup ▸ hcontents
  | some hit =>
      -- The key is in front of the link: there was nothing behind it, and there still is nothing.
      have hmem := List.mem_of_find?_eq_some hfront
      have hkey' : (map'.entry hit).1 = key := by
        simpa [RcuHashMap.entry] using List.find?_some hfront
      have hhit : hit ∈ chains map.table i := hchain ▸ List.mem_append_left _ hmem
      have hkey : (map.entry hit).1 = key :=
        (hlink.fields hit (hheap.allocated _ _ hit hhit).2.2).1 ▸ hkey'
      have hchain₀ := hheap.represents.chain i hi
      have hdistinct := hheap.represents.distinct i hi
      rw [hchain] at hdistinct hchain₀
      rw [List.append_assoc, List.singleton_append] at hchain₀
      have hmiss : (behind.find? fun node => (map'.nodes node).key = key) = none :=
        List.find?_eq_none.mpr fun other hother => by
          simpa using no_hit_behind hdistinct' hmem hkey' other hother
      have hmiss₀ : (old.find? fun node => (map.nodes node).key = key) = none :=
        List.find?_eq_none.mpr fun other hother => by
          simpa using no_hit_behind hdistinct hmem hkey other hother
      obtain rfl : found = none := (hsearch.unique (.of_chain hchain₀.suffix.2)).trans hmiss₀
      rw [hmiss]
      exact hfound

/-- The store of a link leaves something that was seen ahead of every reader. -/
theorem Ahead.link (h : Ahead map key seen start) (hhome : HomeInv map chains home)
    (hlink : Link map map' i before behind) (hheap : HeapInv cfg map chains contents)
    (hi : i < map.tableSize) (hchain : chains map.table i = before ++ old)
    (hnew : Represents cfg map' (Function.update (chains map.table) i (before ++ behind)) contents')
    (hseen : seen ⊆ seen') (hcontents : contents' key ∈ seen')
    (hstart : ∀ node, start = some node → home node table (map.bucketIndex cfg table key)) :
    Ahead map' key seen' start := by
  obtain ⟨found, hsearch, hmem⟩ := h
  have hclosed := fun node successor =>
    hhome.next node table (map.bucketIndex cfg table key) successor
  have hfields : ∀ node, home node table (map.bucketIndex cfg table key) →
      (map'.nodes node).key = (map.nodes node).key ∧
        (map'.nodes node).value = (map.nodes node).value :=
    fun node hin => Prod.ext_iff.mp (hlink.fields node (hhome.allocated _ _ _ hin)).1
  have hinside := hsearch.inside hstart hclosed
  refine hsearch.relink (fun found => found.map (fun node => (map'.nodes node).value) ∈ seen') ?_
    hstart hclosed ?_ ?_
  · refine hseen ?_
    cases found with
    | none => exact hmem
    | some node => simpa [(hfields node (hinside node rfl)).2] using hmem
  · exact fun node hin => by rw [(hfields node hin).1]
  · intro node found hin hne hrest hfound
    -- Only the last node before the link has a new successor.
    rw [hlink.next node (hhome.allocated _ _ _ hin)] at hne
    have hlast : before.getLast? = some node := by
      by_contra hlast
      exact hne (if_neg hlast)
    have hold : node ∈ chains map.table i := by
      simp [hchain, List.mem_of_getLast? hlast]
    obtain ⟨rfl, hbucket⟩ := hhome.unique node _ _ _ _ hin hold
    exact hlink.ahead hheap hi hchain hnew hcontents hbucket hlast hrest hfound

/-- The same for a reader that is about to load the bucket. -/
theorem Ahead.linkBucket
    (h : Ahead map key seen ((map.tables table).buckets (map.bucketIndex cfg table key)))
    (hhome : HomeInv map chains home) (hlink : Link map map' i before behind)
    (hheap : HeapInv cfg map chains contents) (htable : table < map.tableCount)
    (hi : i < map.tableSize) (hchain : chains map.table i = before ++ old)
    (hnew : Represents cfg map' (Function.update (chains map.table) i (before ++ behind)) contents')
    (hseen : seen ⊆ seen') (hcontents : contents' key ∈ seen') :
    Ahead map' key seen' ((map'.tables table).buckets (map'.bucketIndex cfg table key)) := by
  rw [hlink.bucketIndex_eq]
  by_cases hhere : before = [] ∧ table = map.table ∧ map.bucketIndex cfg table key = i
  · obtain ⟨-, rfl, -⟩ := hhere
    have hahead := hnew.ahead hcontents
    rwa [hlink.table, hlink.bucketIndex_eq] at hahead
  · rw [hlink.bucket, if_neg hhere]
    exact h.link hhome hlink hheap hi hchain hnew hseen hcontents
      (hhome.head hheap htable (Nat.mod_lt _ (hheap.size_pos table htable)))

end Links

end Walks

end HotPath.Concurrency
