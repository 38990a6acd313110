import HotPath.Concurrency.RcuHashMap
import HotPath.Foundation.Chain

/-!
# What the chains of a map stand for

`Represents` relates the memory of a map to its abstract contents, a partial function from keys
to values: every bucket of the current table starts a null-terminated chain of nodes that hash to
the bucket and have pairwise distinct keys, and the contents are what these nodes hold.

There is one lemma for every piece of `Put` and `Remove`: the search (`find_spec`), the store of a
link (`Represents.relink`), and the construction of a larger table (`Represents.build`).
-/

namespace HotPath.Concurrency

open HotPath.Foundation

variable {K V : Type} {cfg : MapConfig K} {map : RcuHashMap K V} {chains : Nat → List NodeId}
  {contents : K → Option V} {key : K} {value : V}

/-- The current table represents the contents. The chain of every bucket is given. -/
structure Represents (cfg : MapConfig K) (map : RcuHashMap K V) (chains : Nat → List NodeId)
    (contents : K → Option V) : Prop where
  size_pos : 0 < map.tableSize
  table_lt : map.table < map.tableCount
  chain : ∀ i < map.tableSize,
    IsChain map.next ((map.tables map.table).buckets i) (chains i)
  allocated : ∀ i < map.tableSize, ∀ node ∈ chains i, node < map.nodeCount
  hashed : ∀ i < map.tableSize, ∀ node ∈ chains i,
    map.bucketIndex cfg map.table (map.entry node).1 = i
  distinct : ∀ i < map.tableSize, ((chains i).map fun node => (map.entry node).1).Nodup
  even : ∀ i < map.tableSize, ∀ node ∈ chains i, (map.nodes node).seq = 0
  holds : ∀ key value, contents key = some value ↔
    ∃ node ∈ chains (map.bucketIndex cfg map.table key), map.entry node = (key, value)

/-- The bucket of a key exists. -/
theorem Represents.bucket_lt (h : Represents cfg map chains contents) (key : K) :
    map.bucketIndex cfg map.table key < map.tableSize := Nat.mod_lt _ h.size_pos

/-! ## The search -/

section Search

variable [DecidableEq K] {start : Option NodeId} {nodes : List NodeId} {fuel : Nat}

/-- The search finds the first node with the key, and the node before it. -/
theorem find_spec (key : K) (prev : Option NodeId) (h : IsChain map.next start nodes)
    (hfuel : nodes.length < fuel) :
    ((∀ node ∈ nodes, (map.entry node).1 ≠ key) ∧
      map.find key fuel prev start = some ((nodes.getLast?).or prev, none)) ∨
    ∃ before current after, nodes = before ++ current :: after ∧
      (∀ node ∈ before, (map.entry node).1 ≠ key) ∧ (map.entry current).1 = key ∧
      map.find key fuel prev start = some ((before.getLast?).or prev, some current) := by
  induction nodes generalizing start prev fuel with
  | nil =>
      obtain rfl : start = none := h
      obtain ⟨fuel, rfl⟩ : ∃ n, fuel = n + 1 := ⟨fuel - 1, by simp at hfuel; omega⟩
      exact .inl ⟨by simp, by simp [RcuHashMap.find]⟩
  | cons node rest ih =>
      obtain ⟨rfl, hrest⟩ := h
      obtain ⟨fuel, rfl⟩ : ∃ n, fuel = n + 1 := ⟨fuel - 1, by simp at hfuel; omega⟩
      by_cases hkey : (map.nodes node).key = key
      · refine .inr ⟨[], node, rest, rfl, by simp, hkey, ?_⟩
        simp [RcuHashMap.find, hkey]
      · have hstep : map.find key (fuel + 1) prev (some node) =
            map.find key fuel (some node) (map.next node) := by
          simp [RcuHashMap.find, hkey, RcuHashMap.next]
        rw [hstep]
        rcases ih (some node) hrest (by simpa using hfuel) with
            ⟨hnone, hfind⟩ | ⟨before, current, after, rfl, hbefore, hcurrent, hfind⟩
        · refine .inl ⟨?_, ?_⟩
          · intro other hother
            rcases List.mem_cons.mp hother with rfl | hother
            · exact hkey
            · exact hnone other hother
          · rw [hfind, List.getLast?_cons]
            cases rest.getLast? <;> rfl
        · refine .inr ⟨node :: before, current, after, rfl, ?_, hcurrent, ?_⟩
          · intro other hother
            rcases List.mem_cons.mp hother with rfl | hother
            · exact hkey
            · exact hbefore other hother
          · rw [hfind, List.getLast?_cons]
            cases before.getLast? <;> rfl

/-- The loop of `Get` returns what the chain holds. -/
theorem getFrom_spec (key : K) (h : IsChain map.next start nodes)
    (hfuel : nodes.length < fuel) (heven : ∀ node ∈ nodes, (map.nodes node).seq = 0) :
    ((∀ node ∈ nodes, (map.entry node).1 ≠ key) ∧ map.getFrom key fuel start = some none) ∨
    ∃ node ∈ nodes, (map.entry node).1 = key ∧
      map.getFrom key fuel start = some (some (map.entry node).2) := by
  induction nodes generalizing start fuel with
  | nil =>
      obtain rfl : start = none := h
      obtain ⟨fuel, rfl⟩ : ∃ n, fuel = n + 1 := ⟨fuel - 1, by simp at hfuel; omega⟩
      exact .inl ⟨by simp, rfl⟩
  | cons node rest ih =>
      obtain ⟨rfl, hrest⟩ := h
      obtain ⟨fuel, rfl⟩ : ∃ n, fuel = n + 1 := ⟨fuel - 1, by simp at hfuel; omega⟩
      by_cases hkey : (map.nodes node).key = key
      · refine .inr ⟨node, List.mem_cons_self .., hkey, ?_⟩
        have hseq := heven node (List.mem_cons_self ..)
        simp [RcuHashMap.getFrom, hkey, RcuHashMap.readValue, hseq, RcuHashMap.entry]
      · have hstep : map.getFrom key (fuel + 1) (some node) =
            map.getFrom key fuel (map.next node) := by
          simp [RcuHashMap.getFrom, hkey, RcuHashMap.next]
        rw [hstep]
        rcases ih hrest (by simpa using hfuel)
            fun other hother => heven other (List.mem_cons_of_mem _ hother) with
            ⟨hnone, hget⟩ | ⟨found, hfound, hfoundKey, hget⟩
        · refine .inl ⟨?_, hget⟩
          intro other hother
          rcases List.mem_cons.mp hother with rfl | hother
          · exact hkey
          · exact hnone other hother
        · exact .inr ⟨found, List.mem_cons_of_mem _ hfound, hfoundKey, hget⟩

/-- `Get` returns the contents. -/
theorem Represents.get (h : Represents cfg map chains contents) (key : K) :
    map.get cfg key = some (contents key) := by
  have hlt := h.bucket_lt key
  have hchain := h.chain _ hlt
  have hlength := hchain.length_le (h.allocated _ hlt)
  unfold RcuHashMap.get
  rcases getFrom_spec key hchain (Nat.lt_succ_of_le hlength) (h.even _ hlt) with
      ⟨hnone, hget⟩ | ⟨node, hnode, hkey, hget⟩
  · rw [hget]
    cases hcontents : contents key with
    | none => rfl
    | some value =>
        obtain ⟨node, hnode, hentry⟩ := (h.holds key value).mp hcontents
        exact absurd (congrArg Prod.fst hentry) (hnone node hnode)
  · rw [hget, (h.holds key (map.entry node).2).mpr ⟨node, hnode, Prod.ext hkey rfl⟩]

end Search

/-! ## Links -/

/-- What the store of a link does to the memory. The nodes `before` stay in front of the link, and
the nodes `behind` follow it afterwards. -/
structure Link (map map' : RcuHashMap K V) (i : Nat) (before behind : List NodeId) : Prop where
  table : map'.table = map.table
  tableCount : map'.tableCount = map.tableCount
  count : map'.count = map.count
  grow : map.nodeCount ≤ map'.nodeCount
  fields : ∀ node < map.nodeCount,
    map'.entry node = map.entry node ∧ (map'.nodes node).seq = (map.nodes node).seq
  next : ∀ node < map.nodeCount, map'.next node =
    if before.getLast? = some node then behind.head? else map.next node
  size : ∀ table, (map'.tables table).size = (map.tables table).size
  bucket : ∀ table j, (map'.tables table).buckets j =
    if before = [] ∧ table = map.table ∧ j = i then behind.head?
    else (map.tables table).buckets j

section Links

variable {map' : RcuHashMap K V} {i : Nat} {before behind old : List NodeId}

/-- A store of a link. -/
theorem link_storeLink (map : RcuHashMap K V) (i : Nat) (before behind : List NodeId) :
    Link map (map.storeLink i before.getLast? behind.head?) i before behind := by
  cases hlast : before.getLast? with
  | none =>
      obtain rfl := List.getLast?_eq_none_iff.mp hlast
      refine ⟨rfl, rfl, rfl, Nat.le_refl _, fun _ _ => ⟨rfl, rfl⟩, fun _ _ => rfl, ?_, ?_⟩
      · exact fun table => map.storeBucket_size map.table table i behind.head?
      · intro table j
        change ((map.storeBucket map.table i behind.head?).tables table).buckets j = _
        by_cases htable : table = map.table
        · subst htable
          rw [RcuHashMap.storeBucket_buckets]
          by_cases hj : j = i
          · simp [hj]
          · simp [hj]
        · rw [map.storeBucket_of_ne i behind.head? htable]
          simp [htable]
  | some last =>
      have hne : before ≠ [] := by
        rintro rfl
        simp at hlast
      refine ⟨rfl, rfl, rfl, Nat.le_refl _, fun node _ => map.storeNext_fields last node _, ?_,
        fun _ => rfl, fun _ _ => by simp [hne, RcuHashMap.storeLink]⟩
      intro node _
      change (map.storeNext last behind.head?).next node = _
      rw [RcuHashMap.storeNext_next, hlast]
      by_cases hnode : node = last
      · simp [hnode]
      · simp [Function.update_of_ne hnode, Ne.symm hnode]

/-- A store of a link to a node that was just allocated. -/
theorem Link.after_newNode {node : MapNode K V}
    (h : Link (map.newNode node) map' i before behind) : Link map map' i before behind where
  table := h.table
  tableCount := h.tableCount
  count := h.count
  grow := Nat.le_of_succ_le h.grow
  fields := fun other hother => by
    obtain ⟨hentry, hseq⟩ := h.fields other (Nat.lt_succ_of_lt hother)
    rw [hentry, hseq]
    simp [RcuHashMap.entry, map.newNode_of_lt node hother]
  next := fun other hother => by
    rw [h.next other (Nat.lt_succ_of_lt hother)]
    simp [RcuHashMap.next, map.newNode_of_lt node hother]
  size := h.size
  bucket := h.bucket

theorem Link.bucketIndex_eq (h : Link map map' i before behind) (table : TableId) (key : K) :
    map'.bucketIndex cfg table key = map.bucketIndex cfg table key := by
  simp [RcuHashMap.bucketIndex, h.size]

theorem Link.tableSize_eq (h : Link map map' i before behind) :
    map'.tableSize = map.tableSize := by
  simp [RcuHashMap.tableSize, h.table, h.size]

/-- The chains after the store of a link. -/
theorem Link.represents {contents' : K → Option V} (hlink : Link map map' i before behind)
    (h : Represents cfg map chains contents) (hi : i < map.tableSize)
    (hchain : chains i = before ++ old) (hbehind : IsChain map'.next behind.head? behind)
    (hnodes : ∀ node ∈ behind, node < map'.nodeCount ∧
      map.bucketIndex cfg map.table (map'.entry node).1 = i ∧ (map'.nodes node).seq = 0)
    (hdistinct : ((before ++ behind).map fun node => (map'.entry node).1).Nodup)
    (hother : ∀ key, map.bucketIndex cfg map.table key ≠ i → contents' key = contents key)
    (hholds : ∀ key, map.bucketIndex cfg map.table key = i → ∀ value,
      contents' key = some value ↔ ∃ node ∈ before ++ behind, map'.entry node = (key, value)) :
    Represents cfg map' (Function.update chains i (before ++ behind)) contents' := by
  have hbefore : ∀ node ∈ before, node ∈ chains i := fun node hmem => by simp [hchain, hmem]
  have hindex : ∀ key, map'.bucketIndex cfg map'.table key = map.bucketIndex cfg map.table key :=
    fun key => by rw [hlink.table, hlink.bucketIndex_eq]
  -- A node in another chain keeps its pointer: the last node before the link hashes to bucket `i`.
  have hkeep : ∀ j < map.tableSize, j ≠ i → ∀ node ∈ chains j,
      before.getLast? ≠ some node := by
    intro j hj hne node hnode hlast
    have hmem := hbefore node (List.mem_of_getLast? hlast)
    exact hne ((h.hashed j hj node hnode).symm.trans (h.hashed i hi node hmem))
  have hnode : ∀ j < map.tableSize, ∀ node ∈ Function.update chains i (before ++ behind) j,
      node < map'.nodeCount ∧ map.bucketIndex cfg map.table (map'.entry node).1 = j ∧
        (map'.nodes node).seq = 0 := by
    intro j hj node hmem
    have hold : ∀ j < map.tableSize, ∀ node ∈ chains j, node < map'.nodeCount ∧
        map.bucketIndex cfg map.table (map'.entry node).1 = j ∧ (map'.nodes node).seq = 0 := by
      intro j hj node hmem
      have hlt := h.allocated j hj node hmem
      obtain ⟨hentry, hseq⟩ := hlink.fields node hlt
      rw [hentry, hseq]
      exact ⟨Nat.lt_of_lt_of_le hlt hlink.grow, h.hashed j hj node hmem, h.even j hj node hmem⟩
    by_cases heq : j = i
    · subst heq
      rw [Function.update_self] at hmem
      rcases List.mem_append.mp hmem with hmem | hmem
      · exact hold j hj node (hbefore node hmem)
      · exact hnodes node hmem
    · rw [Function.update_of_ne heq] at hmem
      exact hold j hj node hmem
  refine ⟨hlink.tableSize_eq ▸ h.size_pos, ?_, ?_, ?_, ?_, ?_, ?_, ?_⟩
  · rw [hlink.table, hlink.tableCount]
    exact h.table_lt
  · intro j hj
    rw [hlink.tableSize_eq] at hj
    rw [hlink.table, hlink.bucket]
    by_cases heq : j = i
    · subst heq
      have hold := h.chain j hj
      rw [hchain] at hold
      rw [Function.update_self]
      refine hold.relink hbehind ?_ ?_ (by simp)
      · intro node hlast
        have hlt := h.allocated j hj node (hbefore node (List.mem_of_getLast? hlast))
        rw [hlink.next node hlt, if_pos hlast]
      · intro node hmem hlast
        rw [hlink.next node (h.allocated j hj node (hbefore node hmem)), if_neg hlast]
    · rw [Function.update_of_ne heq, if_neg (fun hall => heq hall.2.2)]
      refine (h.chain j hj).congr fun node hmem => ?_
      rw [hlink.next node (h.allocated j hj node hmem), if_neg (hkeep j hj heq node hmem)]
  · exact fun j hj node hmem => (hnode j (hlink.tableSize_eq ▸ hj) node hmem).1
  · intro j hj node hmem
    rw [hindex]
    exact (hnode j (hlink.tableSize_eq ▸ hj) node hmem).2.1
  · intro j hj
    rw [hlink.tableSize_eq] at hj
    by_cases heq : j = i
    · subst heq
      rwa [Function.update_self]
    · rw [Function.update_of_ne heq]
      refine (List.map_congr_left fun node hmem => ?_) ▸ h.distinct j hj
      rw [(hlink.fields node (h.allocated j hj node hmem)).1]
  · exact fun j hj node hmem => (hnode j (hlink.tableSize_eq ▸ hj) node hmem).2.2
  · intro key value
    rw [hindex]
    by_cases heq : map.bucketIndex cfg map.table key = i
    · rw [heq, Function.update_self]
      exact hholds key heq value
    · rw [Function.update_of_ne heq, hother key heq, h.holds]
      refine exists_congr fun node => and_congr_right fun hmem => ?_
      rw [(hlink.fields node (h.allocated _ (h.bucket_lt key) node hmem)).1]

/-- The search splits the chain of the key at the node that holds it. -/
theorem Represents.search [DecidableEq K] (h : Represents cfg map chains contents) (key : K) :
    ((∀ node ∈ chains (map.bucketIndex cfg map.table key), (map.entry node).1 ≠ key) ∧
      contents key = none ∧ ∃ prev, map.search cfg key = some (prev, none)) ∨
    ∃ before current after,
      chains (map.bucketIndex cfg map.table key) = before ++ current :: after ∧
      (map.entry current).1 = key ∧ contents key = some (map.entry current).2 ∧
      map.search cfg key = some (before.getLast?, some current) := by
  have hlt := h.bucket_lt key
  have hchain := h.chain _ hlt
  have hfuel := Nat.lt_succ_of_le (hchain.length_le (h.allocated _ hlt))
  rcases find_spec key none hchain hfuel with
      ⟨hnone, hfind⟩ | ⟨before, current, after, hsplit, -, hkey, hfind⟩
  · refine .inl ⟨hnone, ?_, _, hfind⟩
    cases hcontents : contents key with
    | none => rfl
    | some value =>
        obtain ⟨node, hnode, hentry⟩ := (h.holds key value).mp hcontents
        exact absurd (congrArg Prod.fst hentry) (hnone node hnode)
  · refine .inr ⟨before, current, after, hsplit, hkey, ?_, ?_⟩
    · exact (h.holds key _).mpr ⟨current, by simp [hsplit], Prod.ext hkey rfl⟩
    · unfold RcuHashMap.search
      rw [hfind, Option.or_none]

/-- What `Put` does at its link: a new node takes the place of the one with the key, or comes
first. -/
structure PutLink (cfg : MapConfig K) (map map' : RcuHashMap K V) (chains : Nat → List NodeId)
    (key : K) (value : V) (replaced : Option NodeId) (before old behind : List NodeId) : Prop where
  link : Link map map' (map.bucketIndex cfg map.table key) before behind
  chain : chains (map.bucketIndex cfg map.table key) = before ++ old
  nodeCount : map'.nodeCount = map.nodeCount + 1
  entry : map'.entry map.nodeCount = (key, value)
  shape : (replaced = none ∧ before = [] ∧ behind = map.nodeCount :: old) ∨
    ∃ current after, replaced = some current ∧ old = current :: after ∧
      behind = map.nodeCount :: after ∧ (map.entry current).1 = key

/-- A node is allocated and linked. -/
theorem newNode_link (map : RcuHashMap K V) (i : Nat) (before after : List NodeId)
    (node : MapNode K V) (hold : ∀ last, before.getLast? = some last → last < map.nodeCount) :
    let map' := (map.newNode node).storeLink i before.getLast? (some map.nodeCount)
    Link map map' i before (map.nodeCount :: after) ∧ map'.nodeCount = map.nodeCount + 1 ∧
      map'.entry map.nodeCount = (node.key, node.value) ∧
      (map'.nodes map.nodeCount).seq = node.seq ∧ map'.next map.nodeCount = node.next := by
  have hlink := link_storeLink (map.newNode node) i before (map.nodeCount :: after)
  obtain ⟨hentry, hseq⟩ := hlink.fields map.nodeCount (Nat.lt_succ_self _)
  have hlast : before.getLast? ≠ some map.nodeCount := fun hlast =>
    absurd (hold _ hlast) (Nat.lt_irrefl _)
  refine ⟨hlink.after_newNode, ?_, ?_, ?_, ?_⟩
  · cases before.getLast? <;> rfl
  · refine hentry.trans ?_
    simp [RcuHashMap.entry]
  · refine hseq.trans ?_
    simp
  · refine (hlink.next _ (Nat.lt_succ_self _)).trans ?_
    rw [if_neg hlast]
    simp [RcuHashMap.next]

/-- The part of a chain behind the link keeps its pointers. -/
theorem Link.keep_after {after : List NodeId} {target : Option NodeId} (middle : List NodeId)
    (hlink : Link map map' i before behind) (h : Represents cfg map chains contents)
    (hi : i < map.tableSize) (hsplit : chains i = before ++ (middle ++ after))
    (hafter : IsChain map.next target after) : IsChain map'.next target after := by
  have hnodup := (h.chain i hi).nodup
  rw [hsplit] at hnodup
  refine hafter.congr fun node hmem => ?_
  have hin : node ∈ chains i := by simp [hsplit, hmem]
  rw [hlink.next node (h.allocated i hi node hin), if_neg]
  exact fun hlast => (List.nodup_append.mp hnodup).2.2 node (List.mem_of_getLast? hlast) node
    (by simp [hmem]) rfl

/-- The nodes that a link puts in where it took out those with the key: none, or one with a
value. -/
def Replaces (map : RcuHashMap K V) (key : K) (fresh : List NodeId) (outcome : Option V) : Prop :=
  (fresh = [] ∧ outcome = none) ∨ ∃ node value, fresh = [node] ∧ outcome = some value ∧
    node < map.nodeCount ∧ map.entry node = (key, value) ∧ (map.nodes node).seq = 0

/-- The key has what was put in, if no other node of the chain has it. -/
theorem Replaces.at_key {after : List NodeId} {fresh : List NodeId} {outcome : Option V}
    (h : Replaces map key fresh outcome)
    (hothers : ∀ node ∈ before ++ after, (map.entry node).1 ≠ key) (value : V) :
    outcome = some value ↔ ∃ node ∈ before ++ (fresh ++ after), map.entry node = (key, value) := by
  have hnot : ∀ node ∈ before ++ after, map.entry node ≠ (key, value) := fun node hnode hentry =>
    hothers node hnode (congrArg Prod.fst hentry)
  rcases h with ⟨rfl, rfl⟩ | ⟨fresh, held, rfl, rfl, -, hentry, -⟩
  · simp only [List.nil_append, reduceCtorEq, false_iff, not_exists, not_and]
    exact hnot
  · constructor
    · rintro ⟨⟩
      exact ⟨fresh, by simp, hentry⟩
    · rintro ⟨node, hnode, hnodeEntry⟩
      obtain rfl | hnode : node = fresh ∨ node ∈ before ++ after := by
        simpa [or_left_comm] using hnode
      · rw [hentry] at hnodeEntry
        exact congrArg some (congrArg Prod.snd hnodeEntry)
      · exact absurd hnodeEntry (hnot node hnode)

/-- Another key has what it had, if the nodes that were taken out have the key. -/
theorem Replaces.at_other {middle after : List NodeId} {fresh : List NodeId} {outcome : Option V}
    (h : Replaces map' key fresh outcome) {other : K} (hne : other ≠ key)
    (hmiddle : ∀ node ∈ middle, (map.entry node).1 = key)
    (hsame : ∀ node ∈ before ++ after, map'.entry node = map.entry node) (value : V) :
    (∃ node ∈ before ++ (middle ++ after), map.entry node = (other, value)) ↔
      ∃ node ∈ before ++ (fresh ++ after), map'.entry node = (other, value) := by
  constructor
  · rintro ⟨node, hnode, hentry⟩
    have hin : node ∈ before ++ after := by
      rcases List.mem_append.mp hnode with hnode | hnode
      · exact List.mem_append_left _ hnode
      · rcases List.mem_append.mp hnode with hnode | hnode
        · have hkey := hmiddle node hnode
          rw [hentry] at hkey
          exact absurd hkey hne
        · exact List.mem_append_right _ hnode
    refine ⟨node, ?_, (hsame node hin).trans hentry⟩
    rcases List.mem_append.mp hin with hnode | hnode <;> simp [hnode]
  · rintro ⟨node, hnode, hentry⟩
    obtain hnode | hnode : node ∈ fresh ∨ node ∈ before ++ after := by
      simpa [or_left_comm] using hnode
    · rcases h with ⟨rfl, -⟩ | ⟨fresh, held, rfl, -, -, hfresh, -⟩
      · simp at hnode
      · obtain rfl := List.mem_singleton.mp hnode
        rw [hfresh] at hentry
        exact absurd (congrArg Prod.fst hentry).symm hne
    · refine ⟨node, ?_, (hsame node hnode).symm.trans hentry⟩
      rcases List.mem_append.mp hnode with hnode | hnode <;> simp [hnode]

/-- A link that takes the nodes with a key out of a chain and puts at most one back in changes the
contents at the key. -/
theorem Link.splice [DecidableEq K] {after : List NodeId} {outcome : Option V}
    (middle fresh : List NodeId)
    (hlink : Link map map' (map.bucketIndex cfg map.table key) before (fresh ++ after))
    (h : Represents cfg map chains contents)
    (hsplit : chains (map.bucketIndex cfg map.table key) = before ++ (middle ++ after))
    (hmiddle : ∀ node ∈ middle, (map.entry node).1 = key)
    (hothers : ∀ node ∈ before ++ after, (map.entry node).1 ≠ key)
    (hchain : IsChain map'.next (fresh ++ after).head? (fresh ++ after))
    (hfresh : Replaces map' key fresh outcome) :
    Represents cfg map' (Function.update chains (map.bucketIndex cfg map.table key)
      (before ++ (fresh ++ after))) (Function.update contents key outcome) := by
  have hlt := h.bucket_lt key
  have hmem : ∀ node ∈ before ++ after, node ∈ chains (map.bucketIndex cfg map.table key) := by
    intro node hnode
    rw [hsplit]
    rcases List.mem_append.mp hnode with hnode | hnode <;> simp [hnode]
  have hsame : ∀ node ∈ before ++ after, map'.entry node = map.entry node := fun node hnode =>
    (hlink.fields node (h.allocated _ hlt node (hmem node hnode))).1
  have hothers' : ∀ node ∈ before ++ after, (map'.entry node).1 ≠ key := by
    intro node hnode
    rw [hsame node hnode]
    exact hothers node hnode
  have hkeys : ((before ++ after).map fun node => (map'.entry node).1).Nodup := by
    have hsub : (before ++ after).Sublist (before ++ (middle ++ after)) := by simp
    have hdistinct := h.distinct _ hlt
    rw [hsplit] at hdistinct
    refine (List.map_congr_left fun node hnode => ?_) ▸ hdistinct.sublist (hsub.map _)
    rw [hsame node hnode]
  refine hlink.represents h hlt hsplit hchain ?_ ?_ ?_ ?_
  · intro node hnode
    rcases List.mem_append.mp hnode with hnode | hnode
    · rcases hfresh with ⟨rfl, -⟩ | ⟨fresh, value, rfl, -, hcount, hentry, hseq⟩
      · simp at hnode
      · obtain rfl := List.mem_singleton.mp hnode
        exact ⟨hcount, by rw [hentry], hseq⟩
    · have hin := hmem node (List.mem_append_right _ hnode)
      have hold := h.allocated _ hlt node hin
      obtain ⟨hentry, hseq⟩ := hlink.fields node hold
      rw [hentry, hseq]
      exact ⟨Nat.lt_of_lt_of_le hold hlink.grow, h.hashed _ hlt node hin, h.even _ hlt node hin⟩
  · rcases hfresh with ⟨rfl, -⟩ | ⟨fresh, value, rfl, -, -, hentry, -⟩
    · exact hkeys
    · have hperm : (before ++ ([fresh] ++ after)).Perm (fresh :: (before ++ after)) :=
        List.perm_middle
      rw [(hperm.map _).nodup_iff, List.map_cons, List.nodup_cons]
      refine ⟨fun hin => ?_, hkeys⟩
      obtain ⟨node, hnode, hkey⟩ := List.mem_map.mp hin
      rw [hentry] at hkey
      exact hothers' node hnode hkey
  · intro other hother
    refine Function.update_of_ne ?_ ..
    rintro rfl
    exact hother rfl
  · intro other hother value
    by_cases heq : other = key
    · subst heq
      rw [Function.update_self]
      exact hfresh.at_key hothers' value
    · rw [Function.update_of_ne heq, h.holds, hother, hsplit]
      exact hfresh.at_other heq hmiddle hsame value

/-- The nodes around the one with the key have other keys. -/
theorem Represents.others {current : NodeId} {after : List NodeId}
    (h : Represents cfg map chains contents) (hi : i < map.tableSize)
    (hsplit : chains i = before ++ current :: after) :
    ∀ node ∈ before ++ after, (map.entry node).1 ≠ (map.entry current).1 := by
  have hdistinct := h.distinct i hi
  rw [hsplit, (List.perm_middle.map _).nodup_iff, List.map_cons, List.nodup_cons] at hdistinct
  exact fun node hnode hkey => hdistinct.1 (List.mem_map.mpr ⟨node, hnode, hkey⟩)

/-- A node for a key that no node holds is put in front of the chain. -/
theorem Represents.put_absent [DecidableEq K] (h : Represents cfg map chains contents) (value : V)
    (hnone : ∀ node ∈ chains (map.bucketIndex cfg map.table key), (map.entry node).1 ≠ key) :
    let i := map.bucketIndex cfg map.table key
    let node : MapNode K V := ⟨key, value, 0, (map.tables map.table).buckets i⟩
    let map' := (map.newNode node).storeLink i none (some map.nodeCount)
    PutLink cfg map map' chains key value none [] (chains i) (map.nodeCount :: chains i) ∧
      Represents cfg map' (Function.update chains i (map.nodeCount :: chains i))
        (Function.update contents key (some value)) := by
  intro i node map'
  have hlt := h.bucket_lt key
  obtain ⟨hlink, hcount, hentry, hseq, hnext⟩ :=
    newNode_link map i [] (chains i) node (by simp)
  refine ⟨⟨hlink, rfl, hcount, hentry, .inl ⟨rfl, rfl, rfl⟩⟩, ?_⟩
  refine hlink.splice [] [map.nodeCount] h rfl (by simp) hnone ⟨rfl, ?_⟩ ?_
  · rw [hnext]
    exact hlink.keep_after [] h hlt rfl (h.chain _ hlt)
  · exact .inr ⟨_, value, rfl, rfl, hcount ▸ Nat.lt_succ_self _, hentry, hseq⟩

/-- A node takes the place of the one that holds its key. It goes on where the old one went on. -/
theorem Represents.put_present [DecidableEq K] (h : Represents cfg map chains contents) (value : V)
    {current : NodeId} {after : List NodeId}
    (hsplit : chains (map.bucketIndex cfg map.table key) = before ++ current :: after)
    (hkey : (map.entry current).1 = key) :
    let i := map.bucketIndex cfg map.table key
    let map' := (map.newNode ⟨key, value, 0, map.next current⟩).storeLink i before.getLast?
      (some map.nodeCount)
    PutLink cfg map map' chains key value (some current) before (current :: after)
        (map.nodeCount :: after) ∧
      Represents cfg map' (Function.update chains i (before ++ map.nodeCount :: after))
        (Function.update contents key (some value)) := by
  intro i map'
  have hlt := h.bucket_lt key
  have hchain := h.chain _ hlt
  have hlast : ∀ last, before.getLast? = some last → last < map.nodeCount := fun last hlast =>
    h.allocated _ hlt last (by simp [hsplit, List.mem_of_getLast? hlast])
  obtain ⟨hlink, hcount, hentry, hseq, hnext⟩ :=
    newNode_link map i before after ⟨key, value, 0, map.next current⟩ hlast
  refine ⟨⟨hlink, hsplit, hcount, hentry, .inr ⟨current, after, rfl, rfl, rfl, hkey⟩⟩, ?_⟩
  rw [hsplit] at hchain
  refine hlink.splice [current] [map.nodeCount] h hsplit (by simpa) (hkey ▸ h.others hlt hsplit)
    ⟨rfl, ?_⟩ ?_
  · rw [hnext]
    exact hlink.keep_after [current] h hlt hsplit hchain.suffix.2
  · exact .inr ⟨_, value, rfl, rfl, hcount ▸ Nat.lt_succ_self _, hentry, hseq⟩

/-- What `Put` does at its link: a new node takes the place of the one with the key, or comes
first. -/
theorem Represents.linkPut [DecidableEq K] (h : Represents cfg map chains contents) (key : K)
    (value : V) : ∃ map' replaced before old behind,
      map.linkPut cfg key value = some (map', replaced) ∧
      PutLink cfg map map' chains key value replaced before old behind ∧
      (replaced = none ↔ contents key = none) ∧
      Represents cfg map' (Function.update chains (map.bucketIndex cfg map.table key)
        (before ++ behind)) (Function.update contents key (some value)) := by
  rcases h.search key with
      ⟨hnone, hcontents, prev, hsearch⟩ |
      ⟨before, current, after, hsplit, hkey, hcontents, hsearch⟩
  · obtain ⟨hput, hrepresents⟩ := h.put_absent value hnone
    refine ⟨_, none, [], _, _, ?_, hput, by simp [hcontents], hrepresents⟩
    simp only [RcuHashMap.linkPut, hsearch, Option.map_some]
    rfl
  · obtain ⟨hput, hrepresents⟩ := h.put_present value hsplit hkey
    refine ⟨_, some current, before, _, _, ?_, hput, by simp [hcontents], hrepresents⟩
    simp only [RcuHashMap.linkPut, hsearch, Option.map_some]
    rfl

/-- What `Remove` does at its link: the node with the key is taken out. -/
structure RemoveLink (cfg : MapConfig K) (map map' : RcuHashMap K V) (chains : Nat → List NodeId)
    (key : K) (removed : NodeId) (before behind : List NodeId) : Prop where
  link : Link map map' (map.bucketIndex cfg map.table key) before behind
  chain : chains (map.bucketIndex cfg map.table key) = before ++ removed :: behind
  nodeCount : map'.nodeCount = map.nodeCount
  key : (map.entry removed).1 = key

/-- The node that holds a key is taken out of its chain. -/
theorem Represents.remove_present [DecidableEq K] (h : Represents cfg map chains contents)
    {removed : NodeId} {behind : List NodeId}
    (hsplit : chains (map.bucketIndex cfg map.table key) = before ++ removed :: behind)
    (hkey : (map.entry removed).1 = key) :
    let i := map.bucketIndex cfg map.table key
    let map' := map.storeLink i before.getLast? (map.next removed)
    map.next removed = behind.head? ∧
      RemoveLink cfg map map' chains key removed before behind ∧
      Represents cfg map' (Function.update chains i (before ++ behind))
        (Function.update contents key none) := by
  intro i map'
  have hlt := h.bucket_lt key
  have hchain := h.chain _ hlt
  rw [hsplit] at hchain
  have hbehind := hchain.suffix.2
  have hhead : map.next removed = behind.head? := by
    cases behind with
    | nil => exact hbehind
    | cons head rest => exact hbehind.1
  have hlink : Link map map' i before behind := by
    have hlink := link_storeLink map i before behind
    rwa [← hhead] at hlink
  refine ⟨hhead, ⟨hlink, hsplit, ?_, hkey⟩, ?_⟩
  · change (map.storeLink i before.getLast? (map.next removed)).nodeCount = map.nodeCount
    cases before.getLast? <;> rfl
  · refine hlink.splice [removed] [] h hsplit (by simpa) (hkey ▸ h.others hlt hsplit) ?_
      (.inl ⟨rfl, rfl⟩)
    rw [hhead] at hbehind
    exact hlink.keep_after [removed] h hlt hsplit hbehind

/-- `Remove` finds nothing, or it unlinks the node with the key. -/
theorem Represents.linkRemove [DecidableEq K] (h : Represents cfg map chains contents) (key : K) :
    (contents key = none ∧ map.linkRemove cfg key = some (map, none)) ∨
    ∃ map' removed before behind,
      map.linkRemove cfg key = some (map', some removed) ∧ contents key ≠ none ∧
      RemoveLink cfg map map' chains key removed before behind ∧
      Represents cfg map' (Function.update chains (map.bucketIndex cfg map.table key)
        (before ++ behind)) (Function.update contents key none) := by
  rcases h.search key with
      ⟨-, hcontents, prev, hsearch⟩ | ⟨before, removed, behind, hsplit, hkey, hcontents, hsearch⟩
  · refine .inl ⟨hcontents, ?_⟩
    simp only [RcuHashMap.linkRemove, hsearch, Option.map_some]
  · obtain ⟨-, hremove, hrepresents⟩ := h.remove_present hsplit hkey
    refine .inr ⟨_, removed, before, behind, ?_, by simp [hcontents], hremove, hrepresents⟩
    simp only [RcuHashMap.linkRemove, hsearch, Option.map_some]
    rfl

end Links

/-! ## Growing the table -/

/-- What `Resize` has built so far: the nodes in `copied` have been copied, in this order. Nothing
that was there before has changed. -/
structure Copying (cfg : MapConfig K) (map : RcuHashMap K V) (newSize : Nat)
    (copy : RcuHashMap K V) (newChains : Nat → List NodeId) (copied : List NodeId) : Prop where
  table : copy.table = map.table
  tableCount : copy.tableCount = map.tableCount + 1
  count : copy.count = map.count
  grow : map.nodeCount ≤ copy.nodeCount
  nodes : ∀ node < map.nodeCount, copy.nodes node = map.nodes node
  tables : ∀ table, table ≠ map.tableCount → copy.tables table = map.tables table
  size : (copy.tables map.tableCount).size = newSize
  chain : ∀ i, IsChain copy.next ((copy.tables map.tableCount).buckets i) (newChains i)
  fresh : ∀ i, ∀ node ∈ newChains i, map.nodeCount ≤ node ∧ node < copy.nodeCount
  even : ∀ i, ∀ node ∈ newChains i, (copy.nodes node).seq = 0
  entries : ∀ i, (newChains i).map copy.entry = ((copied.map map.entry).filter fun entry =>
    (cfg.hash entry.1).toNat % newSize = i).reverse

section Growth

variable {copy : RcuHashMap K V} {newChains : Nat → List NodeId} {copied : List NodeId}
  {newSize : Nat}

/-- The new table starts empty. -/
theorem Copying.start (cfg : MapConfig K) (map : RcuHashMap K V) (newSize : Nat) :
    Copying cfg map newSize (map.newTable newSize) (fun _ => []) [] := by
  refine ⟨rfl, rfl, rfl, Nat.le_refl _, fun _ _ => rfl, fun table hne => ?_, ?_, fun i => ?_,
    by simp, by simp, by simp⟩
  · exact Function.update_of_ne hne ..
  · simp [RcuHashMap.newTable]
  · simp [RcuHashMap.newTable]

/-- One node is copied. -/
theorem Copying.step (h : Copying cfg map newSize copy newChains copied) {curr : NodeId}
    (hcurr : curr < map.nodeCount) :
    let newIdx := copy.bucketIndex cfg map.tableCount (copy.nodes curr).key
    Copying cfg map newSize
      ((copy.newNode ⟨(copy.nodes curr).key, (copy.nodes curr).value, 0,
        (copy.tables map.tableCount).buckets newIdx⟩).storeBucket map.tableCount newIdx
          (some copy.nodeCount))
      (Function.update newChains newIdx (copy.nodeCount :: newChains newIdx))
      (copied ++ [curr]) := by
  intro newIdx
  have hidx : newIdx = (cfg.hash (map.entry curr).1).toNat % newSize := by
    change (cfg.hash (copy.nodes curr).key).toNat % (copy.tables map.tableCount).size = _
    rw [h.size, h.nodes curr hcurr]
    rfl
  have hold : ∀ node < copy.nodeCount, ∀ fresh : MapNode K V,
      (copy.newNode fresh).nodes node = copy.nodes node := fun node hlt fresh =>
    copy.newNode_of_lt fresh hlt
  have hentry : ∀ i, ∀ node ∈ newChains i, ∀ fresh : MapNode K V,
      (copy.newNode fresh).nodes node = copy.nodes node := fun i node hnode fresh =>
    hold node (h.fresh i node hnode).2 fresh
  refine ⟨h.table, h.tableCount, h.count, Nat.le_succ_of_le h.grow, ?_, ?_, ?_, ?_, ?_, ?_, ?_⟩
  · intro node hlt
    exact (hold node (Nat.lt_of_lt_of_le hlt h.grow) _).trans (h.nodes node hlt)
  · intro table hne
    exact (RcuHashMap.storeBucket_of_ne _ _ _ hne).trans (h.tables table hne)
  · exact (RcuHashMap.storeBucket_size ..).trans h.size
  · intro i
    have hchain : ∀ i, IsChain (copy.newNode ⟨(copy.nodes curr).key, (copy.nodes curr).value, 0,
        (copy.tables map.tableCount).buckets newIdx⟩).next
          ((copy.tables map.tableCount).buckets i) (newChains i) := fun i =>
      (h.chain i).congr fun node hnode => congrArg MapNode.next (hentry i node hnode _)
    rw [RcuHashMap.storeBucket_next, RcuHashMap.storeBucket_buckets]
    by_cases hi : i = newIdx
    · subst hi
      rw [Function.update_self, Function.update_self]
      refine ⟨rfl, ?_⟩
      rw [show (copy.newNode _).next copy.nodeCount = _ from
        congrArg MapNode.next (copy.newNode_self _)]
      exact hchain newIdx
    · rw [Function.update_of_ne hi, Function.update_of_ne hi]
      exact hchain i
  · intro i node hnode
    change map.nodeCount ≤ node ∧ node < copy.nodeCount + 1
    by_cases hi : i = newIdx
    · subst hi
      rw [Function.update_self] at hnode
      rcases List.mem_cons.mp hnode with rfl | hnode
      · exact ⟨h.grow, Nat.lt_succ_self _⟩
      · exact ⟨(h.fresh newIdx node hnode).1, Nat.lt_succ_of_lt (h.fresh newIdx node hnode).2⟩
    · rw [Function.update_of_ne hi] at hnode
      exact ⟨(h.fresh i node hnode).1, Nat.lt_succ_of_lt (h.fresh i node hnode).2⟩
  · intro i node hnode
    rw [RcuHashMap.storeBucket_nodes]
    by_cases hi : i = newIdx
    · subst hi
      rw [Function.update_self] at hnode
      rcases List.mem_cons.mp hnode with rfl | hnode
      · rw [RcuHashMap.newNode_self]
      · rw [hentry newIdx node hnode]
        exact h.even newIdx node hnode
    · rw [Function.update_of_ne hi] at hnode
      rw [hentry i node hnode]
      exact h.even i node hnode
  · intro i
    have hmap : ∀ i, (newChains i).map ((copy.newNode ⟨(copy.nodes curr).key,
        (copy.nodes curr).value, 0, (copy.tables map.tableCount).buckets newIdx⟩).storeBucket
          map.tableCount newIdx (some copy.nodeCount)).entry = (newChains i).map copy.entry :=
      fun i => List.map_congr_left fun node hnode => by
        simp only [RcuHashMap.entry, RcuHashMap.storeBucket_nodes, hentry i node hnode]
    by_cases hi : i = newIdx
    · subst hi
      have hkeep : ([map.entry curr].filter fun entry =>
          (cfg.hash entry.1).toNat % newSize = newIdx) = [map.entry curr] := by
        rw [List.filter_cons_of_pos (by simpa using hidx.symm), List.filter_nil]
      rw [Function.update_self, List.map_cons, hmap, h.entries, List.map_append,
        List.filter_append, List.reverse_append, List.map_singleton, hkeep]
      simp [RcuHashMap.entry, h.nodes curr hcurr]
    · rw [Function.update_of_ne hi, hmap, h.entries, List.map_append, List.filter_append,
        List.reverse_append]
      have hne : (cfg.hash (map.entry curr).1).toNat % newSize ≠ i := hidx ▸ Ne.symm hi
      simp [hne]

/-- A whole chain is copied. -/
theorem Copying.copyChain (h : Copying cfg map newSize copy newChains copied)
    {start : Option NodeId} {nodes : List NodeId} {fuel : Nat}
    (hchain : IsChain map.next start nodes) (hlt : ∀ node ∈ nodes, node < map.nodeCount)
    (hfuel : nodes.length < fuel) : ∃ copy' newChains',
      RcuHashMap.copyChain cfg map.tableCount fuel copy start = some copy' ∧
      Copying cfg map newSize copy' newChains' (copied ++ nodes) := by
  induction nodes generalizing start copy newChains copied fuel with
  | nil =>
      obtain rfl : start = none := hchain
      obtain ⟨fuel, rfl⟩ : ∃ n, fuel = n + 1 := ⟨fuel - 1, by simp at hfuel; omega⟩
      exact ⟨copy, newChains, rfl, by simpa using h⟩
  | cons node rest ih =>
      obtain ⟨rfl, hrest⟩ := hchain
      obtain ⟨fuel, rfl⟩ : ∃ n, fuel = n + 1 := ⟨fuel - 1, by simp at hfuel; omega⟩
      have hnode := hlt node (List.mem_cons_self ..)
      have hstep := h.step hnode
      have hnext : map.next node = _ := congrArg MapNode.next (hstep.nodes node hnode).symm
      rw [hnext] at hrest
      obtain ⟨copy', newChains', hcopy, hdone⟩ := ih hstep hrest
        (fun other hother => hlt other (List.mem_cons_of_mem _ hother)) (by simpa using hfuel)
      exact ⟨copy', newChains', hcopy, by simpa using hdone⟩

/-- The first buckets are copied. -/
theorem Copying.copyBuckets (h : Represents cfg map chains contents) (newSize : Nat)
    {count : Nat} (hcount : count ≤ map.tableSize) : ∃ copy newChains,
      (List.range count).foldlM (fun copy i => RcuHashMap.copyChain cfg map.tableCount
        (copy.nodeCount + 1) copy ((copy.tables map.table).buckets i))
          (map.newTable newSize) = some copy ∧
      Copying cfg map newSize copy newChains ((List.range count).flatMap chains) := by
  induction count with
  | zero => exact ⟨_, _, rfl, Copying.start cfg map newSize⟩
  | succ count ih =>
      obtain ⟨copy, newChains, hfold, hcopying⟩ := ih (Nat.le_of_succ_le hcount)
      have hold : map.table ≠ map.tableCount := Nat.ne_of_lt h.table_lt
      have hlt := h.allocated count hcount
      have hchain := h.chain count hcount
      obtain ⟨copy', newChains', hcopy, hdone⟩ := hcopying.copyChain hchain hlt
        (Nat.lt_succ_of_le (Nat.le_trans (hchain.length_le hlt) hcopying.grow))
      refine ⟨copy', newChains', ?_, ?_⟩
      · rw [List.range_succ, List.foldlM_append, hfold]
        simp only [List.foldlM_cons, List.foldlM_nil, Option.bind_eq_bind, Option.bind_some,
          hcopying.tables map.table hold, hcopy]
        rfl
      · rw [List.range_succ, List.flatMap_append]
        simpa using hdone

/-- The keys of all nodes are pairwise distinct, since keys in different buckets hash
differently. -/
theorem Represents.keys_nodup (h : Represents cfg map chains contents) :
    (((List.range map.tableSize).flatMap chains).map fun node => (map.entry node).1).Nodup := by
  rw [List.map_flatMap, List.nodup_flatMap]
  refine ⟨fun i hi => h.distinct i (List.mem_range.mp hi), ?_⟩
  refine List.Pairwise.imp_of_mem ?_ (List.pairwise_lt_range)
  intro i j hi hj hlt key hkeyI hkeyJ
  obtain ⟨node, hnode, rfl⟩ := List.mem_map.mp hkeyI
  obtain ⟨other, hother, hsame⟩ := List.mem_map.mp hkeyJ
  have hindexI := h.hashed i (List.mem_range.mp hi) node hnode
  have hindexJ := h.hashed j (List.mem_range.mp hj) other hother
  rw [← hsame, hindexJ] at hindexI
  exact absurd hindexI.symm (Nat.ne_of_lt hlt)

/-- The contents are what the nodes of all chains hold. -/
theorem Represents.holds_all (h : Represents cfg map chains contents) (key : K) (value : V) :
    contents key = some value ↔
      ∃ node ∈ (List.range map.tableSize).flatMap chains, map.entry node = (key, value) := by
  rw [h.holds]
  constructor
  · rintro ⟨node, hnode, hentry⟩
    exact ⟨node, List.mem_flatMap.mpr ⟨_, List.mem_range.mpr (h.bucket_lt key), hnode⟩, hentry⟩
  · rintro ⟨node, hnode, hentry⟩
    obtain ⟨i, hi, hnode⟩ := List.mem_flatMap.mp hnode
    have hindex := h.hashed i (List.mem_range.mp hi) node hnode
    rw [hentry] at hindex
    exact ⟨node, hindex ▸ hnode, hentry⟩

/-- `Resize` builds a table with the same contents. -/
theorem Represents.build (h : Represents cfg map chains contents) {newSize : Nat}
    (hsize : 0 < newSize) : ∃ built newChains copied,
      RcuHashMap.buildTable cfg map newSize = some built ∧
      Copying cfg map newSize built newChains copied ∧
      Represents cfg (built.publish map.tableCount) newChains contents := by
  obtain ⟨built, newChains, hbuilt, hcopying⟩ := Copying.copyBuckets h newSize (Nat.le_refl _)
  refine ⟨built, newChains, _, hbuilt, hcopying, ?_⟩
  have hindex : ∀ key, (built.publish map.tableCount).bucketIndex cfg map.tableCount key =
      (cfg.hash key).toNat % newSize := fun key => congrArg _ hcopying.size
  have htableSize : (built.publish map.tableCount).tableSize = newSize := hcopying.size
  have hmem : ∀ i entry, entry ∈ (newChains i).map built.entry ↔
      (∃ node ∈ (List.range map.tableSize).flatMap chains, map.entry node = entry) ∧
        (cfg.hash entry.1).toNat % newSize = i := by
    intro i entry
    rw [hcopying.entries]
    simp
  refine ⟨htableSize ▸ hsize, ?_, fun i _ => hcopying.chain i,
    fun i _ node hnode => (hcopying.fresh i node hnode).2, ?_, ?_,
    fun i _ => hcopying.even i, ?_⟩
  · change map.tableCount < built.tableCount
    rw [hcopying.tableCount]
    exact Nat.lt_succ_self _
  · intro i _ node hnode
    refine (hindex _).trans ?_
    exact ((hmem i (built.entry node)).mp (List.mem_map_of_mem hnode)).2
  · intro i _
    have hkeys : (newChains i).map (fun node => (built.entry node).1) =
        (((newChains i).map built.entry).map Prod.fst) := by
      rw [List.map_map]
      rfl
    refine hkeys ▸ ?_
    rw [hcopying.entries, List.map_reverse, List.nodup_reverse]
    refine List.Nodup.sublist (List.Sublist.map _ List.filter_sublist) ?_
    rw [List.map_map]
    exact h.keys_nodup
  · intro key value
    rw [h.holds_all]
    change _ ↔ ∃ node ∈ newChains ((built.publish map.tableCount).bucketIndex cfg
      map.tableCount key), built.entry node = (key, value)
    rw [hindex]
    constructor
    · intro hentry
      exact List.mem_map.mp ((hmem _ (key, value)).mpr ⟨hentry, rfl⟩)
    · intro hnode
      exact ((hmem _ (key, value)).mp (List.mem_map.mpr hnode)).1

end Growth

end HotPath.Concurrency
