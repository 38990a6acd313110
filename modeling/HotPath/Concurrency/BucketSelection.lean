import HotPath.Concurrency.FiniteMap

/-!
# The selection of buckets

The hash map once more, with what `RcuHashMap` leaves out: `hash % size` is undefined if the size
is 0, an index must be below the length of the bucket vector, and a vector throws if it cannot have
the size that is asked for. `VectorMap` keeps the length of every vector beside the field `size`,
and the functions stop at the first undefined operation (`Fault`).

The constructor does not look at `initial_buckets`. `buckets_defined_iff` says that no sequence of
calls runs into a fault exactly if it is at least 1. In that case `VectorMap` does what
`RcuHashMap` does (`Sized.get`, `Sized.put`, `Sized.remove`), as long as no vector throws.
-/

namespace HotPath.Concurrency

/-- What is undefined. A walk that does not end is none of the others. -/
inductive Fault where
  | divideByZero
  | outOfRange
  | unterminated
deriving DecidableEq

/-- The parameters of a map: its hash function, and `max_size()` of the vectors. -/
structure VectorConfig (K : Type) where
  hash : K → UInt64
  maxSize : Nat
  maxSize_lt : maxSize < 2 ^ 63

/-- The map, and the length of the bucket vector of every table. -/
structure VectorMap (K V : Type) where
  map : RcuHashMap K V
  length : TableId → Nat

variable {K V : Type}

/-- `hash_fn_(key) % size`. -/
def hashMod (cfg : VectorConfig K) (key : K) (size : Nat) : Except Fault Nat :=
  if size = 0 then .error .divideByZero else .ok ((cfg.hash key).toNat % size)

/-- The result of a walk, if it ends. -/
def ended {α : Type} : Option α → Except Fault α
  | some result => .ok result
  | none => .error .unterminated

namespace VectorMap

/-- The constructor. It is accepted if the vector of the first table can have the size. -/
def construct (cfg : VectorConfig K) (initialBuckets : Nat) (memory : NodeId → MapNode K V) :
    Option (VectorMap K V) :=
  if initialBuckets ≤ cfg.maxSize then
    some { map := { nodes := memory, tables := fun _ => { size := initialBuckets } }
           length := fun _ => initialBuckets }
  else none

section Memory

variable (cfg : VectorConfig K) (v : VectorMap K V)

/-- `new Node(key, value, next)`. -/
def newNode (node : MapNode K V) : VectorMap K V := { v with map := v.map.newNode node }

/-- `t->buckets[index].load()`. -/
def loadBucket (table : TableId) (index : Nat) : Except Fault (Option NodeId) :=
  if index < v.length table then .ok ((v.map.tables table).buckets index) else .error .outOfRange

/-- `t->buckets[index].store(target)`. -/
def storeBucket (table : TableId) (index : Nat) (target : Option NodeId) :
    Except Fault (VectorMap K V) :=
  if index < v.length table then .ok { v with map := v.map.storeBucket table index target }
  else .error .outOfRange

/-- A store behind the previous node, or to the bucket if there is none. -/
def storeLink (index : Nat) (prev target : Option NodeId) : Except Fault (VectorMap K V) :=
  match prev with
  | some prev => .ok { v with map := v.map.storeNext prev target }
  | none => v.storeBucket v.map.table index target

/-- `new Table(size)`, which throws if the vector cannot have the size. -/
def newTable (size : Nat) : Option (VectorMap K V) :=
  if size ≤ cfg.maxSize then
    some { map := v.map.newTable size
           length := Function.update v.length v.map.tableCount size }
  else none

end Memory

variable [DecidableEq K] (cfg : VectorConfig K) (v : VectorMap K V)

/-- `Get`. -/
def get (key : K) : Except Fault (Option V) := do
  let idx ← hashMod cfg key v.map.tableSize
  let current ← v.loadBucket v.map.table idx
  ended (v.map.getFrom key (v.map.nodeCount + 1) current)

/-- The inner loop of `Resize`. -/
def copyChain (newTable : TableId) (newSize : Nat) :
    Nat → VectorMap K V → Option NodeId → Except Fault (VectorMap K V)
  | 0, _, _ => .error .unterminated
  | _ + 1, v, none => .ok v
  | fuel + 1, v, some curr => do
      let newIdx ← hashMod cfg (v.map.nodes curr).key newSize
      let newHead ← v.loadBucket newTable newIdx
      let copied ← (v.newNode
        { key := (v.map.nodes curr).key, value := (v.map.nodes curr).value,
          next := newHead }).storeBucket newTable newIdx (some v.map.nodeCount)
      copyChain newTable newSize fuel copied (copied.map.nodes curr).next

/-- `Resize`. The result is `none` if the new table throws. -/
def resize (newSize : Nat) : Except Fault (Option (VectorMap K V)) :=
  match v.newTable cfg newSize with
  | none => .ok none
  | some grown => do
      let built ← (List.range v.map.tableSize).foldlM (fun copy i => do
        let curr ← copy.loadBucket v.map.table i
        copyChain cfg v.map.tableCount newSize (copy.map.nodeCount + 1) copy curr) grown
      .ok (some { built with map := built.map.publish v.map.tableCount })

/-- The first part of `Put`. The size is a `size_t`. -/
def grow : Except Fault (Option (VectorMap K V)) :=
  if v.map.isFull then v.resize cfg (v.map.tableSize * 2 % 2 ^ 64) else .ok (some v)

/-- `Put` after the first part. -/
def link (key : K) (value : V) : Except Fault (VectorMap K V) := do
  let idx ← hashMod cfg key v.map.tableSize
  let start ← v.loadBucket v.map.table idx
  let (prev, current) ← ended (v.map.find key (v.map.nodeCount + 1) none start)
  match current with
  | some current =>
      let linked ← (v.newNode { key, value, next := (v.map.nodes current).next }).storeLink idx
        prev (some v.map.nodeCount)
      .ok { linked with map := linked.map.nextGeneration }
  | none =>
      let oldHead ← v.loadBucket v.map.table idx
      let linked ← (v.newNode { key, value, next := oldHead }).storeBucket v.map.table idx
        (some v.map.nodeCount)
      .ok { linked with map := linked.map.countUp.nextGeneration }

/-- `Put`. The result is `none` if it throws. -/
def put (key : K) (value : V) : Except Fault (Option (VectorMap K V)) := do
  match ← v.grow cfg with
  | some grown => some <$> grown.link cfg key value
  | none => .ok none

/-- `Remove`. -/
def remove (key : K) : Except Fault (VectorMap K V × Bool) := do
  let idx ← hashMod cfg key v.map.tableSize
  let start ← v.loadBucket v.map.table idx
  let (prev, current) ← ended (v.map.find key (v.map.nodeCount + 1) none start)
  match current with
  | some current =>
      let linked ← v.storeLink idx prev (v.map.nodes current).next
      .ok ({ linked with map := linked.map.countDown.nextGeneration }, true)
  | none => .ok (v, false)

/-- Execute a call. If `Put` throws, nothing has changed. -/
def exec : MapOp K V → Except Fault (VectorMap K V)
  | .put key value => (v.put cfg key value).map fun result => result.getD v
  | .remove key => (v.remove cfg key).map Prod.fst
  | .get key => (v.get cfg key).map fun _ => v
  | .size => .ok v

/-- Execute calls in a row. -/
def execAll (ops : List (MapOp K V)) : Except Fault (VectorMap K V) :=
  ops.foldlM (exec cfg) v

end VectorMap

variable [DecidableEq K]

/-- Whatever is called on a map that the constructor has made, every bucket that is selected is
defined, and every table has at least one bucket. -/
def BucketsDefined (cfg : VectorConfig K) (V : Type) (initialBuckets : Nat) : Prop :=
  ∀ (memory : NodeId → MapNode K V) v, VectorMap.construct cfg initialBuckets memory = some v →
    ∀ ops, ∃ final, v.execAll cfg ops = .ok final ∧
      ∀ table < final.map.tableCount, 1 ≤ (final.map.tables table).size ∧
        final.length table = (final.map.tables table).size

/-! ## Tables with buckets -/

section Sizes

variable {cfg : VectorConfig K} {mcfg : MapConfig K} {v : VectorMap K V} {map' : RcuHashMap K V}
  {key : K} {table : TableId} {index : Nat}

omit [DecidableEq K] in
/-- Every table has a bucket, and its vector has the length that its `size` says. -/
structure Sized (cfg : VectorConfig K) (v : VectorMap K V) : Prop where
  length : ∀ table, v.length table = (v.map.tables table).size
  pos : ∀ table, 1 ≤ (v.map.tables table).size
  bounded : ∀ table, (v.map.tables table).size ≤ cfg.maxSize

omit [DecidableEq K] in
/-- The constructor makes a table with buckets if it is asked for at least one. -/
theorem Sized.construct {initialBuckets : Nat} {memory : NodeId → MapNode K V}
    (hpos : 1 ≤ initialBuckets) (h : VectorMap.construct cfg initialBuckets memory = some v) :
    Sized cfg v ∧ v.map = RcuHashMap.create ⟨cfg.hash, initialBuckets, hpos⟩ memory := by
  simp only [VectorMap.construct, Option.ite_none_right_eq_some, Option.some.injEq] at h
  obtain ⟨hle, rfl⟩ := h
  exact ⟨⟨fun _ => rfl, fun _ => hpos, fun _ => hle⟩, rfl⟩

omit [DecidableEq K] in
/-- A step that does not touch the sizes. -/
theorem Sized.keep (h : Sized cfg v)
    (hsize : ∀ table, (map'.tables table).size = (v.map.tables table).size) :
    Sized cfg { v with map := map' } :=
  ⟨fun table => (h.length table).trans (hsize table).symm, fun table => hsize table ▸ h.pos table,
    fun table => hsize table ▸ h.bounded table⟩

omit [DecidableEq K] in
/-- A new table doubles the size, so it has buckets again. -/
theorem Sized.newTable (h : Sized cfg v) {newSize : Nat} (hpos : 1 ≤ newSize)
    {grown : VectorMap K V} (hnew : v.newTable cfg newSize = some grown) :
    Sized cfg grown ∧ grown.map = v.map.newTable newSize := by
  simp only [VectorMap.newTable, Option.ite_none_right_eq_some, Option.some.injEq] at hnew
  obtain ⟨hle, rfl⟩ := hnew
  refine ⟨⟨fun table => ?_, fun table => ?_, fun table => ?_⟩, rfl⟩ <;>
    by_cases heq : table = v.map.tableCount
  · simp [heq, RcuHashMap.newTable]
  · simpa [heq, RcuHashMap.newTable] using h.length table
  · simpa [heq, RcuHashMap.newTable] using hpos
  · simpa [heq, RcuHashMap.newTable] using h.pos table
  · simpa [heq, RcuHashMap.newTable] using hle
  · simpa [heq, RcuHashMap.newTable] using h.bounded table

omit [DecidableEq K] in
/-- The remainder is defined. -/
theorem Sized.hashMod (h : Sized cfg v) (hhash : mcfg.hash = cfg.hash) (table : TableId) (key : K) :
    hashMod cfg key (v.map.tables table).size = .ok (v.map.bucketIndex mcfg table key) := by
  have hpos := h.pos table
  rw [Concurrency.hashMod, if_neg (by omega), RcuHashMap.bucketIndex, hhash]

omit [DecidableEq K] in
/-- The remainder is below the length of the vector. -/
theorem Sized.index_lt (h : Sized cfg v) (mcfg : MapConfig K) (table : TableId) (key : K) :
    v.map.bucketIndex mcfg table key < v.length table :=
  h.length table ▸ Nat.mod_lt _ (h.pos table)

omit [DecidableEq K] in
theorem VectorMap.loadBucket_eq (hlt : index < v.length table) :
    v.loadBucket table index = .ok ((v.map.tables table).buckets index) := if_pos hlt

omit [DecidableEq K] in
theorem VectorMap.storeBucket_eq (hlt : index < v.length table) (target : Option NodeId) :
    v.storeBucket table index target =
      .ok { v with map := v.map.storeBucket table index target } := if_pos hlt

omit [DecidableEq K] in
theorem VectorMap.storeLink_eq (hlt : index < v.length v.map.table) (prev target : Option NodeId) :
    v.storeLink index prev target = .ok { v with map := v.map.storeLink index prev target } := by
  cases prev with
  | some prev => rfl
  | none => exact storeBucket_eq hlt target

omit [DecidableEq K] in
/-- A store of a link does not touch the sizes. -/
theorem storeLink_size (map : RcuHashMap K V) (index : Nat) (prev target : Option NodeId)
    (table : TableId) : ((map.storeLink index prev target).tables table).size =
      (map.tables table).size := by
  cases prev with
  | some prev => rfl
  | none => exact map.storeBucket_size map.table table index target

end Sizes

/-! ## The calls -/

section Calls

variable {cfg : VectorConfig K} {mcfg : MapConfig K} {v : VectorMap K V} {map' : RcuHashMap K V}
  {key : K} {value : V}

/-- `Get` selects a bucket, and does what the map does. -/
theorem Sized.get (h : Sized cfg v) (hhash : mcfg.hash = cfg.hash) (key : K) :
    v.get cfg key = ended (v.map.get mcfg key) := by
  have hindex := h.hashMod hhash v.map.table key
  simp only [VectorMap.get, RcuHashMap.tableSize, hindex, bind, Except.bind,
    VectorMap.loadBucket_eq (h.index_lt mcfg v.map.table key), RcuHashMap.get]

omit [DecidableEq K] in
/-- The copies of a chain go to buckets of the new table. -/
theorem Sized.copyChain (h : Sized cfg v) (hhash : mcfg.hash = cfg.hash) {newTable : TableId}
    {newSize fuel : Nat} {start : Option NodeId}
    (hsize : (v.map.tables newTable).size = newSize)
    (hcopy : RcuHashMap.copyChain mcfg newTable fuel v.map start = some map') :
    VectorMap.copyChain cfg newTable newSize fuel v start = .ok { v with map := map' } ∧
      ∀ table, (map'.tables table).size = (v.map.tables table).size := by
  induction fuel generalizing v start with
  | zero => cases hcopy
  | succ fuel ih =>
      cases start with
      | none =>
          obtain rfl := Option.some.inj hcopy
          exact ⟨rfl, fun _ => rfl⟩
      | some curr =>
          have hindex := h.hashMod hhash newTable (v.map.nodes curr).key
          have hlt := h.index_lt mcfg newTable (v.map.nodes curr).key
          rw [hsize] at hindex
          simp only [VectorMap.copyChain, hindex, bind, Except.bind, VectorMap.loadBucket_eq hlt]
          rw [VectorMap.storeBucket_eq (by exact hlt)]
          have hkept := fun table => (v.map.newNode ⟨(v.map.nodes curr).key,
            (v.map.nodes curr).value, 0, (v.map.tables newTable).buckets
              (v.map.bucketIndex mcfg newTable (v.map.nodes curr).key)⟩).storeBucket_size newTable
                table (v.map.bucketIndex mcfg newTable (v.map.nodes curr).key)
                (some v.map.nodeCount)
          obtain ⟨hdone, hsizes⟩ := ih (h.keep hkept) ((hkept newTable).trans hsize) hcopy
          exact ⟨hdone, fun table => (hsizes table).trans (hkept table)⟩

omit [DecidableEq K] in
/-- The loop of `Resize` over the buckets of the old table. -/
theorem Sized.copyBuckets (h : Sized cfg v) (hhash : mcfg.hash = cfg.hash)
    {oldTable newTable : TableId} {newSize : Nat} {buckets : List Nat}
    (hbuckets : ∀ i ∈ buckets, i < v.length oldTable)
    (hsize : (v.map.tables newTable).size = newSize)
    (hcopy : buckets.foldlM (fun copy i => RcuHashMap.copyChain mcfg newTable
      (copy.nodeCount + 1) copy ((copy.tables oldTable).buckets i)) v.map = some map') :
    buckets.foldlM (fun copy i => do
        let curr ← copy.loadBucket oldTable i
        VectorMap.copyChain cfg newTable newSize (copy.map.nodeCount + 1) copy curr) v =
      .ok { v with map := map' } ∧
      ∀ table, (map'.tables table).size = (v.map.tables table).size := by
  induction buckets generalizing v with
  | nil =>
      obtain rfl := Option.some.inj hcopy
      exact ⟨rfl, fun _ => rfl⟩
  | cons i rest ih =>
      obtain ⟨next, hnext, hrest⟩ := Option.bind_eq_some_iff.mp hcopy
      obtain ⟨hchain, hkept⟩ := h.copyChain hhash hsize hnext
      obtain ⟨hdone, hsizes⟩ := ih (v := { v with map := next }) (h.keep hkept)
        (fun i hmem => hbuckets i (List.mem_cons_of_mem _ hmem))
        ((hkept newTable).trans hsize) hrest
      refine ⟨?_, fun table => (hsizes table).trans (hkept table)⟩
      simp only [List.foldlM_cons, VectorMap.loadBucket_eq (hbuckets i (List.mem_cons_self ..)),
        bind, Except.bind, hchain]
      exact hdone

omit [DecidableEq K] in
/-- `Resize` to a positive size selects buckets only, unless the new table throws. -/
theorem Sized.resize (h : Sized cfg v) (hhash : mcfg.hash = cfg.hash) {newSize : Nat}
    (hpos : 1 ≤ newSize) (htable : v.map.table < v.map.tableCount)
    (hresize : v.map.resize mcfg newSize = some map') :
    v.resize cfg newSize = .ok none ∨
      ∃ length, v.resize cfg newSize = .ok (some ⟨map', length⟩) ∧ Sized cfg ⟨map', length⟩ := by
  obtain ⟨built, hbuilt, rfl⟩ := Option.map_eq_some_iff.mp hresize
  unfold VectorMap.resize
  cases hnew : v.newTable cfg newSize with
  | none => exact .inl rfl
  | some grown =>
      obtain ⟨hgrown, hmap⟩ := h.newTable hpos hnew
      rw [RcuHashMap.buildTable, ← hmap] at hbuilt
      have hold : grown.length v.map.table = v.map.tableSize := by
        rw [hgrown.length, hmap]
        simp [RcuHashMap.newTable, RcuHashMap.tableSize,
          Function.update_of_ne (Nat.ne_of_lt htable)]
      have hnewSize : (grown.map.tables v.map.tableCount).size = newSize := by
        rw [hmap]
        simp [RcuHashMap.newTable]
      have hbuckets : ∀ i ∈ List.range v.map.tableSize, i < grown.length v.map.table :=
        fun i hmem => hold ▸ List.mem_range.mp hmem
      obtain ⟨hdone, hsizes⟩ := hgrown.copyBuckets hhash hbuckets hnewSize hbuilt
      refine .inr ⟨grown.length, ?_, ?_⟩
      · dsimp only
        rw [hdone]
        rfl
      · exact hgrown.keep hsizes

omit [DecidableEq K] in
/-- The first part of `Put`. Doubling the size does not wrap around. -/
theorem Sized.grow (h : Sized cfg v) (hhash : mcfg.hash = cfg.hash)
    (htable : v.map.table < v.map.tableCount) (hgrow : v.map.grow mcfg = some map') :
    v.grow cfg = .ok none ∨
      ∃ length, v.grow cfg = .ok (some ⟨map', length⟩) ∧ Sized cfg ⟨map', length⟩ := by
  have hpos : 1 ≤ v.map.tableSize := h.pos v.map.table
  have hbound : v.map.tableSize ≤ cfg.maxSize := h.bounded v.map.table
  have hlimit := cfg.maxSize_lt
  have hdouble : v.map.tableSize * 2 % 2 ^ 64 = v.map.tableSize * 2 := by omega
  unfold RcuHashMap.grow at hgrow
  unfold VectorMap.grow
  split
  · next hfull =>
      rw [if_pos hfull] at hgrow
      rw [hdouble]
      exact h.resize hhash (by omega) htable hgrow
  · next hroom =>
      rw [if_neg hroom] at hgrow
      obtain rfl := Option.some.inj hgrow
      exact .inr ⟨v.length, rfl, h⟩

/-- `Put` after the first part selects one bucket. -/
theorem Sized.link (h : Sized cfg v) (hhash : mcfg.hash = cfg.hash) {linked : RcuHashMap K V}
    {replaced : Option NodeId} (hlink : v.map.linkPut mcfg key value = some (linked, replaced))
    (hmap' : map' = match replaced with
      | some _ => linked.nextGeneration
      | none => linked.countUp.nextGeneration) :
    v.link cfg key value = .ok { v with map := map' } ∧ Sized cfg { v with map := map' } := by
  have hindex := h.hashMod hhash v.map.table key
  have hlt := h.index_lt mcfg v.map.table key
  obtain ⟨⟨prev, current⟩, hfind, hlinked⟩ := Option.map_eq_some_iff.mp hlink
  simp only [RcuHashMap.search] at hfind
  simp only [VectorMap.link, RcuHashMap.tableSize, hindex, VectorMap.loadBucket_eq hlt, bind,
    Except.bind, hfind, ended]
  cases current with
  | some current =>
      obtain ⟨rfl, rfl⟩ := Prod.mk.inj hlinked
      subst hmap'
      simp only
      rw [VectorMap.storeLink_eq (by exact hlt)]
      exact ⟨rfl, h.keep fun table => storeLink_size _ _ _ _ table⟩
  | none =>
      obtain ⟨rfl, rfl⟩ := Prod.mk.inj hlinked
      subst hmap'
      simp only
      rw [VectorMap.storeBucket_eq (by exact hlt)]
      exact ⟨rfl, h.keep fun table => RcuHashMap.storeBucket_size _ _ table _ _⟩

/-- `Put` selects buckets, and does what the map does unless it throws. -/
theorem Sized.put (h : Sized cfg v) (hhash : mcfg.hash = cfg.hash)
    (htable : v.map.table < v.map.tableCount) (hput : v.map.put mcfg key value = some map') :
    v.put cfg key value = .ok none ∨
      ∃ length, v.put cfg key value = .ok (some ⟨map', length⟩) ∧ Sized cfg ⟨map', length⟩ := by
  obtain ⟨grown, hgrow, hlinkPut⟩ := Option.bind_eq_some_iff.mp hput
  obtain ⟨⟨linked, replaced⟩, hlink, rfl⟩ := Option.map_eq_some_iff.mp hlinkPut
  unfold VectorMap.put
  rcases h.grow hhash htable hgrow with hthrew | ⟨length, hgrown, hsized⟩
  · exact .inl (by simp only [hthrew, bind, Except.bind])
  · refine .inr ⟨length, ?_⟩
    cases replaced <;>
      · obtain ⟨hdone, hsized'⟩ := hsized.link hhash hlink rfl
        simp only [hgrown, bind, Except.bind, hdone]
        exact ⟨rfl, hsized'⟩

/-- `Remove` selects one bucket, and does what the map does. -/
theorem Sized.remove (h : Sized cfg v) (hhash : mcfg.hash = cfg.hash) {found : Bool}
    (hremove : v.map.remove mcfg key = some (map', found)) :
    v.remove cfg key = .ok ({ v with map := map' }, found) ∧
      Sized cfg { v with map := map' } := by
  have hindex := h.hashMod hhash v.map.table key
  have hlt := h.index_lt mcfg v.map.table key
  obtain ⟨⟨linked, removed⟩, hlink, hresult⟩ := Option.map_eq_some_iff.mp hremove
  obtain ⟨⟨prev, current⟩, hfind, hlinked⟩ := Option.map_eq_some_iff.mp hlink
  simp only [RcuHashMap.search] at hfind
  simp only [VectorMap.remove, RcuHashMap.tableSize, hindex, VectorMap.loadBucket_eq hlt, bind,
    Except.bind, hfind, ended]
  cases current with
  | some current =>
      obtain ⟨rfl, rfl⟩ := Prod.mk.inj hlinked
      obtain ⟨rfl, rfl⟩ := Prod.mk.inj hresult
      simp only
      rw [VectorMap.storeLink_eq hlt]
      exact ⟨rfl, h.keep fun table => storeLink_size _ _ _ _ table⟩
  | none =>
      obtain ⟨rfl, rfl⟩ := Prod.mk.inj hlinked
      obtain ⟨rfl, rfl⟩ := Prod.mk.inj hresult
      exact ⟨rfl, h⟩

/-- Every call selects buckets only, and leaves a map of the same kind. -/
theorem Sized.exec {contents : K → Option V} (h : Sized cfg v) (hhash : mcfg.hash = cfg.hash)
    (hinv : MapInv mcfg v.map contents) (op : MapOp K V) :
    ∃ v', v.exec cfg op = .ok v' ∧ Sized cfg v' ∧
      ∃ contents', MapInv mcfg v'.map contents' := by
  obtain ⟨chains, hrep⟩ := hinv.represents
  cases op with
  | get key =>
      refine ⟨v, ?_, h, contents, hinv⟩
      simp only [VectorMap.exec, h.get hhash, hrep.get, ended, Except.map]
  | put key value =>
      obtain ⟨map', hput, hinv'⟩ := hinv.put key value
      rcases h.put hhash hrep.table_lt hput with hthrew | ⟨length, hdone, hsized⟩
      · refine ⟨v, ?_, h, contents, hinv⟩
        simp only [VectorMap.exec, hthrew, Except.map, Option.getD_none]
      · refine ⟨⟨map', length⟩, ?_, hsized, _, hinv'⟩
        simp only [VectorMap.exec, hdone, Except.map, Option.getD_some]
  | remove key =>
      obtain ⟨map', found, hremove, -, hinv'⟩ := hinv.remove key
      obtain ⟨hdone, hsized⟩ := h.remove hhash hremove
      refine ⟨{ v with map := map' }, ?_, hsized, _, hinv'⟩
      simp only [VectorMap.exec, hdone, Except.map]
  | size => exact ⟨v, rfl, h, contents, hinv⟩

/-- So do all the calls in a row. -/
theorem Sized.execAll {contents : K → Option V} (h : Sized cfg v) (hhash : mcfg.hash = cfg.hash)
    (hinv : MapInv mcfg v.map contents) (ops : List (MapOp K V)) :
    ∃ final, v.execAll cfg ops = .ok final ∧ Sized cfg final := by
  induction ops generalizing v contents with
  | nil => exact ⟨v, rfl, h⟩
  | cons op rest ih =>
      obtain ⟨next, hnext, hsized, contents', hinv'⟩ := h.exec hhash hinv op
      obtain ⟨final, hrest, hfinal⟩ := ih hsized hinv'
      refine ⟨final, ?_, hfinal⟩
      simp only [VectorMap.execAll, List.foldlM_cons, hnext, bind, Except.bind]
      exact hrest

omit [DecidableEq K] in
/-- Doubling a table without buckets gives a table without buckets. -/
theorem grow_empty (hempty : v.map.tableSize = 0) :
    ∃ grown, v.grow cfg = .ok (some grown) ∧ grown.map.tableSize = 0 := by
  have hfull : v.map.isFull = true := by simp [RcuHashMap.isFull, hempty]
  have hnew : v.newTable cfg 0 =
      some ⟨v.map.newTable 0, Function.update v.length v.map.tableCount 0⟩ :=
    if_pos (Nat.zero_le _)
  refine ⟨⟨(v.map.newTable 0).publish v.map.tableCount,
    Function.update v.length v.map.tableCount 0⟩, ?_, ?_⟩
  · simp only [VectorMap.grow, if_pos hfull, hempty, Nat.zero_mul, Nat.zero_mod, VectorMap.resize,
      hnew, List.range_zero, List.foldlM_nil]
    rfl
  · simp [RcuHashMap.tableSize, RcuHashMap.publish, RcuHashMap.newTable]

/-- Without buckets, the first selection divides by zero. -/
theorem no_bucket_divides (cfg : VectorConfig K) (v : VectorMap K V)
    (hempty : v.map.tableSize = 0) (key : K) (value : V) :
    v.get cfg key = .error .divideByZero ∧ v.put cfg key value = .error .divideByZero ∧
      v.remove cfg key = .error .divideByZero := by
  have hselect : ∀ v : VectorMap K V, v.map.tableSize = 0 →
      hashMod cfg key v.map.tableSize = .error .divideByZero := fun v hempty => if_pos hempty
  refine ⟨?_, ?_, ?_⟩
  · simp only [VectorMap.get, hselect v hempty, bind, Except.bind]
  · obtain ⟨grown, hgrown, hempty'⟩ : ∃ grown, v.grow cfg = .ok (some grown) ∧
        grown.map.tableSize = 0 := grow_empty hempty
    simp only [VectorMap.put, hgrown, VectorMap.link, hselect grown hempty', bind, Except.bind]
    rfl
  · simp only [VectorMap.remove, hselect v hempty, bind, Except.bind]

end Calls

/-! ## The constructor's argument -/

/-- The bucket selection is defined exactly if the constructor is asked for at least one bucket. -/
theorem buckets_defined_iff [Inhabited K] [Inhabited V] (cfg : VectorConfig K)
    (initialBuckets : Nat) : BucketsDefined cfg V initialBuckets ↔ 1 ≤ initialBuckets := by
  constructor
  · intro h
    by_contra hzero
    obtain rfl : initialBuckets = 0 := by omega
    have hconstruct : VectorMap.construct cfg 0 (fun _ => ⟨default, (default : V), 0, none⟩) =
        some _ := if_pos (Nat.zero_le _)
    obtain ⟨final, hrun, -⟩ := h _ _ hconstruct [.get default]
    have hget := (no_bucket_divides cfg ⟨{
      nodes := fun _ => ⟨default, (default : V), 0, none⟩
      tables := fun _ => { size := 0 } }, fun _ => 0⟩ rfl default default).1
    simp [VectorMap.execAll, VectorMap.exec, hget, Except.map, bind, Except.bind] at hrun
  · intro hpos memory v hconstruct ops
    obtain ⟨hsized, hmap⟩ := Sized.construct hpos hconstruct
    have hinv := MapInv.create ⟨cfg.hash, initialBuckets, hpos⟩ memory
    obtain ⟨final, hrun, hfinal⟩ := hsized.execAll rfl (hmap ▸ hinv) ops
    exact ⟨final, hrun, fun table _ => ⟨hfinal.pos table, hfinal.length table⟩⟩

/-- Keys that are their own hash, and vectors of pointers. -/
def plainHash : VectorConfig UInt64 := ⟨id, 2 ^ 60 - 1, by decide⟩

/-- The constructor accepts 0. The first `Get`, `Put` or `Remove` then divides by zero. -/
theorem zero_buckets_divide :
    ∃ v, VectorMap.construct plainHash 0 (fun _ => ⟨0, (0 : UInt64), 0, none⟩) = some v ∧
      v.get plainHash 7 = .error .divideByZero ∧ v.put plainHash 7 1 = .error .divideByZero ∧
      v.remove plainHash 7 = .error .divideByZero ∧ ¬ BucketsDefined plainHash UInt64 0 := by
  refine ⟨_, rfl, ?_⟩
  obtain ⟨hget, hput, hremove⟩ := no_bucket_divides plainHash ⟨{
    nodes := fun _ => ⟨0, (0 : UInt64), 0, none⟩
    tables := fun _ => { size := 0 } }, fun _ => 0⟩ rfl 7 1
  refine ⟨hget, hput, hremove, fun h => ?_⟩
  have htables := h (fun _ => ⟨0, 0, 0, none⟩) _ rfl []
  obtain ⟨final, hrun, hsize⟩ := htables
  obtain rfl := Except.ok.inj hrun
  exact absurd (hsize 0 Nat.zero_lt_one).1 (by decide)

end HotPath.Concurrency
