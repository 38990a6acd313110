import Mathlib.Logic.Function.Basic
import Mathlib.Data.List.Basic

/-!
# The hash map

`RcuHashMap` with the memory that its nodes and tables live in. Addresses are numbers that are
handed out in order and never again, and what is stored beyond the last one is arbitrary.

`Put` and `Remove` are cut at their visible stores: growing the table (`buildTable`, `publish`),
linking a node (`linkPut`, `linkRemove`) and counting (`account`). A single caller runs the pieces
in a row (`put`, `remove`); several threads interleave them with reads.

The loops follow `next` pointers and take the number of nodes ever allocated as fuel. A walk that
needs more of it does not terminate, and the result is `none`.

The pointer `table_` is set by the constructor and replaced by `Resize`, so it is never null here,
and `Get` does not return early.
-/

namespace HotPath.Concurrency

/-- The address of a node. -/
abbrev NodeId := Nat

/-- The address of a table. -/
abbrev TableId := Nat

/-- The parameters of a map: its hash function and the size of its first table. -/
structure MapConfig (K : Type) where
  hash : K → UInt64
  initialBuckets : Nat
  initialBuckets_pos : 0 < initialBuckets

/-- `RcuHashMap::Node`. -/
structure MapNode (K V : Type) where
  key : K
  value : V
  seq : UInt32 := 0
  next : Option NodeId

/-- `RcuHashMap::Table`. -/
structure Table where
  size : Nat
  buckets : Nat → Option NodeId := fun _ => none

/-- `RcuHashMap`, together with its memory. -/
structure RcuHashMap (K V : Type) where
  nodes : NodeId → MapNode K V
  nodeCount : Nat := 0
  tables : TableId → Table
  tableCount : Nat := 1
  table : TableId := 0
  count : Nat := 0
  generation : UInt64 := 0

variable {K V : Type}

namespace RcuHashMap

/-- The constructor. Memory that is not allocated holds anything. -/
def create (cfg : MapConfig K) (memory : NodeId → MapNode K V) : RcuHashMap K V where
  nodes := memory
  tables := fun _ => { size := cfg.initialBuckets }

variable (cfg : MapConfig K) (map : RcuHashMap K V)

/-- `t->size` of the current table. -/
def tableSize : Nat := (map.tables map.table).size

/-- The bucket of a key in a table. -/
def bucketIndex (table : TableId) (key : K) : Nat :=
  (cfg.hash key).toNat % (map.tables table).size

/-! ## Memory -/

/-- Allocate a node. Its address is the old `nodeCount`. -/
def newNode (node : MapNode K V) : RcuHashMap K V :=
  { map with nodes := Function.update map.nodes map.nodeCount node, nodeCount := map.nodeCount + 1 }

/-- Allocate a table without nodes. Its address is the old `tableCount`. -/
def newTable (size : Nat) : RcuHashMap K V :=
  { map with
    tables := Function.update map.tables map.tableCount { size }
    tableCount := map.tableCount + 1 }

/-- Store to the `next` field of a node. -/
def storeNext (node : NodeId) (target : Option NodeId) : RcuHashMap K V :=
  { map with nodes := Function.update map.nodes node { map.nodes node with next := target } }

/-- Store to a bucket. -/
def storeBucket (table : TableId) (index : Nat) (target : Option NodeId) : RcuHashMap K V :=
  { map with tables := Function.update map.tables table { map.tables table with
      buckets := Function.update (map.tables table).buckets index target } }

/-- Store behind the previous node, or to the bucket if there is none. -/
def storeLink (index : Nat) (prev target : Option NodeId) : RcuHashMap K V :=
  match prev with
  | some prev => map.storeNext prev target
  | none => map.storeBucket map.table index target

/-! ## Reads -/

variable [DecidableEq K]

/-- The loop that `Put` and `Remove` share: the node before the first one with the key, and that
node. -/
def find (key : K) : Nat → Option NodeId → Option NodeId → Option (Option NodeId × Option NodeId)
  | 0, _, _ => none
  | _ + 1, prev, none => some (prev, none)
  | fuel + 1, prev, some current =>
      if (map.nodes current).key = key then some (prev, some current)
      else find key fuel (some current) (map.nodes current).next

/-- Search the current table. -/
def search (key : K) : Option (Option NodeId × Option NodeId) :=
  map.find key (map.nodeCount + 1) none
    ((map.tables map.table).buckets (map.bucketIndex cfg map.table key))

/-- The read of a value that its sequence number guards. While the number is odd the loop spins,
and nothing but another thread could end it. -/
def readValue (node : MapNode K V) : Option V :=
  if node.seq &&& 1 ≠ 0 then none else some node.value

/-- The loop of `Get`. -/
def getFrom (key : K) : Nat → Option NodeId → Option (Option V)
  | 0, _ => none
  | _ + 1, none => some none
  | fuel + 1, some current =>
      if (map.nodes current).key = key then (readValue (map.nodes current)).map some
      else getFrom key fuel (map.nodes current).next

/-- `Get`. -/
def get (key : K) : Option (Option V) :=
  map.getFrom key (map.nodeCount + 1)
    ((map.tables map.table).buckets (map.bucketIndex cfg map.table key))

/-- `Size`. -/
def size : Nat := map.count

/-! ## Growing the table -/

/-- The inner loop of `Resize`: copy a chain of the old table, node by node, to the heads of the
new one. -/
def copyChain (newTable : TableId) : Nat → RcuHashMap K V → Option NodeId → Option (RcuHashMap K V)
  | 0, _, _ => none
  | _ + 1, map, none => some map
  | fuel + 1, map, some curr =>
      let newIdx := map.bucketIndex cfg newTable (map.nodes curr).key
      let newHead := (map.tables newTable).buckets newIdx
      let copiedNode := map.nodeCount
      let map := (map.newNode
        { key := (map.nodes curr).key, value := (map.nodes curr).value,
          next := newHead }).storeBucket
          newTable newIdx (some copiedNode)
      copyChain newTable fuel map (map.nodes curr).next

/-- `Resize` up to the store that makes the new table visible. The address of the new table is the
old `tableCount`. -/
def buildTable (newSize : Nat) : Option (RcuHashMap K V) :=
  (List.range map.tableSize).foldlM (fun copy i =>
      copyChain cfg map.tableCount (copy.nodeCount + 1) copy ((copy.tables map.table).buckets i))
    (map.newTable newSize)

/-- The store to `table_`. -/
def publish (newTable : TableId) : RcuHashMap K V := { map with table := newTable }

/-- `Resize`. The old table is retired, which changes nothing in the map. -/
def resize (newSize : Nat) : Option (RcuHashMap K V) :=
  (buildTable cfg map newSize).map fun built => built.publish map.tableCount

/-- `Put` is about to resize. -/
def isFull : Bool := map.count ≥ map.tableSize

/-- The first part of `Put`. -/
def grow : Option (RcuHashMap K V) :=
  if map.isFull then resize cfg map (map.tableSize * 2) else some map

/-! ## Linking -/

/-- `Put` from the search to the store that makes the new node visible. Returns the node that was
replaced, if there is one. -/
def linkPut (key : K) (value : V) : Option (RcuHashMap K V × Option NodeId) :=
  let idx := map.bucketIndex cfg map.table key
  (map.search cfg key).map fun (prev, current) =>
    match current with
    | some current =>
        ((map.newNode { key, value, next := (map.nodes current).next }).storeLink idx prev
          (some map.nodeCount), some current)
    | none =>
        let oldHead := (map.tables map.table).buckets idx
        ((map.newNode { key, value, next := oldHead }).storeBucket map.table idx
          (some map.nodeCount), none)

/-- `Remove` from the search to the store that unlinks the node. Returns that node. -/
def linkRemove (key : K) : Option (RcuHashMap K V × Option NodeId) :=
  let idx := map.bucketIndex cfg map.table key
  (map.search cfg key).map fun (prev, current) =>
    match current with
    | some current => (map.storeLink idx prev (map.nodes current).next, some current)
    | none => (map, none)

/-- `count_.fetch_add(1)`. -/
def countUp : RcuHashMap K V := { map with count := map.count + 1 }

/-- `count_.fetch_sub(1)`. -/
def countDown : RcuHashMap K V := { map with count := map.count - 1 }

/-- `generation_.fetch_add(1)`. -/
def nextGeneration : RcuHashMap K V := { map with generation := map.generation + 1 }

/-! ## The operations of a single caller -/

/-- `Put`. -/
def put (key : K) (value : V) : Option (RcuHashMap K V) :=
  (map.grow cfg).bind fun grown =>
    (grown.linkPut cfg key value).map fun (linked, replaced) =>
      match replaced with
      | some _ => linked.nextGeneration
      | none => linked.countUp.nextGeneration

/-- `Remove`. -/
def remove (key : K) : Option (RcuHashMap K V × Bool) :=
  (map.linkRemove cfg key).map fun (linked, removed) =>
    match removed with
    | some _ => (linked.countDown.nextGeneration, true)
    | none => (linked, false)

end RcuHashMap

/-- A call of one of the operations. -/
inductive MapOp (K V : Type) where
  | put (key : K) (value : V)
  | remove (key : K)
  | get (key : K)
  | size

/-- What an operation returns. -/
inductive MapResult (V : Type) where
  | done
  | removed (found : Bool)
  | value (value : Option V)
  | size (count : Nat)

variable [DecidableEq K] (cfg : MapConfig K)

/-- Execute a call. -/
def RcuHashMap.exec (map : RcuHashMap K V) : MapOp K V → Option (RcuHashMap K V × MapResult V)
  | .put key value => (map.put cfg key value).map fun map => (map, .done)
  | .remove key => (map.remove cfg key).map fun (map, found) => (map, .removed found)
  | .get key => (map.get cfg key).map fun value => (map, .value value)
  | .size => some (map, .size map.size)

/-- Execute calls in a row. -/
def RcuHashMap.execAll (map : RcuHashMap K V) :
    List (MapOp K V) → Option (RcuHashMap K V × List (MapResult V))
  | [] => some (map, [])
  | op :: ops =>
      (map.exec cfg op).bind fun (next, result) =>
        (next.execAll ops).map fun (final, results) => (final, result :: results)

/-! ## What stores change -/

namespace RcuHashMap

variable (map : RcuHashMap K V)

/-- The `next` pointers. -/
def next (node : NodeId) : Option NodeId := (map.nodes node).next

/-- The key and the value of a node. -/
def entry (node : NodeId) : K × V := ((map.nodes node).key, (map.nodes node).value)

omit [DecidableEq K]

@[simp] theorem newNode_nodeCount (node : MapNode K V) :
    (map.newNode node).nodeCount = map.nodeCount + 1 := rfl
@[simp] theorem newNode_tables (node : MapNode K V) : (map.newNode node).tables = map.tables := rfl
@[simp] theorem newNode_table (node : MapNode K V) : (map.newNode node).table = map.table := rfl
@[simp] theorem newNode_tableCount (node : MapNode K V) :
    (map.newNode node).tableCount = map.tableCount := rfl
@[simp] theorem newNode_count (node : MapNode K V) : (map.newNode node).count = map.count := rfl
@[simp] theorem newNode_self (node : MapNode K V) :
    (map.newNode node).nodes map.nodeCount = node := Function.update_self ..

/-- An allocation leaves every allocated node alone. -/
theorem newNode_of_lt (node : MapNode K V) {other : NodeId} (h : other < map.nodeCount) :
    (map.newNode node).nodes other = map.nodes other := Function.update_of_ne (Nat.ne_of_lt h) ..

@[simp] theorem storeBucket_nodes (table : TableId) (index : Nat) (target : Option NodeId) :
    (map.storeBucket table index target).nodes = map.nodes := rfl
@[simp] theorem storeBucket_next (table : TableId) (index : Nat) (target : Option NodeId) :
    (map.storeBucket table index target).next = map.next := rfl
@[simp] theorem storeBucket_nodeCount (table : TableId) (index : Nat) (target : Option NodeId) :
    (map.storeBucket table index target).nodeCount = map.nodeCount := rfl
@[simp] theorem storeBucket_table (table : TableId) (index : Nat) (target : Option NodeId) :
    (map.storeBucket table index target).table = map.table := rfl
@[simp] theorem storeBucket_tableCount (table : TableId) (index : Nat) (target : Option NodeId) :
    (map.storeBucket table index target).tableCount = map.tableCount := rfl
@[simp] theorem storeBucket_count (table : TableId) (index : Nat) (target : Option NodeId) :
    (map.storeBucket table index target).count = map.count := rfl
@[simp] theorem storeBucket_buckets (table : TableId) (index : Nat) (target : Option NodeId) :
    ((map.storeBucket table index target).tables table).buckets =
      Function.update (map.tables table).buckets index target := by
  simp [storeBucket]

/-- A store to a bucket leaves the other tables alone. -/
theorem storeBucket_of_ne {table other : TableId} (index : Nat) (target : Option NodeId)
    (h : other ≠ table) : (map.storeBucket table index target).tables other = map.tables other :=
  Function.update_of_ne h ..

@[simp] theorem storeBucket_size (table other : TableId) (index : Nat) (target : Option NodeId) :
    ((map.storeBucket table index target).tables other).size = (map.tables other).size := by
  by_cases h : other = table
  · subst h
    simp [storeBucket]
  · rw [storeBucket_of_ne map index target h]

@[simp] theorem storeNext_tables (node : NodeId) (target : Option NodeId) :
    (map.storeNext node target).tables = map.tables := rfl
@[simp] theorem storeNext_next (node : NodeId) (target : Option NodeId) :
    (map.storeNext node target).next = Function.update map.next node target := by
  funext other
  by_cases h : other = node
  · subst h
    simp [storeNext, next]
  · simp [storeNext, next, Function.update_of_ne h]

/-- A store to a `next` field leaves keys, values and sequence numbers alone. -/
theorem storeNext_fields (node other : NodeId) (target : Option NodeId) :
    (map.storeNext node target).entry other = map.entry other ∧
      ((map.storeNext node target).nodes other).seq = (map.nodes other).seq := by
  by_cases h : other = node
  · subst h
    simp [storeNext, entry]
  · simp [storeNext, entry, Function.update_of_ne h]

end RcuHashMap

end HotPath.Concurrency
