import HotPath.Coherency.ShardedCounter
import HotPath.Locks.MixHash

/-!
# The sharded hash map

`ShardedHashMap` with any power of two of shards and any number of threads, which call `Upsert` and
`TotalUpdates`. Each load and store of a shard is an access of its own, and a thread waits for the
mutex of the shard. No other thread can change a shard between a load and the store that follows it
(`MapInv`), so the counts of updates are a sum over shards in the sense of `ShardedSums`.
-/

namespace HotPath.Locks

open HotPath.Foundation

/-! ## The map -/

/-- `MapShard`, with the thread that holds the mutex. -/
structure MapShard (threadCount : Nat) where
  mtx : Option (Fin threadCount) := none
  buckets : Fin 16 → UInt64 := fun _ => 0
  updates : UInt64 := 0

/-- The shard of a key. -/
def shardOf (bits : Nat) (key : UInt64) : Fin (2 ^ bits) := maskedIndex bits (mixHash key)

/-- The bucket of a key inside its shard. -/
def bucketOf (key : UInt64) : Fin 16 := maskedIndex 4 (mixHash key >>> 8)

/-- Where a thread is in `Upsert` or in the loop of `TotalUpdates`. -/
inductive MapPc (bits : Nat) where
  | idle
  | lock (key delta : UInt64)
  | loadBucket (key delta : UInt64)
  | storeBucket (key delta bucket : UInt64)
  | loadUpdates (key : UInt64)
  | storeUpdates (key updates : UInt64)
  | unlock (key : UInt64)
  | upserted
  | lockShard (next : Nat) (sum : UInt64)
  | loadShard (shard : Fin (2 ^ bits)) (sum : UInt64)
  | unlockShard (shard : Fin (2 ^ bits)) (sum : UInt64)

/-- The shards of a `ShardedHashMap`, and its threads. -/
structure ShardedHashMap (bits threadCount : Nat) where
  shards : Fin (2 ^ bits) → MapShard threadCount := fun _ => {}
  threads : Fin threadCount → MapPc bits := fun _ => .idle

/-- A call, the next access of a thread, or its return. -/
inductive MapEvent (threadCount : Nat) where
  | upsert (thread : Fin threadCount) (key delta : UInt64)
  | totalUpdates (thread : Fin threadCount)
  | access (thread : Fin threadCount)
  | ret (thread : Fin threadCount)

variable {bits threadCount : Nat}

/-- A thread goes to another place and a shard gets a new value. -/
def ShardedHashMap.write (map : ShardedHashMap bits threadCount) (thread : Fin threadCount)
    (pc : MapPc bits) (shard : Fin (2 ^ bits)) (value : MapShard threadCount) :
    ShardedHashMap bits threadCount where
  shards := Function.update map.shards shard value
  threads := Function.update map.threads thread pc

/-- A thread goes to another place. -/
def ShardedHashMap.goto (map : ShardedHashMap bits threadCount) (thread : Fin threadCount)
    (pc : MapPc bits) : ShardedHashMap bits threadCount :=
  { map with threads := Function.update map.threads thread pc }

/-- A thread locks the mutex of a shard, if no thread holds it. -/
def ShardedHashMap.acquire (map : ShardedHashMap bits threadCount) (thread : Fin threadCount)
    (pc : MapPc bits) (shard : Fin (2 ^ bits)) : Option (ShardedHashMap bits threadCount) :=
  match (map.shards shard).mtx with
  | none => some (map.write thread pc shard { map.shards shard with mtx := some thread })
  | some _ => none

/-- A thread unlocks the mutex of a shard. -/
def ShardedHashMap.release (map : ShardedHashMap bits threadCount) (thread : Fin threadCount)
    (pc : MapPc bits) (shard : Fin (2 ^ bits)) : ShardedHashMap bits threadCount :=
  map.write thread pc shard { map.shards shard with mtx := none }

/-- The next access of a thread. -/
def ShardedHashMap.access (map : ShardedHashMap bits threadCount) (thread : Fin threadCount) :
    Option (ShardedHashMap bits threadCount) :=
  match map.threads thread with
  | .lock key delta => map.acquire thread (.loadBucket key delta) (shardOf bits key)
  | .loadBucket key delta =>
      let bucket := (map.shards (shardOf bits key)).buckets (bucketOf key)
      some (map.goto thread (.storeBucket key delta bucket))
  | .storeBucket key delta bucket =>
      let shard := map.shards (shardOf bits key)
      let buckets := Function.update shard.buckets (bucketOf key) (bucket + delta)
      some (map.write thread (.loadUpdates key) (shardOf bits key)
        { shard with buckets := buckets })
  | .loadUpdates key =>
      some (map.goto thread (.storeUpdates key (map.shards (shardOf bits key)).updates))
  | .storeUpdates key updates =>
      some (map.write thread (.unlock key) (shardOf bits key)
        { map.shards (shardOf bits key) with updates := updates + 1 })
  | .unlock key => some (map.release thread .upserted (shardOf bits key))
  | .lockShard next sum =>
      if h : next < 2 ^ bits then map.acquire thread (.loadShard ⟨next, h⟩ sum) ⟨next, h⟩ else none
  | .loadShard shard sum =>
      some (map.goto thread (.unlockShard shard (sum + (map.shards shard).updates)))
  | .unlockShard shard sum => some (map.release thread (.lockShard (shard + 1) sum) shard)
  | .idle | .upserted => none

/-- One step. -/
def ShardedHashMap.step (map : ShardedHashMap bits threadCount) :
    MapEvent threadCount → Option (ShardedHashMap bits threadCount)
  | .upsert thread key delta =>
      match map.threads thread with
      | .idle => some (map.goto thread (.lock key delta))
      | _ => none
  | .totalUpdates thread =>
      match map.threads thread with
      | .idle => some (map.goto thread (.lockShard 0 0))
      | _ => none
  | .access thread => map.access thread
  | .ret thread =>
      match map.threads thread with
      | .upserted => some (map.goto thread .idle)
      | .lockShard next _ => if next < 2 ^ bits then none else some (map.goto thread .idle)
      | _ => none

/-- The map as a transition system. -/
def shardedHashMap (bits threadCount : Nat) :
    System (ShardedHashMap bits threadCount) (MapEvent threadCount) where
  init map := map = {}
  step := ShardedHashMap.step

/-- `TotalUpdates`, when no other thread runs. -/
def ShardedHashMap.totalUpdates (map : ShardedHashMap bits threadCount) : UInt64 :=
  (List.ofFn fun shard => (map.shards shard).updates).foldl (· + ·) 0

/-! ## What is recorded -/

/-- The keys and deltas of all calls of `Upsert`, and the tally of the calls and the totals. -/
structure MapHistory (threadCount : Nat) where
  upserts : List (UInt64 × UInt64) := []
  tally : Tally (Fin threadCount) := {}

/-- The recorder of the calls and the totals. -/
def mapHistory (bits threadCount : Nat) :
    Recorder (ShardedHashMap bits threadCount) (MapEvent threadCount) (MapHistory threadCount) where
  start _ := {}
  observe map event _ history :=
    match event with
    | .upsert _ key delta =>
        { upserts := history.upserts ++ [(key, delta)], tally := history.tally.start 1 }
    | .totalUpdates thread => { history with tally := history.tally.beginReading thread }
    | .access _ => history
    | .ret thread =>
        match map.threads thread with
        | .upserted => { history with tally := history.tally.finish 1 }
        | .lockShard _ sum =>
            { history with tally := history.tally.endReading thread sum.toNat }
        | _ => history

/-- The number of calls of `Upsert` fits in a word. -/
def UpsertsFit (pair : ShardedHashMap bits threadCount × MapHistory threadCount) :
    MapEvent threadCount → Prop
  | .upsert _ _ _ => pair.2.upserts.length + 1 < 2 ^ 64
  | _ => True

/-- The runs in which the number of calls of `Upsert` fits in a word. -/
def MapReachable (bits threadCount : Nat) :
    ShardedHashMap bits threadCount × MapHistory threadCount → Prop :=
  ((shardedHashMap bits threadCount).withHistory (mapHistory bits threadCount)).Reachable UpsertsFit

/-! ## Mutual exclusion -/

/-- The shard whose mutex the thread holds. -/
def MapPc.holds : MapPc bits → Option (Fin (2 ^ bits))
  | .loadBucket key _ | .storeBucket key _ _ => some (shardOf bits key)
  | .loadUpdates key | .storeUpdates key _ | .unlock key => some (shardOf bits key)
  | .loadShard shard _ | .unlockShard shard _ => some shard
  | .idle | .lock _ _ | .upserted | .lockShard _ _ => none

/-- What the thread has loaded for its next store is still there. -/
def MapPc.Current (pc : MapPc bits) (shard : MapShard threadCount) : Prop :=
  match pc with
  | .storeBucket key _ bucket => bucket = shard.buckets (bucketOf key)
  | .storeUpdates _ updates => updates = shard.updates
  | _ => True

/-- A thread inside a critical section owns the shard. -/
def MapPc.Owns (pc : MapPc bits) (thread : Fin threadCount)
    (shards : Fin (2 ^ bits) → MapShard threadCount) : Prop :=
  ∀ shard, pc.holds = some shard →
    (shards shard).mtx = some thread ∧ pc.Current (shards shard)

/-- The invariant of the mutexes. -/
def MapInv (map : ShardedHashMap bits threadCount) : Prop :=
  ∀ thread, (map.threads thread).Owns thread map.shards

variable {map next : ShardedHashMap bits threadCount} {history : MapHistory threadCount}
  {thread : Fin threadCount} {before pc : MapPc bits} {shard : Fin (2 ^ bits)}
  {value : MapShard threadCount}

theorem MapPc.owns_of_holds_none {shards : Fin (2 ^ bits) → MapShard threadCount}
    (h : pc.holds = none) : pc.Owns thread shards := by
  intro shard hholds
  rw [h] at hholds
  cases hholds

/-- A thread keeps its shard when another one changes. -/
theorem MapPc.Owns.update {shards : Fin (2 ^ bits) → MapShard threadCount}
    (h : pc.Owns thread shards) (hother : (shards shard).mtx ≠ some thread) :
    pc.Owns thread (Function.update shards shard value) := by
  intro held hholds
  obtain ⟨hmtx, hcurrent⟩ := h held hholds
  have hne : held ≠ shard := fun heq => hother (heq ▸ hmtx)
  rw [Function.update_of_ne hne]
  exact ⟨hmtx, hcurrent⟩

/-- A thread may change a shard that no other thread owns. -/
theorem MapInv.write (h : MapInv map)
    (hfree : ∀ other, other ≠ thread → (map.shards shard).mtx ≠ some other)
    (hpc : pc.Owns thread (Function.update map.shards shard value)) :
    MapInv (map.write thread pc shard value) := by
  intro other
  by_cases heq : other = thread
  · subst heq
    simpa [ShardedHashMap.write] using hpc
  · simp only [ShardedHashMap.write, Function.update_of_ne heq]
    exact (h other).update (hfree other heq)

/-! ## What an access does -/

/-- What the thread still has to add to a bucket. -/
def MapPc.owed : MapPc bits → UInt64
  | .lock _ delta | .loadBucket _ delta | .storeBucket _ delta _ => delta
  | _ => 0

/-- The sum of the buckets of a shard. -/
def MapShard.bucketSum (shard : MapShard threadCount) : UInt64 := ∑ bucket, shard.buckets bucket

/-- What a thread does, as an addition or a reading. -/
def MapPc.phase : MapPc bits → Phase (2 ^ bits)
  | .idle => .idle
  | .lock key _ | .loadBucket key _ | .storeBucket key _ _ => .adding (shardOf bits key) 1
  | .loadUpdates key | .storeUpdates key _ => .adding (shardOf bits key) 1
  | .unlock _ | .upserted => .added 1
  | .lockShard next sum => .reading next sum.toNat
  | .loadShard shard sum => .reading shard sum.toNat
  | .unlockShard shard sum => .reading (shard + 1) sum.toNat

/-- How an access changes the count of a shard: not at all, or it counts an update, or it has read
the count of the shard. -/
inductive Counts (before after : MapPc bits) (shard : Fin (2 ^ bits)) (count count' : UInt64) :
    Prop
  | same (hphase : after.phase = before.phase) (hcount : count' = count)
  | update (hbefore : before.phase = .adding shard 1) (hafter : after.phase = .added 1)
      (hcount : count' = count + 1)
  | read (sum : UInt64) (hbefore : before.phase = .reading shard sum.toNat)
      (hafter : after.phase = .reading (shard + 1) (sum + count).toNat) (hcount : count' = count)

/-- Everything that an access does: the thread goes on, and changes a shard that no other thread
owns. What it adds to the buckets it no longer owes. -/
structure Access (map : ShardedHashMap bits threadCount) (thread : Fin threadCount)
    (pc : MapPc bits) (shard : Fin (2 ^ bits)) (value : MapShard threadCount) : Prop where
  free : ∀ other, other ≠ thread → (map.shards shard).mtx ≠ some other
  owns : ∀ held, pc.holds = some held → held = shard ∧ value.mtx = some thread ∧ pc.Current value
  buckets : value.bucketSum + pc.owed =
    (map.shards shard).bucketSum + (map.threads thread).owed
  counts : Counts (map.threads thread) pc shard (map.shards shard).updates value.updates

/-- No other thread holds the mutex that a thread holds. -/
theorem MapInv.free (h : MapInv map) (hholds : (map.threads thread).holds = some shard) :
    ∀ other, other ≠ thread → (map.shards shard).mtx ≠ some other := by
  intro other hne hmtx
  rw [(h thread shard hholds).1] at hmtx
  exact hne (Option.some.inj hmtx).symm

/-- A load changes nothing but the place of the thread. -/
theorem ShardedHashMap.goto_eq_write (map : ShardedHashMap bits threadCount)
    (thread : Fin threadCount) (pc : MapPc bits) (shard : Fin (2 ^ bits)) :
    map.goto thread pc = map.write thread pc shard (map.shards shard) := by
  rw [ShardedHashMap.write, Function.update_eq_self]
  rfl

/-- The store to a bucket adds the delta to the sum. -/
theorem bucketSum_store (shard : MapShard threadCount) (bucket : Fin 16) (delta : UInt64) :
    MapShard.bucketSum { shard with
        buckets := Function.update shard.buckets bucket (shard.buckets bucket + delta) } =
      shard.bucketSum + delta := by
  have hsum := sum_update_add (fun word : UInt64 => word) shard.buckets bucket
    (shard.buckets bucket + delta)
  have hassoc : shard.bucketSum + (shard.buckets bucket + delta) =
      shard.bucketSum + delta + shard.buckets bucket := by
    rw [add_assoc, add_comm delta]
  exact add_right_cancel (hsum.trans hassoc)

/-- Taking the mutex of a shard. -/
theorem acquire_access (hpc : map.threads thread = before)
    (hstep : map.acquire thread pc shard = some next) (hholds : pc.holds = some shard)
    (hcurrent : ∀ value : MapShard threadCount, pc.Current value)
    (howed : pc.owed = before.owed) (hphase : pc.phase = before.phase) :
    ∃ value, next = map.write thread pc shard value ∧ Access map thread pc shard value := by
  subst hpc
  unfold ShardedHashMap.acquire at hstep
  split at hstep
  · next hmtx =>
      refine ⟨_, (Option.some.inj hstep).symm, fun other _ => ?_, fun held hheld => ?_, ?_,
        .same hphase rfl⟩
      · rw [hmtx]
        exact Option.some_ne_none other |>.symm
      · rw [hholds] at hheld
        exact ⟨(Option.some.inj hheld).symm, rfl, hcurrent _⟩
      · rw [howed]
        rfl
  · cases hstep

/-- Giving the mutex of a shard back. -/
theorem release_access (hinv : MapInv map) (hpc : map.threads thread = before)
    (hbefore : before.holds = some shard) (hholds : pc.holds = none)
    (howed : pc.owed = before.owed) (hphase : pc.phase = before.phase) :
    Access map thread pc shard { map.shards shard with mtx := none } := by
  subst hpc
  refine ⟨hinv.free hbefore, fun held hheld => ?_, ?_, .same hphase rfl⟩
  · rw [hholds] at hheld
    cases hheld
  · rw [howed]
    rfl

/-- An access inside the critical section. -/
theorem Access.inside (hinv : MapInv map) (hpc : map.threads thread = before)
    (hbefore : before.holds = some shard) (hafter : pc.holds = some shard)
    (hmtx : value.mtx = (map.shards shard).mtx) (hcurrent : pc.Current value)
    (hbuckets : value.bucketSum + pc.owed = (map.shards shard).bucketSum + before.owed)
    (hcounts : Counts before pc shard (map.shards shard).updates value.updates) :
    Access map thread pc shard value := by
  subst hpc
  refine ⟨hinv.free hbefore, fun held hheld => ?_, hbuckets, hcounts⟩
  rw [hafter] at hheld
  exact ⟨(Option.some.inj hheld).symm, hmtx.trans (hinv thread shard hbefore).1, hcurrent⟩

/-- What a thread has loaded in its critical section is still there. -/
theorem MapInv.current (h : MapInv map) (hpc : map.threads thread = before)
    (hbefore : before.holds = some shard) : before.Current (map.shards shard) := by
  subst hpc
  exact (h thread shard hbefore).2

/-- Every access has one of these effects. -/
theorem access_effect (hinv : MapInv map) (hstep : map.access thread = some next) :
    ∃ pc shard value, next = map.write thread pc shard value ∧
      Access map thread pc shard value := by
  unfold ShardedHashMap.access at hstep
  split at hstep
  · next key delta hpc =>
      obtain ⟨value, hnext, haccess⟩ := acquire_access hpc hstep rfl (fun _ => trivial) rfl rfl
      exact ⟨_, _, value, hnext, haccess⟩
  · next key delta hpc =>
      obtain rfl := Option.some.inj hstep
      exact ⟨_, _, _, map.goto_eq_write thread _ (shardOf bits key),
        .inside hinv hpc rfl rfl rfl rfl rfl (.same rfl rfl)⟩
  · next key delta bucket hpc =>
      obtain rfl := Option.some.inj hstep
      obtain rfl : bucket = _ := hinv.current hpc rfl
      refine ⟨_, _, _, rfl, .inside hinv hpc rfl rfl rfl trivial ?_ (.same rfl rfl)⟩
      rw [bucketSum_store]
      exact add_zero _
  · next key hpc =>
      obtain rfl := Option.some.inj hstep
      exact ⟨_, _, _, map.goto_eq_write thread _ (shardOf bits key),
        .inside hinv hpc rfl rfl rfl rfl rfl (.same rfl rfl)⟩
  · next key updates hpc =>
      obtain rfl := Option.some.inj hstep
      obtain rfl : updates = _ := hinv.current hpc rfl
      exact ⟨_, _, _, rfl, .inside hinv hpc rfl rfl rfl trivial rfl (.update rfl rfl rfl)⟩
  · next key hpc =>
      obtain rfl := Option.some.inj hstep
      exact ⟨_, _, _, rfl, release_access hinv hpc rfl rfl rfl rfl⟩
  · next index sum hpc =>
      split at hstep
      · obtain ⟨value, hnext, haccess⟩ := acquire_access hpc hstep rfl (fun _ => trivial) rfl rfl
        exact ⟨_, _, value, hnext, haccess⟩
      · cases hstep
  · next shard sum hpc =>
      obtain rfl := Option.some.inj hstep
      exact ⟨_, _, _, map.goto_eq_write thread _ shard,
        .inside hinv hpc rfl rfl rfl trivial rfl (.read sum rfl rfl rfl)⟩
  · next shard sum hpc =>
      obtain rfl := Option.some.inj hstep
      exact ⟨_, _, _, rfl, release_access hinv hpc rfl rfl rfl rfl⟩
  · cases hstep
  · cases hstep

theorem Access.keeps (haccess : Access map thread pc shard value) (hinv : MapInv map) :
    MapInv (map.write thread pc shard value) := by
  refine hinv.write haccess.free fun held hheld => ?_
  obtain ⟨rfl, hmtx, hcurrent⟩ := haccess.owns held hheld
  rw [Function.update_self]
  exact ⟨hmtx, hcurrent⟩

/-- A call or a return takes a thread from one place outside the critical sections to another. -/
theorem MapInv.goto (h : MapInv map) (hpc : pc.holds = none) : MapInv (map.goto thread pc) := by
  intro other
  by_cases heq : other = thread
  · subst heq
    simp only [ShardedHashMap.goto, Function.update_self]
    exact MapPc.owns_of_holds_none hpc
  · simp only [ShardedHashMap.goto, Function.update_of_ne heq]
    exact h other

theorem MapInv.step (h : MapInv map) {event : MapEvent threadCount}
    (hstep : map.step event = some next) : MapInv next := by
  cases event with
  | upsert thread key delta =>
      simp only [ShardedHashMap.step] at hstep
      split at hstep
      · obtain rfl := Option.some.inj hstep
        exact h.goto rfl
      · cases hstep
  | totalUpdates thread =>
      simp only [ShardedHashMap.step] at hstep
      split at hstep
      · obtain rfl := Option.some.inj hstep
        exact h.goto rfl
      · cases hstep
  | access thread =>
      obtain ⟨pc, shard, value, rfl, haccess⟩ := access_effect h hstep
      exact haccess.keeps h
  | ret thread =>
      simp only [ShardedHashMap.step] at hstep
      split at hstep
      · obtain rfl := Option.some.inj hstep
        exact h.goto rfl
      · split at hstep
        · cases hstep
        · obtain rfl := Option.some.inj hstep
          exact h.goto rfl
      · cases hstep

/-! ## The buckets -/

/-- The invariant of a run: the buckets and what is still owed to them are together what was
called for. -/
structure MapRun (pair : ShardedHashMap bits threadCount × MapHistory threadCount) : Prop where
  mutexes : MapInv pair.1
  counted : pair.2.tally.started = pair.2.upserts.length
  fits : pair.2.upserts.length < 2 ^ 64
  buckets : ∑ shard, (pair.1.shards shard).bucketSum + ∑ thread, (pair.1.threads thread).owed =
    (pair.2.upserts.map Prod.snd).sum

theorem mapRun_init : MapRun (({}, {}) : ShardedHashMap bits threadCount × MapHistory threadCount)
    where
  mutexes _ := MapPc.owns_of_holds_none rfl
  counted := rfl
  fits := Nat.two_pow_pos 64
  buckets := by simp [MapShard.bucketSum, MapPc.owed]

/-- What the threads owe changes by what one of them owes. -/
theorem sum_owed (threads : Fin threadCount → MapPc bits) (thread : Fin threadCount)
    (pc : MapPc bits) :
    ∑ other, (Function.update threads thread pc other).owed + (threads thread).owed =
      ∑ other, (threads other).owed + pc.owed :=
  sum_update_add MapPc.owed threads thread pc

/-- An access keeps the sum of the buckets and of what is owed. -/
theorem Access.conserves (haccess : Access map thread pc shard value) :
    ∑ other, ((map.write thread pc shard value).shards other).bucketSum +
        ∑ other, ((map.write thread pc shard value).threads other).owed =
      ∑ other, (map.shards other).bucketSum + ∑ other, (map.threads other).owed := by
  have hbuckets := haccess.buckets
  have hshards := sum_update_add MapShard.bucketSum map.shards shard value
  have howed := sum_owed map.threads thread pc
  simp only [ShardedHashMap.write]
  grind

/-- A call or a return owes what it owes. -/
theorem goto_owes (hpc : map.threads thread = before) (howed : before.owed = 0)
    (pc : MapPc bits) :
    ∑ other, ((map.goto thread pc).shards other).bucketSum +
        ∑ other, ((map.goto thread pc).threads other).owed =
      ∑ other, (map.shards other).bucketSum + ∑ other, (map.threads other).owed + pc.owed := by
  have hsum := sum_owed map.threads thread pc
  rw [hpc, howed, add_zero] at hsum
  rw [add_assoc, ← hsum]
  rfl

theorem MapRun.step {event : MapEvent threadCount} (h : MapRun (map, history))
    (hfit : UpsertsFit (map, history) event) (hstep : map.step event = some next) :
    MapRun (next, (mapHistory bits threadCount).observe map event next history) := by
  have hmutexes := h.mutexes.step hstep
  have hbuckets := h.buckets
  cases event with
  | upsert thread key delta =>
      simp only [ShardedHashMap.step] at hstep
      split at hstep
      · next hpc =>
          obtain rfl := Option.some.inj hstep
          refine ⟨hmutexes, ?_, ?_, ?_⟩
          · simp [mapHistory, Tally.start, ← h.counted]
          · change (history.upserts ++ [(key, delta)]).length < 2 ^ 64
            rw [List.length_append]
            exact hfit
          · rw [goto_owes hpc rfl, hbuckets]
            simp [mapHistory, MapPc.owed]
      · cases hstep
  | totalUpdates thread =>
      simp only [ShardedHashMap.step] at hstep
      split at hstep
      · next hpc =>
          obtain rfl := Option.some.inj hstep
          refine ⟨hmutexes, h.counted, h.fits, ?_⟩
          rw [goto_owes hpc rfl, hbuckets]
          exact add_zero _
      · cases hstep
  | access thread =>
      obtain ⟨pc, shard, value, rfl, haccess⟩ := access_effect h.mutexes hstep
      exact ⟨hmutexes, h.counted, h.fits, haccess.conserves.trans hbuckets⟩
  | ret thread =>
      simp only [ShardedHashMap.step] at hstep
      split at hstep
      · next hpc =>
          obtain rfl := Option.some.inj hstep
          simp only [mapHistory, hpc]
          refine ⟨hmutexes, h.counted, h.fits, ?_⟩
          rw [goto_owes hpc rfl, hbuckets]
          exact add_zero _
      · next index sum hpc =>
          split at hstep
          · cases hstep
          · obtain rfl := Option.some.inj hstep
            simp only [mapHistory, hpc]
            refine ⟨hmutexes, h.counted, h.fits, ?_⟩
            rw [goto_owes hpc rfl, hbuckets]
            exact add_zero _
      · cases hstep

theorem mapRun_of_reachable {pair : ShardedHashMap bits threadCount × MapHistory threadCount}
    (h : MapReachable bits threadCount pair) : MapRun pair := by
  refine h.invariant MapRun (fun pair hinit => ?_) fun pair event next hrun hfit hstep => ?_
  · obtain ⟨map, history⟩ := pair
    obtain ⟨hmap, hhistory⟩ := hinit
    change map = {} at hmap
    change history = {} at hhistory
    subst hmap hhistory
    exact mapRun_init
  · obtain ⟨hnext, hhistory⟩ := System.withHistory_step.mp hstep
    have hrun := hrun.step hfit hnext
    rw [← hhistory] at hrun
    exact hrun

/-! ## The abstract sum -/

/-- The counts of updates as a sum over shards. -/
def mapView (pair : ShardedHashMap bits threadCount × MapHistory threadCount) :
    Sharded (Fin threadCount) (2 ^ bits) where
  count shard := (pair.1.shards shard).updates.toNat
  phase thread := (pair.1.threads thread).phase
  tally := pair.2.tally

theorem mapView_phase {pc : MapPc bits} (h : map.threads thread = pc) :
    (mapView (map, history)).phase thread = pc.phase := by
  rw [← h]
  rfl

/-- A call or a return changes the place of a thread and what is recorded. -/
theorem mapView_record (map : ShardedHashMap bits threadCount)
    (history history' : MapHistory threadCount) (thread : Fin threadCount) (pc : MapPc bits) :
    { (mapView (map, history)).goto thread pc.phase with tally := history'.tally } =
      mapView (map.goto thread pc, history') := by
  simp only [mapView, ShardedHashMap.goto, Sharded.goto, Sharded.mk.injEq, true_and, and_true]
  exact (Function.comp_update MapPc.phase map.threads thread pc).symm

/-- An access changes one count and the place of a thread. -/
theorem mapView_write (map : ShardedHashMap bits threadCount) (history : MapHistory threadCount)
    (thread : Fin threadCount) (pc : MapPc bits) (shard : Fin (2 ^ bits))
    (value : MapShard threadCount) :
    mapView (map.write thread pc shard value, history) =
      { (mapView (map, history)).goto thread pc.phase with
        count := Function.update (mapView (map, history)).count shard value.updates.toNat } := by
  simp only [mapView, ShardedHashMap.write, Sharded.goto, Sharded.mk.injEq, and_true]
  exact ⟨Function.comp_update (fun shard : MapShard threadCount => shard.updates.toNat) map.shards
    shard value, Function.comp_update MapPc.phase map.threads thread pc⟩

/-- An access that keeps the count of the shard changes the place of a thread only. -/
theorem mapView_write_same (hcount : value.updates = (map.shards shard).updates) :
    mapView (map.write thread pc shard value, history) =
      (mapView (map, history)).goto thread pc.phase := by
  rw [mapView_write, hcount]
  change { (mapView (map, history)).goto thread pc.phase with
    count := Function.update (mapView (map, history)).count shard
      ((mapView (map, history)).count shard) } = _
  rw [Function.update_eq_self]
  rfl

/-- An access changes nothing in the sum, or adds to a shard, or visits one. -/
theorem Access.simulated (haccess : Access map thread pc shard value)
    (hinv : ShardedInv (mapView (map, history))) (hroom : history.tally.started < 2 ^ 64) :
    mapView (map.write thread pc shard value, history) = mapView (map, history) ∨
      ∃ move, (mapView (map, history)).step move =
        some (mapView (map.write thread pc shard value, history)) := by
  cases haccess.counts with
  | same hphase hcount =>
      left
      rw [mapView_write_same hcount, hphase]
      change (mapView (map, history)).goto thread ((mapView (map, history)).phase thread) = _
      rw [Sharded.goto, Function.update_eq_self]
  | update hbefore hafter hcount =>
      right
      have hphase : (mapView (map, history)).phase thread = .adding shard 1 := hbefore
      have hfits := Nat.lt_of_le_of_lt (hinv.adding_le hphase) hroom
      have hupdates : value.updates.toNat = (map.shards shard).updates.toNat + 1 := by
        rw [hcount, UInt64.toNat_add]
        exact Nat.mod_eq_of_lt hfits
      refine ⟨.apply thread, ?_⟩
      simp only [Sharded.step, hphase, Option.some.injEq]
      rw [mapView_write, hafter, hupdates]
      rfl
  | read sum hbefore hafter hcount =>
      right
      have hphase : (mapView (map, history)).phase thread = .reading shard sum.toNat := hbefore
      have hfits := Nat.lt_of_le_of_lt (hinv.visit_le hphase shard.isLt) hroom
      have hsum : (sum + (map.shards shard).updates).toNat =
          sum.toNat + (map.shards shard).updates.toNat := by
        rw [UInt64.toNat_add]
        exact Nat.mod_eq_of_lt hfits
      refine ⟨.visit thread, ?_⟩
      simp only [Sharded.step, hphase, shard.isLt, dite_true, Option.some.injEq]
      rw [mapView_write_same hcount, hafter, hsum]
      rfl

/-- Every step is one of the abstract sum, or changes nothing there. -/
theorem map_step_simulated {event : MapEvent threadCount} (hrun : MapRun (map, history))
    (hinv : ShardedInv (mapView (map, history))) (hstep : map.step event = some next) :
    mapView (next, (mapHistory bits threadCount).observe map event next history) =
        mapView (map, history) ∨
      ∃ move, (mapView (map, history)).step move =
        some (mapView (next, (mapHistory bits threadCount).observe map event next history)) := by
  cases event with
  | upsert thread key delta =>
      simp only [ShardedHashMap.step] at hstep
      split at hstep
      · next hpc =>
          obtain rfl := Option.some.inj hstep
          refine .inr ⟨.add thread (shardOf bits key) 1, ?_⟩
          simp only [Sharded.step, mapView_phase hpc, MapPc.phase]
          exact congrArg some (mapView_record map history
            { upserts := history.upserts ++ [(key, delta)], tally := history.tally.start 1 }
            thread (.lock key delta))
      · cases hstep
  | totalUpdates thread =>
      simp only [ShardedHashMap.step] at hstep
      split at hstep
      · next hpc =>
          obtain rfl := Option.some.inj hstep
          refine .inr ⟨.read thread, ?_⟩
          simp only [Sharded.step, mapView_phase hpc, MapPc.phase]
          exact congrArg some (mapView_record map history
            { history with tally := history.tally.beginReading thread } thread (.lockShard 0 0))
      · cases hstep
  | access thread =>
      obtain ⟨pc, shard, value, rfl, haccess⟩ := access_effect hrun.mutexes hstep
      exact haccess.simulated hinv (hrun.counted ▸ hrun.fits)
  | ret thread =>
      simp only [ShardedHashMap.step] at hstep
      split at hstep
      · next hpc =>
          obtain rfl := Option.some.inj hstep
          refine .inr ⟨.finish thread, ?_⟩
          simp only [Sharded.step, mapView_phase hpc, MapPc.phase, mapHistory, hpc]
          exact congrArg some (mapView_record map history
            { history with tally := history.tally.finish 1 } thread .idle)
      · next index sum hpc =>
          split at hstep
          · cases hstep
          · next hend =>
              obtain rfl := Option.some.inj hstep
              refine .inr ⟨.total thread, ?_⟩
              simp only [Sharded.step, mapView_phase hpc, MapPc.phase, hend, if_false,
                mapHistory, hpc]
              exact congrArg some (mapView_record map history
                { history with tally := history.tally.endReading thread sum.toNat } thread .idle)
      · cases hstep

/-- The counts of updates are a sum over shards. -/
theorem map_simulates {pair : ShardedHashMap bits threadCount × MapHistory threadCount}
    (h : MapReachable bits threadCount pair) :
    (shardedSums (Fin threadCount) (2 ^ bits)).Reachable (fun _ _ => True) (mapView pair) := by
  refine h.simulate mapView (fun pair hinit => ?_) fun pair event next hreach hview _ hstep => ?_
  · obtain ⟨map, history⟩ := pair
    obtain ⟨hmap, hhistory⟩ := hinit
    change map = {} at hmap
    change history = {} at hhistory
    subst hmap hhistory
    rfl
  · obtain ⟨hnext, hhistory⟩ := System.withHistory_step.mp hstep
    have hmove := map_step_simulated (mapRun_of_reachable hreach) (shardedInv_of_reachable hview)
      hnext
    rw [← hhistory] at hmove
    exact hmove.imp_right fun ⟨move, hmove⟩ => ⟨move, trivial, hmove⟩

/-! ## Every interleaving -/

/-- The thread is inside `Upsert`. -/
def MapPc.upserting : MapPc bits → Bool
  | .idle | .lockShard _ _ | .loadShard _ _ | .unlockShard _ _ => false
  | _ => true

/-- No thread is inside `Upsert`. -/
def ShardedHashMap.Quiet (map : ShardedHashMap bits threadCount) : Prop :=
  ∀ thread, (map.threads thread).upserting = false

/-- A thread that is not inside `Upsert` has nothing to add. -/
theorem MapPc.quiet (h : pc.upserting = false) :
    pc.owed = 0 ∧ pc.phase.pending = 0 ∧ pc.phase.unreturned = 0 := by
  cases pc with
  | idle | lockShard | loadShard | unlockShard => exact ⟨rfl, rfl, rfl⟩
  | lock | loadBucket | storeBucket | loadUpdates | storeUpdates | unlock | upserted => cases h

/-- The totals of `TotalUpdates` lie between the calls of `Upsert` that had returned when it was
called and those that had been called when it returned, and those of one thread never decrease.
While no thread is inside `Upsert`, the total is the number of its calls, and the buckets sum to
what they were called with. -/
theorem map_consistent (h : MapReachable bits threadCount (map, history)) :
    history.tally.Consistent ∧ history.tally.started = history.upserts.length ∧
      (map.Quiet → history.tally.finished = history.tally.started ∧
        map.totalUpdates.toNat = history.upserts.length ∧
        ∑ shard, ∑ bucket, (map.shards shard).buckets bucket =
          (history.upserts.map Prod.snd).sum) := by
  have hinv := shardedInv_of_reachable (map_simulates h)
  have hrun := mapRun_of_reachable h
  refine ⟨hinv.consistent, hrun.counted, fun hquiet => ?_⟩
  obtain ⟨hfinished, hsum⟩ := hinv.quiet fun thread => (MapPc.quiet (hquiet thread)).2
  change ∑ shard, (map.shards shard).updates.toNat = history.tally.started at hsum
  rw [hrun.counted] at hsum
  have hfits : ∑ shard, (map.shards shard).updates.toNat < 2 ^ 64 := hsum ▸ hrun.fits
  have howed : ∑ thread, (map.threads thread).owed = 0 :=
    Finset.sum_eq_zero fun thread _ => (MapPc.quiet (hquiet thread)).1
  have hbuckets := hrun.buckets
  rw [howed, add_zero] at hbuckets
  exact ⟨hfinished, (toNat_foldl_add hfits).trans hsum, hbuckets⟩

/-- What the totals of a `ShardedCounter` are worth. A total that is read while nothing is called is
the sum of the increments. -/
def CounterTotalsConsistent (bits threadCount : Nat) : Prop :=
  ∀ counter tally, Coherency.CounterReachable bits threadCount (counter, tally) →
    tally.Consistent ∧
      (∀ reading ∈ tally.readings, reading.finishedBefore = reading.startedAfter →
        reading.total = reading.startedAfter) ∧
      (counter.Quiet → tally.finished = tally.started ∧ counter.readTotal.toNat = tally.started)

/-- What the totals and the buckets of a `ShardedHashMap` are worth. -/
def MapTotalsConsistent (bits threadCount : Nat) : Prop :=
  ∀ (map : ShardedHashMap bits threadCount) history,
    MapReachable bits threadCount (map, history) →
    history.tally.Consistent ∧ history.tally.started = history.upserts.length ∧
      (∀ reading ∈ history.tally.readings, reading.finishedBefore = reading.startedAfter →
        reading.total = reading.startedAfter) ∧
      (map.Quiet → history.tally.finished = history.tally.started ∧
        map.totalUpdates.toNat = history.upserts.length ∧
        ∑ shard, ∑ bucket, (map.shards shard).buckets bucket =
          (history.upserts.map Prod.snd).sum)

/-- Sharded totals are consistent in every interleaving of the counter and of the map. -/
theorem sharded_totals_consistent (bits threadCount : Nat) :
    CounterTotalsConsistent bits threadCount ∧ MapTotalsConsistent bits threadCount := by
  constructor
  · intro counter tally h
    obtain ⟨hconsistent, hquiet⟩ := Coherency.counter_consistent h
    exact ⟨hconsistent, fun reading hmem => hconsistent.total_eq hmem, hquiet⟩
  · intro map history h
    obtain ⟨hconsistent, hcounted, hquiet⟩ := map_consistent h
    exact ⟨hconsistent, hcounted, fun reading hmem => hconsistent.total_eq hmem, hquiet⟩

end HotPath.Locks
