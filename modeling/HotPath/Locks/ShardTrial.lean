import HotPath.Foundation.Completion
import HotPath.Locks.ShardedHashMap

/-!
# The trial of the sharded hash map

`RunShardedMapTrial`: every thread calls `Upsert` with the keys of its own sequence, and `main` adds
the counts of updates when all threads have returned.

No run deadlocks or goes on forever, and the map is then what the calls leave in any order: every
bucket counts the keys that select it, and every shard its keys (`shard_trial_completes`).
-/

namespace HotPath.Locks

open HotPath.Foundation

/-- The number of shards as a power of two, and the arguments of the trial. -/
structure ShardTrialConfig where
  bits : Nat
  threads : Nat
  opsPerThread : Nat

/-- The first value of a thread's variable `key`. -/
def seedKey (tid : Nat) : UInt64 := UInt64.ofNat tid * 1315423911 ^^^ 0x9E3779B97F4A7C15

/-- The assignment to `key` in an iteration. -/
def nextKey (key : UInt64) : UInt64 := (key ^^^ key >>> 30) * 0xBF58476D1CE4E5B9

/-- The keys of some iterations. -/
def keysFrom (key : UInt64) : Nat → List UInt64
  | 0 => []
  | n + 1 => nextKey key :: keysFrom (nextKey key) n

/-- The map, and the iterations that are left and the variable `key` of each thread. -/
structure ShardTrial (cfg : ShardTrialConfig) where
  map : ShardedHashMap cfg.bits cfg.threads
  remaining : Fin cfg.threads → Nat
  key : Fin cfg.threads → UInt64

/-- A call of `Upsert`, an access inside of it, or its return. -/
inductive ShardTrialEvent (cfg : ShardTrialConfig) where
  | call (thread : Fin cfg.threads)
  | access (thread : Fin cfg.threads)
  | ret (thread : Fin cfg.threads)

variable {cfg : ShardTrialConfig}

/-- One step. -/
def ShardTrial.step (trial : ShardTrial cfg) : ShardTrialEvent cfg → Option (ShardTrial cfg)
  | .call thread =>
      if 0 < trial.remaining thread then
        (trial.map.step (.upsert thread (nextKey (trial.key thread)) 1)).map fun map =>
          { map
            remaining := Function.update trial.remaining thread (trial.remaining thread - 1)
            key := Function.update trial.key thread (nextKey (trial.key thread)) }
      else none
  | .access thread => (trial.map.step (.access thread)).map fun map => { trial with map }
  | .ret thread => (trial.map.step (.ret thread)).map fun map => { trial with map }

/-- The trial as a transition system. -/
def shardedMapTrial (cfg : ShardTrialConfig) : System (ShardTrial cfg) (ShardTrialEvent cfg) where
  init trial := trial = ⟨{}, fun _ => cfg.opsPerThread, fun thread => seedKey thread⟩
  step := ShardTrial.step

/-- All threads have returned. -/
def ShardTrial.finished (trial : ShardTrial cfg) : Prop :=
  ∀ thread, trial.remaining thread = 0 ∧ trial.map.threads thread = .idle

/-- The number of calls of the trial whose key is of some kind. -/
def callsWith (cfg : ShardTrialConfig) (kind : UInt64 → Bool) : Nat :=
  ∑ thread : Fin cfg.threads, (keysFrom (seedKey thread) cfg.opsPerThread).countP kind

/-- Every run ends, the map is then what the calls leave one after the other, and `invariant_ok` is
true. -/
structure ShardTrialCompletes (cfg : ShardTrialConfig) : Prop where
  ends : (shardedMapTrial cfg).Completes (fun _ _ => True) ShardTrial.finished
  buckets : ∀ trial, (shardedMapTrial cfg).Reachable (fun _ _ => True) trial → trial.finished →
    ∀ shard bucket, (trial.map.shards shard).buckets bucket =
      UInt64.ofNat (callsWith cfg fun key => shardOf cfg.bits key = shard ∧ bucketOf key = bucket)
  updates : ∀ trial, (shardedMapTrial cfg).Reachable (fun _ _ => True) trial → trial.finished →
    ∀ shard, (trial.map.shards shard).updates =
      UInt64.ofNat (callsWith cfg fun key => shardOf cfg.bits key = shard)
  total : ∀ trial, (shardedMapTrial cfg).Reachable (fun _ _ => True) trial → trial.finished →
    trial.map.totalUpdates = UInt64.ofNat cfg.threads * UInt64.ofNat cfg.opsPerThread

/-! ## An access of `Upsert` -/

/-- The key of the call that a thread is inside. -/
def MapPc.key {bits : Nat} : MapPc bits → Option UInt64
  | .lock key 1 | .loadBucket key 1 | .storeBucket key 1 _ => some key
  | .loadUpdates key | .storeUpdates key _ | .unlock key => some key
  | _ => none

/-- What an access of a thread inside `Upsert` does to the shard of its key. -/
inductive UpsertMove {bits threadCount : Nat} (thread : Fin threadCount) (key : UInt64)
    (shard : MapShard threadCount) : MapPc bits → MapPc bits → MapShard threadCount → Prop where
  | lock (hfree : shard.mtx = none) :
      UpsertMove thread key shard (.lock key 1) (.loadBucket key 1)
        { shard with mtx := some thread }
  | loadBucket : UpsertMove thread key shard (.loadBucket key 1)
      (.storeBucket key 1 (shard.buckets (bucketOf key))) shard
  | storeBucket (bucket) : UpsertMove thread key shard (.storeBucket key 1 bucket)
      (.loadUpdates key)
      { shard with buckets := Function.update shard.buckets (bucketOf key) (bucket + 1) }
  | loadUpdates : UpsertMove thread key shard (.loadUpdates key)
      (.storeUpdates key shard.updates) shard
  | storeUpdates (updates) : UpsertMove thread key shard (.storeUpdates key updates)
      (.unlock key) { shard with updates := updates + 1 }
  | unlock : UpsertMove thread key shard (.unlock key) .upserted { shard with mtx := none }

section Access

variable {bits threadCount : Nat} {map next : ShardedHashMap bits threadCount}
  {thread : Fin threadCount} {key : UInt64} {pc : MapPc bits}

theorem MapPc.key_cases (h : pc.key = some key) : pc = .lock key 1 ∨ pc = .loadBucket key 1 ∨
    (∃ bucket, pc = .storeBucket key 1 bucket) ∨ pc = .loadUpdates key ∨
    (∃ updates, pc = .storeUpdates key updates) ∨ pc = .unlock key := by
  unfold MapPc.key at h
  split at h <;> simp_all

/-- A thread that holds no mutex has loaded nothing for its next store. -/
theorem MapPc.current_of_holds_none {shard : MapShard threadCount} (h : pc.holds = none) :
    pc.Current shard := by
  cases pc with
  | storeBucket | storeUpdates => cases h
  | _ => trivial

/-- Every access inside `Upsert` is one of these. -/
theorem upsert_move (hkey : (map.threads thread).key = some key)
    (hstep : map.access thread = some next) : ∃ pc value,
      UpsertMove thread key (map.shards (shardOf bits key)) (map.threads thread) pc value ∧
        next = map.write thread pc (shardOf bits key) value := by
  unfold ShardedHashMap.access at hstep
  rcases MapPc.key_cases hkey with hpc | hpc | ⟨bucket, hpc⟩ | hpc | ⟨updates, hpc⟩ | hpc
  · simp only [hpc, ShardedHashMap.acquire] at hstep
    split at hstep
    · next hfree => exact ⟨_, _, hpc ▸ .lock hfree, (Option.some.inj hstep).symm⟩
    · cases hstep
  · simp only [hpc, Option.some.injEq] at hstep
    exact ⟨_, _, hpc ▸ .loadBucket, hstep ▸ map.goto_eq_write thread _ _⟩
  · simp only [hpc, Option.some.injEq] at hstep
    exact ⟨_, _, hpc ▸ .storeBucket bucket, hstep.symm⟩
  · simp only [hpc, Option.some.injEq] at hstep
    exact ⟨_, _, hpc ▸ .loadUpdates, hstep ▸ map.goto_eq_write thread _ _⟩
  · simp only [hpc, Option.some.injEq] at hstep
    exact ⟨_, _, hpc ▸ .storeUpdates updates, hstep.symm⟩
  · simp only [hpc, Option.some.injEq] at hstep
    exact ⟨_, _, hpc ▸ .unlock, hstep.symm⟩

end Access

/-! ## The counts -/

/-- A count of the map: a bucket, or the updates of a shard. -/
inductive Meter (bits : Nat) where
  | bucket (shard : Fin (2 ^ bits)) (index : Fin 16)
  | updates (shard : Fin (2 ^ bits))

namespace Meter

variable {bits threadCount : Nat}

/-- Whether a call counts that goes to a place. -/
def counts : Meter bits → Fin (2 ^ bits) → Fin 16 → Bool
  | .bucket shard index, place, slot => place = shard ∧ slot = index
  | .updates shard, place, _ => place = shard

/-- The keys that are counted. -/
def kind (meter : Meter bits) (key : UInt64) : Bool :=
  meter.counts (shardOf bits key) (bucketOf key)

/-- The count in a shard. -/
def ofShard : Meter bits → MapShard threadCount → UInt64
  | .bucket _ index, value => value.buckets index
  | .updates _, value => value.updates

/-- The count in the map. -/
def read (shards : Fin (2 ^ bits) → MapShard threadCount) : Meter bits → UInt64
  | .bucket shard index => (shards shard).buckets index
  | .updates shard => (shards shard).updates

/-- What a call with a key has to add. -/
def due (meter : Meter bits) (key : UInt64) : UInt64 := if meter.kind key then 1 else 0

/-- What a thread inside a call still has to add. -/
def debt : Meter bits → MapPc bits → UInt64
  | meter, .lock key _ | meter, .loadBucket key _ | meter, .storeBucket key _ _ => meter.due key
  | .updates shard, .loadUpdates key | .updates shard, .storeUpdates key _ =>
      due (.updates shard) key
  | _, _ => 0

/-- What a thread has to add in its call and in the iterations that are left. -/
def left (meter : Meter bits) (pc : MapPc bits) (key : UInt64) (remaining : Nat) : UInt64 :=
  meter.debt pc + UInt64.ofNat ((keysFrom key remaining).countP meter.kind)

variable {meter : Meter bits} {shards : Fin (2 ^ bits) → MapShard threadCount}
  {place : Fin (2 ^ bits)} {value : MapShard threadCount} {key : UInt64} {pc pc' : MapPc bits}

theorem debt_idle (meter : Meter bits) : meter.debt .idle = 0 := by
  cases meter <;> rfl

theorem debt_lock (meter : Meter bits) (key delta : UInt64) :
    meter.debt (.lock key delta) = meter.due key := by
  cases meter <;> rfl

/-- A change of a shard that keeps the count. -/
theorem read_kept (h : meter.ofShard value = meter.ofShard (shards place)) :
    meter.read (Function.update shards place value) = meter.read shards := by
  cases meter with
  | bucket shard index =>
      by_cases heq : shard = place
      · subst heq
        simpa only [read, ofShard, Function.update_self] using h
      · simp only [read, Function.update_of_ne heq]
  | updates shard =>
      by_cases heq : shard = place
      · subst heq
        simpa only [read, ofShard, Function.update_self] using h
      · simp only [read, Function.update_of_ne heq]

/-- The store to a bucket. -/
theorem read_bucket (shard : Fin (2 ^ bits)) (index slot : Fin 16) :
    (bucket shard index).read (Function.update shards place { shards place with
        buckets := Function.update (shards place).buckets slot
          ((shards place).buckets slot + 1) }) =
      (bucket shard index).read shards +
        if (bucket shard index).counts place slot then 1 else 0 := by
  by_cases hshard : place = shard
  · subst hshard
    by_cases hslot : slot = index
    · subst hslot
      simp only [read, counts, Function.update_self, and_self, decide_true, if_true]
    · simp only [read, counts, Function.update_self, Function.update_of_ne (Ne.symm hslot), hslot,
        and_false, decide_false, Bool.false_eq_true, if_false, add_zero]
  · simp only [read, counts, Function.update_of_ne (Ne.symm hshard), hshard, false_and,
      decide_false, Bool.false_eq_true, if_false, add_zero]

/-- The store to the number of updates. -/
theorem read_updates (shard : Fin (2 ^ bits)) (slot : Fin 16) :
    (updates shard).read (Function.update shards place { shards place with
        updates := (shards place).updates + 1 }) =
      (updates shard).read shards + if (updates shard).counts place slot then 1 else 0 := by
  by_cases hshard : place = shard
  · subst hshard
    simp only [read, counts, Function.update_self, decide_true, if_true]
  · simp only [read, counts, Function.update_of_ne (Ne.symm hshard), hshard, decide_false,
      Bool.false_eq_true, if_false, add_zero]

theorem move_kept (hvalue : meter.ofShard value = meter.ofShard (shards place))
    (hdebt : meter.debt pc' = meter.debt pc) :
    meter.read (Function.update shards place value) + meter.debt pc' =
      meter.read shards + meter.debt pc := by
  rw [read_kept hvalue, hdebt]

/-- What an access adds to a count is no longer to be added. -/
theorem read_move (meter : Meter bits) {thread : Fin threadCount}
    (h : UpsertMove thread key (shards (shardOf bits key)) pc pc' value)
    (hcurrent : pc.Current (shards (shardOf bits key))) :
    meter.read (Function.update shards (shardOf bits key) value) + meter.debt pc' =
      meter.read shards + meter.debt pc := by
  cases h with
  | lock | loadBucket | loadUpdates | unlock =>
      exact move_kept (by cases meter <;> rfl) (by cases meter <;> rfl)
  | storeBucket old =>
      obtain rfl : old = (shards (shardOf bits key)).buckets (bucketOf key) := hcurrent
      cases meter with
      | bucket shard index =>
          rw [read_bucket]
          exact add_zero _
      | updates shard => exact move_kept rfl rfl
  | storeUpdates old =>
      obtain rfl : old = (shards (shardOf bits key)).updates := hcurrent
      cases meter with
      | bucket shard index => exact move_kept rfl rfl
      | updates shard =>
          rw [read_updates _ (bucketOf key)]
          exact add_zero _

/-- A call takes one of the keys that are left. -/
theorem left_call (meter : Meter bits) {remaining : Nat} (hleft : 0 < remaining)
    (delta : UInt64) : meter.left (.lock (nextKey key) delta) (nextKey key) (remaining - 1) =
      meter.left .idle key remaining := by
  obtain ⟨n, rfl⟩ := Nat.exists_eq_succ_of_ne_zero hleft.ne'
  rw [left, left, debt_lock, debt_idle, zero_add, Nat.succ_sub_one, keysFrom, due]
  by_cases hkind : meter.kind (nextKey key) = true
  · rw [if_pos hkind, List.countP_cons_of_pos hkind, UInt64.ofNat_add, add_comm]
    rfl
  · rw [if_neg hkind, List.countP_cons_of_neg hkind, zero_add]

end Meter

/-! ## The invariant -/

/-- The mutexes are those of the threads inside, and every count together with what the threads
have to add is what all the calls add. -/
structure ShardTrialInv (trial : ShardTrial cfg) : Prop where
  mutexes : MapInv trial.map
  held : ∀ shard thread, (trial.map.shards shard).mtx = some thread →
    (trial.map.threads thread).holds = some shard
  calls : ∀ thread, trial.map.threads thread = .idle ∨ trial.map.threads thread = .upserted ∨
    ∃ key, (trial.map.threads thread).key = some key
  counted : ∀ meter : Meter cfg.bits, meter.read trial.map.shards +
      ∑ thread, meter.left (trial.map.threads thread) (trial.key thread)
        (trial.remaining thread) =
    UInt64.ofNat (callsWith cfg meter.kind)

/-- Numbers as words, which keeps sums. -/
def ofNatHom : Nat →+ UInt64 where
  toFun := UInt64.ofNat
  map_zero' := rfl
  map_add' := UInt64.ofNat_add

/-- What an access does to the mutex. -/
theorem UpsertMove.mutex {bits threadCount : Nat} {thread : Fin threadCount} {key : UInt64}
    {shard value : MapShard threadCount} {pc pc' : MapPc bits}
    (h : UpsertMove thread key shard pc pc' value) :
    (∀ other, other ≠ thread → value.mtx = some other → shard.mtx = some other) ∧
      (value.mtx = some thread → pc'.holds = some (shardOf bits key)) ∧
      ∀ held, pc.holds = some held → held = shardOf bits key := by
  cases h with
  | lock hfree =>
      refine ⟨fun other hne heq => ?_, fun _ => rfl, fun held heq => ?_⟩
      · exact absurd (Option.some.inj heq).symm hne
      · cases heq
  | unlock =>
      refine ⟨fun other _ heq => ?_, fun heq => ?_, fun held heq => (Option.some.inj heq).symm⟩
      · cases heq
      · cases heq
  | loadBucket | storeBucket | loadUpdates | storeUpdates =>
      exact ⟨fun _ _ heq => heq, fun _ => rfl, fun held heq => (Option.some.inj heq).symm⟩

/-- After an access the thread is still inside the call, or at its end. -/
theorem UpsertMove.goes_on {bits threadCount : Nat} {thread : Fin threadCount} {key : UInt64}
    {shard value : MapShard threadCount} {pc pc' : MapPc bits}
    (h : UpsertMove thread key shard pc pc' value) : pc' = .upserted ∨ pc'.key = some key := by
  cases h with
  | unlock => exact .inl rfl
  | lock | loadBucket | storeBucket | loadUpdates | storeUpdates => exact .inr rfl

/-- After an access the mutexes are still those of the threads inside. -/
theorem UpsertMove.held {bits threadCount : Nat} {map : ShardedHashMap bits threadCount}
    {thread other : Fin threadCount} {key : UInt64} {value : MapShard threadCount}
    {pc : MapPc bits} {shard : Fin (2 ^ bits)}
    (h : UpsertMove thread key (map.shards (shardOf bits key)) (map.threads thread) pc value)
    (hheld : ∀ shard other, (map.shards shard).mtx = some other →
      (map.threads other).holds = some shard)
    (hmtx : ((map.write thread pc (shardOf bits key) value).shards shard).mtx = some other) :
    ((map.write thread pc (shardOf bits key) value).threads other).holds = some shard := by
  obtain ⟨hother, hself, hbefore⟩ := h.mutex
  simp only [ShardedHashMap.write] at hmtx ⊢
  by_cases hshard : shard = shardOf bits key
  · rw [hshard, Function.update_self] at hmtx
    by_cases hthread : other = thread
    · rw [hthread, Function.update_self, hshard]
      exact hself (hthread ▸ hmtx)
    · rw [Function.update_of_ne hthread, hshard]
      exact hheld _ other (hother other hthread hmtx)
  · rw [Function.update_of_ne hshard] at hmtx
    have hholds := hheld shard other hmtx
    have hne : other ≠ thread := fun heq => hshard (hbefore shard (heq ▸ hholds))
    rwa [Function.update_of_ne hne]

section Steps

variable {trial next : ShardTrial cfg} {thread : Fin cfg.threads} {pc : MapPc cfg.bits}

/-- Only one thread has moved. -/
def ShardTrial.MovedOnly (trial next : ShardTrial cfg) (thread : Fin cfg.threads) : Prop :=
  ∀ other, other ≠ thread → next.map.threads other = trial.map.threads other ∧
    next.key other = trial.key other ∧ next.remaining other = trial.remaining other

/-- What a count gains is what the thread no longer has to add. -/
theorem ShardTrialInv.recount (h : ShardTrialInv trial) (hothers : trial.MovedOnly next thread)
    (hself : ∀ meter : Meter cfg.bits, meter.read next.map.shards +
        meter.left (next.map.threads thread) (next.key thread) (next.remaining thread) =
      meter.read trial.map.shards +
        meter.left (trial.map.threads thread) (trial.key thread) (trial.remaining thread))
    (meter : Meter cfg.bits) : meter.read next.map.shards +
        ∑ thread, meter.left (next.map.threads thread) (next.key thread) (next.remaining thread) =
      UInt64.ofNat (callsWith cfg meter.kind) := by
  let before (thread : Fin cfg.threads) : UInt64 :=
    meter.left (trial.map.threads thread) (trial.key thread) (trial.remaining thread)
  let after (thread : Fin cfg.threads) : UInt64 :=
    meter.left (next.map.threads thread) (next.key thread) (next.remaining thread)
  have hsum : ∑ other, after other + before thread = ∑ other, before other + after thread := by
    refine sum_add_eq_of_changed thread fun other hne => ?_
    obtain ⟨hpc, hkey, hremaining⟩ := hothers other hne
    simp only [before, after, hpc, hkey, hremaining]
  have hmoved : meter.read next.map.shards + after thread =
      meter.read trial.map.shards + before thread := hself meter
  have hbalance : meter.read next.map.shards + ∑ other, after other + before thread =
      meter.read trial.map.shards + ∑ other, before other + before thread := by
    calc meter.read next.map.shards + ∑ other, after other + before thread
        = meter.read next.map.shards + (∑ other, before other + after thread) := by
          rw [add_assoc, hsum]
      _ = meter.read next.map.shards + after thread + ∑ other, before other := by ac_rfl
      _ = meter.read trial.map.shards + before thread + ∑ other, before other := by rw [hmoved]
      _ = meter.read trial.map.shards + ∑ other, before other + before thread := by ac_rfl
  exact (add_right_cancel hbalance).trans (h.counted meter)

/-- A call or a return, which changes no shard. -/
theorem ShardTrialInv.goes (h : ShardTrialInv trial) (hmap : next.map = trial.map.goto thread pc)
    (hmutexes : MapInv next.map) (hbefore : (trial.map.threads thread).holds = none)
    (hpc : pc = .idle ∨ ∃ key, pc.key = some key) (hothers : trial.MovedOnly next thread)
    (hleft : ∀ meter : Meter cfg.bits,
      meter.left pc (next.key thread) (next.remaining thread) =
        meter.left (trial.map.threads thread) (trial.key thread) (trial.remaining thread)) :
    ShardTrialInv next := by
  have hshards : next.map.shards = trial.map.shards := by
    rw [hmap]
    rfl
  have hthread : next.map.threads thread = pc := by
    rw [hmap]
    exact Function.update_self ..
  refine ⟨hmutexes, fun shard other hmtx => ?_, fun other => ?_, h.recount hothers fun meter => ?_⟩
  · rw [hshards] at hmtx
    have hholds := h.held shard other hmtx
    have hne : other ≠ thread := by
      intro heq
      rw [heq, hbefore] at hholds
      cases hholds
    rwa [(hothers other hne).1]
  · by_cases heq : other = thread
    · rw [heq, hthread]
      exact hpc.imp_right .inr
    · rw [(hothers other heq).1]
      exact h.calls other
  · rw [hshards, hthread, hleft meter]

/-- An access inside a call. -/
theorem ShardTrialInv.access (h : ShardTrialInv trial) {map : ShardedHashMap cfg.bits cfg.threads}
    (hstep : trial.map.access thread = some map) : ShardTrialInv { trial with map } ∧
      ∃ key pc value, UpsertMove thread key (trial.map.shards (shardOf cfg.bits key))
          (trial.map.threads thread) pc value ∧
        map = trial.map.write thread pc (shardOf cfg.bits key) value := by
  obtain hidle | hupserted | ⟨key, hkey⟩ := h.calls thread
  · simp [ShardedHashMap.access, hidle] at hstep
  · simp [ShardedHashMap.access, hupserted] at hstep
  obtain ⟨pc, value, hmove, rfl⟩ := upsert_move hkey hstep
  refine ⟨?_, key, pc, value, hmove, rfl⟩
  have hnext : trial.map.step (.access thread) =
      some (trial.map.write thread pc (shardOf cfg.bits key) value) := hstep
  have hothers : trial.MovedOnly
      { trial with map := trial.map.write thread pc (shardOf cfg.bits key) value } thread :=
    fun other hne => ⟨Function.update_of_ne hne _ _, rfl, rfl⟩
  have hcurrent : (trial.map.threads thread).Current (trial.map.shards (shardOf cfg.bits key)) := by
    cases hholds : (trial.map.threads thread).holds with
    | none => exact MapPc.current_of_holds_none hholds
    | some held =>
        have hsame : held = shardOf cfg.bits key := hmove.mutex.2.2 held hholds
        exact hsame ▸ (h.mutexes thread held hholds).2
  refine ⟨h.mutexes.step hnext, fun shard other hmtx => hmove.held h.held hmtx, fun other => ?_,
    h.recount hothers fun meter => ?_⟩
  · by_cases heq : other = thread
    · simp only [heq, ShardedHashMap.write, Function.update_self]
      exact .inr (hmove.goes_on.imp_right fun hkey => ⟨key, hkey⟩)
    · rw [(hothers other heq).1]
      exact h.calls other
  · have hread := meter.read_move hmove hcurrent
    simp only [ShardedHashMap.write, Function.update_self, Meter.left, ← add_assoc, hread]

/-! ## The work that is left -/

/-- The steps of a call that are left. -/
def MapPc.work {bits : Nat} : MapPc bits → Nat
  | .lock _ _ => 7
  | .loadBucket _ _ => 6
  | .storeBucket _ _ _ => 5
  | .loadUpdates _ => 4
  | .storeUpdates _ _ => 3
  | .unlock _ => 2
  | .upserted => 1
  | _ => 0

/-- The steps that a thread has left. -/
def ShardTrial.threadWork (trial : ShardTrial cfg) (thread : Fin cfg.threads) : Nat :=
  trial.remaining thread * 8 + (trial.map.threads thread).work

/-- The steps that are left. -/
def ShardTrial.work (trial : ShardTrial cfg) : Nat := ∑ thread, trial.threadWork thread

theorem UpsertMove.work {bits threadCount : Nat} {thread : Fin threadCount} {key : UInt64}
    {shard value : MapShard threadCount} {pc pc' : MapPc bits}
    (h : UpsertMove thread key shard pc pc' value) : pc'.work + 1 = pc.work := by
  cases h <;> rfl

/-- A thread that has moved has one step less. -/
theorem work_lt (hothers : trial.MovedOnly next thread)
    (hself : next.threadWork thread + 1 = trial.threadWork thread) : next.work < trial.work := by
  refine sum_add_le_of_payer thread 0 1 (by omega) fun other hne => ?_
  obtain ⟨hpc, -, hremaining⟩ := hothers other hne
  rw [ShardTrial.threadWork, ShardTrial.threadWork, hpc, hremaining, Nat.add_zero]

theorem movedOnly_call (trial : ShardTrial cfg) (thread : Fin cfg.threads) (pc : MapPc cfg.bits)
    (remaining : Nat) (key : UInt64) :
    trial.MovedOnly ⟨trial.map.goto thread pc, Function.update trial.remaining thread remaining,
      Function.update trial.key thread key⟩ thread := by
  intro other hne
  exact ⟨Function.update_of_ne hne _ _, Function.update_of_ne hne _ _,
    Function.update_of_ne hne _ _⟩

theorem ShardTrialInv.call_step (h : ShardTrialInv trial)
    (hstep : trial.step (.call thread) = some next) :
    ShardTrialInv next ∧ next.work < trial.work := by
  obtain ⟨hleft, hcall⟩ := Option.ite_none_right_eq_some.mp hstep
  obtain ⟨map, hmap, rfl⟩ := Option.map_eq_some_iff.mp hcall
  have hmutexes := h.mutexes.step hmap
  simp only [ShardedHashMap.step] at hmap
  split at hmap
  · next hidle =>
      obtain rfl := Option.some.inj hmap
      have hothers := movedOnly_call trial thread (.lock (nextKey (trial.key thread)) 1)
        (trial.remaining thread - 1) (nextKey (trial.key thread))
      refine ⟨h.goes rfl hmutexes ?_ (.inr ⟨_, rfl⟩) hothers fun meter => ?_,
        work_lt hothers ?_⟩
      · rw [hidle]
        rfl
      · simp only [Function.update_self, hidle]
        exact meter.left_call hleft 1
      · simp only [ShardTrial.threadWork, ShardedHashMap.goto, Function.update_self, hidle,
          MapPc.work]
        omega
  · cases hmap

theorem ShardTrialInv.access_step (h : ShardTrialInv trial)
    (hstep : trial.step (.access thread) = some next) :
    ShardTrialInv next ∧ next.work < trial.work := by
  obtain ⟨map, hmap, rfl⟩ := Option.map_eq_some_iff.mp hstep
  obtain ⟨hnext, key, pc, value, hmove, hwrite⟩ := h.access hmap
  have hothers : trial.MovedOnly { trial with map } thread := by
    intro other hne
    rw [hwrite]
    exact ⟨Function.update_of_ne hne _ _, rfl, rfl⟩
  refine ⟨hnext, work_lt hothers ?_⟩
  have hwork := hmove.work
  simp only [ShardTrial.threadWork, hwrite, ShardedHashMap.write, Function.update_self]
  omega

theorem ShardTrialInv.ret_step (h : ShardTrialInv trial)
    (hstep : trial.step (.ret thread) = some next) :
    ShardTrialInv next ∧ next.work < trial.work := by
  obtain ⟨map, hmap, rfl⟩ := Option.map_eq_some_iff.mp hstep
  have hmutexes := h.mutexes.step hmap
  obtain hidle | hupserted | ⟨key, hkey⟩ := h.calls thread
  · simp [ShardedHashMap.step, hidle] at hmap
  · simp only [ShardedHashMap.step, hupserted, Option.some.injEq] at hmap
    subst hmap
    have hothers : trial.MovedOnly { trial with map := trial.map.goto thread .idle } thread :=
      fun other hne => ⟨Function.update_of_ne hne _ _, rfl, rfl⟩
    refine ⟨h.goes rfl hmutexes ?_ (.inl rfl) hothers fun meter => ?_, work_lt hothers ?_⟩
    · rw [hupserted]
      rfl
    · rw [hupserted]
      cases meter <;> rfl
    · simp [ShardTrial.threadWork, ShardedHashMap.goto, hupserted, MapPc.work]
  · rcases MapPc.key_cases hkey with hpc | hpc | ⟨_, hpc⟩ | hpc | ⟨_, hpc⟩ | hpc <;>
      simp [ShardedHashMap.step, hpc] at hmap

/-- Every step keeps the invariant and leaves less work. -/
theorem ShardTrialInv.step (h : ShardTrialInv trial) {event : ShardTrialEvent cfg}
    (hstep : trial.step event = some next) : ShardTrialInv next ∧ next.work < trial.work := by
  cases event with
  | call thread => exact h.call_step hstep
  | access thread => exact h.access_step hstep
  | ret thread => exact h.ret_step hstep

/-! ## A step that is possible -/

/-- A thread that holds a mutex can go on, and so can a thread whose mutex is free. -/
theorem access_isSome {map : ShardedHashMap cfg.bits cfg.threads} {key : UInt64}
    (hkey : (map.threads thread).key = some key)
    (hready : (map.threads thread).holds = none → (map.shards (shardOf cfg.bits key)).mtx = none) :
    (map.access thread).isSome := by
  rcases MapPc.key_cases hkey with hpc | hpc | ⟨_, hpc⟩ | hpc | ⟨_, hpc⟩ | hpc
  · have hfree := hready (by rw [hpc]; rfl)
    simp [ShardedHashMap.access, ShardedHashMap.acquire, hpc, hfree]
  all_goals simp [ShardedHashMap.access, hpc]

/-- A thread inside a call can go on, or another one that holds the mutex can. -/
theorem ShardTrialInv.can_access (h : ShardTrialInv trial) {key : UInt64}
    (hkey : (trial.map.threads thread).key = some key) :
    ∃ other, (trial.map.access other).isSome := by
  cases hmtx : (trial.map.shards (shardOf cfg.bits key)).mtx with
  | none => exact ⟨thread, access_isSome hkey fun _ => hmtx⟩
  | some owner =>
      have hholds := h.held _ owner hmtx
      refine ⟨owner, ?_⟩
      obtain hidle | hupserted | ⟨ownerKey, hownerKey⟩ := h.calls owner
      · rw [hidle] at hholds
        cases hholds
      · rw [hupserted] at hholds
        cases hholds
      · refine access_isSome hownerKey fun hnone => ?_
        rw [hnone] at hholds
        cases hholds

/-- As long as a thread has not returned, some thread can take a step. -/
theorem ShardTrialInv.can_move (h : ShardTrialInv trial) (hnot : ¬ trial.finished) :
    ∃ event, (trial.step event).isSome := by
  obtain ⟨thread, hthread⟩ := not_forall.mp hnot
  obtain hidle | hupserted | ⟨key, hkey⟩ := h.calls thread
  · have hleft : 0 < trial.remaining thread := by
      by_contra hnone
      exact hthread ⟨by omega, hidle⟩
    exact ⟨.call thread, by simp [ShardTrial.step, ShardedHashMap.step, hleft, hidle]⟩
  · exact ⟨.ret thread, by simp [ShardTrial.step, ShardedHashMap.step, hupserted]⟩
  · obtain ⟨other, hother⟩ := h.can_access hkey
    exact ⟨.access other, by simpa [ShardTrial.step, ShardedHashMap.step] using hother⟩

end Steps

/-! ## Every run -/

theorem ShardTrialInv.init : ShardTrialInv
    (⟨{}, fun _ => cfg.opsPerThread, fun thread => seedKey thread⟩ : ShardTrial cfg) where
  mutexes _ := MapPc.owns_of_holds_none rfl
  held _ _ hmtx := by cases hmtx
  calls _ := .inl rfl
  counted meter := by
    have hread : meter.read (fun _ => {} : Fin (2 ^ cfg.bits) → MapShard cfg.threads) = 0 := by
      cases meter <;> rfl
    have hsum := map_sum ofNatHom (fun thread : Fin cfg.threads =>
      (keysFrom (seedKey thread) cfg.opsPerThread).countP meter.kind) Finset.univ
    simp only [Meter.left, meter.debt_idle, zero_add, hread]
    exact hsum.symm

theorem shardTrialInv_of_reachable {trial : ShardTrial cfg}
    (h : (shardedMapTrial cfg).Reachable (fun _ _ => True) trial) : ShardTrialInv trial :=
  h.invariant ShardTrialInv (fun _ hinit => hinit ▸ .init) fun _ _ _ hinv _ hstep =>
    (hinv.step hstep).1

/-- When all threads have returned, every count is that of all calls. -/
theorem ShardTrialInv.final {trial : ShardTrial cfg} (h : ShardTrialInv trial)
    (hfinished : trial.finished) (meter : Meter cfg.bits) :
    meter.read trial.map.shards = UInt64.ofNat (callsWith cfg meter.kind) := by
  rw [← h.counted meter, Finset.sum_eq_zero, add_zero]
  intro thread _
  obtain ⟨hremaining, hidle⟩ := hfinished thread
  rw [hremaining, hidle, Meter.left, meter.debt_idle]
  rfl

/-- Every key selects one of the shards. -/
theorem sum_countP_fiber {Key : Type} {n : Nat} (select : Key → Fin n) (keys : List Key) :
    ∑ place, keys.countP (fun key => select key = place) = keys.length := by
  induction keys with
  | nil => simp
  | cons key keys ih => simp [List.countP_cons, Finset.sum_add_distrib, ih]

theorem length_keysFrom (key : UInt64) (n : Nat) : (keysFrom key n).length = n := by
  induction n generalizing key with
  | zero => rfl
  | succ n ih => rw [keysFrom, List.length_cons, ih]

/-- The calls of all shards are the calls. -/
theorem sum_callsWith (cfg : ShardTrialConfig) :
    ∑ shard, callsWith cfg (fun key => shardOf cfg.bits key = shard) =
      cfg.threads * cfg.opsPerThread := by
  simp only [callsWith]
  rw [Finset.sum_comm]
  simp only [sum_countP_fiber, length_keysFrom, Finset.sum_const, Finset.card_univ,
    Fintype.card_fin, smul_eq_mul]

/-- The trial ends in every run. The buckets and the numbers of updates are then what the calls
leave, in whatever order they were made, and `TotalUpdates` is the number of the calls. -/
theorem shard_trial_completes (cfg : ShardTrialConfig) : ShardTrialCompletes cfg where
  ends := by
    refine .of_work ShardTrial.work (fun trial event next hreach _ hstep => ?_)
      fun trial hreach hnot => ?_
    · exact .inr ((shardTrialInv_of_reachable hreach).step hstep).2
    · have hinv := shardTrialInv_of_reachable hreach
      obtain ⟨event, hevent⟩ := hinv.can_move hnot
      obtain ⟨next, hstep⟩ := Option.isSome_iff_exists.mp hevent
      exact ⟨event, next, trivial, hstep, (hinv.step hstep).2⟩
  buckets trial hreach hfinished shard bucket :=
    (shardTrialInv_of_reachable hreach).final hfinished (.bucket shard bucket)
  updates trial hreach hfinished shard :=
    (shardTrialInv_of_reachable hreach).final hfinished (.updates shard)
  total trial hreach hfinished := by
    have hupdates : ∀ shard, (trial.map.shards shard).updates = _ := fun shard =>
      (shardTrialInv_of_reachable hreach).final hfinished (.updates shard)
    rw [ShardedHashMap.totalUpdates, ← List.sum_eq_foldl, List.sum_ofFn, ← UInt64.ofNat_mul,
      ← sum_callsWith cfg]
    have hsum := map_sum ofNatHom (fun shard =>
      callsWith cfg fun key => shardOf cfg.bits key = shard) Finset.univ
    exact (Finset.sum_congr rfl fun shard _ => hupdates shard).trans hsum.symm

end HotPath.Locks
