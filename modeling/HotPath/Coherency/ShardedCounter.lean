import HotPath.Foundation.ShardedSums

/-!
# The sharded counter

`ShardedCounter` with any power of two of shards and any number of threads, which call `Increment`
and `ReadTotal`. A `fetch_add` and each load of `ReadTotal` are atomic accesses, and between them
other threads may run. `counter_consistent` says what the totals are worth, as long as the sum of
the increments fits in a word.
-/

namespace HotPath.Coherency

open HotPath.Foundation

/-- Where a thread is: before and after the `fetch_add` of `Increment`, or in the loop of
`ReadTotal`. -/
inductive CounterPc where
  | idle
  | increment (workerId delta : UInt64)
  | incremented (delta : UInt64)
  | readTotal (next : Nat) (sum : UInt64)
deriving DecidableEq

/-- The shards of a `ShardedCounter`, and its threads. -/
structure ShardedCounter (bits threadCount : Nat) where
  shards : Fin (2 ^ bits) → UInt64 := fun _ => 0
  threads : Fin threadCount → CounterPc := fun _ => .idle

/-- A call, the next access of a thread, or its return. -/
inductive CounterEvent (threadCount : Nat) where
  | increment (thread : Fin threadCount) (workerId delta : UInt64)
  | readTotal (thread : Fin threadCount)
  | access (thread : Fin threadCount)
  | ret (thread : Fin threadCount)

variable {bits threadCount : Nat}

/-- A thread goes to another place. -/
def ShardedCounter.goto (state : ShardedCounter bits threadCount) (thread : Fin threadCount)
    (pc : CounterPc) : ShardedCounter bits threadCount :=
  { state with threads := Function.update state.threads thread pc }

/-- `ReadTotal`, when no other thread runs. -/
def ShardedCounter.readTotal (state : ShardedCounter bits threadCount) : UInt64 :=
  (List.ofFn state.shards).foldl (· + ·) 0

/-- The next access of a thread. -/
def ShardedCounter.access (state : ShardedCounter bits threadCount) (thread : Fin threadCount) :
    Option (ShardedCounter bits threadCount) :=
  match state.threads thread with
  | .increment workerId delta =>
      let shard := maskedIndex bits workerId
      some { state.goto thread (.incremented delta) with
        shards := Function.update state.shards shard (state.shards shard + delta) }
  | .readTotal next sum =>
      if h : next < 2 ^ bits then
        some (state.goto thread (.readTotal (next + 1) (sum + state.shards ⟨next, h⟩)))
      else none
  | _ => none

/-- One step. -/
def ShardedCounter.step (state : ShardedCounter bits threadCount) :
    CounterEvent threadCount → Option (ShardedCounter bits threadCount)
  | .increment thread workerId delta =>
      match state.threads thread with
      | .idle => some (state.goto thread (.increment workerId delta))
      | _ => none
  | .readTotal thread =>
      match state.threads thread with
      | .idle => some (state.goto thread (.readTotal 0 0))
      | _ => none
  | .access thread => state.access thread
  | .ret thread =>
      match state.threads thread with
      | .incremented _ => some (state.goto thread .idle)
      | .readTotal next _ => if next < 2 ^ bits then none else some (state.goto thread .idle)
      | _ => none

/-- The counter as a transition system. -/
def shardedCounter (bits threadCount : Nat) :
    System (ShardedCounter bits threadCount) (CounterEvent threadCount) where
  init state := state = {}
  step := ShardedCounter.step

/-- The recorder of the increments and the totals. -/
def counterTally (bits threadCount : Nat) :
    Recorder (ShardedCounter bits threadCount) (CounterEvent threadCount)
      (Tally (Fin threadCount)) where
  start _ := {}
  observe state event _ tally :=
    match event with
    | .increment _ _ delta => tally.start delta.toNat
    | .readTotal thread => tally.beginReading thread
    | .access _ => tally
    | .ret thread =>
        match state.threads thread with
        | .incremented delta => tally.finish delta.toNat
        | .readTotal _ sum => tally.endReading thread sum.toNat
        | _ => tally

/-- The sum of all increments fits in a word. -/
def NoOverflow (pair : ShardedCounter bits threadCount × Tally (Fin threadCount)) :
    CounterEvent threadCount → Prop
  | .increment _ _ delta => pair.2.started + delta.toNat < 2 ^ 64
  | _ => True

/-! ## The abstract sum -/

/-- What a thread does, as an addition or a reading. -/
def CounterPc.phase (bits : Nat) : CounterPc → Phase (2 ^ bits)
  | .idle => .idle
  | .increment workerId delta => .adding (maskedIndex bits workerId) delta.toNat
  | .incremented delta => .added delta.toNat
  | .readTotal next sum => .reading next sum.toNat

/-- The counter as a sum over shards. -/
def counterView (pair : ShardedCounter bits threadCount × Tally (Fin threadCount)) :
    Sharded (Fin threadCount) (2 ^ bits) where
  count shard := (pair.1.shards shard).toNat
  phase thread := (pair.1.threads thread).phase bits
  tally := pair.2

variable {state next : ShardedCounter bits threadCount} {tally : Tally (Fin threadCount)}
  {thread : Fin threadCount}

theorem counterView_goto (state : ShardedCounter bits threadCount) (tally : Tally (Fin threadCount))
    (thread : Fin threadCount) (pc : CounterPc) :
    counterView (state.goto thread pc, tally) =
      (counterView (state, tally)).goto thread (pc.phase bits) := by
  simp only [counterView, ShardedCounter.goto, Sharded.goto, Sharded.mk.injEq, true_and, and_true]
  exact Function.comp_update (CounterPc.phase bits) state.threads thread pc

/-- A `fetch_add` that does not wrap around adds to the shard. -/
theorem counterView_fetchAdd (state : ShardedCounter bits threadCount)
    (tally : Tally (Fin threadCount)) {shard : Fin (2 ^ bits)} {delta : UInt64}
    (h : (state.shards shard).toNat + delta.toNat < 2 ^ 64) :
    counterView
        ({ state with shards := Function.update state.shards shard (state.shards shard + delta) },
          tally) =
      { counterView (state, tally) with
        count := Function.update (counterView (state, tally)).count shard
          ((state.shards shard).toNat + delta.toNat) } := by
  have hsum : (state.shards shard + delta).toNat = (state.shards shard).toNat + delta.toNat := by
    rw [UInt64.toNat_add, Nat.mod_eq_of_lt h]
  rw [← hsum]
  simp only [counterView, Sharded.mk.injEq, and_true]
  exact Function.comp_update UInt64.toNat state.shards shard _

/-- A call or a return changes the place of a thread and what is recorded. -/
theorem counterView_record (state : ShardedCounter bits threadCount)
    (tally tally' : Tally (Fin threadCount)) (thread : Fin threadCount) (pc : CounterPc) :
    { (counterView (state, tally)).goto thread (pc.phase bits) with tally := tally' } =
      counterView (state.goto thread pc, tally') := by
  rw [← counterView_goto]
  rfl

theorem counterView_phase (tally : Tally (Fin threadCount)) {pc : CounterPc}
    (h : state.threads thread = pc) :
    (counterView (state, tally)).phase thread = pc.phase bits := by
  rw [← h]
  rfl

/-- The access of a thread adds to a shard or visits one. -/
theorem counter_access_simulated (hinv : ShardedInv (counterView (state, tally)))
    (hroom : tally.started < 2 ^ 64) (hstep : state.access thread = some next) :
    ∃ move, (counterView (state, tally)).step move = some (counterView (next, tally)) := by
  unfold ShardedCounter.access at hstep
  split at hstep
  · next workerId delta hpc =>
      obtain rfl := Option.some.inj hstep
      have hphase := counterView_phase tally hpc
      refine ⟨.apply thread, ?_⟩
      simp only [Sharded.step, hphase, CounterPc.phase, Option.some.injEq]
      have hfits := Nat.lt_of_le_of_lt (hinv.adding_le hphase) hroom
      have hadd := counterView_fetchAdd (state.goto thread (.incremented delta)) tally hfits
      rw [counterView_goto] at hadd
      exact hadd.symm
  · next index sum hpc =>
      have hphase := counterView_phase tally hpc
      split at hstep
      · next hindex =>
          obtain rfl := Option.some.inj hstep
          refine ⟨.visit thread, ?_⟩
          simp only [Sharded.step, hphase, CounterPc.phase, hindex, dite_true, Option.some.injEq]
          have hfits := Nat.lt_of_le_of_lt (hinv.visit_le hphase hindex) hroom
          have hsum : (sum + state.shards ⟨index, hindex⟩).toNat =
              sum.toNat + (state.shards ⟨index, hindex⟩).toNat := by
            rw [UInt64.toNat_add]
            exact Nat.mod_eq_of_lt hfits
          rw [counterView_goto, CounterPc.phase, hsum]
          rfl
      · cases hstep
  · cases hstep

/-- Every step is one of the abstract sum. -/
theorem counter_step_simulated {event : CounterEvent threadCount}
    (hinv : ShardedInv (counterView (state, tally))) (hroom : tally.started < 2 ^ 64)
    (hstep : state.step event = some next) :
    ∃ move, (counterView (state, tally)).step move = some (counterView
      (next, (counterTally bits threadCount).observe state event next tally)) := by
  cases event with
  | increment thread workerId delta =>
      simp only [ShardedCounter.step] at hstep
      split at hstep
      · next hpc =>
          obtain rfl := Option.some.inj hstep
          refine ⟨.add thread (maskedIndex bits workerId) delta.toNat, ?_⟩
          simp only [Sharded.step, counterView_phase tally hpc, CounterPc.phase]
          exact congrArg some
            (counterView_record state tally _ thread (.increment workerId delta))
      · cases hstep
  | readTotal thread =>
      simp only [ShardedCounter.step] at hstep
      split at hstep
      · next hpc =>
          obtain rfl := Option.some.inj hstep
          refine ⟨.read thread, ?_⟩
          simp only [Sharded.step, counterView_phase tally hpc, CounterPc.phase]
          exact congrArg some (counterView_record state tally _ thread (.readTotal 0 0))
      · cases hstep
  | access thread => exact counter_access_simulated hinv hroom hstep
  | ret thread =>
      simp only [ShardedCounter.step] at hstep
      split at hstep
      · next delta hpc =>
          obtain rfl := Option.some.inj hstep
          refine ⟨.finish thread, ?_⟩
          simp only [Sharded.step, counterView_phase tally hpc, CounterPc.phase, counterTally, hpc]
          exact congrArg some (counterView_record state tally _ thread .idle)
      · next index sum hpc =>
          split at hstep
          · cases hstep
          · next hend =>
              obtain rfl := Option.some.inj hstep
              refine ⟨.total thread, ?_⟩
              simp only [Sharded.step, counterView_phase tally hpc, CounterPc.phase, hend, if_false,
                counterTally, hpc]
              exact congrArg some (counterView_record state tally _ thread .idle)
      · cases hstep

/-! ## Every interleaving -/

/-- The runs in which the sum of the increments fits in a word. -/
def CounterReachable (bits threadCount : Nat) :
    ShardedCounter bits threadCount × Tally (Fin threadCount) → Prop :=
  ((shardedCounter bits threadCount).withHistory (counterTally bits threadCount)).Reachable
    NoOverflow

theorem started_lt {pair : ShardedCounter bits threadCount × Tally (Fin threadCount)}
    (h : CounterReachable bits threadCount pair) : pair.2.started < 2 ^ 64 := by
  refine h.invariant (fun pair => pair.2.started < 2 ^ 64) (fun pair hinit => ?_)
    fun pair event next hlt hallow hstep => ?_
  · rw [hinit.2]
    exact Nat.two_pow_pos 64
  · obtain ⟨-, hnext⟩ := System.withHistory_step.mp hstep
    rw [hnext]
    cases event with
    | increment thread workerId delta => exact hallow
    | readTotal thread => exact hlt
    | access thread => exact hlt
    | ret thread =>
        simp only [counterTally]
        split <;> exact hlt

/-- The counter is a sum over shards. -/
theorem counter_simulates {pair : ShardedCounter bits threadCount × Tally (Fin threadCount)}
    (h : CounterReachable bits threadCount pair) :
    (shardedSums (Fin threadCount) (2 ^ bits)).Reachable (fun _ _ => True) (counterView pair) := by
  refine h.simulate counterView (fun pair hinit => ?_)
    fun pair event next hreach hview _ hstep => ?_
  · obtain ⟨state, tally⟩ := pair
    obtain ⟨hstate, htally⟩ := hinit
    change state = {} at hstate
    change tally = {} at htally
    subst hstate htally
    rfl
  · obtain ⟨hnext, htally⟩ := System.withHistory_step.mp hstep
    obtain ⟨move, hmove⟩ := counter_step_simulated (shardedInv_of_reachable hview)
      (started_lt hreach) hnext
    refine .inr ⟨move, trivial, ?_⟩
    rw [← htally] at hmove
    exact hmove

/-- No thread is inside `Increment`. -/
def ShardedCounter.Quiet (state : ShardedCounter bits threadCount) : Prop :=
  ∀ thread, state.threads thread = .idle ∨
    ∃ next sum, state.threads thread = .readTotal next sum

/-- The totals of `ReadTotal` lie between the increments that had returned when it was called and
those that had been called when it returned, and those of one thread never decrease. While no
thread is inside `Increment`, every increment has returned and the total is their sum. -/
theorem counter_consistent (h : CounterReachable bits threadCount (state, tally)) :
    tally.Consistent ∧ (state.Quiet → tally.finished = tally.started ∧
      state.readTotal.toNat = tally.started) := by
  have hinv := shardedInv_of_reachable (counter_simulates h)
  refine ⟨hinv.consistent, fun hquiet => ?_⟩
  obtain ⟨hfinished, hsum⟩ := hinv.quiet fun thread => by
    obtain hidle | ⟨next, sum, hreading⟩ := hquiet thread
    · rw [counterView_phase tally hidle]
      exact ⟨rfl, rfl⟩
    · rw [counterView_phase tally hreading]
      exact ⟨rfl, rfl⟩
  change ∑ shard, (state.shards shard).toNat = tally.started at hsum
  have hfits : ∑ shard, (state.shards shard).toNat < 2 ^ 64 := hsum ▸ started_lt h
  exact ⟨hfinished, (toNat_foldl_add hfits).trans hsum⟩

/-- A total need not be one that the shards ever had: an increment of 1 is missed and a later one of
2 is seen. -/
example :
    (((shardedCounter 1 2).withHistory (counterTally 1 2)).replay (fun _ _ => True) ({}, {})
      [.readTotal 0, .access 0, .increment 1 0 1, .access 1, .ret 1, .increment 1 1 2, .access 1,
        .ret 1, .access 0, .ret 0]).map (fun pair => pair.2.readings) =
      some [⟨0, 0, 2, 3⟩] := by decide

end HotPath.Coherency
