import HotPath.Foundation.Completion
import HotPath.Locks.GuardedRouteCache

/-!
# The trial of the route caches

`RunRouteCacheTrial` for a cache given by its steps. Every thread reads the cache, and writes to it
in every hundredth iteration. A read that does not match its checksum is recorded.

With `MutexRouteCache` or `SharedMutexRouteCache` every run of the trial ends, no read is torn, and
the cache is left with the last entry of some thread (`guarded_trial_completes`).
-/

namespace HotPath.Locks

open HotPath.Foundation

/-- The template argument. `returned` says whether a thread is outside of the calls, and which
entry it has read. -/
structure CacheType where
  State : Type
  initial : State
  step : State → CacheEvent → Option State
  returned : State → ThreadId → Option (Option RouteEntry)

/-- The arguments of the trial. -/
structure RouteTrialConfig where
  threads : Nat
  opsPerThread : Nat

/-- The cache, the loop variable of each thread, whether the thread has made its call, and the
flag. -/
structure RouteTrial (cacheType : CacheType) where
  cache : cacheType.State
  iteration : ThreadId → Nat
  called : ThreadId → Bool
  tornDetected : Bool

/-- A call, a step inside of it, or the rest of an iteration. -/
inductive RouteTrialEvent where
  | call (tid : ThreadId)
  | access (tid : ThreadId)
  | field (tid : ThreadId) (field : RouteField)
  | next (tid : ThreadId)

/-- The thread that takes the step. -/
def RouteTrialEvent.thread : RouteTrialEvent → ThreadId
  | .call tid | .access tid | .field tid _ | .next tid => tid

/-- The entry that a thread writes in an iteration. -/
def updatedEntry (tid i : Nat) : RouteEntry :=
  let ip : UInt64 := 0x0A000001 + (UInt64.ofNat i &&& 0xFF)
  let tms : UInt64 := 250 + (UInt64.ofNat tid &&& 7)
  let w : UInt64 := 100 + UInt64.ofNat i
  fun
    | .upstreamIp => ip
    | .timeoutMs => tms
    | .weight => w
    | .checksum => ip ^^^ tms ^^^ w

/-- The entry does not match its checksum. -/
def RouteEntry.torn (snap : RouteEntry) : Bool :=
  (snap .upstreamIp ^^^ snap .timeoutMs ^^^ snap .weight) != snap .checksum

/-- The call that a thread makes in an iteration. -/
def routeCall (tid i : Nat) : CacheEvent :=
  if i % 100 = 0 then .write tid (updatedEntry tid i) else .read tid

variable {cacheType : CacheType}

/-- A step inside of a call. -/
def RouteTrial.inside (trial : RouteTrial cacheType) (tid : ThreadId) (event : CacheEvent) :
    Option (RouteTrial cacheType) :=
  if trial.called tid then
    (cacheType.step trial.cache event).map fun cache => { trial with cache }
  else none

/-- One step. -/
def RouteTrial.step (cfg : RouteTrialConfig) (trial : RouteTrial cacheType) :
    RouteTrialEvent → Option (RouteTrial cacheType)
  | .call tid =>
      if tid < cfg.threads ∧ trial.called tid = false ∧
          trial.iteration tid ≤ cfg.opsPerThread then
        (cacheType.step trial.cache (routeCall tid (trial.iteration tid))).map fun cache =>
          { trial with cache, called := Function.update trial.called tid true }
      else none
  | .access tid => trial.inside tid (.access tid)
  | .field tid field => trial.inside tid (.field tid field)
  | .next tid =>
      if trial.called tid then
        (cacheType.returned trial.cache tid).map fun snap =>
          { trial with
            iteration := Function.update trial.iteration tid (trial.iteration tid + 1)
            called := Function.update trial.called tid false
            tornDetected := trial.tornDetected || (snap.any RouteEntry.torn) }
      else none

/-- The trial as a transition system. -/
def routeCacheTrial (cacheType : CacheType) (cfg : RouteTrialConfig) :
    System (RouteTrial cacheType) RouteTrialEvent where
  init trial := trial = ⟨cacheType.initial, fun _ => 1, fun _ => false, false⟩
  step := RouteTrial.step cfg

/-- All threads have returned. -/
def RouteTrial.finished (cfg : RouteTrialConfig) (trial : RouteTrial cacheType) : Prop :=
  ∀ tid < cfg.threads, trial.called tid = false ∧ cfg.opsPerThread < trial.iteration tid

/-- What a thread has returned with. -/
def GuardedPc.result : GuardedPc → Option (Option RouteEntry)
  | .idle => some none
  | .returned copy => some (some copy)
  | _ => none

/-- `MutexRouteCache` and `SharedMutexRouteCache` as template arguments. -/
def GuardedCache.type (cache : GuardedCache) : CacheType where
  State := GuardedState
  initial := {}
  step := cache.step
  returned state tid := (state.threads tid).result

/-- Every run ends, no loop variable overflows, no read is torn, and the cache is left with the last
entry of some thread. -/
structure GuardedTrialCompletes (cache : GuardedCache) (cfg : RouteTrialConfig) : Prop where
  counted : ∀ trial, (routeCacheTrial cache.type cfg).Reachable (fun _ _ => True) trial →
    ∀ tid, trial.iteration tid < 2 ^ 64
  ends : (routeCacheTrial cache.type cfg).Completes (fun _ _ => True) (RouteTrial.finished cfg)
  tearFree : ∀ trial, (routeCacheTrial cache.type cfg).Reachable (fun _ _ => True) trial →
    trial.tornDetected = false
  entry : ∀ trial : RouteTrial cache.type,
    (routeCacheTrial cache.type cfg).Reachable (fun _ _ => True) trial → trial.finished cfg →
      (cfg.threads = 0 ∨ cfg.opsPerThread < 100) ∧
          GuardedState.entry trial.cache = .initial ∨
        ∃ tid < cfg.threads, 100 ≤ cfg.opsPerThread ∧
          GuardedState.entry trial.cache = updatedEntry tid (cfg.opsPerThread / 100 * 100)

/-! ## The calls -/

/-- Where a thread is inside the call of an iteration. A read that has returned matches its
checksum. -/
inductive Doing (tid i : Nat) : GuardedPc → Prop where
  | writeLock (hwrite : i % 100 = 0) : Doing tid i (.writeLock (updatedEntry tid i))
  | writeFields (hwrite : i % 100 = 0) (stored) :
      Doing tid i (.writeFields (updatedEntry tid i) stored)
  | wrote (hwrite : i % 100 = 0) : Doing tid i .idle
  | readLock (hread : i % 100 ≠ 0) : Doing tid i .readLock
  | readFields (hread : i % 100 ≠ 0) (copied copy) : Doing tid i (.readFields copied copy)
  | read (hread : i % 100 ≠ 0) (copy) (hwhole : copy.torn = false) : Doing tid i (.returned copy)

/-- The writes that a thread has completed. -/
def completedWrites (i : Nat) (called : Bool) (pc : GuardedPc) : Nat :=
  match called, pc with
  | true, .idle => i / 100
  | _, _ => (i - 1) / 100

/-- The thread and the iteration of the last complete write give the entry. -/
def lastEntry : Option (ThreadId × Nat) → RouteEntry
  | none => .initial
  | some (tid, i) => updatedEntry tid i

/-- What holds of a thread. -/
structure CallingInv (cfg : RouteTrialConfig) (tid i : Nat) (called : Bool) (pc : GuardedPc) :
    Prop where
  begun : 1 ≤ i
  bound : i ≤ cfg.opsPerThread + 1
  idle : called = false → pc.ready = true
  doing : called = true → tid < cfg.threads ∧ i ≤ cfg.opsPerThread ∧ Doing tid i pc

/-- The last complete write is the last one of its thread. -/
def LastWrite (cfg : RouteTrialConfig) (writes : ThreadId → Nat) : Option (ThreadId × Nat) → Prop
  | none => ∀ tid, writes tid = 0
  | some (tid, i) => tid < cfg.threads ∧ 0 < writes tid ∧ i = writes tid * 100

/-- The writes that each thread has completed. -/
def RouteTrial.writes {cache : GuardedCache} (trial : RouteTrial cache.type) (tid : ThreadId) :
    Nat :=
  completedWrites (trial.iteration tid) (trial.called tid) (GuardedState.threads trial.cache tid)

/-- The invariant of the trial. -/
structure RouteTrialInv (cache : GuardedCache) (cfg : RouteTrialConfig)
    (last : Option (ThreadId × Nat)) (trial : RouteTrial cache.type) : Prop where
  guard : GuardInv cache (lastEntry last) trial.cache
  whole : trial.tornDetected = false
  calling : ∀ tid, CallingInv cfg tid (trial.iteration tid) (trial.called tid)
    (GuardedState.threads trial.cache tid)
  last : LastWrite cfg trial.writes last

/-! ## A step of the trial -/

/-- The work that a thread has left. -/
def RouteTrial.threadWork {cache : GuardedCache} (cfg : RouteTrialConfig)
    (trial : RouteTrial cache.type) (tid : ThreadId) : Nat :=
  if trial.called tid then
    (cfg.opsPerThread - trial.iteration tid) * 8 + 1 + (GuardedState.threads trial.cache tid).work
  else (cfg.opsPerThread + 1 - trial.iteration tid) * 8

/-- The work that is left. -/
def RouteTrial.work {cache : GuardedCache} (cfg : RouteTrialConfig)
    (trial : RouteTrial cache.type) : Nat :=
  ∑ tid : Fin cfg.threads, trial.threadWork cfg tid

theorem not_torn_last (last : Option (ThreadId × Nat)) : (lastEntry last).torn = false := by
  cases last with
  | none => decide
  | some write => exact bne_self_eq_false _

section Step

variable {cache : GuardedCache} {cfg : RouteTrialConfig} {last : Option (ThreadId × Nat)}
  {trial next : RouteTrial cache.type} {tid : ThreadId} {i : Nat} {pc pc' : GuardedPc}

/-- A thread that goes on inside its call. The end of a write makes it the last one. -/
theorem Doing.advance (h : Doing tid i pc) {last' : RouteEntry}
    (hadvance : Advance (lastEntry last) pc pc' last') : Doing tid i pc' ∧
      (last' = lastEntry last ∧ completedWrites i true pc' = completedWrites i true pc ∨
        last' = updatedEntry tid i ∧ i % 100 = 0 ∧ pc' = .idle) := by
  cases hadvance with
  | lockWrite => cases h with
    | writeLock hwrite => exact ⟨.writeFields hwrite _, .inl ⟨rfl, rfl⟩⟩
  | store => cases h with
    | writeFields hwrite => exact ⟨.writeFields hwrite _, .inl ⟨rfl, rfl⟩⟩
  | unlockWrite => cases h with
    | writeFields hwrite => exact ⟨.wrote hwrite, .inr ⟨rfl, hwrite, rfl⟩⟩
  | lockRead => cases h with
    | readLock hread => exact ⟨.readFields hread _ _, .inl ⟨rfl, rfl⟩⟩
  | copy => cases h with
    | readFields hread => exact ⟨.readFields hread _ _, .inl ⟨rfl, rfl⟩⟩
  | unlockRead => cases h with
    | readFields hread => exact ⟨.read hread _ (not_torn_last last), .inl ⟨rfl, rfl⟩⟩

/-- Only one thread has moved. -/
def RouteTrial.MovedOnly (trial next : RouteTrial cache.type) (tid : ThreadId) : Prop :=
  ∀ other, other ≠ tid → next.iteration other = trial.iteration other ∧
    next.called other = trial.called other ∧
    GuardedState.threads next.cache other = GuardedState.threads trial.cache other

/-- A thread of the trial that moves keeps the invariant, and leaves less work. -/
theorem RouteTrialInv.moves (h : RouteTrialInv cache cfg last trial)
    {last' : Option (ThreadId × Nat)} (htid : tid < cfg.threads) (honly : trial.MovedOnly next tid)
    (hguard : GuardInv cache (lastEntry last') next.cache) (hwhole : next.tornDetected = false)
    (hself : CallingInv cfg tid (next.iteration tid) (next.called tid)
      (GuardedState.threads next.cache tid))
    (hlast : last' = last ∧ next.writes tid = trial.writes tid ∨
      last' = some (tid, next.writes tid * 100) ∧ 0 < next.writes tid)
    (hwork : next.threadWork cfg tid < trial.threadWork cfg tid) :
    RouteTrialInv cache cfg last' next ∧ next.work cfg < trial.work cfg := by
  refine ⟨⟨hguard, hwhole, fun other => ?_, ?_⟩, ?_⟩
  · by_cases heq : other = tid
    · exact heq ▸ hself
    · obtain ⟨hiteration, hcalled, hthreads⟩ := honly other heq
      rw [hiteration, hcalled, hthreads]
      exact h.calling other
  · rcases hlast with ⟨rfl, hsame⟩ | ⟨rfl, hpos⟩
    · have hwrites : next.writes = trial.writes := by
        funext other
        by_cases heq : other = tid
        · rw [heq, hsame]
        · obtain ⟨hiteration, hcalled, hthreads⟩ := honly other heq
          rw [RouteTrial.writes, RouteTrial.writes, hiteration, hcalled, hthreads]
      exact hwrites ▸ h.last
    · exact ⟨htid, hpos, rfl⟩
  · refine Finset.sum_lt_sum (fun other _ => ?_) ⟨⟨tid, htid⟩, Finset.mem_univ _, hwork⟩
    by_cases heq : other.val = tid
    · rw [heq]
      exact Nat.le_of_lt hwork
    · obtain ⟨hiteration, hcalled, hthreads⟩ := honly other heq
      rw [RouteTrial.threadWork, RouteTrial.threadWork, hiteration, hcalled, hthreads]

/-- A step inside of a call. -/
theorem RouteTrialInv.inside (h : RouteTrialInv cache cfg last trial) {event : CacheEvent}
    (hstep : trial.inside tid event = some next)
    (hevent : ∀ state, cache.step trial.cache event = some state →
      ∃ pc last', Advances cache (lastEntry last) trial.cache state tid pc last') :
    ∃ last', RouteTrialInv cache cfg last' next ∧ next.work cfg < trial.work cfg := by
  obtain ⟨hcalled, hmap⟩ := Option.ite_none_right_eq_some.mp hstep
  obtain ⟨state, hstate, rfl⟩ := Option.map_eq_some_iff.mp hmap
  obtain ⟨pc, lastOne, hadvance, hthreads, hguard⟩ := hevent state hstate
  obtain ⟨htid, hle, hdoing⟩ := (h.calling tid).doing hcalled
  obtain ⟨hdoing', hlast⟩ := hdoing.advance hadvance
  have hself : state.threads tid = pc := by rw [hthreads, Function.update_self]
  have honly : trial.MovedOnly { trial with cache := state } tid := fun other hne =>
    ⟨rfl, rfl, by rw [hthreads, Function.update_of_ne hne]⟩
  have hcalling : CallingInv cfg tid (trial.iteration tid) (trial.called tid)
      (state.threads tid) :=
    ⟨(h.calling tid).begun, (h.calling tid).bound,
      fun hnot => (by rw [hcalled] at hnot; cases hnot),
      fun _ => ⟨htid, hle, hself ▸ hdoing'⟩⟩
  have hwork : RouteTrial.threadWork cfg { trial with cache := state } tid <
      trial.threadWork cfg tid := by
    have hless := hadvance.work_lt
    simp only [RouteTrial.threadWork, hcalled, if_true, hself]
    exact Nat.add_lt_add_left hless _
  rcases hlast with ⟨rfl, hsame⟩ | ⟨rfl, hwrite, rfl⟩
  · refine ⟨last, h.moves htid honly hguard h.whole hcalling (.inl ⟨rfl, ?_⟩) hwork⟩
    show completedWrites _ (trial.called tid) (state.threads tid) = completedWrites _ _ _
    rw [hcalled, hself, hsame]
  · have hbegun := (h.calling tid).begun
    have hwrites : RouteTrial.writes { trial with cache := state } tid =
        trial.iteration tid / 100 := by
      show completedWrites _ (trial.called tid) (state.threads tid) = _
      rw [hcalled, hself]
      rfl
    have hmultiple : trial.iteration tid / 100 * 100 = trial.iteration tid := by omega
    refine ⟨some (tid, trial.iteration tid), h.moves htid honly hguard h.whole hcalling
      (.inr ?_) hwork⟩
    rw [hwrites, hmultiple]
    exact ⟨rfl, by omega⟩

/-- What a call of a cache does. -/
theorem routeCall_step {state state' : GuardedState}
    (hstep : cache.step state (routeCall tid i) = some state') :
    ∃ pc, state' = state.goto tid pc ∧ Doing tid i pc ∧ pc.outside ∧ pc.work = 6 ∧
      completedWrites i true pc = (i - 1) / 100 := by
  unfold routeCall at hstep
  split at hstep
  · next hwrite =>
      obtain ⟨-, hnext⟩ := Option.ite_none_right_eq_some.mp hstep
      exact ⟨_, (Option.some.inj hnext).symm, .writeLock hwrite, trivial, rfl, rfl⟩
  · next hread =>
      obtain ⟨-, hnext⟩ := Option.ite_none_right_eq_some.mp hstep
      exact ⟨_, (Option.some.inj hnext).symm, .readLock hread, trivial, rfl, rfl⟩

theorem GuardedPc.outside_of_ready (h : pc.ready = true) : pc.outside := by
  cases pc <;> simp_all [ready, outside]

/-- A thread calls the cache. -/
theorem RouteTrialInv.call (h : RouteTrialInv cache cfg last trial)
    (hstep : RouteTrial.step cfg trial (.call tid) = some next) :
    RouteTrialInv cache cfg last next ∧ next.work cfg < trial.work cfg := by
  obtain ⟨⟨htid, hcalled, hle⟩, hmap⟩ := Option.ite_none_right_eq_some.mp hstep
  obtain ⟨state, hstate, rfl⟩ := Option.map_eq_some_iff.mp hmap
  have hready := (h.calling tid).idle hcalled
  obtain ⟨pc, rfl, hdoing, houtside, hwork, hwrites⟩ := routeCall_step hstate
  have hself : (GuardedState.goto trial.cache tid pc).threads tid = pc := Function.update_self ..
  have htrue : Function.update trial.called tid true tid = true := Function.update_self ..
  refine h.moves htid (fun other hne => ⟨rfl, Function.update_of_ne hne _ _,
    Function.update_of_ne hne _ _⟩) (h.guard.goto (GuardedPc.outside_of_ready hready) houtside)
    h.whole ?_ (.inl ⟨rfl, ?_⟩) ?_
  · dsimp only
    rw [htrue, hself]
    exact ⟨(h.calling tid).begun, (h.calling tid).bound, nofun, fun _ => ⟨htid, hle, hdoing⟩⟩
  · show completedWrites _ (Function.update trial.called tid true tid)
      ((GuardedState.goto trial.cache tid pc).threads tid) =
        completedWrites _ (trial.called tid) (GuardedState.threads trial.cache tid)
    rw [htrue, hself, hwrites, hcalled]
    rfl
  · simp only [RouteTrial.threadWork, htrue, hself, hcalled, hwork, if_true, Bool.false_eq_true,
      if_false]
    omega

/-- A thread goes on to its next iteration. -/
theorem RouteTrialInv.goesOn (h : RouteTrialInv cache cfg last trial)
    (hstep : RouteTrial.step cfg trial (.next tid) = some next) :
    RouteTrialInv cache cfg last next ∧ next.work cfg < trial.work cfg := by
  obtain ⟨hcalled, hmap⟩ := Option.ite_none_right_eq_some.mp hstep
  obtain ⟨snap, hsnap, rfl⟩ := Option.map_eq_some_iff.mp hmap
  obtain ⟨htid, hle, hdoing⟩ := (h.calling tid).doing hcalled
  have hbegun := (h.calling tid).begun
  have hfalse : Function.update trial.called tid false tid = false := Function.update_self ..
  have hsucc : Function.update trial.iteration tid (trial.iteration tid + 1) tid =
      trial.iteration tid + 1 := Function.update_self ..
  have hresult : (GuardedState.threads trial.cache tid).result = some snap := hsnap
  have hdone : (GuardedState.threads trial.cache tid).ready = true ∧
      snap.any RouteEntry.torn = false ∧ completedWrites (trial.iteration tid) true
        (GuardedState.threads trial.cache tid) = trial.iteration tid / 100 := by
    generalize GuardedState.threads trial.cache tid = pc at hdoing hresult
    cases hdoing with
    | wrote hwrite =>
        obtain rfl := Option.some.inj hresult
        exact ⟨rfl, rfl, rfl⟩
    | read hread copy hwhole =>
        obtain rfl := Option.some.inj hresult
        refine ⟨rfl, hwhole, ?_⟩
        show (trial.iteration tid - 1) / 100 = trial.iteration tid / 100
        omega
    | _ => cases hresult
  obtain ⟨hready, hwhole, hwrites⟩ := hdone
  refine h.moves htid (fun other hne => ⟨Function.update_of_ne hne _ _,
    Function.update_of_ne hne _ _, rfl⟩) h.guard ?_ ?_ (.inl ⟨rfl, ?_⟩) ?_
  · show (trial.tornDetected || snap.any RouteEntry.torn) = false
    rw [h.whole, hwhole]
    rfl
  · dsimp only
    rw [hfalse, hsucc]
    exact ⟨Nat.le_add_left 1 _, Nat.add_le_add_right hle 1, fun _ => hready, nofun⟩
  · show completedWrites (Function.update trial.iteration tid (trial.iteration tid + 1) tid)
      (Function.update trial.called tid false tid) _ = completedWrites _ (trial.called tid) _
    rw [hfalse, hsucc, hcalled, hwrites]
    rfl
  · simp only [RouteTrial.threadWork, hfalse, hsucc, hcalled, if_true, Bool.false_eq_true,
      if_false]
    omega

/-- Every step keeps the invariant, and leaves less work. -/
theorem RouteTrialInv.step (h : RouteTrialInv cache cfg last trial) {event : RouteTrialEvent}
    (hstep : RouteTrial.step cfg trial event = some next) :
    ∃ last', RouteTrialInv cache cfg last' next ∧ next.work cfg < trial.work cfg := by
  cases event with
  | call tid => exact ⟨last, h.call hstep⟩
  | access tid => exact h.inside hstep fun _ haccess => h.guard.access haccess
  | field tid field => exact h.inside hstep fun _ hfield => h.guard.field hfield
  | next tid => exact ⟨last, h.goesOn hstep⟩

theorem RouteTrialInv.init (h : (routeCacheTrial cache.type cfg).init trial) :
    RouteTrialInv cache cfg none trial := by
  obtain rfl : trial = _ := h
  refine ⟨.init cache, rfl, fun tid => ⟨Nat.le_refl 1, Nat.le_add_left 1 _, fun _ => rfl, nofun⟩,
    fun tid => ?_⟩
  show completedWrites 1 false _ = 0
  rfl

theorem routeTrialInv_of_reachable
    (h : (routeCacheTrial cache.type cfg).Reachable (fun _ _ => True) trial) :
    ∃ last, RouteTrialInv cache cfg last trial := by
  refine h.invariant (fun trial => ∃ last, RouteTrialInv cache cfg last trial) ?_ ?_
  · intro trial hinit
    exact ⟨none, .init hinit⟩
  · intro trial event next hinv _ hstep
    obtain ⟨last, h⟩ := hinv
    obtain ⟨last', hnext, -⟩ := h.step hstep
    exact ⟨last', hnext⟩

/-! ## The end of the trial -/

/-- As long as not all threads have returned, one of them can go on. -/
theorem RouteTrialInv.can_move (h : RouteTrialInv cache cfg last trial)
    (hnot : ¬ trial.finished cfg) : ∃ event, (RouteTrial.step cfg trial event).isSome := by
  have hinside : ∀ tid event, trial.called tid = true →
      (cache.step trial.cache event).isSome → (trial.inside tid event).isSome := by
    intro tid event hcalled hsome
    rw [RouteTrial.inside, if_pos hcalled, Option.isSome_map]
    exact hsome
  by_cases hout : ∀ tid, (GuardedState.threads trial.cache tid).outside
  · -- No thread is inside, so any thread that has not returned can go on.
    obtain ⟨tid, hrest⟩ := not_forall.mp hnot
    obtain ⟨htid, hleft⟩ := Classical.not_imp.mp hrest
    cases hcalled : trial.called tid with
    | false =>
        have hready := (h.calling tid).idle hcalled
        have hle : trial.iteration tid ≤ cfg.opsPerThread := by
          by_contra hover
          exact hleft ⟨hcalled, Nat.lt_of_not_le hover⟩
        refine ⟨.call tid, ?_⟩
        rw [RouteTrial.step, if_pos ⟨htid, hcalled, hle⟩, Option.isSome_map]
        show (cache.step trial.cache (routeCall tid (trial.iteration tid))).isSome
        unfold routeCall
        split <;> simp [GuardedCache.step, hready]
    | true =>
        obtain ⟨-, -, hdoing⟩ := (h.calling tid).doing hcalled
        have houtside := hout tid
        have hwait : (GuardedState.threads trial.cache tid).waits →
            (RouteTrial.step cfg trial (.access tid)).isSome := fun hwaits =>
          hinside tid _ hcalled (h.guard.can_enter hwaits hout)
        have hdone : (GuardedState.threads trial.cache tid).result.isSome →
            (RouteTrial.step cfg trial (.next tid)).isSome := by
          intro hsome
          rw [RouteTrial.step, if_pos hcalled, Option.isSome_map]
          exact hsome
        generalize GuardedState.threads trial.cache tid = pc at *
        cases hdoing with
        | writeLock | readLock => exact ⟨_, hwait trivial⟩
        | wrote | read => exact ⟨_, hdone rfl⟩
        | writeFields | readFields => exact houtside.elim
  · -- A thread inside can always go on.
    obtain ⟨tid, hin⟩ := not_forall.mp hout
    have hcalled : trial.called tid = true := by
      cases hcalled : trial.called tid with
      | true => rfl
      | false => exact absurd (GuardedPc.outside_of_ready ((h.calling tid).idle hcalled)) hin
    rcases can_go_on cache hin with haccess | ⟨field, hfield⟩
    · exact ⟨.access tid, hinside tid _ hcalled haccess⟩
    · exact ⟨.field tid field, hinside tid _ hcalled hfield⟩

/-- When all threads have returned, the entry is what the last write left. -/
theorem RouteTrialInv.final (h : RouteTrialInv cache cfg last trial)
    (hfinished : trial.finished cfg) :
    GuardedState.entry trial.cache = lastEntry last ∧
      ∀ tid < cfg.threads, trial.writes tid = cfg.opsPerThread / 100 := by
  refine ⟨h.guard.settled fun tid next stored hpc => ?_, fun tid htid => ?_⟩
  · cases hcalled : trial.called tid with
    | false =>
        have hready := (h.calling tid).idle hcalled
        rw [hpc] at hready
        cases hready
    | true =>
        have htid := ((h.calling tid).doing hcalled).1
        rw [(hfinished tid htid).1] at hcalled
        cases hcalled
  · obtain ⟨hcalled, hover⟩ := hfinished tid htid
    have hbound := (h.calling tid).bound
    have hlast : trial.iteration tid = cfg.opsPerThread + 1 := by omega
    rw [RouteTrial.writes, hcalled, hlast]
    rfl

end Step

/-- The trials of `MutexRouteCache` and `SharedMutexRouteCache` end with no read torn. For the
largest `std::size_t` as the number of operations the loop variable would wrap around. -/
theorem guarded_trial_completes (cache : GuardedCache) (cfg : RouteTrialConfig)
    (hops : cfg.opsPerThread < 2 ^ 64 - 1) : GuardedTrialCompletes cache cfg := by
  refine ⟨fun trial hreach tid => ?_, .of_work (RouteTrial.work cfg) ?_ ?_, fun trial hreach => ?_,
    fun trial hreach hfinished => ?_⟩
  · obtain ⟨last, h⟩ := routeTrialInv_of_reachable hreach
    have hbound := (h.calling tid).bound
    omega
  · intro trial event next hreach _ hstep
    obtain ⟨last, h⟩ := routeTrialInv_of_reachable hreach
    obtain ⟨-, -, hless⟩ := h.step hstep
    exact .inr hless
  · intro trial hreach hnot
    obtain ⟨last, h⟩ := routeTrialInv_of_reachable hreach
    obtain ⟨event, hsome⟩ := h.can_move hnot
    obtain ⟨next, hnext⟩ := Option.isSome_iff_exists.mp hsome
    obtain ⟨-, -, hless⟩ := h.step hnext
    exact ⟨event, next, trivial, hnext, hless⟩
  · obtain ⟨last, h⟩ := routeTrialInv_of_reachable hreach
    exact h.whole
  · obtain ⟨last, h⟩ := routeTrialInv_of_reachable hreach
    obtain ⟨hentry, hwrites⟩ := h.final hfinished
    have hlast := h.last
    cases last with
    | none =>
        refine .inl ⟨?_, hentry⟩
        by_cases hthreads : cfg.threads = 0
        · exact .inl hthreads
        · have hzero := hlast 0
          rw [hwrites 0 (Nat.pos_of_ne_zero hthreads)] at hzero
          exact .inr (by omega)
    | some write =>
        obtain ⟨tid, i⟩ := write
        obtain ⟨htid, hpos, hi⟩ := hlast
        rw [hwrites tid htid] at hpos hi
        refine .inr ⟨tid, htid, by omega, ?_⟩
        rw [hentry, lastEntry, hi]

/-- The trials of the challenge, with 16 threads and 50000 iterations. -/
theorem guarded_trial_completes_challenge :
    GuardedTrialCompletes .mutex ⟨16, 50000⟩ ∧ GuardedTrialCompletes .sharedMutex ⟨16, 50000⟩ :=
  ⟨guarded_trial_completes .mutex ⟨16, 50000⟩ (by decide),
    guarded_trial_completes .sharedMutex ⟨16, 50000⟩ (by decide)⟩

end HotPath.Locks
