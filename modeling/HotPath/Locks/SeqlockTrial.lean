import HotPath.Locks.RouteCacheTrial

/-!
# The trial of the sequence number

`RunRouteCacheTrial` with `SeqlockRouteCache`, whose writers do not exclude each other. Two writes
that overlap can leave the number odd when both are over. From then on every `Read` waits for a
write to end, and every thread that is to read before it writes waits forever: with two threads and
more than a hundred iterations the trial may never end (`seqlock_trial_hangs`).
-/

namespace HotPath.Locks

open HotPath.Foundation

/-- What a thread has returned with. -/
def CachePc.result : CachePc → Option (Option RouteEntry)
  | .idle => some none
  | .returned copy => some (some copy)
  | _ => none

/-- `SeqlockRouteCache` as the template argument. -/
def seqlockType : CacheType where
  State := CacheState
  initial := {}
  step := cacheStep
  returned state tid := (state.threads tid).result

/-- One state of the trial comes after another. -/
def Later (cfg : RouteTrialConfig) : RouteTrial seqlockType → RouteTrial seqlockType → Prop :=
  Relation.ReflTransGen fun trial next => ∃ event, RouteTrial.step cfg trial event = some next

/-! ## Waiting forever -/

/-- The number is odd, and every thread is to read or waits in `Read`. -/
structure Hung (cfg : RouteTrialConfig) (trial : RouteTrial seqlockType) : Prop where
  odd : CacheState.seq trial.cache &&& 1 ≠ 0
  reads : ∀ tid, trial.iteration tid % 100 ≠ 0 ∧ trial.iteration tid ≤ cfg.opsPerThread
  ready : ∀ tid, trial.called tid = false → (CacheState.threads trial.cache tid).ready = true
  waits : ∀ tid, trial.called tid = true →
    ∃ copy, CacheState.threads trial.cache tid = .readLoad 0 copy

/-- Every thread of the trial has a step. -/
def NoneBlocked (cfg : RouteTrialConfig) (trial : RouteTrial seqlockType) : Prop :=
  ∀ tid < cfg.threads, ∃ event : RouteTrialEvent,
    event.thread = tid ∧ (RouteTrial.step cfg trial event).isSome

section Steps

variable {cfg : RouteTrialConfig} {trial next : RouteTrial seqlockType} {tid : ThreadId}

/-- A thread that looks at an odd number looks again. -/
theorem Hung.look (h : Hung cfg trial) (hcalled : trial.called tid = true) {state : CacheState}
    (hstep : cacheAccess trial.cache tid = some state) : state = trial.cache := by
  obtain ⟨copy, hpc⟩ := h.waits tid hcalled
  have hodd := h.odd
  have hne : CacheState.seq trial.cache ≠ 0 := by
    intro hzero
    rw [hzero] at hodd
    exact hodd (by decide)
  simp only [cacheAccess, hpc, if_pos hodd, if_pos hne] at hstep
  obtain rfl := Option.some.inj hstep
  simp only [CacheState.goto, ← hpc, Function.update_eq_self]
  rfl

/-- No step ends the waiting, and no thread completes an iteration. -/
theorem Hung.step (h : Hung cfg trial) {event : RouteTrialEvent}
    (hstep : RouteTrial.step cfg trial event = some next) :
    Hung cfg next ∧ next.iteration = trial.iteration := by
  cases event with
  | call tid =>
      obtain ⟨-, hmap⟩ := Option.ite_none_right_eq_some.mp hstep
      obtain ⟨state, hstate, rfl⟩ := Option.map_eq_some_iff.mp hmap
      rw [routeCall, if_neg (h.reads tid).1] at hstate
      obtain ⟨-, hread⟩ := Option.ite_none_right_eq_some.mp hstate
      obtain rfl := Option.some.inj hread
      refine ⟨⟨h.odd, h.reads, fun other hother => ?_, fun other hother => ?_⟩, rfl⟩
      · by_cases heq : other = tid
        · simp [heq] at hother
        · dsimp only at hother
          rw [Function.update_of_ne heq] at hother
          exact (congrArg CachePc.ready (Function.update_of_ne heq _ _)).trans
            (h.ready other hother)
      · by_cases heq : other = tid
        · subst heq
          exact ⟨.initial, Function.update_self ..⟩
        · dsimp only at hother
          rw [Function.update_of_ne heq] at hother
          obtain ⟨copy, hpc⟩ := h.waits other hother
          exact ⟨copy, (Function.update_of_ne heq _ _).trans hpc⟩
  | access tid =>
      obtain ⟨hcalled, hmap⟩ := Option.ite_none_right_eq_some.mp hstep
      obtain ⟨state, hstate, rfl⟩ := Option.map_eq_some_iff.mp hmap
      obtain rfl := h.look hcalled hstate
      exact ⟨h, rfl⟩
  | field tid field =>
      obtain ⟨hcalled, hmap⟩ := Option.ite_none_right_eq_some.mp hstep
      obtain ⟨state, hstate, rfl⟩ := Option.map_eq_some_iff.mp hmap
      obtain ⟨copy, hpc⟩ := h.waits tid hcalled
      have hfield : cacheField trial.cache tid field = some state := hstate
      simp [cacheField, hpc] at hfield
  | next tid =>
      obtain ⟨hcalled, hmap⟩ := Option.ite_none_right_eq_some.mp hstep
      obtain ⟨snap, hsnap, rfl⟩ := Option.map_eq_some_iff.mp hmap
      obtain ⟨copy, hpc⟩ := h.waits tid hcalled
      have hresult : (CacheState.threads trial.cache tid).result = some snap := hsnap
      rw [hpc] at hresult
      cases hresult

/-- A thread that waits can look again. -/
theorem Hung.none_blocked (h : Hung cfg trial) : NoneBlocked cfg trial := by
  intro tid htid
  cases hcalled : trial.called tid with
  | false =>
      refine ⟨.call tid, rfl, ?_⟩
      rw [RouteTrial.step, if_pos ⟨htid, hcalled, (h.reads tid).2⟩, Option.isSome_map, routeCall,
        if_neg (h.reads tid).1]
      have hready := h.ready tid hcalled
      simp [seqlockType, cacheStep, hready]
  | true =>
      refine ⟨.access tid, rfl, ?_⟩
      obtain ⟨copy, hpc⟩ := h.waits tid hcalled
      have hodd := h.odd
      rw [RouteTrial.step, RouteTrial.inside, if_pos hcalled, Option.isSome_map]
      simp [seqlockType, cacheStep, cacheAccess, hpc, hodd]

/-- The waiting never ends. -/
theorem Hung.later (h : Hung cfg trial) (hlater : Later cfg trial next) :
    Hung cfg next ∧ next.iteration = trial.iteration := by
  induction hlater with
  | refl => exact ⟨h, rfl⟩
  | tail _ hstep ih =>
      obtain ⟨event, hstep⟩ := hstep
      obtain ⟨hnext, hsame⟩ := ih.1.step hstep
      exact ⟨hnext, hsame.trans ih.2⟩

end Steps

/-! ## Two writers that overlap -/

/-- What two threads and all the others have. -/
def duo {α : Type} (first second rest : α) (tid : ThreadId) : α :=
  if tid = 0 then first else if tid = 1 then second else rest

section Duo

variable {α : Type} {first second rest value : α}

@[simp] theorem duo_zero : duo first second rest 0 = first := rfl

@[simp] theorem duo_one : duo first second rest 1 = second := rfl

@[simp] theorem update_duo_zero :
    Function.update (duo first second rest) 0 value = duo value second rest := by
  funext tid
  by_cases h : tid = 0 <;> simp [duo, h]

@[simp] theorem update_duo_one :
    Function.update (duo first second rest) 1 value = duo first value rest := by
  funext tid
  by_cases h : tid = 1
  · simp [duo, h]
  · simp [duo, h]

end Duo

/-- The trial while only two threads have done anything. -/
def duoTrial (seq : UInt64) (entry : RouteEntry) (pc pc' : CachePc) (i i' : Nat)
    (called called' : Bool) : RouteTrial seqlockType where
  cache := { seq, entry, threads := duo pc pc' .idle : CacheState }
  iteration := duo i i' 1
  called := duo called called' false
  tornDetected := false

@[simp] theorem all_marked :
    Function.update (Function.update (Function.update (Function.update (fun _ => false)
      RouteField.upstreamIp true) .timeoutMs true) .weight true) .checksum true =
        fun _ => true := by
  funext field
  cases field <;> rfl

@[simp] theorem all_stored (entry next : RouteEntry) :
    Function.update (Function.update (Function.update (Function.update entry
      .upstreamIp (next .upstreamIp)) .timeoutMs (next .timeoutMs)) .weight (next .weight))
        .checksum (next .checksum) = next := by
  funext field
  cases field <;> rfl

/-- An iteration in which a thread reads. -/
def readRound (tid : ThreadId) : List RouteTrialEvent :=
  [.call tid, .access tid, .field tid .upstreamIp, .field tid .timeoutMs, .field tid .weight,
    .field tid .checksum, .access tid, .next tid]

section Runs

variable {cfg : RouteTrialConfig} {pc pc' : CachePc} {i i' : Nat}

/-- The first thread reads while the other one is between two calls. -/
theorem replay_readRound_zero (hthreads : 2 ≤ cfg.threads) (hready : pc.ready = true)
    (hi : i ≤ cfg.opsPerThread) (hread : i % 100 ≠ 0) :
    (routeCacheTrial seqlockType cfg).replay (fun _ _ => True)
      (duoTrial 0 .initial pc pc' i i' false false) (readRound 0) =
        some (duoTrial 0 .initial (.returned .initial) pc' (i + 1) i' false false) := by
  have hthread : 0 < cfg.threads := by omega
  have hwhole : RouteEntry.initial.torn = false := by decide
  simp [System.replay, routeCacheTrial, readRound, duoTrial, RouteTrial.step, RouteTrial.inside,
    seqlockType, routeCall, cacheStep, cacheAccess, cacheField, CacheState.goto, CachePc.result,
    hthread, hready, hi, hread, hwhole]

/-- The second thread reads while the other one is between two calls. -/
theorem replay_readRound_one (hthreads : 2 ≤ cfg.threads) (hready : pc'.ready = true)
    (hi : i' ≤ cfg.opsPerThread) (hread : i' % 100 ≠ 0) :
    (routeCacheTrial seqlockType cfg).replay (fun _ _ => True)
      (duoTrial 0 .initial pc pc' i i' false false) (readRound 1) =
        some (duoTrial 0 .initial pc (.returned .initial) i (i' + 1) false false) := by
  have hthread : 1 < cfg.threads := by omega
  have hwhole : RouteEntry.initial.torn = false := by decide
  simp [System.replay, routeCacheTrial, readRound, duoTrial, RouteTrial.step, RouteTrial.inside,
    seqlockType, routeCall, cacheStep, cacheAccess, cacheField, CacheState.goto, CachePc.result,
    hthread, hready, hi, hread, hwhole]

/-- The rest of a write whose first store has been made. -/
def writeRest (tid : ThreadId) : List RouteTrialEvent :=
  [.field tid .upstreamIp, .field tid .timeoutMs, .field tid .weight, .field tid .checksum,
    .access tid]

variable {seq s : UInt64} {entry next : RouteEntry} {called : Bool}

theorem replay_writeRest_zero :
    (routeCacheTrial seqlockType cfg).replay (fun _ _ => True)
      (duoTrial seq entry (.writeFields next s fun _ => false) pc' i i' true called)
      (writeRest 0) = some (duoTrial (s + 2) next .idle pc' i i' true called) := by
  simp [System.replay, routeCacheTrial, writeRest, duoTrial, RouteTrial.step, RouteTrial.inside,
    seqlockType, cacheStep, cacheAccess, cacheField, CacheState.goto]

theorem replay_writeRest_one :
    (routeCacheTrial seqlockType cfg).replay (fun _ _ => True)
      (duoTrial seq entry pc (.writeFields next s fun _ => false) i i' called true)
      (writeRest 1) = some (duoTrial (s + 2) next pc .idle i i' called true) := by
  simp [System.replay, routeCacheTrial, writeRest, duoTrial, RouteTrial.step, RouteTrial.inside,
    seqlockType, cacheStep, cacheAccess, cacheField, CacheState.goto]

/-- The second thread loads the number when the first one has made it odd. -/
theorem replay_overlap (hthreads : 2 ≤ cfg.threads) (hops : 100 ≤ cfg.opsPerThread)
    (hready : pc.ready = true) (hready' : pc'.ready = true) :
    (routeCacheTrial seqlockType cfg).replay (fun _ _ => True)
      (duoTrial 0 .initial pc pc' 100 100 false false)
      [.call 0, .call 1, .access 0, .access 0, .access 1] =
        some (duoTrial 1 .initial (.writeFields (updatedEntry 0 100) 0 fun _ => false)
          (.writeOdd (updatedEntry 1 100) 1) 100 100 true true) := by
  have hfirst : 0 < cfg.threads := by omega
  have hsecond : 1 < cfg.threads := by omega
  simp [System.replay, routeCacheTrial, duoTrial, RouteTrial.step, RouteTrial.inside,
    seqlockType, routeCall, cacheStep, cacheAccess, CacheState.goto, hfirst, hsecond, hops, hready,
    hready']

/-- The second thread begins to store when the first one is done. -/
theorem replay_second_odd :
    (routeCacheTrial seqlockType cfg).replay (fun _ _ => True)
      (duoTrial seq entry pc (.writeOdd next s) i i' true true) [.access 1] =
        some (duoTrial (s + 1) entry pc (.writeFields next s fun _ => false) i i' true true) := by
  simp [System.replay, routeCacheTrial, duoTrial, RouteTrial.step, RouteTrial.inside,
    seqlockType, cacheStep, cacheAccess, CacheState.goto]

/-- Both threads go on to the next iteration. -/
theorem replay_both_next :
    (routeCacheTrial seqlockType cfg).replay (fun _ _ => True)
      (duoTrial seq entry .idle .idle i i' true true) [.next 0, .next 1] =
        some (duoTrial seq entry .idle .idle (i + 1) (i' + 1) false false) := by
  simp [System.replay, routeCacheTrial, duoTrial, RouteTrial.step, seqlockType, CachePc.result]

/-- The first thread reads up to its first write. -/
theorem reach_first (hthreads : 2 ≤ cfg.threads) (hops : 100 ≤ cfg.opsPerThread) {n : Nat}
    (hn : n ≤ 99) : ∃ pc : CachePc, pc.ready = true ∧
    (routeCacheTrial seqlockType cfg).Reachable (fun _ _ => True)
      (duoTrial 0 .initial pc .idle (n + 1) 1 false false) := by
  induction n with
  | zero =>
      refine ⟨.idle, rfl, .init ?_⟩
      have hconst : ∀ {α : Type} (value : α), duo value value value = fun _ => value := by
        intro α value
        funext tid
        simp [duo]
      show duoTrial _ _ _ _ _ _ _ _ = _
      simp only [duoTrial, hconst]
      rfl
  | succ n ih =>
      obtain ⟨pc, hready, hreach⟩ := ih (by omega)
      exact ⟨.returned .initial, rfl, hreach.replay
        (replay_readRound_zero hthreads hready (by omega) (by omega))⟩

/-- The second thread reads up to its first write. -/
theorem reach_both (hthreads : 2 ≤ cfg.threads) (hops : 100 ≤ cfg.opsPerThread) {n : Nat}
    (hn : n ≤ 99) : ∃ pc pc' : CachePc, pc.ready = true ∧ pc'.ready = true ∧
    (routeCacheTrial seqlockType cfg).Reachable (fun _ _ => True)
      (duoTrial 0 .initial pc pc' 100 (n + 1) false false) := by
  induction n with
  | zero =>
      obtain ⟨pc, hready, hreach⟩ := reach_first hthreads hops (Nat.le_refl 99)
      exact ⟨pc, .idle, hready, rfl, hreach⟩
  | succ n ih =>
      obtain ⟨pc, pc', hready, hready', hreach⟩ := ih (by omega)
      exact ⟨pc, .returned .initial, hready, rfl, hreach.replay
        (replay_readRound_one hthreads hready' (by omega) (by omega))⟩

/-- After the writes the number is odd, and every thread is to read. -/
theorem reach_hung (hthreads : 2 ≤ cfg.threads) (hops : 100 ≤ cfg.opsPerThread) :
    (routeCacheTrial seqlockType cfg).Reachable (fun _ _ => True)
      (duoTrial 3 (updatedEntry 1 100) .idle .idle 101 101 false false) := by
  obtain ⟨pc, pc', hready, hready', hreach⟩ := reach_both hthreads hops (Nat.le_refl 99)
  have hoverlap := hreach.replay (replay_overlap hthreads hops hready hready')
  have hfirst := hoverlap.replay replay_writeRest_zero
  have hodd := hfirst.replay replay_second_odd
  have hsecond := hodd.replay replay_writeRest_one
  exact hsecond.replay replay_both_next

end Runs

/-- With two threads that go on after their first write, the trial may come to a state from which
no thread ever completes an iteration, although none is blocked. -/
theorem seqlock_trial_hangs (cfg : RouteTrialConfig) (hthreads : 2 ≤ cfg.threads)
    (hops : 101 ≤ cfg.opsPerThread) : ∃ trial,
    (routeCacheTrial seqlockType cfg).Reachable (fun _ _ => True) trial ∧
      ∀ later, Later cfg trial later → later.iteration = trial.iteration ∧
        NoneBlocked cfg later ∧ ¬ later.finished cfg := by
  refine ⟨_, reach_hung hthreads (Nat.le_of_succ_le hops), fun later hlater => ?_⟩
  have hhung : Hung cfg (duoTrial 3 (updatedEntry 1 100) .idle .idle 101 101 false false) := by
    have hidle : ∀ {α : Type} (value : α) (tid : ThreadId), duo value value value tid = value := by
      intro α value tid
      simp [duo]
    refine ⟨by show (3 : UInt64) &&& 1 ≠ 0; decide, fun tid => ?_, fun tid _ => ?_,
      fun tid hcalled => ?_⟩
    · show duo 101 101 1 tid % 100 ≠ 0 ∧ duo 101 101 1 tid ≤ cfg.opsPerThread
      unfold duo
      split
      · omega
      · split <;> omega
    · exact congrArg CachePc.ready (hidle .idle tid)
    · exact absurd ((hidle false tid).symm.trans hcalled) (by decide)
  obtain ⟨hnever, hsame⟩ := hhung.later hlater
  refine ⟨hsame, hnever.none_blocked, fun hfinished => ?_⟩
  obtain ⟨-, hover⟩ := hfinished 0 (by omega)
  have hleft := (hnever.reads 0).2
  omega

/-- The trial of the challenge, with 16 threads and 50000 iterations. -/
theorem seqlock_trial_hangs_challenge : ∃ trial,
    (routeCacheTrial seqlockType ⟨16, 50000⟩).Reachable (fun _ _ => True) trial ∧
      ∀ later, Later ⟨16, 50000⟩ trial later → later.iteration = trial.iteration ∧
        NoneBlocked ⟨16, 50000⟩ later ∧ ¬ later.finished ⟨16, 50000⟩ :=
  seqlock_trial_hangs ⟨16, 50000⟩ (by decide) (by decide)

end HotPath.Locks
