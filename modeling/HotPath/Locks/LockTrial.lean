import HotPath.Foundation.Completion
import HotPath.Foundation.ShardedSums
import HotPath.Locks.SpinTrial
import HotPath.Locks.ThreeStateLock

/-!
# The trial of the three-state locks

`RunLockTrial` with `RawFutexMutex`, `AdaptiveFutexMutex` or `Cpp20AtomicWaitLock`. Every thread
locks, makes the accesses of `ApplyTransfer(1)` and unlocks, the same number of times. The kernel
may wake a sleeping thread without a cause some number of times.

`trial_completes` says that no interleaving deadlocks or goes on forever, and that the accounts are
those of the transfers made one after the other when all the threads have returned. The
deadlock-freedom rests on the invariant of the sleepers, and the termination on a potential to
which every thread contributes. Only an `unlock` raises the parts of other threads, those that are
about to sleep, and it pays for them.
-/

namespace HotPath.Locks.ThreeState

open HotPath.Foundation

/-- The template argument, the two arguments, and a bound on the wake-ups without a cause. -/
structure TrialConfig where
  code : LockCode
  threads : Nat
  opsPerThread : Nat
  spuriousWakes : Nat

/-- The lock with the accounts, the calls of `lock` that each thread has left, and the wake-ups
without a cause that are left. -/
structure Trial where
  lock : State TransferPc ProtectedState
  remaining : ThreadId → Nat
  spurious : Nat

/-- A step of a thread, or a wake-up or a failure that has no cause. -/
inductive TrialEvent where
  | lock (tid : ThreadId)
  | access (tid : ThreadId)
  | spuriousFailure (tid : ThreadId)
  | spuriousWake (tid : ThreadId)
  | transfer (tid : ThreadId)
  | unlock (tid : ThreadId)
  | wake (tid sleeper : ThreadId)

/-- The next access of `ApplyTransfer`, if there is one. -/
def transferNext (now : TransferPc × ProtectedState) : TransferPc × ProtectedState :=
  (transferAccess now).getD now

/-- The event of the lock. Every transfer is of the amount 1. -/
def TrialEvent.toEvent : TrialEvent → Event TransferPc ProtectedState
  | .lock tid => .lock tid (.loadSequence 1)
  | .access tid => .access tid
  | .spuriousFailure tid => .spuriousFailure tid
  | .spuriousWake tid => .spuriousWake tid
  | .transfer tid => .body tid transferNext
  | .unlock tid => .unlock tid
  | .wake tid sleeper => .wake tid sleeper

/-- A thread calls `lock` as often as its loop says, and `unlock` after the last access of
`ApplyTransfer`. -/
def Trial.enabled (trial : Trial) : TrialEvent → Bool
  | .lock tid => 0 < trial.remaining tid
  | .spuriousWake _ => 0 < trial.spurious
  | .transfer tid => (transferAccess (trial.lock.locals tid, trial.lock.data)).isSome
  | .unlock tid => (transferAccess (trial.lock.locals tid, trial.lock.data)).isNone
  | _ => true

/-- The calls of `lock` that each thread has left after an event. -/
def Trial.remainingAfter (trial : Trial) : TrialEvent → ThreadId → Nat
  | .lock tid => Function.update trial.remaining tid (trial.remaining tid - 1)
  | _ => trial.remaining

/-- The wake-ups without a cause that are left after an event. -/
def Trial.spuriousAfter (trial : Trial) : TrialEvent → Nat
  | .spuriousWake _ => trial.spurious - 1
  | _ => trial.spurious

/-- One step. -/
def Trial.step (cfg : TrialConfig) (trial : Trial) (event : TrialEvent) : Option Trial :=
  if trial.enabled event then
    (ThreeState.step cfg.code trial.lock event.toEvent).map fun lock =>
      ⟨lock, trial.remainingAfter event, trial.spuriousAfter event⟩
  else none

/-- The trial as a transition system. -/
def lockTrial (cfg : TrialConfig) : System Trial TrialEvent where
  init trial := (lockSystem cfg.code ({} : ProtectedState)).init trial.lock ∧
    (∀ tid, trial.remaining tid = if tid < cfg.threads then cfg.opsPerThread else 0) ∧
    trial.spurious = cfg.spuriousWakes
  step := Trial.step cfg

/-- All the threads have returned. -/
def Trial.finished (trial : Trial) : Prop :=
  ∀ tid, trial.remaining tid = 0 ∧ trial.lock.threads tid = .idle

/-- Every run of the trial completes, and when all the threads have returned the accounts are what
the transfers leave one after the other, and `invariant_ok` is true. -/
def TrialCompletes (cfg : TrialConfig) : Prop :=
  (lockTrial cfg).Completes (fun _ _ => True) Trial.finished ∧
  ∀ trial, (lockTrial cfg).Reachable (fun _ _ => True) trial → trial.finished →
    trial.lock.data = .afterCalls
        (List.replicate (cfg.threads * cfg.opsPerThread) (.applyTransfer 1)) ∧
      trial.lock.data.invariantOk (cfg.threads * cfg.opsPerThread) = true

/-! ## The threads -/

/-- The thread is between its call of `lock` and its `unlock`. -/
def Pc.engaged : Pc → Bool
  | .idle | .wake => false
  | _ => true

/-- The transfers that a thread has not completed. -/
def ahead (threads : ThreadId → Pc) (remaining : ThreadId → Nat) (tid : ThreadId) : Nat :=
  remaining tid + if (threads tid).engaged then 1 else 0

/-- Only the threads of the trial move, and they make the given number of transfers. -/
structure CountInv (cfg : TrialConfig) (done : Nat) (threads : ThreadId → Pc)
    (remaining : ThreadId → Nat) : Prop where
  absent : ∀ tid, cfg.threads ≤ tid → threads tid = .idle ∧ remaining tid = 0
  count : done + ∑ tid : Fin cfg.threads, ahead threads remaining tid =
    cfg.threads * cfg.opsPerThread

section Count

variable {cfg : TrialConfig} {done : Nat} {threads : ThreadId → Pc} {remaining : ThreadId → Nat}
  {tid : ThreadId} {pc' : Pc}

/-- A thread that moves or has a transfer left is one of the threads of the trial. -/
theorem CountInv.lt (h : CountInv cfg done threads remaining)
    (hactive : threads tid ≠ .idle ∨ 0 < remaining tid) : tid < cfg.threads := by
  by_contra hge
  obtain ⟨hidle, hnone⟩ := h.absent tid (Nat.le_of_not_lt hge)
  cases hactive with
  | inl hmoves => exact hmoves hidle
  | inr hleft => omega

/-- A thread moves, and has as many transfers ahead as before. -/
theorem CountInv.move (h : CountInv cfg done threads remaining) (left : Nat)
    (hactive : threads tid ≠ .idle ∨ 0 < remaining tid)
    (hsame : left + (if pc'.engaged then 1 else 0) = ahead threads remaining tid) :
    CountInv cfg done (Function.update threads tid pc') (Function.update remaining tid left) := by
  have hlt := h.lt hactive
  refine ⟨fun other hge => ?_, ?_⟩
  · have hne : other ≠ tid := (Nat.lt_of_lt_of_le hlt hge).ne'
    rw [Function.update_of_ne hne, Function.update_of_ne hne]
    exact h.absent other hge
  · have hahead : ∀ other, ahead (Function.update threads tid pc')
        (Function.update remaining tid left) other = ahead threads remaining other := by
      intro other
      by_cases heq : other = tid
      · rw [heq, ← hsame]
        simp only [ahead, Function.update_self]
      · simp only [ahead, Function.update_of_ne heq]
    simpa only [hahead] using h.count

/-- A thread moves inside `lock` or outside. -/
theorem CountInv.goto (h : CountInv cfg done threads remaining) (hactive : threads tid ≠ .idle)
    (hsame : pc'.engaged = (threads tid).engaged) :
    CountInv cfg done (Function.update threads tid pc') remaining := by
  have hmoved := h.move (remaining tid) (.inl hactive) (by rw [hsame, ahead])
  rwa [Function.update_eq_self] at hmoved

/-- A thread leaves its critical section. -/
theorem CountInv.leave (h : CountInv cfg done threads remaining)
    (hcritical : threads tid = .critical) (hpc' : pc'.engaged = false) :
    CountInv cfg (done + 1) (Function.update threads tid pc') remaining := by
  have hactive : threads tid ≠ .idle := by simp [hcritical]
  have hlt := h.lt (.inl hactive)
  refine ⟨fun other hge => ?_, ?_⟩
  · have hne : other ≠ tid := (Nat.lt_of_lt_of_le hlt hge).ne'
    rw [Function.update_of_ne hne]
    exact h.absent other hge
  · have hsum := sum_update_add (fun pc : Pc => if pc.engaged then 1 else 0)
      (fun other : Fin cfg.threads => threads other) ⟨tid, hlt⟩ pc'
    have hupdate : ∀ other : Fin cfg.threads, Function.update threads tid pc' other =
        Function.update (fun other : Fin cfg.threads => threads other) ⟨tid, hlt⟩ pc' other := by
      intro other
      by_cases heq : other = ⟨tid, hlt⟩
      · rw [heq, Function.update_self, Function.update_self]
      · rw [Function.update_of_ne heq, Function.update_of_ne fun hval => heq (Fin.ext hval)]
    have hengaged : Pc.critical.engaged = true := rfl
    have hcount := h.count
    simp only [ahead, Finset.sum_add_distrib, hupdate] at hcount ⊢
    simp only [hcritical, hpc', hengaged, Bool.false_eq_true, if_true, if_false] at hsum
    omega

end Count

/-! ## The accounts -/

/-- The transfers that threads have begun, with the accounts as they were before the one under
way. -/
structure TransferInv (base : ProtectedState) (lock : State TransferPc ProtectedState) : Prop where
  begun : ∀ tid, (lock.threads tid).locking = true → lock.locals tid = .loadSequence 1
  inside : ∀ tid, lock.threads tid = .critical →
    Steps transferAccess (.loadSequence 1, base) (lock.locals tid, lock.data)

/-- The invariant of the trial, with the critical sections so far. -/
structure TrialInv (cfg : TrialConfig) (history : History TransferPc ProtectedState)
    (trial : Trial) : Prop where
  wake : WakeInv trial.lock
  owner : OwnerInv {} (trial.lock, history)
  transfers : TransferInv (serial {} history.completed) trial.lock
  outcome : serial {} history.completed =
    .afterCalls (List.replicate history.completed.length (.applyTransfer 1))
  count : CountInv cfg history.completed.length trial.lock.threads trial.remaining

section Transfers

variable {code : LockCode} {base : ProtectedState} {lock : State TransferPc ProtectedState}
  {tid : ThreadId} {pc' : Pc}

/-- The next access is a step, as long as there is one. -/
theorem steps_transferNext {start now : TransferPc × ProtectedState}
    (h : Steps transferAccess start now) : Steps transferAccess start (transferNext now) := by
  cases haccess : transferAccess now with
  | none => rwa [transferNext, haccess]
  | some next =>
      rw [transferNext, haccess]
      exact h.tail haccess

/-- A transfer that has no access left has been made. -/
theorem transferred_eq {vars : TransferPc} {data : ProtectedState}
    (h : Steps transferAccess (.loadSequence 1, base) (vars, data))
    (hnone : transferAccess (vars, data) = none) : data = base.applyTransfer 1 := by
  have hends : transferAccess
      (.buckets (.load (base.sequence + 1) 5), base.applyTransfer 1) = none := by
    simp [transferAccess, bucket_loop_ends]
  exact congrArg Prod.snd (h.last_unique hnone (transfer_steps 1 base) hends)

/-- A thread moves outside its critical section, or enters it while no other thread is inside. -/
theorem TransferInv.goto (h : TransferInv base lock) (word : UInt32)
    (sleepers : Finset ThreadId) (hlocking : pc'.locking = true → (lock.threads tid).locking = true)
    (henter : pc' = .critical → (lock.threads tid).locking = true ∧ lock.data = base) :
    TransferInv base (({ lock with word := word, sleepers := sleepers } :
      State TransferPc ProtectedState).goto tid pc') := by
  refine ⟨fun other hother => ?_, fun other hother => ?_⟩
  · by_cases heq : other = tid
    · subst heq
      simp only [State.goto, Function.update_self] at hother
      exact h.begun other (hlocking hother)
    · simp only [State.goto, Function.update_of_ne heq] at hother
      exact h.begun other hother
  · by_cases heq : other = tid
    · subst heq
      simp only [State.goto, Function.update_self] at hother
      obtain ⟨hwas, hdata⟩ := henter hother
      show Steps transferAccess _ (lock.locals other, lock.data)
      rw [h.begun other hwas, hdata]
      exact .refl
    · simp only [State.goto, Function.update_of_ne heq] at hother
      exact h.inside other hother

/-- A thread calls `lock`. -/
theorem TransferInv.enter (h : TransferInv base lock) :
    TransferInv base (({ lock with
      locals := Function.update lock.locals tid (.loadSequence 1) } :
        State TransferPc ProtectedState).goto tid .firstCas) := by
  refine ⟨fun other hother => ?_, fun other hother => ?_⟩
  · by_cases heq : other = tid
    · simp [heq, State.goto]
    · simp only [State.goto, Function.update_of_ne heq] at hother ⊢
      exact h.begun other hother
  · by_cases heq : other = tid
    · simp [heq, State.goto] at hother
    · simp only [State.goto, Function.update_of_ne heq] at hother ⊢
      exact h.inside other hother

/-- The owner makes the next access of the transfer. -/
theorem TransferInv.body (h : TransferInv base lock) (hcritical : lock.threads tid = .critical)
    (halone : ∀ other, lock.threads other = .critical → other = tid) :
    TransferInv base { lock with
      locals := Function.update lock.locals tid (transferNext (lock.locals tid, lock.data)).1
      data := (transferNext (lock.locals tid, lock.data)).2 } := by
  refine ⟨fun other hother => ?_, fun other hother => ?_⟩
  · have hne : other ≠ tid := by
      intro heq
      subst heq
      simp [hcritical, Pc.locking] at hother
    simpa only [Function.update_of_ne hne] using h.begun other hother
  · obtain rfl := halone other hother
    simpa only [Function.update_self] using steps_transferNext (h.inside other hcritical)

/-- The owner releases the lock, and the transfer has been made. -/
theorem TransferInv.leave (h : TransferInv base lock) (hcritical : lock.threads tid = .critical)
    (halone : ∀ other, lock.threads other = .critical → other = tid)
    (hpc' : pc' = .idle ∨ pc' = .wake) (word : UInt32) (base' : ProtectedState) :
    TransferInv base' (({ lock with word := word } :
      State TransferPc ProtectedState).goto tid pc') := by
  refine ⟨fun other hother => ?_, fun other hother => ?_⟩
  · by_cases heq : other = tid
    · subst heq
      rcases hpc' with rfl | rfl <;> simp [State.goto, Pc.locking] at hother
    · simp only [State.goto, Function.update_of_ne heq] at hother
      exact h.begun other hother
  · by_cases heq : other = tid
    · subst heq
      rcases hpc' with rfl | rfl <;> simp [State.goto] at hother
    · simp only [State.goto, Function.update_of_ne heq] at hother
      exact absurd (halone other hother) heq

end Transfers

/-! ## A step of the trial -/

/-- What the code of the lock does with a thread in `lock`: the access moves it, and if it enters
the critical section then the lock was free. -/
theorem lock_move_pc {word word' : UInt32} {pc pc' : Pc} (h : LockMove word pc word' pc') :
    pc'.engaged = true ∧ (pc' = .critical → word = 0) := by
  cases h with
  | look hlocking =>
      cases pc' <;> simp_all [Pc.engaged, Pc.locking]
  | acquire hfree => exact ⟨rfl, fun _ => hfree⟩
  | contend => exact ⟨rfl, by simp⟩

theorem Pc.engaged_of_locking {pc : Pc} (h : pc.locking = true) :
    pc.engaged = true ∧ pc ≠ .idle ∧ pc ≠ .critical := by
  cases pc <;> simp_all [Pc.engaged, Pc.locking]

/-- A step of the trial is a step of the lock. -/
theorem Trial.step_cases {cfg : TrialConfig} {trial next : Trial} {event : TrialEvent}
    (h : Trial.step cfg trial event = some next) : trial.enabled event = true ∧ ∃ lock,
      ThreeState.step cfg.code trial.lock event.toEvent = some lock ∧
        next = ⟨lock, trial.remainingAfter event, trial.spuriousAfter event⟩ := by
  unfold Trial.step at h
  split at h
  · next henabled =>
      obtain ⟨lock, hlock, hnext⟩ := Option.map_eq_some_iff.mp h
      exact ⟨henabled, lock, hlock, hnext.symm⟩
  · cases h

section Step

variable {cfg : TrialConfig} {history : History TransferPc ProtectedState}
  {trial : Trial} {lock : State TransferPc ProtectedState} {tid sleeper : ThreadId}

/-- What a step has to keep of the transfers and the counts. -/
structure Kept (cfg : TrialConfig) (history : History TransferPc ProtectedState)
    (lock : State TransferPc ProtectedState) (remaining : ThreadId → Nat) : Prop where
  transfers : TransferInv (serial {} history.completed) lock
  outcome : serial {} history.completed =
    .afterCalls (List.replicate history.completed.length (.applyTransfer 1))
  count : CountInv cfg history.completed.length lock.threads remaining

theorem TrialInv.kept (h : TrialInv cfg history trial) :
    Kept cfg history trial.lock trial.remaining := ⟨h.transfers, h.outcome, h.count⟩

/-- An access of `lock`, or a failure that has no cause. -/
theorem TrialInv.lock_move (h : TrialInv cfg history trial) {word' : UInt32} {pc' : Pc}
    (hlocking : (trial.lock.threads tid).locking = true)
    (hmove : LockMove trial.lock.word (trial.lock.threads tid) word' pc') :
    Kept cfg history (({ trial.lock with word := word' } :
      State TransferPc ProtectedState).goto tid pc') trial.remaining := by
  obtain ⟨hengaged, hfree⟩ := lock_move_pc hmove
  obtain ⟨hwas, hactive, -⟩ := Pc.engaged_of_locking hlocking
  refine ⟨h.transfers.goto word' _ (fun _ => hlocking) fun hcritical => ⟨hlocking, ?_⟩,
    h.outcome, h.count.goto hactive (hengaged.trans hwas.symm)⟩
  exact h.owner.quiet (hfree hcritical)

/-- A sleeping thread is woken. -/
theorem TrialInv.rouse (h : TrialInv cfg history trial)
    (hasleep : trial.lock.threads tid = .asleep) :
    Kept cfg history (trial.lock.rouse cfg.code tid) trial.remaining := by
  have hpc : ∀ pc, pc = (if cfg.code.rechecks then Pc.recheck else .exchange true) →
      pc.engaged = true ∧ pc ≠ .critical := by
    intro pc heq
    subst heq
    split <;> exact ⟨rfl, nofun⟩
  obtain ⟨hengaged, hcritical⟩ := hpc _ rfl
  refine ⟨h.transfers.goto _ _ (fun _ => by simp [hasleep, Pc.locking])
    fun heq => absurd heq hcritical, h.outcome, h.count.goto (by simp [hasleep]) ?_⟩
  rw [hengaged, hasleep]
  rfl

/-- A thread that does not hold the lock leaves the wake-up of another behind. -/
theorem Kept.idle {remaining : ThreadId → Nat} (h : Kept cfg history lock remaining)
    (hwake : lock.threads tid = .wake) :
    Kept cfg history (lock.goto tid .idle) remaining :=
  ⟨h.transfers.goto lock.word lock.sleepers nofun nofun, h.outcome,
    h.count.goto (by simp [hwake]) (by rw [hwake]; rfl)⟩

/-- A step of a thread keeps the transfers and the counts. -/
theorem TrialInv.step_kept (h : TrialInv cfg history trial) {event : TrialEvent}
    (henabled : trial.enabled event = true)
    (hstep : ThreeState.step cfg.code trial.lock event.toEvent = some lock)
    (howner : OwnerInv {} (lock, recorder.observe trial.lock event.toEvent lock history)) :
    Kept cfg (recorder.observe trial.lock event.toEvent lock history) lock
      (trial.remainingAfter event) := by
  cases event with
  | lock tid =>
      simp only [TrialEvent.toEvent, ThreeState.step] at hstep
      split at hstep
      · next hidle =>
          obtain rfl := Option.some.inj hstep
          have hleft : 0 < trial.remaining tid := of_decide_eq_true henabled
          refine ⟨h.transfers.enter, h.outcome, h.count.move _ (.inr hleft) ?_⟩
          have hengaged : Pc.firstCas.engaged = true := rfl
          have hnot : Pc.idle.engaged = false := rfl
          simp only [ahead, hidle, hengaged, hnot, Bool.false_eq_true, if_true, if_false]
          omega
      · cases hstep
  | access tid =>
      obtain ⟨hlocking, hawake, ⟨hword, rfl⟩ | ⟨word', pc', hmove, rfl⟩⟩ := access_cases hstep
      · obtain ⟨hwas, hactive, -⟩ := Pc.engaged_of_locking hlocking
        exact ⟨h.transfers.goto _ _ (fun _ => hlocking) (by simp), h.outcome,
          h.count.goto hactive hwas.symm⟩
      · exact h.lock_move hlocking hmove
  | spuriousFailure tid =>
      simp only [TrialEvent.toEvent, ThreeState.step] at hstep
      split at hstep
      · next spin hpc =>
          obtain rfl := Option.some.inj hstep
          exact h.lock_move (by simp [hpc, Pc.locking]) (hpc ▸ spinOn_look rfl)
      · cases hstep
  | spuriousWake tid =>
      simp only [TrialEvent.toEvent, ThreeState.step] at hstep
      split at hstep
      · next hasleep =>
          obtain rfl := Option.some.inj hstep
          exact h.rouse hasleep
      · cases hstep
  | transfer tid =>
      simp only [TrialEvent.toEvent, ThreeState.step] at hstep
      split at hstep
      · next hcritical =>
          obtain rfl := Option.some.inj hstep
          exact ⟨h.transfers.body hcritical fun other hother =>
            h.owner.alone other tid hother hcritical, h.outcome, h.count⟩
      · cases hstep
  | unlock tid =>
      simp only [TrialEvent.toEvent, ThreeState.step] at hstep
      split at hstep
      · next hcritical =>
          obtain rfl := Option.some.inj hstep
          have hnone : transferAccess (trial.lock.locals tid, trial.lock.data) = none :=
            Option.isNone_iff_eq_none.mp henabled
          have hmade := transferred_eq (h.transfers.inside tid hcritical) hnone
          have hserial := howner.quiet rfl
          refine ⟨h.transfers.leave hcritical (fun other hother =>
            h.owner.alone other tid hother hcritical) (by split <;> simp) _ _, ?_, ?_⟩
          · rw [← hserial]
            show trial.lock.data = _
            simp only [TrialEvent.toEvent, recorder, List.length_append, List.length_singleton,
              List.replicate_succ', ProtectedState.afterCalls_concat]
            rw [← h.outcome, hmade]
            rfl
          · have houtside : (if trial.lock.word = 2 then Pc.wake else .idle).engaged = false := by
              split <;> rfl
            have hleave := h.count.leave hcritical houtside
            simpa [recorder, TrialEvent.toEvent, Trial.remainingAfter, State.goto] using hleave
      · cases hstep
  | wake tid sleeper =>
      simp only [TrialEvent.toEvent, ThreeState.step] at hstep
      split at hstep
      · next hwake =>
          split at hstep
          · next hsleeper =>
              obtain rfl := Option.some.inj hstep
              have hasleep := (h.wake.sleepers sleeper).mp hsleeper
              have hne : tid ≠ sleeper := by
                intro heq
                rw [heq, hasleep] at hwake
                cases hwake
              refine (h.rouse hasleep).idle ?_
              simp [State.rouse, State.goto, Function.update_of_ne hne, hwake]
          · split at hstep
            · obtain rfl := Option.some.inj hstep
              exact h.kept.idle hwake
            · cases hstep
      · cases hstep

/-- Every step keeps the invariant. -/
theorem TrialInv.step (h : TrialInv cfg history trial) {event : TrialEvent} {next : Trial}
    (hstep : Trial.step cfg trial event = some next) : ∃ history', TrialInv cfg history' next := by
  obtain ⟨henabled, lock, hlock, rfl⟩ := Trial.step_cases hstep
  have hpair : ((lockSystem cfg.code {}).withHistory recorder).step (trial.lock, history)
      event.toEvent = some (lock, recorder.observe trial.lock event.toEvent lock history) :=
    System.withHistory_step.mpr ⟨hlock, rfl⟩
  have howner := h.owner.step h.wake hpair
  obtain ⟨htransfers, houtcome, hcount⟩ := h.step_kept henabled hlock howner
  exact ⟨_, h.wake.step hlock, howner, htransfers, houtcome, hcount⟩

theorem TrialInv.init (h : (lockTrial cfg).init trial) :
    TrialInv cfg (recorder.start trial.lock) trial := by
  obtain ⟨hlock, hremaining, -⟩ := h
  have hidle := hlock.2.2.2
  refine ⟨.init hlock, .init hlock, ⟨fun tid hlocking => ?_, fun tid hcritical => ?_⟩, rfl,
    ⟨fun tid hge => ⟨hidle tid, ?_⟩, ?_⟩⟩
  · simp [hidle, Pc.locking] at hlocking
  · simp [hidle] at hcritical
  · rw [hremaining, if_neg (Nat.not_lt_of_le hge)]
  · simp [recorder, ahead, hidle, hremaining, Pc.engaged]

theorem trialInv_of_reachable (h : (lockTrial cfg).Reachable (fun _ _ => True) trial) :
    ∃ history, TrialInv cfg history trial := by
  refine h.invariant (fun trial => ∃ history, TrialInv cfg history trial) ?_ ?_
  · intro trial hinit
    exact ⟨_, .init hinit⟩
  · intro trial event next hinv _ hstep
    obtain ⟨history, h⟩ := hinv
    exact h.step hstep

end Step

/-! ## The work that is left -/

/-- The accesses of `lock` or `unlock` that are left if no other thread changes the word. A thread
that is about to sleep goes on if the word is no longer 2. -/
def Pc.lockWork (code : LockCode) (word : UInt32) : Pc → Nat
  | .idle | .asleep | .critical => 0
  | .firstCas => 2 * code.spins + 6
  | .spinLoad spin _ => 2 * (code.spins - spin) + 5
  | .spinCas spin => 2 * (code.spins - spin) + 4
  | .firstExchange | .exchange _ => 2
  | .wait | .recheck => if word = 2 then 1 else 3
  | .wake => 4

/-- The work of a thread. A critical section pays for the threads that its `unlock` keeps from
sleeping and for the one that it wakes. -/
def threadWork (cfg : TrialConfig) (word : UInt32) (pc : Pc) (vars : TransferPc)
    (remaining : Nat) : Nat :=
  pc.lockWork cfg.code word +
    (if pc.engaged then vars.left + 2 * cfg.threads + 5 else 0) +
    remaining * (2 * cfg.code.spins + 2 * cfg.threads + 28)

/-- The work of a thread of the trial. -/
def Trial.workOf (cfg : TrialConfig) (trial : Trial) (tid : ThreadId) : Nat :=
  threadWork cfg trial.lock.word (trial.lock.threads tid) (trial.lock.locals tid)
    (trial.remaining tid)

/-- The work that is left. A wake-up without a cause adds to it, and counts for more. -/
def Trial.work (cfg : TrialConfig) (trial : Trial) : Nat :=
  ∑ tid : Fin cfg.threads, trial.workOf cfg tid + 4 * trial.spurious

section Work

variable {cfg : TrialConfig} {code : LockCode} {history : History TransferPc ProtectedState}
  {trial after : Trial} {state next : State TransferPc ProtectedState} {tid : ThreadId}
  {word word' : UInt32} {pc pc' : Pc}

/-- An exchange by another thread leaves a thread less to do. -/
theorem lockWork_word (code : LockCode) (pc : Pc) (h : word = 2 → word' = 2) :
    pc.lockWork code word' ≤ pc.lockWork code word := by
  cases pc with
  | wait | recheck =>
      simp only [Pc.lockWork]
      split
      · split <;> omega
      · next hnot => rw [if_neg fun htwo => hnot (h htwo)]
  | idle | firstCas | spinLoad | spinCas | firstExchange | asleep | exchange | critical | wake =>
      exact Nat.le_refl _

/-- A change of the word gives a thread at most two more accesses. -/
theorem lockWork_any (code : LockCode) (pc : Pc) (word word' : UInt32) :
    pc.lockWork code word' ≤ pc.lockWork code word + 2 := by
  cases pc with
  | wait | recheck =>
      simp only [Pc.lockWork]
      split <;> split <;> omega
  | idle | firstCas | spinLoad | spinCas | firstExchange | asleep | exchange | critical | wake =>
      exact Nat.le_add_right _ _

theorem lockWork_spinOn (code : LockCode) (word : UInt32) (spin : Nat) (c : UInt32) :
    (spinOn code spin c).lockWork code word ≤ 3 ∨
      spin < code.spins ∧
        (spinOn code spin c).lockWork code word = 2 * (code.spins - spin) + 5 := by
  unfold spinOn
  split
  · next hlt => exact .inr ⟨hlt, rfl⟩
  · left
    split
    · exact Nat.le_succ 2
    · simp only [Pc.lockWork]
      split <;> omega

/-- A thread inside `lock` moves, with less to do, and does not take the word from 2. -/
structure Advances (code : LockCode) (state : State TransferPc ProtectedState) (tid : ThreadId)
    (word' : UInt32) (pc' : Pc) : Prop where
  before : (state.threads tid).engaged = true
  after : pc'.engaged = true
  word : state.word = 2 → word' = 2
  less : pc'.lockWork code word' < (state.threads tid).lockWork code state.word

/-- The spin loop goes on, or ends. -/
theorem Advances.spinOn {spin : Nat} {c : UInt32} (hpc : (state.threads tid).engaged = true)
    (hwork : 3 < (state.threads tid).lockWork code state.word)
    (hspin : spin < code.spins →
      2 * (code.spins - spin) + 5 < (state.threads tid).lockWork code state.word) :
    Advances code state tid state.word (spinOn code spin c) := by
  refine ⟨hpc, (Pc.engaged_of_locking (spinOn_locking code spin c).1).1, id, ?_⟩
  rcases lockWork_spinOn code state.word spin c with hle | ⟨hlt, heq⟩
  · omega
  · rw [heq]
    exact hspin hlt

/-- A thread that finds the lock free acquires it. -/
theorem Advances.acquire (hpc : (state.threads tid).engaged = true) (hfree : state.word = 0)
    (hwork : 0 < (state.threads tid).lockWork code state.word) (word' : UInt32) :
    Advances code state tid word' .critical := by
  refine ⟨hpc, rfl, fun htwo => ?_, hwork⟩
  rw [hfree] at htwo
  cases htwo

/-- An access of `lock` is progress. -/
theorem access_advances (h : access code state tid = some next) : ∃ word' pc' sleepers',
    Advances code state tid word' pc' ∧
      next = ({ state with word := word', sleepers := sleepers' } :
        State TransferPc ProtectedState).goto tid pc' := by
  unfold access at h
  cases hpc : state.threads tid with
  | idle | asleep | critical | wake => simp [hpc] at h
  | firstCas =>
      have hengaged : (state.threads tid).engaged = true := by rw [hpc]; rfl
      have hwork : (state.threads tid).lockWork code state.word = 2 * code.spins + 6 := by
        rw [hpc, Pc.lockWork]
      simp only [hpc] at h
      split at h
      · next hfree =>
          exact ⟨1, .critical, _, .acquire hengaged hfree (by omega) 1, (Option.some.inj h).symm⟩
      · exact ⟨_, _, _, .spinOn hengaged (by omega) (by omega), (Option.some.inj h).symm⟩
  | spinLoad spin c =>
      have hengaged : (state.threads tid).engaged = true := by rw [hpc]; rfl
      have hwork : (state.threads tid).lockWork code state.word =
          2 * (code.spins - spin) + 5 := by rw [hpc, Pc.lockWork]
      simp only [hpc] at h
      split at h
      · refine ⟨_, _, _, ⟨hengaged, rfl, id, ?_⟩, (Option.some.inj h).symm⟩
        rw [hwork]
        exact Nat.lt_succ_self _
      · exact ⟨_, _, _, .spinOn hengaged (by omega) (by omega), (Option.some.inj h).symm⟩
  | spinCas spin =>
      have hengaged : (state.threads tid).engaged = true := by rw [hpc]; rfl
      have hwork : (state.threads tid).lockWork code state.word =
          2 * (code.spins - spin) + 4 := by rw [hpc, Pc.lockWork]
      simp only [hpc] at h
      split at h
      · next hfree =>
          exact ⟨1, .critical, _, .acquire hengaged hfree (by omega) 1, (Option.some.inj h).symm⟩
      · exact ⟨_, _, _, .spinOn hengaged (by omega) (by omega), (Option.some.inj h).symm⟩
  | firstExchange | exchange =>
      have hengaged : (state.threads tid).engaged = true := by rw [hpc]; rfl
      have hwork : (state.threads tid).lockWork code state.word = 2 := by rw [hpc, Pc.lockWork]
      simp only [hpc] at h
      split at h
      · refine ⟨_, _, _, ⟨hengaged, rfl, fun _ => rfl, ?_⟩, (Option.some.inj h).symm⟩
        rw [hwork]
        exact Nat.lt_succ_self _
      · next hfree =>
          exact ⟨2, .critical, _, .acquire hengaged (not_not.mp hfree) (by omega) 2,
            (Option.some.inj h).symm⟩
  | wait | recheck =>
      have hengaged : (state.threads tid).engaged = true := by rw [hpc]; rfl
      simp only [hpc] at h
      split at h
      · next htwo =>
          refine ⟨_, _, _, ⟨hengaged, rfl, id, ?_⟩, (Option.some.inj h).symm⟩
          rw [hpc, Pc.lockWork, Pc.lockWork, if_pos htwo]
          exact Nat.zero_lt_one
      · next hnot =>
          refine ⟨_, _, _, ⟨hengaged, rfl, id, ?_⟩, (Option.some.inj h).symm⟩
          rw [hpc, Pc.lockWork, Pc.lockWork, if_neg hnot]
          exact Nat.lt_succ_self _

/-- A failure of the compare-exchange that has no cause is progress. -/
theorem spuriousFailure_advances {spin : Nat} (hpc : state.threads tid = .spinCas spin) :
    Advances code state tid state.word (spinOn code (spin + 1) state.word) := by
  have hwork : (state.threads tid).lockWork code state.word = 2 * (code.spins - spin) + 4 := by
    rw [hpc, Pc.lockWork]
  exact .spinOn (by rw [hpc]; rfl) (by omega) (by omega)

/-- The work after one thread has advanced. -/
theorem TrialInv.advance_work (h : TrialInv cfg history trial)
    (hadvance : Advances cfg.code trial.lock tid word' pc') (sleepers' : Finset ThreadId) :
    Trial.work cfg ⟨({ trial.lock with word := word', sleepers := sleepers' } :
      State TransferPc ProtectedState).goto tid pc', trial.remaining, trial.spurious⟩ <
      trial.work cfg := by
  have hactive : trial.lock.threads tid ≠ .idle := by
    intro hidle
    have hbefore := hadvance.before
    rw [hidle] at hbefore
    cases hbefore
  refine Nat.add_lt_add_right (sum_add_le_of_payer ⟨tid, h.count.lt (.inl hactive)⟩ 0 1 ?_ ?_) _
  · have hless := hadvance.less
    simp only [Trial.workOf, threadWork, State.goto, Function.update_self, hadvance.before,
      hadvance.after]
    omega
  · intro other hne
    have hne' : other.val ≠ tid := fun hval => hne (Fin.ext hval)
    have hword := lockWork_word cfg.code (trial.lock.threads other) hadvance.word
    simp only [Trial.workOf, threadWork, State.goto, Function.update_of_ne hne']
    omega

/-- A thread that is woken adds to the work. -/
theorem TrialInv.rouse_work (h : TrialInv cfg history trial)
    (hasleep : trial.lock.threads tid = .asleep) (spurious : Nat) :
    Trial.work cfg ⟨trial.lock.rouse cfg.code tid, trial.remaining, spurious⟩ ≤
      ∑ tid : Fin cfg.threads, trial.workOf cfg tid + 3 + 4 * spurious := by
  have hactive : trial.lock.threads tid ≠ .idle := by simp [hasleep]
  refine Nat.add_le_add_right (sum_le_of_raised ⟨tid, h.count.lt (.inl hactive)⟩ ?_ ?_) _
  · have hpc : ∀ pc, pc = (if cfg.code.rechecks then Pc.recheck else .exchange true) →
        pc.engaged = true ∧ pc.lockWork cfg.code trial.lock.word ≤ 3 := by
      intro pc heq
      subst heq
      split
      · refine ⟨rfl, ?_⟩
        rw [Pc.lockWork]
        split <;> omega
      · exact ⟨rfl, Nat.le_succ 2⟩
    obtain ⟨hengaged, hwork⟩ := hpc _ rfl
    have hbefore : Pc.asleep.engaged = true := rfl
    simp only [Trial.workOf, threadWork, State.rouse, State.goto, Function.update_self, hasleep,
      hengaged, hbefore]
    omega
  · intro other hne
    have hne' : other.val ≠ tid := fun hval => hne (Fin.ext hval)
    simp only [Trial.workOf, threadWork, State.rouse, State.goto, Function.update_of_ne hne']
    exact Nat.le_refl _

/-- The thread that has made the wake-up call has less work. -/
theorem idle_work (trial : Trial) (hlt : tid < cfg.threads)
    (hwake : trial.lock.threads tid = .wake) :
    Trial.work cfg ⟨trial.lock.goto tid .idle, trial.remaining, trial.spurious⟩ + 4 ≤
      trial.work cfg := by
  have hsum : ∑ other : Fin cfg.threads,
      Trial.workOf cfg ⟨trial.lock.goto tid .idle, trial.remaining, trial.spurious⟩ other + 4 ≤
        ∑ other : Fin cfg.threads, trial.workOf cfg other := by
    refine sum_add_le_of_payer ⟨tid, hlt⟩ 0 4 ?_ ?_
    · have hidle : Pc.idle.engaged = false := rfl
      have hbefore : Pc.wake.engaged = false := rfl
      simp only [Trial.workOf, threadWork, State.goto, Function.update_self, hwake, hidle, hbefore,
        Pc.lockWork]
      omega
    · intro other hne
      have hne' : other.val ≠ tid := fun hval => hne (Fin.ext hval)
      simp only [Trial.workOf, threadWork, State.goto, Function.update_of_ne hne']
      exact Nat.le_refl _
  simp only [Trial.work]
  omega

/-- A call of `lock` pays with one of the calls that the loop has left. -/
theorem TrialInv.lock_work (h : TrialInv cfg history trial)
    (hstep : Trial.step cfg trial (.lock tid) = some after) : after.work cfg < trial.work cfg := by
  obtain ⟨henabled, lock, hlock, rfl⟩ := Trial.step_cases hstep
  simp only [TrialEvent.toEvent, ThreeState.step] at hlock
  split at hlock
  · next hidle =>
      obtain rfl := Option.some.inj hlock
      have hleft : 0 < trial.remaining tid := of_decide_eq_true henabled
      refine Nat.add_lt_add_right
        (sum_add_le_of_payer ⟨tid, h.count.lt (.inr hleft)⟩ 0 1 ?_ ?_) _
      · have hengaged : Pc.firstCas.engaged = true := rfl
        have hnot : Pc.idle.engaged = false := rfl
        have hone := Nat.sub_add_cancel hleft
        have hpays : trial.remaining tid * (2 * cfg.code.spins + 2 * cfg.threads + 28) =
            (trial.remaining tid - 1) * (2 * cfg.code.spins + 2 * cfg.threads + 28) +
              (2 * cfg.code.spins + 2 * cfg.threads + 28) := by
          rw [← Nat.succ_mul, Nat.succ_eq_add_one, hone]
        have hstart : (TransferPc.loadSequence 1).left = 16 := rfl
        simp only [Trial.workOf, threadWork, State.goto, Function.update_self, hidle, hengaged,
          hnot, Pc.lockWork, hstart, Trial.remainingAfter, hpays, Bool.false_eq_true, if_true,
          if_false]
        omega
      · intro other hne
        have hne' : other.val ≠ tid := fun hval => hne (Fin.ext hval)
        simp only [Trial.workOf, threadWork, State.goto, Trial.remainingAfter,
          Function.update_of_ne hne']
        exact Nat.le_refl _
  · cases hlock

/-- A wake-up without a cause is one less of those that are left. -/
theorem TrialInv.spuriousWake_work (h : TrialInv cfg history trial)
    (hstep : Trial.step cfg trial (.spuriousWake tid) = some after) :
    after.work cfg < trial.work cfg := by
  obtain ⟨henabled, lock, hlock, rfl⟩ := Trial.step_cases hstep
  simp only [TrialEvent.toEvent, ThreeState.step] at hlock
  split at hlock
  · next hasleep =>
      obtain rfl := Option.some.inj hlock
      have hleft : 0 < trial.spurious := of_decide_eq_true henabled
      have hwork := h.rouse_work hasleep (trial.spurious - 1)
      refine Nat.lt_of_le_of_lt hwork ?_
      simp only [Trial.work]
      omega
  · cases hlock

/-- An access of `ApplyTransfer` brings the transfer closer to its end. -/
theorem TrialInv.transfer_work (h : TrialInv cfg history trial)
    (hstep : Trial.step cfg trial (.transfer tid) = some after) :
    after.work cfg < trial.work cfg := by
  obtain ⟨henabled, lock, hlock, rfl⟩ := Trial.step_cases hstep
  simp only [TrialEvent.toEvent, ThreeState.step] at hlock
  split at hlock
  · next hcritical =>
      obtain rfl := Option.some.inj hlock
      obtain ⟨result, haccess⟩ := Option.isSome_iff_exists.mp henabled
      have hless : result.1.left < (trial.lock.locals tid).left := transfer_left haccess
      have hactive : trial.lock.threads tid ≠ .idle := by simp [hcritical]
      refine Nat.add_lt_add_right
        (sum_add_le_of_payer ⟨tid, h.count.lt (.inl hactive)⟩ 0 1 ?_ ?_) _
      · have hengaged : Pc.critical.engaged = true := rfl
        simp only [Trial.workOf, threadWork, Function.update_self, hcritical, hengaged,
          transferNext, haccess, Option.getD_some, Trial.remainingAfter, if_true]
        omega
      · intro other hne
        have hne' : other.val ≠ tid := fun hval => hne (Fin.ext hval)
        simp only [Trial.workOf, threadWork, Trial.remainingAfter, Function.update_of_ne hne']
        exact Nat.le_refl _
  · cases hlock

/-- `unlock` ends the thread's engagement. What the others have to do grows by two accesses at
most, because the word changes. -/
theorem TrialInv.unlock_work (h : TrialInv cfg history trial)
    (hstep : Trial.step cfg trial (.unlock tid) = some after) :
    after.work cfg < trial.work cfg := by
  obtain ⟨-, lock, hlock, rfl⟩ := Trial.step_cases hstep
  simp only [TrialEvent.toEvent, ThreeState.step] at hlock
  split at hlock
  · next hcritical =>
      obtain rfl := Option.some.inj hlock
      have hactive : trial.lock.threads tid ≠ .idle := by simp [hcritical]
      refine Nat.add_lt_add_right
        (sum_add_le_of_payer ⟨tid, h.count.lt (.inl hactive)⟩ 2 1 ?_ ?_) _
      · have hpc : ∀ pc, pc = (if trial.lock.word = 2 then Pc.wake else .idle) →
            pc.engaged = false ∧ pc.lockWork cfg.code 0 ≤ 4 := by
          intro pc heq
          subst heq
          split <;> exact ⟨rfl, by simp only [Pc.lockWork]; omega⟩
        obtain ⟨houtside, hwork⟩ := hpc _ rfl
        have hengaged : Pc.critical.engaged = true := rfl
        simp only [Trial.workOf, threadWork, State.goto, Function.update_self, hcritical,
          hengaged, houtside, Trial.remainingAfter, Bool.false_eq_true, if_true, if_false]
        omega
      · intro other hne
        have hne' : other.val ≠ tid := fun hval => hne (Fin.ext hval)
        have hword := lockWork_any cfg.code (trial.lock.threads other) trial.lock.word 0
        simp only [Trial.workOf, threadWork, State.goto, Trial.remainingAfter,
          Function.update_of_ne hne']
        omega
  · cases hlock

/-- `FutexWake` wakes a thread or finds none, and returns. -/
theorem TrialInv.wake_work (h : TrialInv cfg history trial) {sleeper : ThreadId}
    (hstep : Trial.step cfg trial (.wake tid sleeper) = some after) :
    after.work cfg < trial.work cfg := by
  obtain ⟨-, lock, hlock, rfl⟩ := Trial.step_cases hstep
  simp only [TrialEvent.toEvent, ThreeState.step] at hlock
  split at hlock
  · next hwake =>
      have hactive : trial.lock.threads tid ≠ .idle := by simp [hwake]
      have hlt := h.count.lt (.inl hactive)
      split at hlock
      · next hsleeper =>
          obtain rfl := Option.some.inj hlock
          have hasleep := (h.wake.sleepers sleeper).mp hsleeper
          have hne : tid ≠ sleeper := by
            intro heq
            rw [heq, hasleep] at hwake
            cases hwake
          have hstill : (trial.lock.rouse cfg.code sleeper).threads tid = .wake := by
            simp [State.rouse, State.goto, Function.update_of_ne hne, hwake]
          have hrouse := h.rouse_work hasleep trial.spurious
          have hidle := idle_work
            ⟨trial.lock.rouse cfg.code sleeper, trial.remaining, trial.spurious⟩ hlt hstill
          simp only [Trial.remainingAfter, Trial.spuriousAfter, Trial.work] at hidle hrouse ⊢
          omega
      · split at hlock
        · obtain rfl := Option.some.inj hlock
          have hidle := idle_work trial hlt hwake
          simp only [Trial.remainingAfter, Trial.spuriousAfter] at hidle ⊢
          omega
        · cases hlock
  · cases hlock

/-- Every step of the trial leaves less work. -/
theorem TrialInv.step_work (h : TrialInv cfg history trial) {event : TrialEvent}
    (hstep : Trial.step cfg trial event = some after) : after.work cfg < trial.work cfg := by
  obtain ⟨henabled, lock, hlock, rfl⟩ := Trial.step_cases hstep
  cases event with
  | lock => exact h.lock_work hstep
  | access tid =>
      obtain ⟨word', pc', sleepers', hadvance, rfl⟩ := access_advances hlock
      exact h.advance_work hadvance sleepers'
  | spuriousFailure tid =>
      simp only [TrialEvent.toEvent, ThreeState.step] at hlock
      split at hlock
      · next spin hpc =>
          obtain rfl := Option.some.inj hlock
          exact h.advance_work (spuriousFailure_advances hpc) trial.lock.sleepers
      · cases hlock
  | spuriousWake => exact h.spuriousWake_work hstep
  | transfer => exact h.transfer_work hstep
  | unlock => exact h.unlock_work hstep
  | wake => exact h.wake_work hstep

end Work

/-! ## Progress -/

section Progress

variable {cfg : TrialConfig} {history : History TransferPc ProtectedState} {trial : Trial}
  {state : State TransferPc ProtectedState} {tid : ThreadId}

/-- A thread inside `lock` that does not sleep has an access. -/
theorem access_isSome (code : LockCode) (hlocking : (state.threads tid).locking = true)
    (hawake : state.threads tid ≠ .asleep) : ∃ next, access code state tid = some next := by
  unfold access
  cases hpc : state.threads tid with
  | idle | critical | wake =>
      rw [hpc] at hlocking
      cases hlocking
  | asleep => exact absurd hpc hawake
  | firstCas | spinCas | wait | recheck =>
      dsimp only
      split <;> exact ⟨_, rfl⟩
  | spinLoad | firstExchange | exchange => exact ⟨_, rfl⟩

theorem Trial.exists_step (event : TrialEvent) {lock : State TransferPc ProtectedState}
    (henabled : trial.enabled event = true)
    (hlock : ThreeState.step cfg.code trial.lock event.toEvent = some lock) :
    ∃ event next, Trial.step cfg trial event = some next := by
  refine ⟨event, ⟨lock, trial.remainingAfter event, trial.spuriousAfter event⟩, ?_⟩
  rw [Trial.step, if_pos henabled, hlock]
  rfl

/-- A thread that is neither idle nor asleep has a step. -/
theorem Trial.awake_moves (trial : Trial)
    (hactive : trial.lock.threads tid ≠ .idle) (hawake : trial.lock.threads tid ≠ .asleep) :
    ∃ event next, Trial.step cfg trial event = some next := by
  by_cases hcritical : trial.lock.threads tid = .critical
  · cases haccess : transferAccess (trial.lock.locals tid, trial.lock.data) with
    | some result =>
        refine Trial.exists_step (.transfer tid) ?_ (if_pos hcritical)
        show (transferAccess (trial.lock.locals tid, trial.lock.data)).isSome = true
        rw [haccess, Option.isSome_some]
    | none =>
        refine Trial.exists_step (.unlock tid) ?_ (if_pos hcritical)
        show (transferAccess (trial.lock.locals tid, trial.lock.data)).isNone = true
        rw [haccess, Option.isNone_none]
  by_cases hwake : trial.lock.threads tid = .wake
  · by_cases hnone : trial.lock.sleepers = ∅
    · have hstep : ThreeState.step cfg.code trial.lock (.wake tid tid) =
          some (trial.lock.goto tid .idle) := by
        simp only [ThreeState.step, if_pos hwake, hnone, Finset.notMem_empty, if_true, if_false]
      exact Trial.exists_step (.wake tid tid) rfl hstep
    · obtain ⟨sleeper, hsleeper⟩ := Finset.nonempty_iff_ne_empty.mpr hnone
      have hstep : ThreeState.step cfg.code trial.lock (.wake tid sleeper) =
          some ((trial.lock.rouse cfg.code sleeper).goto tid .idle) := by
        simp only [ThreeState.step, if_pos hwake, if_pos hsleeper]
      exact Trial.exists_step (.wake tid sleeper) rfl hstep
  · have hlocking : (trial.lock.threads tid).locking = true := by
      unfold Pc.locking
      split <;> simp_all
    obtain ⟨next, hnext⟩ := access_isSome cfg.code hlocking hawake
    exact Trial.exists_step (.access tid) rfl hnext

/-- A thread that sleeps leaves another one awake, which holds the lock or is due to. -/
theorem TrialInv.awake_of_asleep (h : TrialInv cfg history trial)
    (hasleep : trial.lock.threads tid = .asleep) :
    ∃ other, trial.lock.threads other ≠ .idle ∧ trial.lock.threads other ≠ .asleep := by
  rcases h.wake.covered ⟨tid, (h.wake.sleepers tid).mpr hasleep⟩ with htwo | hwake | hwoken
  · have htaken : trial.lock.word ≠ 0 := by
      rw [htwo]
      decide
    obtain ⟨other, hcritical⟩ := h.owner.taken.mp htaken
    have hpc : trial.lock.threads other = .critical := hcritical
    exact ⟨other, by simp [hpc], by simp [hpc]⟩
  · obtain ⟨other, hother⟩ := hwake
    exact ⟨other, by simp [hother], by simp [hother]⟩
  · obtain ⟨other, hother⟩ := hwoken
    refine ⟨other, fun heq => ?_, fun heq => ?_⟩
    · simp [heq, Pc.woken] at hother
    · simp [heq, Pc.woken] at hother

/-- As long as the threads have not returned, one of them has a step. -/
theorem TrialInv.moves (h : TrialInv cfg history trial) (hnot : ¬ trial.finished) :
    ∃ event next, Trial.step cfg trial event = some next := by
  by_cases hawake : ∃ tid, trial.lock.threads tid ≠ .idle ∧ trial.lock.threads tid ≠ .asleep
  · obtain ⟨tid, hactive, hawake⟩ := hawake
    exact trial.awake_moves hactive hawake
  · have hidle : ∀ tid, trial.lock.threads tid = .idle := by
      intro tid
      by_contra hactive
      by_cases hasleep : trial.lock.threads tid = .asleep
      · exact hawake (h.awake_of_asleep hasleep)
      · exact hawake ⟨tid, hactive, hasleep⟩
    have hleft : ∃ tid, 0 < trial.remaining tid := by
      by_contra hnone
      refine hnot fun tid => ⟨?_, hidle tid⟩
      exact Nat.eq_zero_of_not_pos fun hpos => hnone ⟨tid, hpos⟩
    obtain ⟨tid, hpos⟩ := hleft
    exact Trial.exists_step (.lock tid) (decide_eq_true hpos) (if_pos (hidle tid))

/-- When all the threads have returned, all the transfers have been made. -/
theorem TrialInv.finished_data (h : TrialInv cfg history trial) (hfinished : trial.finished) :
    trial.lock.data = .afterCalls
      (List.replicate (cfg.threads * cfg.opsPerThread) (.applyTransfer 1)) := by
  have hahead : ∀ tid, ahead trial.lock.threads trial.remaining tid = 0 := by
    intro tid
    obtain ⟨hnone, hidle⟩ := hfinished tid
    simp [ahead, hnone, hidle, Pc.engaged]
  have hall : history.completed.length = cfg.threads * cfg.opsPerThread := by
    have hcount := h.count.count
    simpa only [hahead, Finset.sum_const_zero, Nat.add_zero] using hcount
  have hfree : trial.lock.word = 0 := by
    by_contra htaken
    obtain ⟨tid, hcritical⟩ := h.owner.taken.mp htaken
    have hidle := (hfinished tid).2
    rw [hcritical] at hidle
    cases hidle
  rw [h.owner.quiet hfree, h.outcome, hall]

end Progress

/-- In every run of the trial with one of the three locks all the threads return, and the accounts
are those of the transfers made one after the other. -/
theorem trial_completes (cfg : TrialConfig) : TrialCompletes cfg := by
  refine ⟨.of_work (Trial.work cfg) ?_ ?_, fun trial hreach hfinished => ?_⟩
  · intro trial event next hreach _ hstep
    obtain ⟨history, h⟩ := trialInv_of_reachable hreach
    exact .inr (h.step_work hstep)
  · intro trial hreach hnot
    obtain ⟨history, h⟩ := trialInv_of_reachable hreach
    obtain ⟨event, next, hstep⟩ := h.moves hnot
    exact ⟨event, next, trivial, hstep, h.step_work hstep⟩
  · obtain ⟨history, h⟩ := trialInv_of_reachable hreach
    have hdata := h.finished_data hfinished
    refine ⟨hdata, ?_⟩
    rw [hdata]
    exact invariantOk_transfers _

end HotPath.Locks.ThreeState
