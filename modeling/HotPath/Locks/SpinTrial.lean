import HotPath.Foundation.LockedRounds
import HotPath.Locks.AccountChecksum

/-!
# The trials of the spinlocks

`RunLockTrial` with one of the spinlocks that have `lock` and `unlock`, and the parallel benchmarks
of the coherency challenge that call `RecordExecution` under `NaiveCasSpinlock` or
`ReadBeforeCasSpinlock`. In one of them a thread takes the lock only when its magazine of 32 buffers
is empty.

A spinlock is not fair: a thread can look in vain forever while others acquire the lock. Since each
of them has only so many rounds, every fair run ends all the same, and the data is then that of the
rounds made one after the other (`spin_trial_completes`, `parallel_ledger_completes`).
-/

namespace HotPath.Locks

open HotPath.Foundation

/-! ## How far a thread is from the lock -/

theorem exchange_free {Place : Type} (failed : Place) :
    (exchangeAttempt failed false).2 = none := rfl

theorem cas_free {Place : Type} (failed : Place) : (casAttempt failed 0 false).2 = none := rfl

/-- The accesses of `lock` before the exchange, if the flag stays clear. -/
def TtasPlace.effort : TtasPlace → Nat
  | .exchange => 0
  | .load => 1
  | .spin => 2
  | .pause => 3

/-- The accesses of `Lock` before the compare-exchange, if the word stays 0. -/
def ReadBeforeCasPlace.effort : ReadBeforeCasPlace → Nat
  | .cas => 0
  | .load => 1
  | .pause => 2

def naiveTASBound : SpinBound naiveTASLock where
  effort _ := 0
  most := 0
  le_most _ := Nat.le_refl _
  lowers h := nomatch (exchange_free ()).symm.trans h

def ttasBound (after : TtasPlace) : SpinBound (ttasLock after) where
  effort := TtasPlace.effort
  most := 3
  le_most place := by cases place <;> decide
  lowers {place place'} h := by
    cases place with
    | exchange => cases (exchange_free TtasPlace.spin).symm.trans h
    | load | spin | pause =>
        obtain rfl := Option.some.inj h
        exact Nat.lt_succ_self _

def naiveCasBound : SpinBound naiveCasSpinlock where
  effort _ := 0
  most := 0
  le_most _ := Nat.le_refl _
  lowers h := nomatch (cas_free ()).symm.trans h

def readBeforeCasBound : SpinBound readBeforeCasSpinlock where
  effort := ReadBeforeCasPlace.effort
  most := 2
  le_most place := by cases place <;> decide
  lowers {place place'} h := by
    cases place with
    | cas => cases (cas_free ReadBeforeCasPlace.load).symm.trans h
    | load | pause =>
        obtain rfl := Option.some.inj h
        exact Nat.lt_succ_self _

/-- A thread inside `lock` of a spinlock acquires it after a few looks, if it stays free. -/
def SpinLock.bound : (lock : SpinLock) → SpinBound lock.code
  | .naiveTAS => naiveTASBound
  | .ttasNoPause => ttasBound .spin
  | .ttasPause => ttasBound .pause
  | .naiveCas => naiveCasBound
  | .readBeforeCas => readBeforeCasBound

/-! ## The accesses of an update -/

/-- The accesses of the loop over the buckets that are left. -/
def BucketPc.left : BucketPc → Nat
  | .load _ idx => 2 * (5 - idx)
  | .store _ idx _ => 2 * (5 - idx) - 1

/-- The accesses of `ApplyTransfer` that are left. -/
def TransferPc.left : TransferPc → Nat
  | .loadSequence _ => 16
  | .storeSequence _ _ => 15
  | .loadBalanceA _ _ => 14
  | .storeBalanceA _ _ _ => 13
  | .loadBalanceB _ _ => 12
  | .storeBalanceB _ _ => 11
  | .buckets pc => pc.left

/-- The accesses of `RecordExecution` that are left. -/
def ExecutionPc.left : ExecutionPc → Nat
  | .loadSequence _ _ => 16
  | .storeSequence _ _ _ => 15
  | .loadFillQty _ _ _ => 14
  | .storeFillQty _ _ _ _ => 13
  | .loadNotional _ _ _ => 12
  | .storeNotional _ _ => 11
  | .buckets pc => pc.left

theorem bucket_left {before after : BucketPc × Buckets} (h : bucketAccess before = some after) :
    after.1.left < before.1.left := by
  obtain ⟨pc, buckets⟩ := before
  cases pc with
  | load seq idx =>
      simp only [bucketAccess] at h
      split at h
      · obtain rfl := Option.some.inj h
        simp only [BucketPc.left]
        omega
      · cases h
  | store seq idx bucket =>
      obtain rfl := Option.some.inj h
      have hlt := idx.isLt
      simp only [BucketPc.left]
      omega

theorem transfer_left {before after : TransferPc × ProtectedState}
    (h : transferAccess before = some after) : after.1.left < before.1.left := by
  obtain ⟨pc, state⟩ := before
  cases pc with
  | loadSequence | storeSequence | loadBalanceA | storeBalanceA | loadBalanceB =>
      obtain rfl := Option.some.inj h
      exact Nat.lt_succ_self _
  | storeBalanceB seq balance =>
      obtain rfl := Option.some.inj h
      exact Nat.lt_succ_self _
  | buckets pc =>
      obtain ⟨last, hbucket, rfl⟩ := Option.map_eq_some_iff.mp h
      exact bucket_left hbucket

theorem execution_left {before after : ExecutionPc × SharedOrderBookLedger}
    (h : executionAccess before = some after) : after.1.left < before.1.left := by
  obtain ⟨pc, ledger⟩ := before
  cases pc with
  | loadSequence | storeSequence | loadFillQty | storeFillQty | loadNotional | storeNotional =>
      obtain rfl := Option.some.inj h
      exact Nat.lt_succ_self _
  | buckets pc =>
      obtain ⟨last, hbucket, rfl⟩ := Option.map_eq_some_iff.mp h
      exact bucket_left hbucket

def transferBound : AccessBound applyTransfer where
  left := TransferPc.left
  lowers h := transfer_left h

def executionBound : AccessBound recordExecution where
  left := ExecutionPc.left
  lowers h := execution_left h

/-! ## The lock trial -/

/-- The result `invariant_ok` of a trial with some number of operations. -/
def ProtectedState.invariantOk (state : ProtectedState) (totalOps : Nat) : Bool :=
  state.sequence == UInt64.ofNat totalOps && state.balanceA + state.balanceB == 2000000

/-- Transfers of the amount 1 one after the other. -/
theorem serial_transfers (count : Nat) :
    applyTransfer.serial {} (List.replicate count 1) =
      .afterCalls (List.replicate count (.applyTransfer 1)) := by
  induction count with
  | zero => rfl
  | succ count ih =>
      rw [List.replicate_succ', List.replicate_succ', applyTransfer.serial_concat,
        ProtectedState.afterCalls_concat, ih]
      rfl

theorem invariantOk_transfers (count : Nat) :
    (ProtectedState.afterCalls (List.replicate count (.applyTransfer 1))).invariantOk count =
      true := by
  have htotal := ProtectedState.afterCalls_total (List.replicate count (.applyTransfer 1))
  have hsequence := ProtectedState.afterCalls_sequence (List.replicate count (.applyTransfer 1))
  rw [List.length_replicate] at hsequence
  rw [ProtectedState.total] at htotal
  simp [ProtectedState.invariantOk, htotal, hsequence]

/-- `RunLockTrial`: every thread makes the same number of transfers of the amount 1. -/
def lockTrialRounds (threads opsPerThread spurious : Nat) : RoundConfig UInt64 ProtectedState :=
  .uniform {} threads opsPerThread 1 spurious

/-- Every fair run of the trial ends, the accounts are then what the transfers leave one after the
other, and `invariant_ok` is true. -/
structure SpinTrialCompletes (lock : SpinLock) (threads opsPerThread spurious : Nat) : Prop where
  ends : (lockedRounds lock.code applyTransfer
    (lockTrialRounds threads opsPerThread spurious)).FairlyReaches (fun _ _ => True)
      (fun event => some event.thread) LockedRounds.finished
  accounts : ∀ rounds, (lockedRounds lock.code applyTransfer
      (lockTrialRounds threads opsPerThread spurious)).Reachable (fun _ _ => True) rounds →
    rounds.finished → rounds.locked.data =
        .afterCalls (List.replicate (threads * opsPerThread) (.applyTransfer 1)) ∧
      rounds.locked.data.invariantOk (threads * opsPerThread) = true

/-- The trial with a spinlock ends in every fair run, with the right accounts. `RunLockTrial` takes
the locks with `lock` and `unlock`, which are `NaiveTASLock`, `TTASNoPauseLock` and `TTASPauseLock`.
Its loop would end with the other two as well. -/
theorem spin_trial_completes (lock : SpinLock) (threads opsPerThread spurious : Nat) :
    SpinTrialCompletes lock threads opsPerThread spurious := by
  have hcomplete : RoundsComplete lock.code applyTransfer
      (lockTrialRounds threads opsPerThread spurious) := rounds_complete transferBound lock.bound
  refine ⟨hcomplete.ends, fun rounds hreach hfinished => ?_⟩
  rw [hcomplete.uniform hreach hfinished, serial_transfers]
  exact ⟨rfl, invariantOk_transfers _⟩

/-! ## The ledger of the coherency challenge -/

/-- The loop of a thread with a magazine. It takes one buffer in each iteration, and records a
refill of 32 buffers when the magazine is empty. -/
def magazineLoop : Nat → UInt64 → List (UInt64 × UInt64)
  | 0, _ => []
  | iters + 1, localMag =>
      if localMag = 0 then (32, 10) :: magazineLoop iters (32 - 1)
      else magazineLoop iters (localMag - 1)

/-- The loops that record executions. -/
inductive LedgerLoop where
  | everyIteration
  | magazine

/-- The executions that a thread records. -/
def LedgerLoop.executions (iters : Nat) : LedgerLoop → List (UInt64 × UInt64)
  | .everyIteration => List.replicate iters (1, 10)
  | .magazine => magazineLoop iters 0

/-- `RunParallelBench` with one of the loops on a fresh ledger. -/
def parallelLedger (loop : LedgerLoop) (threads iters spurious : Nat) :
    RoundConfig (UInt64 × UInt64) SharedOrderBookLedger where
  initial := {}
  threads := threads
  rounds tid := if tid < threads then loop.executions iters else []
  spurious := spurious
  absent _ hge := if_neg (Nat.not_lt_of_le hge)

/-- The ledger after equal executions. -/
def SharedOrderBookLedger.after (count : Nat) (qty priceTicks : UInt64) :
    SharedOrderBookLedger where
  sequence := UInt64.ofNat count
  totalFillQty := UInt64.ofNat count * qty
  rollingNotional := UInt64.ofNat count * (qty * priceTicks)
  venueBuckets := (mixNext^[count] (0, fun _ => 0)).2

/-- How often a thread takes the lock. -/
def LedgerLoop.count (iters : Nat) : LedgerLoop → Nat
  | .everyIteration => iters
  | .magazine => (iters + 31) / 32

/-- The arguments of `RecordExecution`. -/
def LedgerLoop.execution : LedgerLoop → UInt64 × UInt64
  | .everyIteration => (1, 10)
  | .magazine => (32, 10)

/-- Every fair run of the benchmark ends, and the ledger is then that of all the executions. -/
structure LedgerCompletes (lock : SpinLock) (loop : LedgerLoop) (threads iters spurious : Nat) :
    Prop where
  ends : (lockedRounds lock.code recordExecution
    (parallelLedger loop threads iters spurious)).FairlyReaches (fun _ _ => True)
      (fun event => some event.thread) LockedRounds.finished
  ledger : ∀ rounds, (lockedRounds lock.code recordExecution
      (parallelLedger loop threads iters spurious)).Reachable (fun _ _ => True) rounds →
    rounds.finished → rounds.locked.data =
      .after (threads * loop.count iters) loop.execution.1 loop.execution.2

/-- A magazine with some buffers is refilled once for every 32 buffers that are missing. -/
theorem magazineLoop_eq (iters : Nat) {mag : Nat} (hmag : mag < 32) :
    magazineLoop iters (UInt64.ofNat mag) =
      List.replicate ((iters - mag + 31) / 32) (32, 10) := by
  induction iters generalizing mag with
  | zero =>
      have hnone : (0 - mag + 31) / 32 = 0 := by omega
      rw [hnone]
      rfl
  | succ iters ih =>
      cases mag with
      | zero =>
          have hrefill : (iters + 1 - 0 + 31) / 32 = (iters - 31 + 31) / 32 + 1 := by omega
          rw [hrefill, List.replicate_succ, ← ih (by decide : 31 < 32)]
          rfl
      | succ mag =>
          have hsome : UInt64.ofNat (mag + 1) ≠ 0 := by
            rw [ne_eq, ← UInt64.toNat_inj, UInt64.toNat_ofNat']
            simp only [UInt64.toNat_zero]
            omega
          have hless : UInt64.ofNat (mag + 1) - 1 = UInt64.ofNat mag := by
            rw [UInt64.ofNat_add]
            exact UInt64.add_sub_cancel _ _
          have hmissing : iters + 1 - (mag + 1) = iters - mag := by omega
          rw [magazineLoop, if_neg hsome, hless, ih (by omega), hmissing]

/-- Every thread records the same executions. -/
theorem executions_eq (loop : LedgerLoop) (iters : Nat) :
    loop.executions iters = List.replicate (loop.count iters) loop.execution := by
  cases loop with
  | everyIteration => rfl
  | magazine => exact magazineLoop_eq iters (by decide : 0 < 32)

theorem parallelLedger_eq (loop : LedgerLoop) (threads iters spurious : Nat) :
    parallelLedger loop threads iters spurious =
      .uniform {} threads (loop.count iters) loop.execution spurious := by
  simp only [parallelLedger, RoundConfig.uniform, executions_eq]

/-- Equal executions one after the other. -/
theorem serial_executions (count : Nat) (qty priceTicks : UInt64) :
    recordExecution.serial {} (List.replicate count (qty, priceTicks)) =
      .after count qty priceTicks := by
  have hbuckets := venueBuckets_serial {} (List.replicate count (qty, priceTicks))
  rw [List.length_replicate] at hbuckets
  have htotals : (recordExecution.serial {} (List.replicate count (qty, priceTicks))).totals =
      (UInt64.ofNat count, UInt64.ofNat count * qty, UInt64.ofNat count * (qty * priceTicks)) := by
    clear hbuckets
    induction count with
    | zero => simp [Update.serial, SharedOrderBookLedger.totals]
    | succ count ih =>
        have hlast : ∀ ledger : SharedOrderBookLedger,
            (recordExecution.run (qty, priceTicks) ledger).totals =
              addExecution ledger.totals (qty, priceTicks) := fun _ => rfl
        rw [List.replicate_succ', recordExecution.serial_concat, hlast, ih, UInt64.ofNat_add]
        simp [addExecution, UInt64.add_mul]
  obtain ⟨hsequence, hrest⟩ := Prod.mk.inj htotals
  obtain ⟨hfill, hnotional⟩ := Prod.mk.inj hrest
  generalize recordExecution.serial {} (List.replicate count (qty, priceTicks)) = ledger at *
  obtain ⟨sequence, totalFillQty, rollingNotional, venueBuckets⟩ := ledger
  dsimp only at hsequence hfill hnotional hbuckets
  rw [hsequence, hfill, hnotional, hbuckets]
  rfl

/-- The benchmark ends in every fair run, with all executions on the ledger. -/
theorem parallel_ledger_completes (lock : SpinLock) (loop : LedgerLoop)
    (threads iters spurious : Nat) : LedgerCompletes lock loop threads iters spurious := by
  have hcomplete : RoundsComplete lock.code recordExecution
      (.uniform {} threads (loop.count iters) loop.execution spurious) :=
    rounds_complete executionBound lock.bound
  have heq := parallelLedger_eq loop threads iters spurious
  refine ⟨?_, fun rounds hreach hfinished => ?_⟩
  · rw [heq]
    exact hcomplete.ends
  · rw [heq] at hreach
    rw [hcomplete.uniform hreach hfinished]
    exact serial_executions _ _ _

end HotPath.Locks
