import HotPath.Locks.SpinLocks
import Mathlib.Data.List.Perm.Basic
import Mathlib.Logic.Function.Iterate

/-!
# Ledgers under a spinlock

`SharedOrderBookLedger::RecordExecution` and `ProtectedState::ApplyTransfer`, as the functions
that they compute and as separate loads and stores of their fields. Both end in the same loop over
five buckets. The words wrap around.

`ledgers_serial` says that under each of the five spinlocks the updates run one after the other,
that the totals do not depend on their order, and that the buckets depend only on their number.
-/

namespace HotPath.Locks

open HotPath.Foundation

/-! ## The buckets -/

/-- The five buckets. -/
abbrev Buckets := Fin 5 → UInt64

/-- The new value of a bucket. -/
def mixBucket (seq : UInt64) (idx : Nat) (bucket : UInt64) : UInt64 :=
  (bucket ^^^ (seq + UInt64.ofNat idx)) * 6364136223846793005 + 1442695040888963407

/-- The loop over the buckets. -/
def mixBuckets (seq : UInt64) (buckets : Buckets) : Buckets :=
  fun idx => mixBucket seq idx (buckets idx)

/-- Where a thread is in the loop over the buckets. -/
inductive BucketPc where
  | load (seq : UInt64) (idx : Nat)
  | store (seq : UInt64) (idx : Fin 5) (bucket : UInt64)

/-- The next access of the loop. -/
def bucketAccess : BucketPc × Buckets → Option (BucketPc × Buckets)
  | (.load seq idx, buckets) =>
      if h : idx < 5 then some (.store seq ⟨idx, h⟩ (buckets ⟨idx, h⟩), buckets) else none
  | (.store seq idx bucket, buckets) =>
      some (.load seq (idx + 1), Function.update buckets idx (mixBucket seq idx bucket))

/-- The buckets after some passes of the loop. -/
def mixedUpTo (seq : UInt64) (passes : Nat) (buckets : Buckets) : Buckets :=
  fun idx => if idx < passes then mixBucket seq idx (buckets idx) else buckets idx

/-- One pass of the loop is a load and a store. -/
theorem bucket_pass (seq : UInt64) (buckets : Buckets) {passes : Nat} (h : passes < 5) :
    Steps bucketAccess (.load seq passes, mixedUpTo seq passes buckets)
      (.load seq (passes + 1), mixedUpTo seq (passes + 1) buckets) := by
  have hload : bucketAccess (.load seq passes, mixedUpTo seq passes buckets) =
      some (.store seq ⟨passes, h⟩ (buckets ⟨passes, h⟩), mixedUpTo seq passes buckets) := by
    simp [bucketAccess, mixedUpTo, h]
  have hstore : bucketAccess
      (.store seq ⟨passes, h⟩ (buckets ⟨passes, h⟩), mixedUpTo seq passes buckets) =
      some (.load seq (passes + 1), mixedUpTo seq (passes + 1) buckets) := by
    simp only [bucketAccess, Option.some.injEq, Prod.mk.injEq, true_and]
    funext idx
    by_cases heq : idx = ⟨passes, h⟩
    · subst heq
      simp [mixedUpTo]
    · have hne : idx.val ≠ passes := fun hval => heq (Fin.ext hval)
      have hiff : idx.val < passes + 1 ↔ idx.val < passes := by omega
      simp [Function.update_of_ne heq, mixedUpTo, hiff]
  exact .head hload (.head hstore .refl)

/-- The loop mixes all the buckets. -/
theorem bucket_loop (seq : UInt64) (buckets : Buckets) :
    Steps bucketAccess (.load seq 0, buckets) (.load seq 5, mixBuckets seq buckets) := by
  have hpasses : ∀ passes, passes ≤ 5 →
      Steps bucketAccess (.load seq 0, buckets)
        (.load seq passes, mixedUpTo seq passes buckets) := by
    intro passes
    induction passes with
    | zero =>
        intro _
        have hnone : mixedUpTo seq 0 buckets = buckets := by
          funext idx
          simp [mixedUpTo]
        rw [hnone]
        exact .refl
    | succ passes ih =>
        intro h
        exact (ih (Nat.le_of_succ_le h)).trans (bucket_pass seq buckets h)
  have hall : mixedUpTo seq 5 buckets = mixBuckets seq buckets := by
    funext idx
    simp [mixedUpTo, mixBuckets]
  rw [← hall]
  exact hpasses 5 (Nat.le_refl 5)

theorem bucket_loop_ends (seq : UInt64) (buckets : Buckets) :
    bucketAccess (.load seq 5, buckets) = none := by
  simp [bucketAccess]

/-! ## The order book ledger -/

/-- `SharedOrderBookLedger`. -/
structure SharedOrderBookLedger where
  sequence : UInt64 := 0
  totalFillQty : UInt64 := 0
  rollingNotional : UInt64 := 0
  venueBuckets : Buckets := fun _ => 0

/-- `RecordExecution`. -/
def SharedOrderBookLedger.recordExecution (ledger : SharedOrderBookLedger)
    (qty priceTicks : UInt64) : SharedOrderBookLedger :=
  let seq := ledger.sequence + 1
  { sequence := seq
    totalFillQty := ledger.totalFillQty + qty
    rollingNotional := ledger.rollingNotional + qty * priceTicks
    venueBuckets := mixBuckets seq ledger.venueBuckets }

/-- Where a thread is inside `RecordExecution`. -/
inductive ExecutionPc where
  | loadSequence (qty priceTicks : UInt64)
  | storeSequence (qty priceTicks seq : UInt64)
  | loadFillQty (qty priceTicks seq : UInt64)
  | storeFillQty (qty priceTicks seq total : UInt64)
  | loadNotional (qty priceTicks seq : UInt64)
  | storeNotional (seq notional : UInt64)
  | buckets (pc : BucketPc)

/-- The next access of `RecordExecution`. -/
def executionAccess : ExecutionPc × SharedOrderBookLedger →
    Option (ExecutionPc × SharedOrderBookLedger)
  | (.loadSequence qty priceTicks, ledger) =>
      some (.storeSequence qty priceTicks (ledger.sequence + 1), ledger)
  | (.storeSequence qty priceTicks seq, ledger) =>
      some (.loadFillQty qty priceTicks seq, { ledger with sequence := seq })
  | (.loadFillQty qty priceTicks seq, ledger) =>
      some (.storeFillQty qty priceTicks seq (ledger.totalFillQty + qty), ledger)
  | (.storeFillQty qty priceTicks seq total, ledger) =>
      some (.loadNotional qty priceTicks seq, { ledger with totalFillQty := total })
  | (.loadNotional qty priceTicks seq, ledger) =>
      some (.storeNotional seq (ledger.rollingNotional + qty * priceTicks), ledger)
  | (.storeNotional seq notional, ledger) =>
      some (.buckets (.load seq 0), { ledger with rollingNotional := notional })
  | (.buckets pc, ledger) =>
      (bucketAccess (pc, ledger.venueBuckets)).map fun next =>
        (.buckets next.1, { ledger with venueBuckets := next.2 })

/-- The accesses of `RecordExecution` compute it. -/
theorem execution_steps (qty priceTicks : UInt64) (ledger : SharedOrderBookLedger) :
    Steps executionAccess (.loadSequence qty priceTicks, ledger)
      (.buckets (.load (ledger.sequence + 1) 5), ledger.recordExecution qty priceTicks) := by
  have hloop := (bucket_loop (ledger.sequence + 1) ledger.venueBuckets).embed
    executionAccess
    (fun next => (.buckets next.1,
      { sequence := ledger.sequence + 1
        totalFillQty := ledger.totalFillQty + qty
        rollingNotional := ledger.rollingNotional + qty * priceTicks
        venueBuckets := next.2 }))
    (fun now next h => by simp [executionAccess, h])
  exact .head rfl (.head rfl (.head rfl (.head rfl (.head rfl (.head rfl hloop)))))

/-- `RecordExecution` as an update. -/
def recordExecution : Update (UInt64 × UInt64) ExecutionPc SharedOrderBookLedger where
  start arg := .loadSequence arg.1 arg.2
  access := executionAccess
  run arg ledger := ledger.recordExecution arg.1 arg.2
  run_eq arg ledger :=
    ⟨_, execution_steps arg.1 arg.2 ledger, by simp [executionAccess, bucket_loop_ends]⟩

/-! ## The protected accounts -/

/-- `ProtectedState`. -/
structure ProtectedState where
  sequence : UInt64 := 0
  balanceA : UInt64 := 1000000
  balanceB : UInt64 := 1000000
  checksum : UInt64 := 2000000
  buckets : Buckets := fun _ => 0

/-- `ApplyTransfer`. -/
def ProtectedState.applyTransfer (state : ProtectedState) (amount : UInt64) : ProtectedState :=
  let seq := state.sequence + 1
  { state with
    sequence := seq
    balanceA := state.balanceA + amount
    balanceB := state.balanceB - amount
    buckets := mixBuckets seq state.buckets }

/-- Where a thread is inside `ApplyTransfer`. -/
inductive TransferPc where
  | loadSequence (amount : UInt64)
  | storeSequence (amount seq : UInt64)
  | loadBalanceA (amount seq : UInt64)
  | storeBalanceA (amount seq balance : UInt64)
  | loadBalanceB (amount seq : UInt64)
  | storeBalanceB (seq balance : UInt64)
  | buckets (pc : BucketPc)

/-- The next access of `ApplyTransfer`. -/
def transferAccess : TransferPc × ProtectedState → Option (TransferPc × ProtectedState)
  | (.loadSequence amount, state) => some (.storeSequence amount (state.sequence + 1), state)
  | (.storeSequence amount seq, state) =>
      some (.loadBalanceA amount seq, { state with sequence := seq })
  | (.loadBalanceA amount seq, state) =>
      some (.storeBalanceA amount seq (state.balanceA + amount), state)
  | (.storeBalanceA amount seq balance, state) =>
      some (.loadBalanceB amount seq, { state with balanceA := balance })
  | (.loadBalanceB amount seq, state) =>
      some (.storeBalanceB seq (state.balanceB - amount), state)
  | (.storeBalanceB seq balance, state) =>
      some (.buckets (.load seq 0), { state with balanceB := balance })
  | (.buckets pc, state) =>
      (bucketAccess (pc, state.buckets)).map fun next =>
        (.buckets next.1, { state with buckets := next.2 })

/-- The accesses of `ApplyTransfer` compute it. -/
theorem transfer_steps (amount : UInt64) (state : ProtectedState) :
    Steps transferAccess (.loadSequence amount, state)
      (.buckets (.load (state.sequence + 1) 5), state.applyTransfer amount) := by
  have hloop := (bucket_loop (state.sequence + 1) state.buckets).embed transferAccess
    (fun next => (.buckets next.1,
      { state with
        sequence := state.sequence + 1
        balanceA := state.balanceA + amount
        balanceB := state.balanceB - amount
        buckets := next.2 }))
    (fun now next h => by simp [transferAccess, h])
  exact .head rfl (.head rfl (.head rfl (.head rfl (.head rfl (.head rfl hloop)))))

/-- `ApplyTransfer` as an update. -/
def applyTransfer : Update UInt64 TransferPc ProtectedState where
  start amount := .loadSequence amount
  access := transferAccess
  run amount state := state.applyTransfer amount
  run_eq amount state :=
    ⟨_, transfer_steps amount state, by simp [transferAccess, bucket_loop_ends]⟩

/-! ## What does not depend on the order -/

/-- The sequence number and the buckets after one more update. -/
def mixNext (part : UInt64 × Buckets) : UInt64 × Buckets :=
  (part.1 + 1, mixBuckets (part.1 + 1) part.2)

/-- The totals of the ledger. -/
def SharedOrderBookLedger.totals (ledger : SharedOrderBookLedger) : UInt64 × UInt64 × UInt64 :=
  (ledger.sequence, ledger.totalFillQty, ledger.rollingNotional)

/-- The totals after one more execution. -/
def addExecution (totals : UInt64 × UInt64 × UInt64) (arg : UInt64 × UInt64) :
    UInt64 × UInt64 × UInt64 :=
  (totals.1 + 1, totals.2.1 + arg.1, totals.2.2 + arg.1 * arg.2)

theorem addExecution_comm (totals : UInt64 × UInt64 × UInt64) (first second : UInt64 × UInt64) :
    addExecution (addExecution totals first) second =
      addExecution (addExecution totals second) first := by
  simp only [addExecution, UInt64.add_assoc, UInt64.add_comm first.1 second.1,
    UInt64.add_comm (first.1 * first.2)]

/-- The totals do not depend on the order of the executions. -/
theorem totals_perm (initial : SharedOrderBookLedger) {args args' : List (UInt64 × UInt64)}
    (hperm : args.Perm args') :
    (recordExecution.serial initial args).totals =
      (recordExecution.serial initial args').totals :=
  recordExecution.serial_perm SharedOrderBookLedger.totals addExecution (fun _ _ => rfl)
    addExecution_comm initial hperm

/-- The buckets of the ledger depend only on the number of executions. -/
theorem venueBuckets_serial (initial : SharedOrderBookLedger) (args : List (UInt64 × UInt64)) :
    (recordExecution.serial initial args).venueBuckets =
      (mixNext^[args.length] (initial.sequence, initial.venueBuckets)).2 :=
  congrArg Prod.snd (recordExecution.serial_iterate
    (fun ledger => (ledger.sequence, ledger.venueBuckets)) mixNext (fun _ _ => rfl) initial args)

/-- The buckets of the accounts depend only on the number of transfers. -/
theorem buckets_serial (initial : ProtectedState) (amounts : List UInt64) :
    (applyTransfer.serial initial amounts).buckets =
      (mixNext^[amounts.length] (initial.sequence, initial.buckets)).2 :=
  congrArg Prod.snd (applyTransfer.serial_iterate
    (fun state => (state.sequence, state.buckets)) mixNext (fun _ _ => rfl) initial amounts)

/-- Transfers keep the sum of the balances. -/
theorem balances_serial (initial : ProtectedState) (amounts : List UInt64) :
    (applyTransfer.serial initial amounts).balanceA +
        (applyTransfer.serial initial amounts).balanceB =
      initial.balanceA + initial.balanceB := by
  have hkeeps : ∀ (amount : UInt64) (state : ProtectedState),
      (state.applyTransfer amount).balanceA + (state.applyTransfer amount).balanceB =
        state.balanceA + state.balanceB := by
    intro amount state
    change state.balanceA + amount + (state.balanceB - amount) = _
    rw [UInt64.add_assoc, UInt64.add_comm amount, UInt64.sub_add_cancel]
  have hsum := applyTransfer.serial_iterate (fun state => state.balanceA + state.balanceB) id
    hkeeps initial amounts
  rwa [Function.iterate_id] at hsum

/-- The sequence number counts the transfers. -/
theorem sequence_serial (initial : ProtectedState) (amounts : List UInt64) :
    (applyTransfer.serial initial amounts).sequence =
      (fun sequence => sequence + 1)^[amounts.length] initial.sequence :=
  applyTransfer.serial_iterate ProtectedState.sequence (· + 1) (fun _ _ => rfl) initial amounts

/-! ## Every interleaving -/

/-- Updates of shared data under a lock, one access at a time, are serial. At most one thread is
inside its update. When no thread is, the data is what the updates leave when they run one after
the other in the order of the acquisitions. When one is, its remaining accesses lead there. -/
def Serial {Arg Local Data : Type} (lock : TryLock) (update : Update Arg Local Data)
    (state : Locked lock Arg Local Data) (outcome : Data) : Prop :=
  (∀ tid other, state.Inside tid → state.Inside other → tid = other) ∧
    ((∀ tid, ¬ state.Inside tid) → state.data = outcome) ∧
    ∀ tid vars, state.threads tid = .inside vars → ∃ last,
      Steps update.access (vars, state.data) (last, outcome) ∧
        update.access (last, outcome) = none

/-- Executions under the spinlock are serial, the totals do not depend on their order, and the
buckets depend only on their number. -/
def ExecutionsSerial (lock : SpinLock) (initial : SharedOrderBookLedger) : Prop :=
  ∀ (state : Locked lock.code (UInt64 × UInt64) ExecutionPc SharedOrderBookLedger)
    (acquired : List (Foundation.ThreadId × UInt64 × UInt64)),
    ((lockedUpdates lock.code recordExecution initial).withHistory
      (acquisitions lock.code _ _ _)).Reachable (fun _ _ => True) (state, acquired) →
    let outcome := recordExecution.serial initial (acquired.map Prod.snd)
    Serial lock.code recordExecution state outcome ∧
      (∀ args, (acquired.map Prod.snd).Perm args →
        (recordExecution.serial initial args).totals = outcome.totals) ∧
      ∀ args, args.length = acquired.length →
        (recordExecution.serial initial args).venueBuckets = outcome.venueBuckets

/-- Transfers under the spinlock are serial, the sequence number and the sum of the balances do
not depend on their order, and the buckets depend only on their number. -/
def TransfersSerial (lock : SpinLock) (initial : ProtectedState) : Prop :=
  ∀ (state : Locked lock.code UInt64 TransferPc ProtectedState)
    (acquired : List (Foundation.ThreadId × UInt64)),
    ((lockedUpdates lock.code applyTransfer initial).withHistory
      (acquisitions lock.code _ _ _)).Reachable (fun _ _ => True) (state, acquired) →
    let outcome := applyTransfer.serial initial (acquired.map Prod.snd)
    Serial lock.code applyTransfer state outcome ∧
      (∀ amounts, (acquired.map Prod.snd).Perm amounts →
        (applyTransfer.serial initial amounts).sequence = outcome.sequence ∧
        (applyTransfer.serial initial amounts).balanceA +
            (applyTransfer.serial initial amounts).balanceB =
          outcome.balanceA + outcome.balanceB) ∧
      ∀ amounts, amounts.length = acquired.length →
        (applyTransfer.serial initial amounts).buckets = outcome.buckets

/-- The ledgers under each of the five spinlocks are serial, for any number of threads. -/
theorem ledgers_serial (lock : SpinLock) (ledger : SharedOrderBookLedger)
    (accounts : ProtectedState) :
    ExecutionsSerial lock ledger ∧ TransfersSerial lock accounts := by
  refine ⟨fun state acquired hreach => ⟨serial_of_reachable hreach, ?_, ?_⟩,
    fun state acquired hreach => ⟨serial_of_reachable hreach, ?_, ?_⟩⟩
  · intro args hperm
    exact (totals_perm ledger hperm).symm
  · intro args hlength
    rw [venueBuckets_serial, venueBuckets_serial, hlength, List.length_map]
  · intro amounts hperm
    refine ⟨?_, by rw [balances_serial, balances_serial]⟩
    rw [sequence_serial, sequence_serial, hperm.length_eq]
  · intro amounts hlength
    rw [buckets_serial, buckets_serial, hlength, List.length_map]

end HotPath.Locks
