import HotPath.Foundation.LockedUpdates

/-!
# The spinlocks

`NaiveTASLock`, `TTASNoPauseLock` and `TTASPauseLock`, and `NaiveCasSpinlock` and
`ReadBeforeCasSpinlock`, one atomic access at a time. Each is a `TryLock`: an access inside `lock`
acquires the free lock or leaves the word as it is.
-/

namespace HotPath.Locks

open HotPath.Foundation

/-- `test_and_set` of a flag, or `exchange` with `true`, which returns the old flag. -/
def exchangeAttempt {Place : Type} (failed : Place) (flag : Bool) : Bool × Option Place :=
  (true, if flag then some failed else none)

theorem exchange_acquires {Place : Type} {failed : Place} {flag : Bool}
    (h : (exchangeAttempt failed flag).2 = none) :
    flag = false ∧ (exchangeAttempt failed flag).1 ≠ false := by
  cases flag with
  | false => simp [exchangeAttempt]
  | true => cases h

theorem exchange_waits {Place : Type} {failed place' : Place} {flag : Bool}
    (h : (exchangeAttempt failed flag).2 = some place') :
    (exchangeAttempt failed flag).1 = flag := by
  cases flag with
  | false => cases h
  | true => rfl

/-- `NaiveTASLock`: `test_and_set` until the flag was clear. -/
def naiveTASLock : TryLock where
  Word := Bool
  Place := Unit
  free := false
  start := ()
  attempt _ flag _ := exchangeAttempt () flag
  acquires _ _ _ := exchange_acquires
  waits _ _ _ _ := exchange_waits

/-- Where a thread is inside `lock` of a `TTAS` lock. -/
inductive TtasPlace where
  | load
  | exchange
  | spin
  | pause
  deriving DecidableEq

/-- The next access of `lock`. `after` is what follows a look that finds the lock taken. -/
def ttasAttempt (after place : TtasPlace) (locked : Bool) : Bool × Option TtasPlace :=
  match place with
  | .load => (locked, some (if locked then .spin else .exchange))
  | .exchange => exchangeAttempt .spin locked
  | .spin => (locked, some (if locked then after else .load))
  | .pause => (locked, some .spin)

/-- A test-and-test-and-set lock. -/
def ttasLock (after : TtasPlace) : TryLock where
  Word := Bool
  Place := TtasPlace
  free := false
  start := .load
  attempt place locked _ := ttasAttempt after place locked
  acquires place locked _ h := by
    cases place with
    | exchange => exact exchange_acquires h
    | load | spin | pause => simp [ttasAttempt] at h
  waits place locked _ place' h := by
    cases place with
    | exchange => exact exchange_waits h
    | load | spin | pause => rfl

/-- `TTASNoPauseLock`: a look at the taken lock follows the other. -/
def ttasNoPauseLock : TryLock := ttasLock .spin

/-- `TTASPauseLock`: `_mm_pause` between the looks at the taken lock. -/
def ttasPauseLock : TryLock := ttasLock .pause

/-- `compare_exchange_weak` of the word with 0 and 1. It may fail although the word is 0. -/
def casAttempt {Place : Type} (failed : Place) (flag : UInt64) (spurious : Bool) :
    UInt64 × Option Place :=
  if flag = 0 ∧ spurious = false then (1, none) else (flag, some failed)

theorem cas_acquires {Place : Type} {failed : Place} {flag : UInt64} {spurious : Bool}
    (h : (casAttempt failed flag spurious).2 = none) :
    flag = 0 ∧ (casAttempt failed flag spurious).1 ≠ 0 := by
  unfold casAttempt at h ⊢
  split at h
  · next hfree => simp [hfree]
  · cases h

theorem cas_waits {Place : Type} {failed place' : Place} {flag : UInt64} {spurious : Bool}
    (h : (casAttempt failed flag spurious).2 = some place') :
    (casAttempt failed flag spurious).1 = flag := by
  unfold casAttempt at h ⊢
  split at h
  · cases h
  · next hfailed => simp [hfailed]

/-- `NaiveCasSpinlock`: the weak compare-exchange until it succeeds. -/
def naiveCasSpinlock : TryLock where
  Word := UInt64
  Place := Unit
  free := 0
  start := ()
  attempt _ flag spurious := casAttempt () flag spurious
  acquires _ _ _ := cas_acquires
  waits _ _ _ _ := cas_waits

/-- Where a thread is inside `Lock` of `ReadBeforeCasSpinlock`. -/
inductive ReadBeforeCasPlace where
  | cas
  | load
  | pause
  deriving DecidableEq

/-- The next access of `Lock`. -/
def readBeforeCasAttempt (place : ReadBeforeCasPlace) (flag : UInt64) (spurious : Bool) :
    UInt64 × Option ReadBeforeCasPlace :=
  match place with
  | .cas => casAttempt .load flag spurious
  | .load => (flag, some (if flag ≠ 0 then .pause else .cas))
  | .pause => (flag, some .load)

/-- `ReadBeforeCasSpinlock`: looks at the word between two weak compare-exchanges. -/
def readBeforeCasSpinlock : TryLock where
  Word := UInt64
  Place := ReadBeforeCasPlace
  free := 0
  start := .cas
  attempt := readBeforeCasAttempt
  acquires place flag spurious h := by
    cases place with
    | cas => exact cas_acquires h
    | load | pause => simp [readBeforeCasAttempt] at h
  waits place flag spurious place' h := by
    cases place with
    | cas => exact cas_waits h
    | load | pause => rfl

/-- The five spinlocks. -/
inductive SpinLock where
  | naiveTAS
  | ttasNoPause
  | ttasPause
  | naiveCas
  | readBeforeCas

/-- The code of a spinlock. -/
def SpinLock.code : SpinLock → TryLock
  | .naiveTAS => naiveTASLock
  | .ttasNoPause => ttasNoPauseLock
  | .ttasPause => ttasPauseLock
  | .naiveCas => naiveCasSpinlock
  | .readBeforeCas => readBeforeCasSpinlock

end HotPath.Locks
