import HotPath.Foundation.Completion
import HotPath.Foundation.Fairness
import HotPath.Foundation.LockedUpdates
import Mathlib.Algebra.Order.Group.Multiset

/-!
# Rounds under a spinning lock

Threads that make one update after the other, each with a call of `lock` and of `unlock`. A thread
that finds the lock taken looks again, so a run can go on forever without an update. In a fair run
it does not (`rounds_end`), provided that an update has a bounded number of accesses, and that a
thread inside `lock` gets closer to the lock with every look at the free lock.

The measure counts the updates that have not begun at a high price. The acquisition of the lock
pays out of it for the looks that all the others have made in vain.
-/

namespace HotPath.Foundation

/-- A bound on the accesses that an update has left. -/
structure AccessBound {Arg Local Data : Type} (update : Update Arg Local Data) where
  left : Local → Nat
  lowers : ∀ {vars vars' data data'}, update.access (vars, data) = some (vars', data') →
    left vars' < left vars

/-- How far a thread inside `lock` is from the lock, while the lock stays free. -/
structure SpinBound (lock : TryLock) where
  effort : lock.Place → Nat
  most : Nat
  le_most : ∀ place, effort place ≤ most
  lowers : ∀ {place place'}, (lock.attempt place lock.free false).2 = some place' →
    effort place' < effort place

/-- The updates that each thread makes, and a bound on the attempts that fail without a cause. -/
structure RoundConfig (Arg Data : Type) where
  initial : Data
  threads : Nat
  rounds : ThreadId → List Arg
  spurious : Nat
  absent : ∀ tid, threads ≤ tid → rounds tid = []

/-- The lock with its threads, the updates that each thread has ahead, and the failures without a
cause that are left. -/
structure LockedRounds (lock : TryLock) (Arg Local Data : Type) where
  locked : Locked lock Arg Local Data
  ahead : ThreadId → List Arg
  spurious : Nat

/-- A call of `lock` for the next update of a thread, or the next access of a thread. -/
inductive RoundEvent where
  | call (tid : ThreadId)
  | access (tid : ThreadId) (spurious : Bool)

/-- The thread that makes a step. -/
@[simp] def RoundEvent.thread : RoundEvent → ThreadId
  | .call tid | .access tid _ => tid

variable {Arg Local Data : Type} {lock : TryLock}

/-- One step. -/
def LockedRounds.step (update : Update Arg Local Data)
    (rounds : LockedRounds lock Arg Local Data) :
    RoundEvent → Option (LockedRounds lock Arg Local Data)
  | .call tid =>
      match rounds.ahead tid with
      | [] => none
      | arg :: rest => (rounds.locked.step update (.call tid arg)).map fun locked =>
          ⟨locked, Function.update rounds.ahead tid rest, rounds.spurious⟩
  | .access tid spurious =>
      if spurious.toNat ≤ rounds.spurious then
        (rounds.locked.step update (.access tid spurious)).map fun locked =>
          ⟨locked, rounds.ahead, rounds.spurious - spurious.toNat⟩
      else none

/-- The rounds as a transition system. -/
def lockedRounds (lock : TryLock) (update : Update Arg Local Data)
    (cfg : RoundConfig Arg Data) : System (LockedRounds lock Arg Local Data) RoundEvent where
  init rounds := rounds = ⟨⟨lock.free, cfg.initial, fun _ => .idle⟩, cfg.rounds, cfg.spurious⟩
  step := LockedRounds.step update

/-- The recorder of the updates in the order in which they acquired the lock. -/
def roundOrder (lock : TryLock) (Arg Local Data : Type) :
    Recorder (LockedRounds lock Arg Local Data) RoundEvent (List (ThreadId × Arg)) where
  start _ := []
  observe rounds event next order :=
    match event with
    | .call _ => order
    | .access tid spurious => (acquisitions lock Arg Local Data).observe rounds.locked
        (.access tid spurious) next.locked order

/-- All threads have made their updates. -/
def LockedRounds.finished (rounds : LockedRounds lock Arg Local Data) : Prop :=
  ∀ tid, rounds.locked.threads tid = .idle ∧ rounds.ahead tid = []

/-- The updates of one thread, in the order in which they acquired the lock. -/
def acquiredBy (order : List (ThreadId × Arg)) (tid : ThreadId) : List Arg :=
  (order.filter fun entry => entry.1 == tid).map Prod.snd

/-- Every fair run ends, and when it has ended the data is what the updates leave one after the
other, in an order that keeps the order of each thread. -/
structure RoundsComplete (lock : TryLock) (update : Update Arg Local Data)
    (cfg : RoundConfig Arg Data) : Prop where
  ends : (lockedRounds lock update cfg).FairlyReaches (fun _ _ => True)
    (fun event => some event.thread) LockedRounds.finished
  serial : ∀ rounds, (lockedRounds lock update cfg).Reachable (fun _ _ => True) rounds →
    rounds.finished → ∃ order : List (ThreadId × Arg),
      (∀ tid, acquiredBy order tid = cfg.rounds tid) ∧
        rounds.locked.data = update.serial cfg.initial (order.map Prod.snd)

/-! ## One step -/

/-- Everything that a step can do to the rounds and to the order of the updates. -/
inductive RoundStep (update : Update Arg Local Data) (rounds : LockedRounds lock Arg Local Data)
    (order : List (ThreadId × Arg)) : RoundEvent → LockedRounds lock Arg Local Data →
      List (ThreadId × Arg) → Prop where
  /-- A thread calls `lock`. -/
  | call (tid arg rest) : rounds.locked.threads tid = .idle → rounds.ahead tid = arg :: rest →
      RoundStep update rounds order (.call tid)
        ⟨rounds.locked.goto tid (.locking lock.start arg),
          Function.update rounds.ahead tid rest, rounds.spurious⟩ order
  /-- A thread stays inside `lock`. -/
  | wait (tid place arg place') (spurious : Bool) :
      rounds.locked.threads tid = .locking place arg → spurious.toNat ≤ rounds.spurious →
      (lock.attempt place rounds.locked.word spurious).2 = some place' →
      RoundStep update rounds order (.access tid spurious)
        ⟨rounds.locked.goto tid (.locking place' arg), rounds.ahead,
          rounds.spurious - spurious.toNat⟩ order
  /-- A thread acquires the lock. -/
  | acquire (tid place arg word) (spurious : Bool) :
      rounds.locked.threads tid = .locking place arg → rounds.locked.word = lock.free →
      word ≠ lock.free →
      RoundStep update rounds order (.access tid spurious)
        ⟨({ rounds.locked with word := word } : Locked lock Arg Local Data).goto tid
            (.inside (update.start arg)), rounds.ahead,
          rounds.spurious - spurious.toNat⟩ (order ++ [(tid, arg)])
  /-- A thread makes an access of its update. -/
  | body (tid vars vars' data) (spurious : Bool) :
      rounds.locked.threads tid = .inside vars →
      update.access (vars, rounds.locked.data) = some (vars', data) →
      RoundStep update rounds order (.access tid spurious)
        ⟨({ rounds.locked with data := data } : Locked lock Arg Local Data).goto tid
            (.inside vars'), rounds.ahead, rounds.spurious - spurious.toNat⟩ order
  /-- A thread releases the lock. -/
  | release (tid vars) (spurious : Bool) :
      rounds.locked.threads tid = .inside vars →
      update.access (vars, rounds.locked.data) = none →
      RoundStep update rounds order (.access tid spurious)
        ⟨({ rounds.locked with word := lock.free } : Locked lock Arg Local Data).goto tid .idle,
          rounds.ahead, rounds.spurious - spurious.toNat⟩ order

section Step

variable {update : Update Arg Local Data} {rounds next : LockedRounds lock Arg Local Data}
  {order : List (ThreadId × Arg)} {event : RoundEvent}

theorem LockedRounds.step_cases (h : rounds.step update event = some next) :
    RoundStep update rounds order event next
      ((roundOrder lock Arg Local Data).observe rounds event next order) := by
  cases event with
  | call tid =>
      simp only [LockedRounds.step] at h
      split at h
      · cases h
      · next arg rest hahead =>
          obtain ⟨locked, hlocked, rfl⟩ := Option.map_eq_some_iff.mp h
          simp only [Locked.step] at hlocked
          split at hlocked
          · next hidle =>
              obtain rfl := Option.some.inj hlocked
              exact .call tid arg rest hidle hahead
          · cases hlocked
  | access tid spurious =>
      simp only [LockedRounds.step] at h
      split at h
      · next hspurious =>
          obtain ⟨locked, hlocked, rfl⟩ := Option.map_eq_some_iff.mp h
          simp only [Locked.step, Locked.access] at hlocked
          simp only [roundOrder, acquisitions]
          split at hlocked
          · cases hlocked
          · next place arg hlocking =>
              obtain rfl := Option.some.inj hlocked
              simp only [hlocking]
              cases hattempt : (lock.attempt place rounds.locked.word spurious).2 with
              | none =>
                  obtain ⟨hfree, hword⟩ := lock.acquires place _ spurious hattempt
                  exact .acquire tid place arg _ spurious hlocking hfree hword
              | some place' =>
                  rw [lock.waits place _ spurious place' hattempt]
                  exact .wait tid place arg place' spurious hlocking hspurious hattempt
          · next vars hinside =>
              simp only [hinside]
              split at hlocked
              · next vars' data haccess =>
                  obtain rfl := Option.some.inj hlocked
                  exact .body tid vars vars' data spurious hinside haccess
              · next hend =>
                  obtain rfl := Option.some.inj hlocked
                  exact .release tid vars spurious hinside hend
      · cases h

end Step

/-! ## The order of the updates -/

/-- The update that a thread waits for the lock with. -/
def LockedPc.waiting : LockedPc lock Arg Local → List Arg
  | .locking _ arg => [arg]
  | _ => []

@[simp] theorem acquiredBy_nil (tid : ThreadId) :
    acquiredBy ([] : List (ThreadId × Arg)) tid = [] := rfl

theorem acquiredBy_self (order : List (ThreadId × Arg)) (tid : ThreadId) (arg : Arg) :
    acquiredBy (order ++ [(tid, arg)]) tid = acquiredBy order tid ++ [arg] := by
  simp [acquiredBy]

theorem acquiredBy_other (order : List (ThreadId × Arg)) {tid other : ThreadId} (arg : Arg)
    (hne : other ≠ tid) : acquiredBy (order ++ [(tid, arg)]) other = acquiredBy order other := by
  have hfalse : (tid == other) = false := beq_eq_false_iff_ne.mpr hne.symm
  simp [acquiredBy, hfalse]

/-- The invariant of the rounds. -/
structure RoundInv (update : Update Arg Local Data) (cfg : RoundConfig Arg Data)
    (rounds : LockedRounds lock Arg Local Data) (order : List (ThreadId × Arg)) : Prop where
  serial : SerialInv update cfg.initial rounds.locked order
  absent : ∀ tid, cfg.threads ≤ tid → rounds.locked.threads tid = .idle
  share : ∀ tid, acquiredBy order tid ++ (rounds.locked.threads tid).waiting ++ rounds.ahead tid =
    cfg.rounds tid

section Order

variable {update : Update Arg Local Data} {cfg : RoundConfig Arg Data}
  {rounds next : LockedRounds lock Arg Local Data} {order order' : List (ThreadId × Arg)}
  {event : RoundEvent} {tid : ThreadId}

/-- A thread with an update to make is one of the threads of the trial. -/
theorem RoundInv.lt_of_ahead (h : RoundInv update cfg rounds order)
    (hahead : rounds.ahead tid ≠ []) : tid < cfg.threads := by
  by_contra hge
  have hshare := h.share tid
  rw [cfg.absent tid (Nat.le_of_not_lt hge)] at hshare
  exact hahead (List.append_eq_nil_iff.mp hshare).2

theorem RoundInv.lt_of_moves (h : RoundInv update cfg rounds order)
    (hmoves : rounds.locked.threads tid ≠ .idle) : tid < cfg.threads := by
  by_contra hge
  exact hmoves (h.absent tid (Nat.le_of_not_lt hge))

/-- A step moves one thread, which is not one of the absent ones. -/
theorem RoundStep.thread_lt (h : RoundStep update rounds order event next order')
    (hinv : RoundInv update cfg rounds order) : event.thread < cfg.threads := by
  cases h with
  | call tid arg rest hidle hahead => exact hinv.lt_of_ahead (by simp [hahead])
  | wait tid place arg place' spurious hlocking => exact hinv.lt_of_moves (by simp [hlocking])
  | acquire tid place arg word spurious hlocking => exact hinv.lt_of_moves (by simp [hlocking])
  | body tid vars vars' data spurious hinside => exact hinv.lt_of_moves (by simp [hinside])
  | release tid vars spurious hinside => exact hinv.lt_of_moves (by simp [hinside])

/-- A step leaves the other threads as they are. -/
theorem RoundStep.other (h : RoundStep update rounds order event next order')
    (hne : tid ≠ event.thread) : next.locked.threads tid = rounds.locked.threads tid ∧
      next.ahead tid = rounds.ahead tid ∧ acquiredBy order' tid = acquiredBy order tid := by
  cases h with
  | call => exact ⟨Function.update_of_ne hne .., Function.update_of_ne hne .., rfl⟩
  | acquire => exact ⟨Function.update_of_ne hne .., rfl, acquiredBy_other order _ hne⟩
  | wait | body | release => exact ⟨Function.update_of_ne hne .., rfl, rfl⟩

/-- A step keeps the updates of the thread that makes it, and their order. -/
theorem RoundStep.share (h : RoundStep update rounds order event next order') :
    acquiredBy order' event.thread ++ (next.locked.threads event.thread).waiting ++
        next.ahead event.thread =
      acquiredBy order event.thread ++ (rounds.locked.threads event.thread).waiting ++
        rounds.ahead event.thread := by
  cases h with
  | call tid arg rest hidle hahead =>
      simp [RoundEvent.thread, Locked.goto, LockedPc.waiting, hidle, hahead]
  | wait tid place arg place' spurious hlocking =>
      simp [RoundEvent.thread, Locked.goto, LockedPc.waiting, hlocking]
  | acquire tid place arg word spurious hlocking =>
      simp [RoundEvent.thread, Locked.goto, LockedPc.waiting, hlocking, acquiredBy_self]
  | body tid vars vars' data spurious hinside =>
      simp [RoundEvent.thread, Locked.goto, LockedPc.waiting, hinside]
  | release tid vars spurious hinside =>
      simp [RoundEvent.thread, Locked.goto, LockedPc.waiting, hinside]

/-- A step keeps the invariant of the lock and the data. -/
theorem RoundStep.serial (h : RoundStep update rounds order event next order')
    (hserial : SerialInv update cfg.initial rounds.locked order) :
    SerialInv update cfg.initial next.locked order' := by
  cases h with
  | call tid arg rest hidle => exact hserial.roam (by simp [Locked.Inside, hidle]) (by simp)
  | wait tid place arg place' spurious hlocking =>
      exact hserial.roam (by simp [Locked.Inside, hlocking]) (by simp)
  | acquire tid place arg word spurious hlocking hfree hword => exact hserial.acquire hfree hword
  | body tid vars vars' data spurious hinside haccess => exact hserial.body hinside haccess
  | release tid vars spurious hinside hend => exact hserial.release hinside hend

/-- Every step keeps the invariant. -/
theorem RoundStep.inv (h : RoundStep update rounds order event next order')
    (hinv : RoundInv update cfg rounds order) : RoundInv update cfg next order' := by
  refine ⟨h.serial hinv.serial, fun tid hge => ?_, fun tid => ?_⟩
  · have hne : tid ≠ event.thread := by
      intro heq
      rw [heq] at hge
      exact Nat.not_le.mpr (h.thread_lt hinv) hge
    rw [(h.other hne).1]
    exact hinv.absent tid hge
  · rw [← hinv.share tid]
    by_cases heq : tid = event.thread
    · subst heq
      exact h.share
    · obtain ⟨hthread, hahead, hacquired⟩ := h.other heq
      rw [hthread, hahead, hacquired]

/-- The invariant holds in every run. -/
theorem roundInv_of_reachable
    (h : (lockedRounds lock update cfg).Reachable (fun _ _ => True) rounds) :
    ∃ order, RoundInv update cfg rounds order := by
  refine h.invariant (fun rounds => ∃ order, RoundInv update cfg rounds order) ?_ ?_
  · intro start hstart
    obtain rfl : start = ⟨⟨lock.free, cfg.initial, fun _ => .idle⟩, cfg.rounds, cfg.spurious⟩ :=
      hstart
    exact ⟨[], .init, fun _ _ => rfl, fun _ => rfl⟩
  · intro before event after hbefore _ hstep
    obtain ⟨order, hinv⟩ := hbefore
    exact ⟨_, (LockedRounds.step_cases hstep).inv hinv⟩

/-- When all threads have made their updates, the data is what they leave in the order of the
acquisitions. -/
theorem RoundInv.outcome (h : RoundInv update cfg rounds order) (hfinished : rounds.finished) :
    (∀ tid, acquiredBy order tid = cfg.rounds tid) ∧
      rounds.locked.data = update.serial cfg.initial (order.map Prod.snd) := by
  refine ⟨fun tid => ?_, h.serial.quiet ?_⟩
  · obtain ⟨hidle, hnone⟩ := hfinished tid
    simpa [hidle, hnone, LockedPc.waiting] using h.share tid
  · by_contra htaken
    obtain ⟨tid, vars, hinside⟩ := h.serial.taken.mpr htaken
    rw [(hfinished tid).1] at hinside
    cases hinside

end Order

/-! ## The work that is left -/

section Work

variable {update : Update Arg Local Data} (accesses : AccessBound update) (spins : SpinBound lock)
  (threads : Nat)

/-- The price of an update that waits for the lock. -/
def lockPrice (arg : Arg) : Nat :=
  accesses.left (update.start arg) + 2 + threads * (spins.most + 1)

/-- The price of an update that has not begun. -/
def roundPrice (arg : Arg) : Nat := lockPrice accesses spins threads arg + spins.most + 2

open Classical in
/-- The distance from a lock. It counts as the longest one while the lock is taken. -/
noncomputable def spinPrice (word : lock.Word) (place : lock.Place) : Nat :=
  if word = lock.free then spins.effort place else spins.most + 1

/-- The price of the place of a thread. -/
noncomputable def pcPrice (word : lock.Word) : LockedPc lock Arg Local → Nat
  | .idle => 0
  | .locking place arg => lockPrice accesses spins threads arg + spinPrice spins word place
  | .inside vars => accesses.left vars + 1

/-- The part of a thread in the work that is left. -/
noncomputable def threadPrice (rounds : LockedRounds lock Arg Local Data) (tid : ThreadId) : Nat :=
  ((rounds.ahead tid).map (roundPrice accesses spins threads)).sum +
    pcPrice accesses spins threads rounds.locked.word (rounds.locked.threads tid)

/-- The work that is left. -/
noncomputable def roundWork (rounds : LockedRounds lock Arg Local Data) : Nat :=
  ∑ tid : Fin threads, threadPrice accesses spins threads rounds tid +
    rounds.spurious * (spins.most + 1)

variable {accesses spins threads}

variable (spins) in
theorem spinPrice_le (word : lock.Word) (place : lock.Place) :
    spinPrice spins word place ≤ spins.most + 1 := by
  unfold spinPrice
  split
  · have hle := spins.le_most place
    omega
  · exact Nat.le_refl _

theorem spinPrice_free (place : lock.Place) :
    spinPrice spins lock.free place = spins.effort place := if_pos rfl

theorem spinPrice_taken {word : lock.Word} (h : word ≠ lock.free) (place : lock.Place) :
    spinPrice spins word place = spins.most + 1 := if_neg h

variable {rounds next : LockedRounds lock Arg Local Data} {order order' : List (ThreadId × Arg)}
  {event : RoundEvent} {tid : ThreadId}

/-- A thread that does not move pays for the looks in vain at most. -/
theorem pcPrice_le_add (word word' : lock.Word) (pc : LockedPc lock Arg Local) :
    pcPrice accesses spins threads word' pc ≤
      pcPrice accesses spins threads word pc + (spins.most + 1) := by
  cases pc with
  | locking place arg =>
      have hle := spinPrice_le spins word' place
      simp only [pcPrice]
      omega
  | idle | inside => exact Nat.le_add_right _ _

/-- A thread that does not move is at least as close to a free lock. -/
theorem pcPrice_free_le (word : lock.Word) (pc : LockedPc lock Arg Local) :
    pcPrice accesses spins threads lock.free pc ≤ pcPrice accesses spins threads word pc := by
  cases pc with
  | locking place arg =>
      simp only [pcPrice, spinPrice_free]
      by_cases hfree : word = lock.free
      · rw [hfree, spinPrice_free]
      · have hle := spins.le_most place
        rw [spinPrice_taken hfree]
        omega
  | idle | inside => exact Nat.le_refl _

/-- The part of a thread that does not move depends on the word only. -/
theorem RoundStep.threadPrice_other {update : Update Arg Local Data}
    {accesses : AccessBound update} (h : RoundStep update rounds order event next order')
    (hne : tid ≠ event.thread) :
    threadPrice accesses spins threads next tid =
      ((rounds.ahead tid).map (roundPrice accesses spins threads)).sum +
        pcPrice accesses spins threads next.locked.word (rounds.locked.threads tid) := by
  obtain ⟨hthread, hahead, -⟩ := h.other hne
  rw [threadPrice, hthread, hahead]

/-- A step does not raise the number of failures that are left. -/
theorem RoundStep.spurious_le (h : RoundStep update rounds order event next order') :
    next.spurious ≤ rounds.spurious := by
  cases h with
  | call => exact Nat.le_refl _
  | wait | acquire | body | release => exact Nat.sub_le ..

/-- A thread that gives up enough for all the others lowers the work. -/
theorem RoundStep.work_lt (h : RoundStep update rounds order event next order')
    (hlt : event.thread < threads) (cost : Nat)
    (hpayer : threadPrice accesses spins threads next event.thread + threads * cost + 1 ≤
      threadPrice accesses spins threads rounds event.thread)
    (hother : ∀ pc, pcPrice accesses spins threads next.locked.word pc ≤
      pcPrice accesses spins threads rounds.locked.word pc + cost) :
    roundWork accesses spins threads next < roundWork accesses spins threads rounds := by
  have hsum : ∑ tid : Fin threads, threadPrice accesses spins threads next tid + 1 ≤
      ∑ tid : Fin threads, threadPrice accesses spins threads rounds tid := by
    refine sum_add_le_of_payer ⟨event.thread, hlt⟩ cost 1 hpayer fun tid hne => ?_
    have hne : (tid : ThreadId) ≠ event.thread := fun heq => hne (Fin.ext heq)
    rw [h.threadPrice_other hne, threadPrice, Nat.add_assoc]
    exact Nat.add_le_add_left (hother _) _
  have hspurious := Nat.mul_le_mul_right (spins.most + 1) h.spurious_le
  simp only [roundWork]
  omega

/-- A call of `lock` lowers the work. -/
theorem call_price {arg : Arg} {rest : List Arg} (hidle : rounds.locked.threads tid = .idle)
    (hahead : rounds.ahead tid = arg :: rest) :
    threadPrice accesses spins threads
        ⟨rounds.locked.goto tid (.locking lock.start arg), Function.update rounds.ahead tid rest,
          rounds.spurious⟩ tid + threads * 0 + 1 ≤
      threadPrice accesses spins threads rounds tid := by
  have hle := spinPrice_le spins rounds.locked.word lock.start
  simp only [threadPrice, Locked.goto, Function.update_self, pcPrice, hidle, hahead,
    List.map_cons, List.sum_cons, roundPrice]
  omega

/-- The acquisition of the lock pays for the looks of all threads. -/
theorem acquire_price {place : lock.Place} {arg : Arg} {word : lock.Word} (spurious : Nat)
    (hlocking : rounds.locked.threads tid = .locking place arg) :
    threadPrice accesses spins threads
        ⟨({ rounds.locked with word := word } : Locked lock Arg Local Data).goto tid
          (.inside (update.start arg)), rounds.ahead, spurious⟩ tid +
        threads * (spins.most + 1) + 1 ≤
      threadPrice accesses spins threads rounds tid := by
  simp only [threadPrice, Locked.goto, Function.update_self, pcPrice, hlocking, lockPrice]
  omega

/-- An access of the update lowers the work. -/
theorem body_price {vars vars' : Local} {data : Data} (spurious : Nat)
    (hinside : rounds.locked.threads tid = .inside vars)
    (haccess : update.access (vars, rounds.locked.data) = some (vars', data)) :
    threadPrice accesses spins threads
        ⟨({ rounds.locked with data := data } : Locked lock Arg Local Data).goto tid
          (.inside vars'), rounds.ahead, spurious⟩ tid + threads * 0 + 1 ≤
      threadPrice accesses spins threads rounds tid := by
  have hless := accesses.lowers haccess
  simp only [threadPrice, Locked.goto, Function.update_self, pcPrice, hinside]
  omega

/-- The release of the lock lowers the work. -/
theorem release_price {vars : Local} (spurious : Nat)
    (hinside : rounds.locked.threads tid = .inside vars) :
    threadPrice accesses spins threads
        ⟨({ rounds.locked with word := lock.free } : Locked lock Arg Local Data).goto tid .idle,
          rounds.ahead, spurious⟩ tid + threads * 0 + 1 ≤
      threadPrice accesses spins threads rounds tid := by
  simp only [threadPrice, Locked.goto, Function.update_self, pcPrice, hinside]
  omega

/-- A look at the free lock lowers the work, also if it fails without a cause. -/
theorem look_work {update : Update Arg Local Data} {accesses : AccessBound update}
    {place place' : lock.Place} {arg : Arg} {spurious : Bool} (hlt : tid < threads)
    (hlocking : rounds.locked.threads tid = .locking place arg)
    (hbudget : spurious.toNat ≤ rounds.spurious) (hfree : rounds.locked.word = lock.free)
    (hattempt : (lock.attempt place rounds.locked.word spurious).2 = some place') :
    roundWork accesses spins threads ⟨rounds.locked.goto tid (.locking place' arg), rounds.ahead,
      rounds.spurious - spurious.toNat⟩ < roundWork accesses spins threads rounds := by
  have hstep : RoundStep update rounds [] (.access tid spurious)
      ⟨rounds.locked.goto tid (.locking place' arg), rounds.ahead,
        rounds.spurious - spurious.toNat⟩ [] :=
    .wait tid place arg place' spurious hlocking hbudget hattempt
  have hprice : ∀ budget place', threadPrice accesses spins threads
        ⟨rounds.locked.goto tid (.locking place' arg), rounds.ahead, budget⟩ tid +
          spins.effort place =
      threadPrice accesses spins threads rounds tid + spins.effort place' := by
    intro budget place'
    simp only [threadPrice, Locked.goto, Function.update_self, pcPrice, hlocking, hfree,
      spinPrice_free]
    omega
  cases spurious with
  | false =>
      rw [hfree] at hattempt
      have hcloser := spins.lowers hattempt
      have hpaid := hprice (rounds.spurious - false.toNat) place'
      exact hstep.work_lt hlt 0 (by simp only [RoundEvent.thread]; omega)
        fun pc => Nat.le_of_eq rfl
  | true =>
      have hfar := spins.le_most place'
      have hpaid := hprice (rounds.spurious - true.toNat) place'
      have hraised : ∑ other : Fin threads, threadPrice accesses spins threads
            ⟨rounds.locked.goto tid (.locking place' arg), rounds.ahead,
              rounds.spurious - true.toNat⟩ other ≤
          ∑ other : Fin threads, threadPrice accesses spins threads rounds other +
            spins.most := by
        refine sum_le_of_raised ⟨tid, hlt⟩ (by dsimp only; omega) fun other hne => ?_
        have hne : (other : ThreadId) ≠ tid := fun heq => hne (Fin.ext heq)
        rw [hstep.threadPrice_other hne, threadPrice]
        exact Nat.le_refl _
      have hbudget : rounds.spurious - true.toNat + 1 = rounds.spurious :=
        Nat.sub_add_cancel hbudget
      simp only [roundWork]
      rw [← hbudget, Nat.add_mul]
      simp only [hbudget]
      omega

/-- A look at a lock that is taken leaves the prices as they are. -/
theorem look_price {place place' : lock.Place} {arg : Arg} {budget : Nat}
    (hlocking : rounds.locked.threads tid = .locking place arg)
    (htaken : rounds.locked.word ≠ lock.free) (other : ThreadId) :
    threadPrice accesses spins threads
        ⟨rounds.locked.goto tid (.locking place' arg), rounds.ahead, budget⟩ other =
      threadPrice accesses spins threads rounds other := by
  by_cases heq : other = tid
  · subst heq
    simp only [threadPrice, Locked.goto, Function.update_self, pcPrice, hlocking,
      spinPrice_taken htaken]
  · simp only [threadPrice, Locked.goto, Function.update_of_ne heq]

/-- A look at a lock that is taken costs nothing, unless it uses up a failure without a cause. -/
theorem look_in_vain {place place' : lock.Place} {arg : Arg} {spurious : Bool}
    (hlocking : rounds.locked.threads tid = .locking place arg)
    (hbudget : spurious.toNat ≤ rounds.spurious) (htaken : rounds.locked.word ≠ lock.free) :
    let next : LockedRounds lock Arg Local Data :=
      ⟨rounds.locked.goto tid (.locking place' arg), rounds.ahead,
        rounds.spurious - spurious.toNat⟩
    roundWork accesses spins threads next < roundWork accesses spins threads rounds ∨
      roundWork accesses spins threads next = roundWork accesses spins threads rounds := by
  dsimp only
  cases spurious with
  | false =>
      refine .inr ?_
      simp only [roundWork, look_price hlocking htaken]
      rfl
  | true =>
      have hbudget : rounds.spurious - true.toNat + 1 = rounds.spurious :=
        Nat.sub_add_cancel hbudget
      refine .inl ?_
      simp only [roundWork, look_price hlocking htaken]
      refine Nat.add_lt_add_left (Nat.mul_lt_mul_of_pos_right ?_ (Nat.succ_pos _)) _
      omega

end Work

/-! ## Fair runs end -/

/-- A thread whose next step lowers the work: one that is inside its update, one that waits for
the lock while it is free, or one that has not called `lock` yet. -/
def LockedRounds.helpful (rounds : LockedRounds lock Arg Local Data) (tid : ThreadId) : Prop :=
  rounds.locked.Inside tid ∨
    rounds.locked.word = lock.free ∧
      (∃ place arg, rounds.locked.threads tid = .locking place arg) ∨
    rounds.locked.threads tid = .idle ∧ rounds.ahead tid ≠ []

section End

variable {update : Update Arg Local Data} {accesses : AccessBound update} {spins : SpinBound lock}
  {cfg : RoundConfig Arg Data} {rounds next : LockedRounds lock Arg Local Data}
  {order order' : List (ThreadId × Arg)} {event : RoundEvent} {tid : ThreadId}

/-- Every step lowers the work, or is a look at a taken lock. -/
theorem RoundStep.work (h : RoundStep update rounds order event next order')
    (hinv : RoundInv update cfg rounds order) :
    roundWork accesses spins cfg.threads next < roundWork accesses spins cfg.threads rounds ∨
      roundWork accesses spins cfg.threads next = roundWork accesses spins cfg.threads rounds ∧
        ∀ who, rounds.helpful who → event.thread ≠ who ∧ next.helpful who := by
  have hlt := h.thread_lt hinv
  have hstep := h
  cases h with
  | call tid arg rest hidle hahead =>
      exact .inl (hstep.work_lt hlt 0 (call_price hidle hahead) fun _ => Nat.le_refl _)
  | acquire tid place arg word spurious hlocking =>
      exact .inl (hstep.work_lt hlt (spins.most + 1) (acquire_price _ hlocking)
        fun pc => pcPrice_le_add _ _ pc)
  | body tid vars vars' data spurious hinside haccess =>
      exact .inl (hstep.work_lt hlt 0 (body_price _ hinside haccess) fun _ => Nat.le_refl _)
  | release tid vars spurious hinside =>
      exact .inl (hstep.work_lt hlt 0 (release_price _ hinside) fun pc => pcPrice_free_le _ pc)
  | wait tid place arg place' spurious hlocking hbudget hattempt =>
      by_cases hfree : rounds.locked.word = lock.free
      · exact .inl (look_work hlt hlocking hbudget hfree hattempt)
      · refine (look_in_vain hlocking hbudget hfree).imp_right fun hsame => ⟨hsame, ?_⟩
        intro who hhelpful
        have hne : who ≠ tid := by
          intro heq
          subst heq
          rcases hhelpful with ⟨vars, hinside⟩ | ⟨hword, -⟩ | ⟨hidle, -⟩
          · rw [hlocking] at hinside
            cases hinside
          · exact hfree hword
          · rw [hlocking] at hidle
            cases hidle
        refine ⟨hne.symm, ?_⟩
        obtain ⟨hthread, hahead, -⟩ := hstep.other hne
        rcases hhelpful with ⟨vars, hinside⟩ | ⟨hword, -⟩ | ⟨hidle, hmore⟩
        · exact .inl ⟨vars, hthread.trans hinside⟩
        · exact absurd hword hfree
        · exact .inr (.inr ⟨hthread.trans hidle, hahead ▸ hmore⟩)

/-- A thread whose next step lowers the work can make it. -/
theorem helpful_moves (h : rounds.helpful tid) :
    (lockedRounds lock update cfg).CanMove (fun _ _ => True) (fun event => some event.thread)
      rounds tid := by
  have hmoves : ∃ event next, event.thread = tid ∧ rounds.step update event = some next := by
    rcases h with ⟨vars, hinside⟩ | ⟨-, place, arg, hlocking⟩ | ⟨hidle, hmore⟩
    · refine ⟨.access tid false, ?_⟩
      cases haccess : update.access (vars, rounds.locked.data) with
      | none => simp [LockedRounds.step, Locked.step, Locked.access, hinside, haccess]
      | some after => simp [LockedRounds.step, Locked.step, Locked.access, hinside, haccess]
    · refine ⟨.access tid false, ?_⟩
      simp [LockedRounds.step, Locked.step, Locked.access, hlocking]
    · obtain ⟨arg, rest, hahead⟩ := List.exists_cons_of_ne_nil hmore
      refine ⟨.call tid, ?_⟩
      simp [LockedRounds.step, Locked.step, hidle, hahead]
  obtain ⟨event, next, hthread, hstep⟩ := hmoves
  exact ⟨event, next, congrArg some hthread, trivial, hstep⟩

/-- Until all updates are made, some thread has a step that lowers the work. -/
theorem RoundInv.exists_helpful (h : RoundInv update cfg rounds order)
    (hnot : ¬ rounds.finished) : ∃ who, rounds.helpful who := by
  by_cases hfree : rounds.locked.word = lock.free
  · obtain ⟨tid, hbusy⟩ := not_forall.mp hnot
    refine ⟨tid, ?_⟩
    cases hpc : rounds.locked.threads tid with
    | idle => exact .inr (.inr ⟨hpc, fun hnone => hbusy ⟨hpc, hnone⟩⟩)
    | locking place arg => exact .inr (.inl ⟨hfree, place, arg, hpc⟩)
    | inside vars => exact .inl ⟨vars, hpc⟩
  · obtain ⟨tid, hinside⟩ := h.serial.taken.mpr hfree
    exact ⟨tid, .inl hinside⟩

/-- The rounds make progress. -/
theorem rounds_progress (accesses : AccessBound update) (spins : SpinBound lock) :
    (lockedRounds lock update cfg).Progress (fun _ _ => True) (fun event => some event.thread)
      LockedRounds.finished (roundWork accesses spins cfg.threads) LockedRounds.helpful where
  step rounds event next hreach _ hstep := by
    obtain ⟨order, hinv⟩ := roundInv_of_reachable hreach
    refine ((LockedRounds.step_cases hstep).work hinv).imp_right fun hsame => ⟨hsame.1, ?_⟩
    intro who hhelpful
    obtain ⟨hne, hstill⟩ := hsame.2 who hhelpful
    exact ⟨fun heq => hne (Option.some.inj heq), hstill⟩
  moves _ _ _ hhelpful := helpful_moves hhelpful
  helps rounds hreach hnot := by
    obtain ⟨order, hinv⟩ := roundInv_of_reachable hreach
    exact hinv.exists_helpful hnot

/-- Every fair run of the rounds ends, and the data is what the updates leave one after the
other. -/
theorem rounds_complete (accesses : AccessBound update) (spins : SpinBound lock) :
    RoundsComplete lock update cfg where
  ends := .of_progress (rounds_progress accesses spins)
  serial rounds hreach hfinished := by
    obtain ⟨order, hinv⟩ := roundInv_of_reachable hreach
    exact ⟨order, hinv.outcome hfinished⟩

end End

/-! ## Equal rounds -/

/-- Every thread makes the same update, and equally often. -/
def RoundConfig.uniform (initial : Data) (threads count : Nat) (arg : Arg) (spurious : Nat) :
    RoundConfig Arg Data where
  initial := initial
  threads := threads
  rounds tid := if tid < threads then List.replicate count arg else []
  spurious := spurious
  absent _ hge := if_neg (Nat.not_lt_of_le hge)

section Uniform

variable {order : List (ThreadId × Arg)} {threads count : Nat} {arg : Arg}

theorem acquiredBy_length (order : List (ThreadId × Arg)) (tid : ThreadId) :
    (acquiredBy order tid).length = (order.map Prod.fst).count tid := by
  rw [acquiredBy, List.length_map, List.count, List.countP_map, List.countP_eq_length_filter]
  rfl

theorem mem_acquiredBy {entry : ThreadId × Arg} (h : entry ∈ order) :
    entry.2 ∈ acquiredBy order entry.1 :=
  List.mem_map_of_mem (List.mem_filter.mpr ⟨h, beq_self_eq_true entry.1⟩)

/-- The order of equal updates is the list of all of them. -/
theorem uniform_order (h : ∀ tid, acquiredBy order tid =
      if tid < threads then List.replicate count arg else []) :
    order.map Prod.snd = List.replicate (threads * count) arg := by
  have hentry : ∀ entry ∈ order, entry.1 < threads ∧ entry.2 = arg := by
    intro entry hentry
    have hmember := mem_acquiredBy hentry
    rw [h entry.1] at hmember
    split at hmember
    · next hlt => exact ⟨hlt, List.eq_of_mem_replicate hmember⟩
    · cases hmember
  have hcount : ∀ tid ∈ Finset.range threads, (order.map Prod.fst).count tid = count := by
    intro tid hlt
    rw [← acquiredBy_length, h tid, if_pos (Finset.mem_range.mp hlt), List.length_replicate]
  have hthreads : ∀ tid ∈ (order.map Prod.fst : Multiset ThreadId),
      tid ∈ Finset.range threads := by
    intro tid hmember
    obtain ⟨entry, hmem, rfl⟩ := List.mem_map.mp hmember
    exact Finset.mem_range.mpr (hentry entry hmem).1
  have hlength : order.length = threads * count := by
    calc order.length
        = (order.map Prod.fst : Multiset ThreadId).card := by simp
      _ = ∑ tid ∈ Finset.range threads, (order.map Prod.fst).count tid := by
          rw [← Multiset.sum_count_eq_card hthreads]
          exact Finset.sum_congr rfl fun tid _ => Multiset.coe_count tid _
      _ = threads * count := by
          rw [Finset.sum_congr rfl hcount, Finset.sum_const, Finset.card_range, smul_eq_mul]
  refine List.eq_replicate_iff.mpr ⟨by rw [List.length_map, hlength], fun last hmember => ?_⟩
  obtain ⟨entry, hmem, rfl⟩ := List.mem_map.mp hmember
  exact (hentry entry hmem).2

/-- The data that equal rounds leave. -/
theorem RoundsComplete.uniform {update : Update Arg Local Data} {initial : Data} {spurious : Nat}
    (h : RoundsComplete lock update (.uniform initial threads count arg spurious))
    {rounds : LockedRounds lock Arg Local Data}
    (hreach : (lockedRounds lock update (.uniform initial threads count arg spurious)).Reachable
      (fun _ _ => True) rounds) (hfinished : rounds.finished) :
    rounds.locked.data = update.serial initial (List.replicate (threads * count) arg) := by
  obtain ⟨order, hshare, hdata⟩ := h.serial rounds hreach hfinished
  rw [hdata, uniform_order hshare]
  rfl

end Uniform

end HotPath.Foundation
