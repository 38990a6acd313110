import HotPath.Locks.RouteCache
import Mathlib.Data.Finset.Card

/-!
# The route caches behind a mutex

`MutexRouteCache` and `SharedMutexRouteCache`, one access at a time: a thread takes the mutex,
copies the four fields of `entry_` in any order, and gives the mutex back. `Read` of the second
one shares the mutex with other readers.

No thread copies a field while another one stores to the entry, so a read is a snapshot of what
the last complete write left (`GuardInv`).
-/

namespace HotPath.Locks

open HotPath.Foundation

/-- The classes, which differ in what `Read` does with the mutex. -/
inductive GuardedCache where
  | mutex
  | sharedMutex
  deriving DecidableEq

/-- Where a thread is. A thread that has returned from `Read` holds the copy. -/
inductive GuardedPc where
  | idle
  | writeLock (next : RouteEntry)
  | writeFields (next : RouteEntry) (stored : RouteField → Bool)
  | readLock
  | readFields (copied : RouteField → Bool) (copy : RouteEntry)
  | returned (copy : RouteEntry)

/-- The mutex with the threads that hold it, the entry, and where the threads are. -/
structure GuardedState where
  owner : Option ThreadId := none
  sharers : Finset ThreadId := ∅
  entry : RouteEntry := .initial
  threads : ThreadId → GuardedPc := fun _ => .idle

/-- A thread goes to another place. -/
def GuardedState.goto (state : GuardedState) (tid : ThreadId) (pc : GuardedPc) : GuardedState :=
  { state with threads := Function.update state.threads tid pc }

/-- The thread can call a function. -/
def GuardedPc.ready : GuardedPc → Bool
  | .idle | .returned _ => true
  | _ => false

/-- Take the mutex for this thread alone, if no thread holds it. -/
def GuardedState.lock (state : GuardedState) (tid : ThreadId) (pc : GuardedPc) :
    Option GuardedState :=
  if state.owner = none ∧ state.sharers = ∅ then
    some ({ state with owner := some tid }.goto tid pc)
  else none

/-- Take the mutex together with other readers, if no thread holds it alone. -/
def GuardedState.lockShared (state : GuardedState) (tid : ThreadId) (pc : GuardedPc) :
    Option GuardedState :=
  if state.owner = none then
    some ({ state with sharers := insert tid state.sharers }.goto tid pc)
  else none

/-- The next access of a thread to the mutex. -/
def GuardedCache.access (cache : GuardedCache) (state : GuardedState) (tid : ThreadId) :
    Option GuardedState :=
  match state.threads tid with
  | .writeLock next => state.lock tid (.writeFields next fun _ => false)
  | .writeFields _ stored =>
      if ∀ field, stored field = true then some ({ state with owner := none }.goto tid .idle)
      else none
  | .readLock =>
      match cache with
      | .mutex => state.lock tid (.readFields (fun _ => false) .initial)
      | .sharedMutex => state.lockShared tid (.readFields (fun _ => false) .initial)
  | .readFields copied copy =>
      if ∀ field, copied field = true then
        match cache with
        | .mutex => some ({ state with owner := none }.goto tid (.returned copy))
        | .sharedMutex =>
            some ({ state with sharers := state.sharers.erase tid }.goto tid (.returned copy))
      else none
  | _ => none

/-- The copy of one field, to or from `entry_`. -/
def GuardedState.field (state : GuardedState) (tid : ThreadId) (field : RouteField) :
    Option GuardedState :=
  match state.threads tid with
  | .writeFields next stored =>
      if stored field = false then
        some ({ state with entry := Function.update state.entry field (next field) }.goto tid
          (.writeFields next (Function.update stored field true)))
      else none
  | .readFields copied copy =>
      if copied field = false then
        some (state.goto tid (.readFields (Function.update copied field true)
          (Function.update copy field (state.entry field))))
      else none
  | _ => none

/-- One step. -/
def GuardedCache.step (cache : GuardedCache) (state : GuardedState) :
    CacheEvent → Option GuardedState
  | .write tid next =>
      if (state.threads tid).ready then some (state.goto tid (.writeLock next)) else none
  | .read tid => if (state.threads tid).ready then some (state.goto tid .readLock) else none
  | .access tid => cache.access state tid
  | .field tid field => state.field tid field

/-! ## Exclusion and snapshots -/

/-- The thread holds the mutex alone. -/
def GuardedPc.holds (cache : GuardedCache) : GuardedPc → Prop
  | .writeFields _ _ => True
  | .readFields _ _ => cache = .mutex
  | _ => False

/-- The thread holds the mutex together with other readers. -/
def GuardedPc.shares (cache : GuardedCache) : GuardedPc → Prop
  | .readFields _ _ => cache = .sharedMutex
  | _ => False

/-- The thread is neither storing to the entry nor copying it. -/
def GuardedPc.outside : GuardedPc → Prop
  | .writeFields _ _ | .readFields _ _ => False
  | _ => True

/-- What holds of a thread. The entry is what the last write left, but for the stores of a write
in progress, and copies are of what the last write left. -/
structure ThreadGuard (cache : GuardedCache) (last : RouteEntry) (state : GuardedState)
    (tid : ThreadId) (pc : GuardedPc) : Prop where
  owner : pc.holds cache ↔ state.owner = some tid
  sharers : pc.shares cache ↔ tid ∈ state.sharers
  storing : ∀ next stored, pc = .writeFields next stored →
    ∀ field, state.entry field = if stored field then next field else last field
  copied : ∀ copied copy, pc = .readFields copied copy →
    ∀ field, copied field = true → copy field = last field

/-- The mutex is held by the threads that are inside, and the entry is the last one unless a write
is in progress. -/
structure GuardInv (cache : GuardedCache) (last : RouteEntry) (state : GuardedState) : Prop where
  threads : ∀ tid, ThreadGuard cache last state tid (state.threads tid)
  excludes : state.owner ≠ none → state.sharers = ∅
  settled : (∀ tid next stored, state.threads tid ≠ .writeFields next stored) →
    state.entry = last

section Steps

variable {cache : GuardedCache} {last last' : RouteEntry} {state : GuardedState} {tid : ThreadId}
  {pc : GuardedPc}

theorem GuardedPc.outside_holds (cache : GuardedCache) (h : pc.outside) :
    ¬ pc.holds cache ∧ ¬ pc.shares cache := by
  cases pc <;> simp_all [outside, holds, shares]

/-- A thread outside holds nothing. -/
theorem ThreadGuard.of_outside (h : pc.outside) (howner : state.owner ≠ some tid)
    (hsharers : tid ∉ state.sharers) : ThreadGuard cache last state tid pc := by
  obtain ⟨hholds, hshares⟩ := GuardedPc.outside_holds cache h
  refine ⟨iff_of_false hholds howner, iff_of_false hshares hsharers, ?_, ?_⟩
  · intro next stored hpc
    rw [hpc] at h
    exact h.elim
  · intro copied copy hpc
    rw [hpc] at h
    exact h.elim

theorem GuardInv.init (cache : GuardedCache) : GuardInv cache .initial {} where
  threads tid := .of_outside trivial (by simp) (by simp)
  excludes h := absurd rfl h
  settled _ := rfl

/-- A thread moves, and what holds of every thread still does. -/
theorem GuardInv.moves {pcs : ThreadId → GuardedPc} (hpcs : state.threads = pcs)
    (hself : ThreadGuard cache last (state.goto tid pc) tid pc)
    (hothers : ∀ other, other ≠ tid → ThreadGuard cache last (state.goto tid pc) other (pcs other))
    (hexcludes : state.owner ≠ none → state.sharers = ∅)
    (hsettled : (∀ next stored, pc ≠ .writeFields next stored) →
      (∀ other, other ≠ tid → ∀ next stored, pcs other ≠ .writeFields next stored) →
        state.entry = last) :
    GuardInv cache last (state.goto tid pc) := by
  subst hpcs
  refine ⟨fun other => ?_, hexcludes, fun hnone => ?_⟩
  · by_cases heq : other = tid
    · subst heq
      simpa only [GuardedState.goto, Function.update_self] using hself
    · simpa only [GuardedState.goto, Function.update_of_ne heq] using hothers other heq
  · refine hsettled ?_ fun other hne next stored => ?_
    · simpa only [GuardedState.goto, Function.update_self] using hnone tid
    · have hother := hnone other next stored
      simpa only [GuardedState.goto, Function.update_of_ne hne] using hother

/-- A thread that holds the mutex alone is the only one inside. -/
theorem GuardInv.alone (h : GuardInv cache last state) (hholds : (state.threads tid).holds cache)
    {other : ThreadId} (hne : other ≠ tid) : (state.threads other).outside := by
  have howner := (h.threads tid).owner.mp hholds
  have hnone := h.excludes (by simp [howner])
  have hother := (h.threads other).owner
  have hshares := (h.threads other).sharers
  rw [howner] at hother
  rw [hnone] at hshares
  cases hpc : state.threads other with
  | writeFields =>
      have hsame := hother.mp (by simp [hpc, GuardedPc.holds])
      exact absurd (Option.some.inj hsame).symm hne
  | readFields =>
      cases cache
      · have hsame := hother.mp (by simp [hpc, GuardedPc.holds])
        exact absurd (Option.some.inj hsame).symm hne
      · exact absurd (hshares.mp (by simp [hpc, GuardedPc.shares])) (Finset.notMem_empty other)
  | _ => trivial

/-- Without an owner and sharers all threads are outside. -/
theorem GuardInv.free (h : GuardInv cache last state) (howner : state.owner = none)
    (hsharers : state.sharers = ∅) (tid : ThreadId) : (state.threads tid).outside := by
  have hholds := (h.threads tid).owner
  have hshares := (h.threads tid).sharers
  cases hpc : state.threads tid with
  | writeFields => simp [hpc, GuardedPc.holds, howner] at hholds
  | readFields =>
      cases cache
      · simp [hpc, GuardedPc.holds, howner] at hholds
      · simp [hpc, GuardedPc.shares, hsharers] at hshares
  | _ => trivial

/-- While no thread holds the mutex alone, no thread stores to the entry. -/
theorem GuardInv.unowned (h : GuardInv cache last state) (hfree : state.owner = none) :
    state.entry = last := by
  refine h.settled fun tid next stored hpc => ?_
  have howner := (h.threads tid).owner.mp (by simp [hpc, GuardedPc.holds])
  rw [hfree] at howner
  cases howner

/-- While a thread copies the entry, no thread stores to it. -/
theorem GuardInv.readable (h : GuardInv cache last state) {copied : RouteField → Bool}
    {copy : RouteEntry} (hpc : state.threads tid = .readFields copied copy) :
    state.entry = last := by
  refine h.settled fun other next stored hother => ?_
  have hne : tid ≠ other := by
    intro heq
    rw [heq, hother] at hpc
    cases hpc
  have hholds : (state.threads other).holds cache := by simp [hother, GuardedPc.holds]
  have houtside := h.alone hholds hne
  rw [hpc] at houtside
  exact houtside

/-- A thread that is outside goes to another place outside. -/
theorem GuardInv.goto (h : GuardInv cache last state) (hbefore : (state.threads tid).outside)
    (hafter : pc.outside) : GuardInv cache last (state.goto tid pc) := by
  obtain ⟨hholds, hshares⟩ := GuardedPc.outside_holds cache hbefore
  refine .moves rfl (.of_outside hafter ?_ ?_) (fun other _ => ?_) h.excludes fun _ hnone =>
    h.settled fun other next stored hother => ?_
  · exact fun howner => hholds ((h.threads tid).owner.mpr howner)
  · exact fun hmem => hshares ((h.threads tid).sharers.mpr hmem)
  · exact ⟨(h.threads other).owner, (h.threads other).sharers, (h.threads other).storing,
      (h.threads other).copied⟩
  · by_cases heq : other = tid
    · rw [heq] at hother
      rw [hother] at hbefore
      exact hbefore
    · exact hnone other heq next stored hother

/-- A thread takes the mutex alone. -/
theorem GuardInv.lock (h : GuardInv cache last state) {next : GuardedState}
    (hstep : state.lock tid pc = some next) (hholds : pc.holds cache)
    (hstored : ∀ next stored, pc = .writeFields next stored → stored = fun _ => false)
    (hcopied : ∀ copied copy, pc = .readFields copied copy → copied = fun _ => false) :
    GuardInv cache last next := by
  unfold GuardedState.lock at hstep
  split at hstep
  · next hfree =>
      obtain rfl := Option.some.inj hstep
      have hentry := h.unowned hfree.1
      have hshares : ¬ pc.shares cache := by
        cases pc <;> cases cache <;> simp_all [GuardedPc.holds, GuardedPc.shares]
      refine .moves rfl ⟨iff_of_true hholds rfl, ?_, fun next stored hpc field => ?_,
        fun copied copy hpc field hfield => ?_⟩ (fun other hne => ?_) (fun _ => hfree.2)
        fun _ _ => hentry
      · exact iff_of_false hshares (by simp [GuardedState.goto, hfree.2])
      · rw [hstored next stored hpc]
        exact congrFun hentry field
      · rw [hcopied copied copy hpc] at hfield
        cases hfield
      · refine .of_outside (h.free hfree.1 hfree.2 other) ?_ (by simp [GuardedState.goto, hfree.2])
        simpa [GuardedState.goto] using Ne.symm hne
  · cases hstep

/-- A reader of `SharedMutexRouteCache` takes the mutex. -/
theorem GuardInv.lockShared (h : GuardInv .sharedMutex last state) {next : GuardedState}
    {copy : RouteEntry}
    (hstep : state.lockShared tid (.readFields (fun _ => false) copy) = some next) :
    GuardInv .sharedMutex last next := by
  unfold GuardedState.lockShared at hstep
  split at hstep
  · next hfree =>
      obtain rfl := Option.some.inj hstep
      refine .moves rfl ⟨?_, ?_, nofun, fun copied copy hpc field hfield => ?_⟩
        (fun other hne => ⟨(h.threads other).owner, ?_, (h.threads other).storing,
          (h.threads other).copied⟩) (fun hsome => absurd hfree hsome) fun _ _ => h.unowned hfree
      · simp [GuardedState.goto, GuardedPc.holds, hfree]
      · simp [GuardedState.goto, GuardedPc.shares]
      · rw [← (GuardedPc.readFields.inj hpc).1] at hfield
        cases hfield
      · simpa [GuardedState.goto, hne] using (h.threads other).sharers
  · cases hstep

/-- The owner gives the mutex back. -/
theorem GuardInv.unlock (h : GuardInv cache last state)
    (hholds : (state.threads tid).holds cache) (hafter : pc.outside)
    (hentry : state.entry = last') :
    GuardInv cache last' ({ state with owner := none }.goto tid pc) := by
  have hnone := h.excludes (by simp [(h.threads tid).owner.mp hholds])
  have hout : ∀ other, other ∉ state.sharers := by simp [hnone]
  exact .moves rfl (.of_outside hafter nofun (hout tid))
    (fun other hne => .of_outside (h.alone hholds hne) nofun (hout other))
    (fun _ => hnone) fun _ _ => hentry

/-- A reader of `SharedMutexRouteCache` gives the mutex back. -/
theorem GuardInv.unlockShared (h : GuardInv .sharedMutex last state)
    {copied : RouteField → Bool} {copy : RouteEntry}
    (hpc : state.threads tid = .readFields copied copy) (hafter : pc.outside) :
    GuardInv .sharedMutex last
      ({ state with sharers := state.sharers.erase tid }.goto tid pc) := by
  have hmem := (h.threads tid).sharers.mp (by simp [hpc, GuardedPc.shares])
  have hfree : state.owner = none := by
    by_contra hsome
    rw [h.excludes hsome] at hmem
    exact Finset.notMem_empty tid hmem
  refine .moves rfl (.of_outside hafter (by simp [GuardedState.goto, hfree])
    (by simp [GuardedState.goto])) (fun other hne => ⟨(h.threads other).owner, ?_,
      (h.threads other).storing, (h.threads other).copied⟩) (fun hsome => absurd hfree hsome)
    fun _ _ => h.unowned hfree
  simpa [GuardedState.goto, hne] using (h.threads other).sharers

/-- The owner stores a field. -/
theorem GuardInv.store (h : GuardInv cache last state) {next : RouteEntry}
    {stored : RouteField → Bool} (hpc : state.threads tid = .writeFields next stored)
    (field : RouteField) :
    GuardInv cache last ({ state with entry := Function.update state.entry field (next field) }.goto
      tid (.writeFields next (Function.update stored field true))) := by
  have hself := h.threads tid
  rw [hpc] at hself
  have hholds : (state.threads tid).holds cache := by simp [hpc, GuardedPc.holds]
  refine .moves rfl ⟨hself.owner, hself.sharers, fun next' stored' hnext field' => ?_, nofun⟩
    (fun other hne => .of_outside (h.alone hholds hne) ?_ ?_) h.excludes
    fun hnone _ => absurd rfl (hnone next _)
  · obtain ⟨rfl, rfl⟩ := GuardedPc.writeFields.inj hnext
    by_cases hsame : field' = field
    · subst hsame
      simp [GuardedState.goto]
    · simpa only [GuardedState.goto, Function.update_of_ne hsame] using
        hself.storing next stored rfl field'
  · have hout := (GuardedPc.outside_holds cache (h.alone hholds hne)).1
    exact fun howner => hout ((h.threads other).owner.mpr howner)
  · have hout := (GuardedPc.outside_holds cache (h.alone hholds hne)).2
    exact fun hmem => hout ((h.threads other).sharers.mpr hmem)

/-- A reader copies a field. -/
theorem GuardInv.copy (h : GuardInv cache last state) {copied : RouteField → Bool}
    {copy : RouteEntry} (hpc : state.threads tid = .readFields copied copy) (field : RouteField) :
    GuardInv cache last (state.goto tid (.readFields (Function.update copied field true)
      (Function.update copy field (state.entry field)))) := by
  have hself := h.threads tid
  rw [hpc] at hself
  refine .moves rfl ⟨hself.owner, hself.sharers, nofun, fun copied' copy' hcopy field' hfield => ?_⟩
    (fun other _ => ⟨(h.threads other).owner, (h.threads other).sharers,
      (h.threads other).storing, (h.threads other).copied⟩) h.excludes fun _ _ => h.readable hpc
  obtain ⟨rfl, rfl⟩ := GuardedPc.readFields.inj hcopy
  by_cases hsame : field' = field
  · subst hsame
    rw [Function.update_self, h.readable hpc]
  · rw [Function.update_of_ne hsame] at hfield ⊢
    exact hself.copied copied copy rfl field' hfield

end Steps

/-! ## What a thread inside a call does -/

/-- How a thread goes on inside `Write` or `Read`, and the entry that the last complete write left
before and afterwards. -/
inductive Advance (last : RouteEntry) : GuardedPc → GuardedPc → RouteEntry → Prop where
  | lockWrite (next) : Advance last (.writeLock next) (.writeFields next fun _ => false) last
  | store (next stored field) (hnew : stored field = false) : Advance last
      (.writeFields next stored) (.writeFields next (Function.update stored field true)) last
  | unlockWrite (next stored) : Advance last (.writeFields next stored) .idle next
  | lockRead : Advance last .readLock (.readFields (fun _ => false) .initial) last
  | copy (copied copy field word) (hnew : copied field = false) : Advance last
      (.readFields copied copy)
      (.readFields (Function.update copied field true) (Function.update copy field word)) last
  | unlockRead (copied) : Advance last (.readFields copied last) (.returned last) last

/-- The accesses that a call has left. -/
def GuardedPc.work : GuardedPc → Nat
  | .idle | .returned _ => 0
  | .writeLock _ | .readLock => 6
  | .writeFields _ marks | .readFields marks _ =>
      1 + (Finset.univ.filter fun field => marks field = false).card

section Calls

variable {cache : GuardedCache} {last : RouteEntry} {state next : GuardedState} {tid : ThreadId}

/-- A field less is left. -/
theorem card_unmarked {marks : RouteField → Bool} {field : RouteField}
    (hnew : marks field = false) :
    (Finset.univ.filter fun other => Function.update marks field true other = false).card + 1 =
      (Finset.univ.filter fun other => marks other = false).card := by
  have herase : (Finset.univ.filter fun other => Function.update marks field true other = false) =
      (Finset.univ.filter fun other => marks other = false).erase field := by
    ext other
    by_cases heq : other = field
    · simp [heq]
    · simp [heq, Function.update_of_ne]
  rw [herase]
  exact Finset.card_erase_add_one (by simp [hnew])

/-- A thread that goes on has less work left. -/
theorem Advance.work_lt {pc pc' : GuardedPc} {last' : RouteEntry} (h : Advance last pc pc' last') :
    pc'.work < pc.work := by
  cases h with
  | lockWrite | lockRead =>
      show 1 + (Finset.univ.filter fun _ : RouteField => false = false).card < 6
      decide
  | unlockWrite | unlockRead =>
      show 0 < 1 + _
      omega
  | store next stored field hnew =>
      have hless := card_unmarked hnew
      show 1 + _ < 1 + _
      omega
  | copy copied copy field word hnew =>
      have hless := card_unmarked hnew
      show 1 + _ < 1 + _
      omega

/-- A step inside a call keeps the invariant. -/
structure Advances (cache : GuardedCache) (last : RouteEntry) (state next : GuardedState)
    (tid : ThreadId) (pc : GuardedPc) (last' : RouteEntry) : Prop where
  advance : Advance last (state.threads tid) pc last'
  threads : next.threads = Function.update state.threads tid pc
  inv : GuardInv cache last' next

/-- An access to the mutex. -/
theorem GuardInv.access (h : GuardInv cache last state)
    (hstep : cache.access state tid = some next) :
    ∃ pc last', Advances cache last state next tid pc last' := by
  unfold GuardedCache.access at hstep
  split at hstep
  · next entry hpc =>
      refine ⟨.writeFields entry fun _ => false, last, hpc ▸ .lockWrite entry, ?_, ?_⟩
      · obtain ⟨-, hnext⟩ := Option.ite_none_right_eq_some.mp hstep
        rw [← Option.some.inj hnext]
        rfl
      · refine h.lock hstep trivial (fun next stored hsame => ?_) nofun
        exact (GuardedPc.writeFields.inj hsame).2.symm
  · next entry stored hpc =>
      split at hstep
      · next hall =>
          obtain rfl := Option.some.inj hstep
          refine ⟨.idle, entry, hpc ▸ .unlockWrite entry stored, rfl, ?_⟩
          refine h.unlock (by simp [hpc, GuardedPc.holds]) trivial (funext fun field => ?_)
          rw [(h.threads tid).storing entry stored hpc field, if_pos (hall field)]
      · cases hstep
  · next hpc =>
      refine ⟨.readFields (fun _ => false) .initial, last, hpc ▸ .lockRead, ?_, ?_⟩
      · cases cache
        · obtain ⟨-, hnext⟩ := Option.ite_none_right_eq_some.mp hstep
          rw [← Option.some.inj hnext]
          rfl
        · obtain ⟨-, hnext⟩ := Option.ite_none_right_eq_some.mp hstep
          rw [← Option.some.inj hnext]
          rfl
      · cases cache
        · refine h.lock hstep rfl nofun fun copied copy hsame => ?_
          exact (GuardedPc.readFields.inj hsame).1.symm
        · exact h.lockShared hstep
  · next copied copy hpc =>
      split at hstep
      · next hall =>
          obtain rfl : copy = last := funext fun field =>
            (h.threads tid).copied copied copy hpc field (hall field)
          refine ⟨.returned copy, copy, hpc ▸ .unlockRead copied, ?_, ?_⟩
          · cases cache <;> (obtain rfl := Option.some.inj hstep; rfl)
          · cases cache
            · obtain rfl := Option.some.inj hstep
              exact h.unlock (by simp [hpc, GuardedPc.holds]) trivial (h.readable hpc)
            · obtain rfl := Option.some.inj hstep
              exact h.unlockShared hpc trivial
      · cases hstep
  · cases hstep

/-- The copy of a field. -/
theorem GuardInv.field (h : GuardInv cache last state) {field : RouteField}
    (hstep : state.field tid field = some next) :
    ∃ pc last', Advances cache last state next tid pc last' := by
  unfold GuardedState.field at hstep
  split at hstep
  · next entry stored hpc =>
      obtain ⟨hnew, hnext⟩ := Option.ite_none_right_eq_some.mp hstep
      obtain rfl := Option.some.inj hnext
      exact ⟨_, last, hpc ▸ .store entry stored field hnew, rfl, h.store hpc field⟩
  · next copied copy hpc =>
      obtain ⟨hnew, hnext⟩ := Option.ite_none_right_eq_some.mp hstep
      obtain rfl := Option.some.inj hnext
      exact ⟨_, last, hpc ▸ .copy copied copy field _ hnew, rfl, h.copy hpc field⟩
  · cases hstep

/-- The thread waits for the mutex. -/
def GuardedPc.waits : GuardedPc → Prop
  | .writeLock _ | .readLock => True
  | _ => False

/-- A thread inside can go on. -/
theorem can_go_on (cache : GuardedCache) (hinside : ¬ (state.threads tid).outside) :
    (cache.access state tid).isSome ∨ ∃ field, (state.field tid field).isSome := by
  cases hpc : state.threads tid with
  | writeFields next stored =>
      by_cases hall : ∀ field, stored field = true
      · simp [GuardedCache.access, hpc, hall]
      · obtain ⟨field, hfield⟩ := not_forall.mp hall
        refine .inr ⟨field, ?_⟩
        simp [GuardedState.field, hpc, hfield]
  | readFields copied copy =>
      by_cases hall : ∀ field, copied field = true
      · cases cache <;> simp [GuardedCache.access, hpc, hall]
      · obtain ⟨field, hfield⟩ := not_forall.mp hall
        refine .inr ⟨field, ?_⟩
        simp [GuardedState.field, hpc, hfield]
  | _ => exact absurd (by simp [hpc, GuardedPc.outside]) hinside

/-- A thread that waits for the mutex can go on when no thread is inside. -/
theorem GuardInv.can_enter (h : GuardInv cache last state) (hwaits : (state.threads tid).waits)
    (hfree : ∀ other, (state.threads other).outside) : (cache.access state tid).isSome := by
  have howner : state.owner = none := by
    cases howner : state.owner with
    | none => rfl
    | some other =>
        have hholds := (h.threads other).owner.mpr howner
        exact absurd hholds (GuardedPc.outside_holds cache (hfree other)).1
  have hsharers : state.sharers = ∅ := by
    refine Finset.eq_empty_of_forall_notMem fun other hmem => ?_
    exact (GuardedPc.outside_holds cache (hfree other)).2 ((h.threads other).sharers.mpr hmem)
  cases hpc : state.threads tid with
  | writeLock next => simp [GuardedCache.access, GuardedState.lock, hpc, howner, hsharers]
  | readLock =>
      cases cache <;>
        simp [GuardedCache.access, GuardedState.lock, GuardedState.lockShared, hpc, howner,
          hsharers]
  | _ => simp [hpc, GuardedPc.waits] at hwaits

end Calls

end HotPath.Locks
