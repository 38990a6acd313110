import HotPath.Foundation.Transition
import Mathlib.Data.Finset.Insert
import Mathlib.Data.Finset.Erase

/-!
# The three-state locks

`RawFutexMutex`, `AdaptiveFutexMutex` and `Cpp20AtomicWaitLock`, one atomic access at a time. They
share their code but for the length of the spin loop and for what a woken thread does: `wait` of
`std::atomic` looks at the word again, `FUTEX_WAIT` returns. The kernel keeps the set of threads
that sleep. Wake-ups and failures of the weak compare-exchange may be spurious.

`no_lost_wakeup` says that whenever a thread sleeps, the word is 2 or a wake-up is under way.
`lock_excludes` says that the critical sections run one after the other.
-/

namespace HotPath.Locks.ThreeState

open HotPath.Foundation

/-- A thread, by number. -/
abbrev ThreadId := Nat

/-- What the three locks differ in. -/
structure LockCode where
  spins : Nat
  rechecks : Bool

/-- `RawFutexMutex`. -/
def rawFutexMutex : LockCode := ⟨0, false⟩

/-- `AdaptiveFutexMutex`. -/
def adaptiveFutexMutex : LockCode := ⟨40, false⟩

/-- `Cpp20AtomicWaitLock`. -/
def cpp20AtomicWaitLock : LockCode := ⟨40, true⟩

/-- Where a thread is. The local variable `c` is kept where a later branch reads it. -/
inductive Pc where
  | idle
  | firstCas
  | spinLoad (spin : Nat) (c : UInt32)
  | spinCas (spin : Nat)
  | firstExchange
  | wait
  | asleep
  | recheck
  | exchange (slept : Bool)
  | critical
  | wake
  deriving DecidableEq

/-- One access of a critical section, on the local variables of the thread and the data. -/
abbrev Access (Local Data : Type) := Local × Data → Local × Data

/-- The lock, the data that it guards, and the threads. -/
structure State (Local Data : Type) where
  word : UInt32 := 0
  sleepers : Finset ThreadId := ∅
  data : Data
  locals : ThreadId → Local
  threads : ThreadId → Pc := fun _ => .idle

/-- A call of `lock` with the local variables of its caller, the next access of `lock`, a failure
of the weak compare-exchange that has no cause, a wake-up that has no cause, an access of the
critical section, a call of `unlock`, and the wake-up of one sleeper. -/
inductive Event (Local Data : Type) where
  | lock (tid : ThreadId) (start : Local)
  | access (tid : ThreadId)
  | spuriousFailure (tid : ThreadId)
  | spuriousWake (tid : ThreadId)
  | body (tid : ThreadId) (access : Access Local Data)
  | unlock (tid : ThreadId)
  | wake (tid sleeper : ThreadId)

variable {Local Data : Type}

/-- A thread goes to another place. -/
def State.goto (state : State Local Data) (tid : ThreadId) (pc : Pc) : State Local Data :=
  { state with threads := Function.update state.threads tid pc }

/-- The next pass of the spin loop, or what follows it. -/
def spinOn (code : LockCode) (spin : Nat) (c : UInt32) : Pc :=
  if spin < code.spins then .spinLoad spin c
  else if c ≠ 2 then .firstExchange
  else .wait

/-- The thread is put to sleep. -/
def State.sleep (state : State Local Data) (tid : ThreadId) : State Local Data :=
  { state with sleepers := insert tid state.sleepers }.goto tid .asleep

/-- A sleeping thread is woken. -/
def State.rouse (code : LockCode) (state : State Local Data) (tid : ThreadId) :
    State Local Data :=
  { state with sleepers := state.sleepers.erase tid }.goto tid
    (if code.rechecks then .recheck else .exchange true)

/-- The next access of a thread that is inside `lock`. -/
def access (code : LockCode) (state : State Local Data) (tid : ThreadId) :
    Option (State Local Data) :=
  match state.threads tid with
  | .firstCas =>
      if state.word = 0 then some ({ state with word := 1 }.goto tid .critical)
      else some (state.goto tid (spinOn code 0 state.word))
  | .spinLoad spin c =>
      some (state.goto tid (if state.word = 0 then .spinCas spin else spinOn code (spin + 1) c))
  | .spinCas spin =>
      if state.word = 0 then some ({ state with word := 1 }.goto tid .critical)
      else some (state.goto tid (spinOn code (spin + 1) state.word))
  | .firstExchange | .exchange _ =>
      some ({ state with word := 2 }.goto tid (if state.word ≠ 0 then .wait else .critical))
  | .wait => some (if state.word = 2 then state.sleep tid else state.goto tid (.exchange false))
  | .recheck => some (if state.word = 2 then state.sleep tid else state.goto tid (.exchange true))
  | _ => none

/-- One step. -/
def step (code : LockCode) (state : State Local Data) :
    Event Local Data → Option (State Local Data)
  | .lock tid start =>
      if state.threads tid = .idle then
        some ({ state with locals := Function.update state.locals tid start }.goto tid .firstCas)
      else none
  | .access tid => access code state tid
  | .spuriousFailure tid =>
      match state.threads tid with
      | .spinCas spin => some (state.goto tid (spinOn code (spin + 1) state.word))
      | _ => none
  | .spuriousWake tid => if state.threads tid = .asleep then some (state.rouse code tid) else none
  | .body tid access =>
      if state.threads tid = .critical then
        let result := access (state.locals tid, state.data)
        some { state with
          locals := Function.update state.locals tid result.1
          data := result.2 }
      else none
  | .unlock tid =>
      if state.threads tid = .critical then
        some ({ state with word := 0 }.goto tid (if state.word = 2 then .wake else .idle))
      else none
  | .wake tid sleeper =>
      if state.threads tid = .wake then
        if sleeper ∈ state.sleepers then some ((state.rouse code sleeper).goto tid .idle)
        else if state.sleepers = ∅ then some (state.goto tid .idle)
        else none
      else none

/-- A lock with its data as a transition system. -/
def lockSystem (code : LockCode) (initial : Data) :
    System (State Local Data) (Event Local Data) where
  init state := state.word = 0 ∧ state.sleepers = ∅ ∧ state.data = initial ∧
    ∀ tid, state.threads tid = .idle
  step := step code

/-! ## What an access can do -/

/-- The thread is inside `lock`, before the access that acquires the lock. -/
def Pc.locking : Pc → Bool
  | .idle | .critical | .wake => false
  | _ => true

/-- The thread has been woken, and its next access looks at the word again or exchanges it. -/
def Pc.woken : Pc → Bool
  | .recheck | .exchange true => true
  | _ => false

/-- A step of a thread inside `lock`, from one word and place to another. The cases are a look at
the word, the acquisition of the free lock, and the exchange of the word of a taken lock. -/
inductive LockMove (word : UInt32) (pc : Pc) : UInt32 → Pc → Prop where
  | look {pc' : Pc} : pc'.locking = true → pc' ≠ .asleep → (pc.woken = true → pc'.woken = true) →
      LockMove word pc word pc'
  | acquire {word' : UInt32} : word = 0 → word' = 2 ∨ word' = 1 ∧ pc.woken = false →
      LockMove word pc word' .critical
  | contend : word ≠ 0 → LockMove word pc 2 .wait

theorem spinOn_locking (code : LockCode) (spin : Nat) (c : UInt32) :
    (spinOn code spin c).locking = true ∧ spinOn code spin c ≠ .asleep := by
  unfold spinOn
  split
  · simp [Pc.locking]
  · split <;> simp [Pc.locking]

theorem spinOn_look {code : LockCode} {word c : UInt32} {pc : Pc} {spin : Nat}
    (hpc : pc.woken = false) : LockMove word pc word (spinOn code spin c) := by
  obtain ⟨hlocking, hawake⟩ := spinOn_locking code spin c
  exact .look hlocking hawake (by simp [hpc])

/-- An access of `lock` puts the thread to sleep on the word 2, or moves it. -/
theorem access_cases {code : LockCode} {state next : State Local Data} {tid : ThreadId}
    (h : access code state tid = some next) :
    (state.threads tid).locking = true ∧ state.threads tid ≠ .asleep ∧
      (state.word = 2 ∧ next = state.sleep tid ∨
        ∃ word' pc', LockMove state.word (state.threads tid) word' pc' ∧
          next = ({ state with word := word' } : State Local Data).goto tid pc') := by
  unfold access at h
  cases hpc : state.threads tid with
  | idle | asleep | critical | wake => simp [hpc] at h
  | firstCas =>
      refine ⟨rfl, by simp, .inr ?_⟩
      simp only [hpc] at h
      split at h
      · next hfree => exact ⟨1, _, .acquire hfree (.inr ⟨rfl, rfl⟩), (Option.some.inj h).symm⟩
      · exact ⟨state.word, _, spinOn_look rfl, (Option.some.inj h).symm⟩
  | spinLoad spin c =>
      refine ⟨rfl, by simp, .inr ?_⟩
      simp only [hpc] at h
      split at h
      · exact ⟨state.word, _, .look rfl (by simp) (by simp [Pc.woken]), (Option.some.inj h).symm⟩
      · exact ⟨state.word, _, spinOn_look rfl, (Option.some.inj h).symm⟩
  | spinCas spin =>
      refine ⟨rfl, by simp, .inr ?_⟩
      simp only [hpc] at h
      split at h
      · next hfree => exact ⟨1, _, .acquire hfree (.inr ⟨rfl, rfl⟩), (Option.some.inj h).symm⟩
      · exact ⟨state.word, _, spinOn_look rfl, (Option.some.inj h).symm⟩
  | firstExchange | exchange =>
      refine ⟨rfl, by simp, .inr ?_⟩
      simp only [hpc] at h
      split at h
      · next htaken => exact ⟨2, _, .contend htaken, (Option.some.inj h).symm⟩
      · next hfree => exact ⟨2, _, .acquire (not_not.mp hfree) (.inl rfl), (Option.some.inj h).symm⟩
  | wait | recheck =>
      refine ⟨rfl, by simp, ?_⟩
      simp only [hpc] at h
      split at h
      · next hcontended => exact .inl ⟨hcontended, (Option.some.inj h).symm⟩
      · exact .inr ⟨state.word, _, .look rfl (by simp) (by simp [Pc.woken]),
          (Option.some.inj h).symm⟩

/-! ## Wake-ups -/

/-- The word announces sleepers, or an unlocking thread has yet to wake one, or a woken thread has
yet to look at the word or exchange it. -/
def Covered (word : UInt32) (threads : ThreadId → Pc) : Prop :=
  word = 2 ∨ (∃ tid, threads tid = .wake) ∨ ∃ tid, (threads tid).woken = true

/-- The invariant of the sleeping threads. -/
structure WakeInv (state : State Local Data) : Prop where
  sleepers : ∀ tid, tid ∈ state.sleepers ↔ state.threads tid = .asleep
  covered : state.sleepers.Nonempty → Covered state.word state.threads

section Wake

variable {code : LockCode} {state next : State Local Data} {tid : ThreadId} {word' : UInt32}
  {pc' : Pc} {threads : ThreadId → Pc}

theorem WakeInv.init {initial : Data} (h : (lockSystem code initial).init state) :
    WakeInv state := by
  obtain ⟨-, hnone, -, hidle⟩ := h
  refine ⟨fun tid => by simp [hnone, hidle], fun hsome => ?_⟩
  exact absurd hnone hsome.ne_empty

/-- A thread that moves may stop to cover the sleepers only if the word is 2 afterwards. -/
theorem Covered.update {word : UInt32} (h : Covered word threads)
    (hword : word = 2 → Covered word' (Function.update threads tid pc'))
    (hpc : threads tid = .wake ∨ (threads tid).woken = true →
      Covered word' (Function.update threads tid pc')) :
    Covered word' (Function.update threads tid pc') := by
  have hother : ∀ other, other ≠ tid → Function.update threads tid pc' other = threads other :=
    fun other hne => Function.update_of_ne hne _ _
  rcases h with htwo | ⟨other, hwake⟩ | ⟨other, hwoken⟩
  · exact hword htwo
  · by_cases heq : other = tid
    · subst heq
      exact hpc (.inl hwake)
    · exact .inr (.inl ⟨other, (hother other heq).trans hwake⟩)
  · by_cases heq : other = tid
    · subst heq
      exact hpc (.inr hwoken)
    · exact .inr (.inr ⟨other, (congrArg Pc.woken (hother other heq)).trans hwoken⟩)

/-- A thread moves from one place where it is awake to another. -/
theorem WakeInv.move (h : WakeInv state) (hpc : state.threads tid ≠ .asleep)
    (hpc' : pc' ≠ .asleep)
    (hcovered : state.sleepers.Nonempty → Covered state.word state.threads →
      Covered word' (Function.update state.threads tid pc')) :
    WakeInv (({ state with word := word' } : State Local Data).goto tid pc') := by
  refine ⟨fun other => ?_, fun hsome => hcovered hsome (h.covered hsome)⟩
  by_cases heq : other = tid
  · subst heq
    simpa [State.goto, hpc'] using (h.sleepers other).not.mpr hpc
  · simpa [State.goto, Function.update_of_ne heq] using h.sleepers other

/-- A thread goes to sleep while the word is 2. -/
theorem WakeInv.sleep (h : WakeInv state) (hword : state.word = 2) :
    WakeInv (state.sleep tid) := by
  refine ⟨fun other => ?_, fun _ => .inl hword⟩
  by_cases heq : other = tid
  · subst heq
    simp [State.sleep, State.goto]
  · simpa [State.sleep, State.goto, Function.update_of_ne heq, heq] using h.sleepers other

/-- A woken thread covers the others. -/
theorem WakeInv.rouse (h : WakeInv state) (code : LockCode) (tid : ThreadId) :
    WakeInv (state.rouse code tid) ∧ ((state.rouse code tid).threads tid).woken = true := by
  have hwoken : (if code.rechecks then Pc.recheck else .exchange true).woken = true := by
    split <;> rfl
  have htid : ((state.rouse code tid).threads tid).woken = true := by
    simpa [State.rouse, State.goto] using hwoken
  refine ⟨⟨fun other => ?_, fun _ => .inr (.inr ⟨tid, htid⟩)⟩, htid⟩
  · by_cases heq : other = tid
    · subst heq
      simp only [State.rouse, State.goto, Function.update_self, Finset.notMem_erase, false_iff]
      split <;> decide
    · simpa [State.rouse, State.goto, Function.update_of_ne heq, heq] using h.sleepers other

/-- An access of `lock` keeps the sleepers covered. -/
theorem WakeInv.lock_move (h : WakeInv state) (hpc : state.threads tid ≠ .asleep)
    (hlocking : (state.threads tid).locking = true)
    (hmove : LockMove state.word (state.threads tid) word' pc') :
    WakeInv (({ state with word := word' } : State Local Data).goto tid pc') := by
  have hnotWake : state.threads tid ≠ .wake := by
    intro hwake
    rw [hwake] at hlocking
    cases hlocking
  cases hmove with
  | look hlocking' hawake hkeeps =>
      refine h.move hpc hawake fun _ hcovered => hcovered.update .inl fun hduty => ?_
      exact .inr (.inr ⟨tid, by simpa using hkeeps (hduty.resolve_left hnotWake)⟩)
  | acquire hfree hword =>
      refine h.move hpc (by decide) fun _ hcovered => hcovered.update (fun htwo => ?_)
        fun hduty => ?_
      · rw [hfree] at htwo
        cases htwo
      · rcases hword with rfl | ⟨-, hquiet⟩
        · exact .inl rfl
        · rw [hduty.resolve_left hnotWake] at hquiet
          cases hquiet
  | contend => exact h.move hpc (by decide) fun _ _ => .inl rfl

/-- Every step keeps the sleepers covered. -/
theorem WakeInv.step {event : Event Local Data} (h : WakeInv state)
    (hstep : step code state event = some next) : WakeInv next := by
  cases event with
  | lock tid start =>
      simp only [ThreeState.step] at hstep
      split at hstep
      · next hidle =>
          obtain rfl := Option.some.inj hstep
          have hmove : WakeInv (state.goto tid .firstCas) := by
            refine h.move (by simp [hidle]) (by decide) fun _ hcovered => hcovered.update .inl ?_
            simp [hidle, Pc.woken]
          exact ⟨hmove.sleepers, hmove.covered⟩
      · cases hstep
  | access tid =>
      obtain ⟨hlocking, hawake, ⟨hword, rfl⟩ | ⟨word', pc', hmove, rfl⟩⟩ := access_cases hstep
      · exact h.sleep hword
      · exact h.lock_move hawake hlocking hmove
  | spuriousFailure tid =>
      simp only [ThreeState.step] at hstep
      split at hstep
      · next spin hpc =>
          obtain rfl := Option.some.inj hstep
          exact h.lock_move (by simp [hpc]) (by simp [hpc, Pc.locking]) (hpc ▸ spinOn_look rfl)
      · cases hstep
  | spuriousWake tid =>
      simp only [ThreeState.step] at hstep
      split at hstep
      · obtain rfl := Option.some.inj hstep
        exact (h.rouse code tid).1
      · cases hstep
  | body tid access =>
      simp only [ThreeState.step] at hstep
      split at hstep
      · obtain rfl := Option.some.inj hstep
        exact ⟨h.sleepers, h.covered⟩
      · cases hstep
  | unlock tid =>
      simp only [ThreeState.step] at hstep
      split at hstep
      · next hcritical =>
          obtain rfl := Option.some.inj hstep
          refine h.move (by simp [hcritical]) (by split <;> decide) fun _ hcovered =>
            hcovered.update (fun htwo => ?_) (by simp [hcritical, Pc.woken])
          exact .inr (.inl ⟨tid, by simp [htwo]⟩)
      · cases hstep
  | wake tid sleeper =>
      simp only [ThreeState.step] at hstep
      split at hstep
      · next hwake =>
          split at hstep
          · next hsleeper =>
              obtain rfl := Option.some.inj hstep
              have hne : sleeper ≠ tid := by
                rintro rfl
                rw [(h.sleepers sleeper).mp hsleeper] at hwake
                cases hwake
              obtain ⟨hrouse, hwoken⟩ := h.rouse code sleeper
              have hkeeps : (state.rouse code sleeper).threads tid ≠ .asleep := by
                simp [State.rouse, State.goto, Function.update_of_ne hne.symm, hwake]
              -- The woken thread takes over from the one that woke it.
              refine hrouse.move hkeeps (by decide) fun _ _ => .inr (.inr ⟨sleeper, ?_⟩)
              rwa [Function.update_of_ne hne]
          · split at hstep
            · next hnone =>
                obtain rfl := Option.some.inj hstep
                refine h.move (by simp [hwake]) (by decide) fun hsome => ?_
                exact absurd hnone hsome.ne_empty
            · cases hstep
      · cases hstep

end Wake

/-- The lock never loses a wake-up: while a thread sleeps, the word is 2, or an unlocking thread
has yet to wake a sleeper, or a woken thread has yet to look at the word or exchange it. So a free
lock with a sleeping thread always has a thread that is due to wake it or to take the lock. -/
def KeepsWakeups (Local : Type) (code : LockCode) (initial : Data) : Prop :=
  ∀ state : State Local Data, (lockSystem code initial).Reachable (fun _ _ => True) state →
    (∃ tid, state.threads tid = .asleep) →
      Covered state.word state.threads ∧ (state.word = 0 →
        (∃ tid, state.threads tid = .wake) ∨ ∃ tid, (state.threads tid).woken = true)

/-- The three locks, with any number of threads, never lose a wake-up. -/
theorem no_lost_wakeup (Local : Type) (code : LockCode) (initial : Data) :
    KeepsWakeups Local code initial := by
  intro state hreach ⟨sleeper, hasleep⟩
  have hinv : WakeInv state := by
    exact hreach.invariant WakeInv (fun _ h => .init h) fun _ _ _ h _ hstep => h.step hstep
  have hcovered := hinv.covered ⟨sleeper, (hinv.sleepers sleeper).mpr hasleep⟩
  refine ⟨hcovered, fun hfree => hcovered.resolve_left fun htwo => ?_⟩
  rw [hfree] at htwo
  cases htwo

/-! ## Critical sections -/

/-- A critical section: the local variables it started with, and its accesses so far. -/
structure Section (Local Data : Type) where
  start : Local
  accesses : List (Access Local Data)

/-- Run a critical section alone. -/
def Section.run (body : Section Local Data) (data : Data) : Local × Data :=
  body.accesses.foldl (fun result access => access result) (body.start, data)

/-- Run critical sections one after the other. -/
def serial (initial : Data) (bodies : List (Section Local Data)) : Data :=
  bodies.foldl (fun data body => (body.run data).2) initial

/-- The completed critical sections in the order of their unlocks, and the section that each
thread has begun. -/
structure History (Local Data : Type) where
  completed : List (Section Local Data)
  current : ThreadId → Section Local Data

/-- The history of a run. -/
def recorder : Recorder (State Local Data) (Event Local Data) (History Local Data) where
  start state := ⟨[], fun tid => ⟨state.locals tid, []⟩⟩
  observe _ event _ history :=
    match event with
    | .lock tid start =>
        { history with current := Function.update history.current tid ⟨start, []⟩ }
    | .body tid access =>
        let body := history.current tid
        { history with
          current := Function.update history.current tid
            { body with accesses := body.accesses ++ [access] } }
    | .unlock tid => { history with completed := history.completed ++ [history.current tid] }
    | _ => history

/-- The invariant of the owner and the data. -/
structure OwnerInv (initial : Data) (pair : State Local Data × History Local Data) : Prop where
  alone : ∀ tid other, pair.1.threads tid = .critical → pair.1.threads other = .critical →
    tid = other
  taken : pair.1.word ≠ 0 ↔ ∃ tid, pair.1.threads tid = .critical
  quiet : pair.1.word = 0 → pair.1.data = serial initial pair.2.completed
  begun : ∀ tid, (pair.1.threads tid).locking = true →
    pair.2.current tid = ⟨pair.1.locals tid, []⟩
  inside : ∀ tid, pair.1.threads tid = .critical →
    (pair.1.locals tid, pair.1.data) =
      (pair.2.current tid).run (serial initial pair.2.completed)

section Owner

variable {code : LockCode} {initial : Data} {state next : State Local Data}
  {history : History Local Data} {tid : ThreadId} {word' : UInt32} {pc' : Pc}

theorem OwnerInv.init (h : (lockSystem code initial).init state) :
    OwnerInv initial (state, recorder.start state) := by
  obtain ⟨hword, -, hdata, hidle⟩ := h
  exact ⟨fun _ _ hcritical => by simp [hidle] at hcritical, by simp [hword, hidle],
    fun _ => hdata, fun _ _ => rfl, fun _ hcritical => by simp [hidle] at hcritical⟩

/-- A thread that moves outside its critical section does not change who is in one. -/
theorem critical_update_iff {threads : ThreadId → Pc} {pc : Pc} (h : threads tid ≠ .critical)
    (hpc : pc ≠ .critical) (other : ThreadId) :
    Function.update threads tid pc other = .critical ↔ threads other = .critical := by
  by_cases heq : other = tid
  · subst heq
    simp [h, hpc]
  · rw [Function.update_of_ne heq]

/-- A thread moves outside its critical section. -/
theorem OwnerInv.roam (h : OwnerInv initial (state, history))
    (hpc : state.threads tid ≠ .critical) (hpc' : pc' ≠ .critical)
    (hword : word' = 0 ↔ state.word = 0)
    (hbegun : pc'.locking = true → (state.threads tid).locking = true) :
    OwnerInv initial (({ state with word := word' } : State Local Data).goto tid pc', history) := by
  have hsame := critical_update_iff hpc hpc'
  refine ⟨fun first second hfirst hsecond => ?_, ?_, fun hfree => h.quiet (hword.mp hfree),
    fun other hlocking => ?_, fun other hcritical => ?_⟩
  · exact h.alone first second ((hsame first).mp hfirst) ((hsame second).mp hsecond)
  · simpa only [State.goto, hsame, ne_eq, hword] using h.taken
  · by_cases heq : other = tid
    · subst heq
      exact h.begun other (hbegun (by simpa [State.goto] using hlocking))
    · exact h.begun other (by simpa [State.goto, Function.update_of_ne heq] using hlocking)
  · exact h.inside other ((hsame other).mp hcritical)

/-- A thread acquires the free lock. -/
theorem OwnerInv.acquire (h : OwnerInv initial (state, history))
    (hlocking : (state.threads tid).locking = true) (hfree : state.word = 0) (hword : word' ≠ 0) :
    OwnerInv initial (({ state with word := word' } : State Local Data).goto tid .critical,
      history) := by
  have hnone : ∀ other, state.threads other ≠ .critical := fun other hcritical =>
    h.taken.mpr ⟨other, hcritical⟩ hfree
  have honly : ∀ other, Function.update state.threads tid .critical other = .critical →
      other = tid := by
    intro other hcritical
    by_contra hne
    rw [Function.update_of_ne hne] at hcritical
    exact hnone other hcritical
  refine ⟨fun first second hfirst hsecond => ?_, ?_, fun hzero => absurd hzero hword,
    fun other hother => ?_, fun other hcritical => ?_⟩
  · exact (honly first hfirst).trans (honly second hsecond).symm
  · exact ⟨fun _ => ⟨tid, by simp [State.goto]⟩, fun _ => hword⟩
  · by_cases heq : other = tid
    · subst heq
      simp [State.goto, Pc.locking] at hother
    · exact h.begun other (by simpa [State.goto, Function.update_of_ne heq] using hother)
  · obtain rfl := honly other hcritical
    change (state.locals other, state.data) = _
    rw [h.begun other hlocking, h.quiet hfree]
    rfl

/-- The owner accesses its local variables and the data. -/
theorem OwnerInv.body (h : OwnerInv initial (state, history))
    (hcritical : state.threads tid = .critical) (access : Access Local Data) :
    OwnerInv initial
      ({ state with
          locals := Function.update state.locals tid (access (state.locals tid, state.data)).1
          data := (access (state.locals tid, state.data)).2 },
        recorder.observe state (.body tid access) state history) := by
  refine ⟨h.alone, h.taken, fun hfree => absurd hfree (h.taken.mpr ⟨tid, hcritical⟩),
    fun other hlocking => ?_, fun other hother => ?_⟩
  · have hne : other ≠ tid := by
      rintro rfl
      change (state.threads other).locking = true at hlocking
      rw [hcritical] at hlocking
      cases hlocking
    simpa [recorder, Function.update_of_ne hne] using h.begun other hlocking
  · obtain rfl := h.alone other tid hother hcritical
    have hinside := h.inside other hcritical
    simp only [recorder, Function.update_self, Section.run, List.foldl_append,
      List.foldl_cons, List.foldl_nil] at hinside ⊢
    rw [← hinside]

/-- The owner releases the lock. -/
theorem OwnerInv.release (h : OwnerInv initial (state, history))
    (hcritical : state.threads tid = .critical) (hpc' : pc' = .idle ∨ pc' = .wake) :
    OwnerInv initial (({ state with word := 0 } : State Local Data).goto tid pc',
      { history with completed := history.completed ++ [history.current tid] }) := by
  have hnone : ∀ other, Function.update state.threads tid pc' other ≠ .critical := by
    intro other
    by_cases heq : other = tid
    · subst heq
      rcases hpc' with rfl | rfl <;> simp
    · rw [Function.update_of_ne heq]
      exact fun hother => heq (h.alone other tid hother hcritical)
  refine ⟨fun first _ hfirst => absurd hfirst (hnone first), ?_, fun _ => ?_,
    fun other hother => ?_, fun other hother => absurd hother (hnone other)⟩
  · exact ⟨fun hzero => absurd rfl hzero, fun ⟨other, hother⟩ => absurd hother (hnone other)⟩
  · simp only [State.goto, serial, List.foldl_append, List.foldl_cons, List.foldl_nil]
    exact congrArg Prod.snd (h.inside tid hcritical)
  · by_cases heq : other = tid
    · subst heq
      rcases hpc' with rfl | rfl <;> simp [State.goto, Pc.locking] at hother
    · exact h.begun other (by simpa [State.goto, Function.update_of_ne heq] using hother)

/-- A thread calls `lock`. -/
theorem OwnerInv.enter (h : OwnerInv initial (state, history)) (hidle : state.threads tid = .idle)
    (start : Local) :
    OwnerInv initial
      (({ state with locals := Function.update state.locals tid start } :
          State Local Data).goto tid .firstCas,
        { history with current := Function.update history.current tid ⟨start, []⟩ }) := by
  have hnotIdle : ∀ other, state.threads other = .critical → other ≠ tid := by
    rintro other hcritical rfl
    rw [hidle] at hcritical
    cases hcritical
  have hoff : state.threads tid ≠ .critical := by simp [hidle]
  have hsame := critical_update_iff hoff (show Pc.firstCas ≠ .critical by decide)
  refine ⟨fun first second hfirst hsecond => ?_, ?_, h.quiet, fun other hlocking => ?_,
    fun other hcritical => ?_⟩
  · exact h.alone first second ((hsame first).mp hfirst) ((hsame second).mp hsecond)
  · simpa only [State.goto, hsame] using h.taken
  · by_cases heq : other = tid
    · subst heq
      simp [State.goto]
    · simp only [State.goto, Function.update_of_ne heq] at hlocking ⊢
      exact h.begun other hlocking
  · have hinside := (hsame other).mp hcritical
    have hne := hnotIdle other hinside
    simp only [State.goto, Function.update_of_ne hne]
    exact h.inside other hinside

/-- An access of `lock` keeps the invariant. -/
theorem OwnerInv.lock_move (h : OwnerInv initial (state, history))
    (hlocking : (state.threads tid).locking = true)
    (hmove : LockMove state.word (state.threads tid) word' pc') :
    OwnerInv initial (({ state with word := word' } : State Local Data).goto tid pc', history) := by
  have hpc : state.threads tid ≠ .critical := by
    intro hcritical
    rw [hcritical] at hlocking
    cases hlocking
  cases hmove with
  | look hlocking' =>
      refine h.roam hpc ?_ Iff.rfl fun _ => hlocking
      rintro rfl
      cases hlocking'
  | acquire hfree hword =>
      refine h.acquire hlocking hfree ?_
      rcases hword with rfl | ⟨rfl, -⟩ <;> decide
  | contend htaken => exact h.roam hpc (by decide) (by simp [htaken]) fun _ => hlocking

/-- Putting a thread to sleep or waking it moves it within `lock`. -/
theorem OwnerInv.sleepers (h : OwnerInv initial (state, history)) (sleepers : Finset ThreadId)
    (hpc : (state.threads tid).locking = true) (hpc' : pc'.locking = true) :
    OwnerInv initial (({ state with sleepers := sleepers } : State Local Data).goto tid pc',
      history) := by
  have hmoved : OwnerInv initial (state.goto tid pc', history) := by
    refine h.roam ?_ ?_ Iff.rfl fun _ => hpc
    · intro hcritical
      rw [hcritical] at hpc
      cases hpc
    · rintro rfl
      cases hpc'
  exact ⟨hmoved.alone, hmoved.taken, hmoved.quiet, hmoved.begun, hmoved.inside⟩

/-- Waking a sleeping thread moves it within `lock`. -/
theorem OwnerInv.rouse (h : OwnerInv initial (state, history)) (code : LockCode)
    (hasleep : state.threads tid = .asleep) : OwnerInv initial (state.rouse code tid, history) :=
  h.sleepers _ (by simp [hasleep, Pc.locking]) (by split <;> rfl)

/-- Every step keeps the invariant. -/
theorem OwnerInv.step {pair final : State Local Data × History Local Data}
    {event : Event Local Data} (h : OwnerInv initial pair) (hwakeInv : WakeInv pair.1)
    (hstep : ((lockSystem code initial).withHistory recorder).step pair event = some final) :
    OwnerInv initial final := by
  obtain ⟨state, history⟩ := pair
  obtain ⟨next, history'⟩ := final
  obtain ⟨hnext, hhistory⟩ := System.withHistory_step.mp hstep
  obtain rfl : history' = recorder.observe state event next history := hhistory
  cases event with
  | lock tid start =>
      simp only [lockSystem, ThreeState.step] at hnext
      split at hnext
      · next hidle =>
          obtain rfl := Option.some.inj hnext
          exact h.enter hidle start
      · cases hnext
  | access tid =>
      obtain ⟨hlocking, -, ⟨-, rfl⟩ | ⟨word', pc', hmove, rfl⟩⟩ := access_cases hnext
      · exact h.sleepers _ hlocking rfl
      · exact h.lock_move hlocking hmove
  | spuriousFailure tid =>
      simp only [lockSystem, ThreeState.step] at hnext
      split at hnext
      · next spin hpc =>
          obtain rfl := Option.some.inj hnext
          exact h.lock_move (by simp [hpc, Pc.locking]) (hpc ▸ spinOn_look rfl)
      · cases hnext
  | spuriousWake tid =>
      simp only [lockSystem, ThreeState.step] at hnext
      split at hnext
      · next hasleep =>
          obtain rfl := Option.some.inj hnext
          exact h.rouse code hasleep
      · cases hnext
  | body tid access =>
      simp only [lockSystem, ThreeState.step] at hnext
      split at hnext
      · next hcritical =>
          obtain rfl := Option.some.inj hnext
          exact h.body hcritical access
      · cases hnext
  | unlock tid =>
      simp only [lockSystem, ThreeState.step] at hnext
      split at hnext
      · next hcritical =>
          obtain rfl := Option.some.inj hnext
          exact h.release hcritical (by split <;> simp)
      · cases hnext
  | wake tid sleeper =>
      simp only [lockSystem, ThreeState.step] at hnext
      split at hnext
      · next hwake =>
          split at hnext
          · next hsleeper =>
              obtain rfl := Option.some.inj hnext
              have hasleep := (hwakeInv.sleepers sleeper).mp hsleeper
              have hne : tid ≠ sleeper := by
                rintro rfl
                rw [hwake] at hasleep
                cases hasleep
              have htid : (state.rouse code sleeper).threads tid = .wake := by
                simp [State.rouse, State.goto, Function.update_of_ne hne, hwake]
              exact (h.rouse code hasleep).roam (by simp [htid]) (by decide) Iff.rfl
                (by simp [Pc.locking])
          · split at hnext
            · obtain rfl := Option.some.inj hnext
              exact h.roam (by simp [hwake]) (by decide) Iff.rfl (by simp [Pc.locking])
            · cases hnext
      · cases hnext

end Owner

/-- The lock excludes: at most one thread is in its critical section, the word is not 0 exactly
while a thread is in it, and that thread sees its local variables and the data as if its section
ran alone after the completed ones. When no thread is in its critical section the data is what the
completed sections leave when they run one after the other. -/
def Excludes (Local : Type) (code : LockCode) (initial : Data) : Prop :=
  ∀ pair : State Local Data × History Local Data,
    ((lockSystem code initial).withHistory recorder).Reachable (fun _ _ => True) pair →
      (∀ tid other, pair.1.threads tid = .critical → pair.1.threads other = .critical →
        tid = other) ∧
      (pair.1.word ≠ 0 ↔ ∃ tid, pair.1.threads tid = .critical) ∧
      (∀ tid, pair.1.threads tid = .critical → (pair.1.locals tid, pair.1.data) =
        (pair.2.current tid).run (serial initial pair.2.completed)) ∧
      (pair.1.word = 0 → pair.1.data = serial initial pair.2.completed)

/-- The three locks exclude, for any number of threads and any critical sections. -/
theorem lock_excludes (Local : Type) (code : LockCode) (initial : Data) :
    Excludes Local code initial := by
  intro pair hreach
  have hinv : WakeInv pair.1 ∧ OwnerInv initial pair := by
    refine hreach.invariant (fun pair => WakeInv pair.1 ∧ OwnerInv initial pair) ?_ ?_
    · intro ⟨state, history⟩ ⟨hinit, hhistory⟩
      obtain rfl : history = recorder.start state := hhistory
      exact ⟨.init hinit, .init hinit⟩
    · intro pair event final h _ hstep
      exact ⟨h.1.step (System.withHistory_step.mp hstep).1, h.2.step h.1 hstep⟩
  exact ⟨hinv.2.alone, hinv.2.taken, hinv.2.inside, hinv.2.quiet⟩

end HotPath.Locks.ThreeState
