import HotPath.Locks.RouteCache

/-!
# The route cache with a writer mutex

`SeqlockRouteCache<T>` of the locks episode, one access at a time. A value of `T` is copied in any
number of words and in any order. Any number of threads call `update` and `read`.

The updates are ordered by their final stores. A read returns the value of the last completed
update as it stands when the read returns (`reads_linearize`), as long as fewer than `2 ^ 64`
stores to `seq_` fall into one pass of its loop. After `2 ^ 64` stores the number is what it was,
and a read that spans them may return words of two values (`wrapped_number_hides_updates`).
-/

namespace HotPath.Locks.Episode

open HotPath.Foundation

/-- Where a thread is. A thread that has returned from `read` holds the copy. -/
inductive Pc (Index Word : Type) where
  | idle
  | lock (next : Index → Word)
  | loadSeq (next : Index → Word)
  | storeOdd (next : Index → Word) (seq0 : UInt64)
  | storeData (next : Index → Word) (seq0 : UInt64) (stored : Index → Bool)
  | unlock
  | loadSeq1 (copy : Index → Word)
  | copyData (seq1 : UInt64) (copied : Index → Bool) (copy : Index → Word)
  | returned (copy : Index → Word)

/-- The state of the cache and its threads. -/
structure State (Index Word : Type) where
  seq : UInt64 := 0
  data : Index → Word
  writerMutex : Option ThreadId := none
  threads : ThreadId → Pc Index Word := fun _ => .idle

/-- A call, the next access to `seq_` or the mutex, or the copy of one word. The local copy of a
read begins with any values. -/
inductive Event (Index Word : Type) where
  | update (tid : ThreadId) (next : Index → Word)
  | read (tid : ThreadId) (stale : Index → Word)
  | access (tid : ThreadId)
  | word (tid : ThreadId) (index : Index)

variable {Index Word : Type}

/-- A thread goes to another place. -/
def State.goto (state : State Index Word) (tid : ThreadId) (pc : Pc Index Word) :
    State Index Word :=
  { state with threads := Function.update state.threads tid pc }

/-- The thread can call a function. -/
def Pc.ready : Pc Index Word → Bool
  | .idle | .returned _ => true
  | _ => false

section Machine

variable [Fintype Index]

/-- The next access of a thread to `seq_` or the mutex. -/
def access (state : State Index Word) (tid : ThreadId) : Option (State Index Word) :=
  match state.threads tid with
  | .lock next =>
      if state.writerMutex = none then
        some ({ state with writerMutex := some tid }.goto tid (.loadSeq next))
      else none
  | .loadSeq next => some (state.goto tid (.storeOdd next state.seq))
  | .storeOdd next seq0 =>
      some ({ state with seq := seq0 + 1 }.goto tid (.storeData next seq0 fun _ => false))
  | .storeData _ seq0 stored =>
      if ∀ index, stored index = true then
        some ({ state with seq := seq0 + 2 }.goto tid .unlock)
      else none
  | .unlock => some ({ state with writerMutex := none }.goto tid .idle)
  | .loadSeq1 copy =>
      some (state.goto tid
        (if state.seq &&& 1 ≠ 0 then .loadSeq1 copy
          else .copyData state.seq (fun _ => false) copy))
  | .copyData seq1 copied copy =>
      if ∀ index, copied index = true then
        some (state.goto tid (if seq1 = state.seq then .returned copy else .loadSeq1 copy))
      else none
  | _ => none

variable [DecidableEq Index]

omit [Fintype Index] in
/-- One word of a `memcpy`, to or from `data_`. -/
def copyWord (state : State Index Word) (tid : ThreadId) (index : Index) :
    Option (State Index Word) :=
  match state.threads tid with
  | .storeData next seq0 stored =>
      if stored index = false then
        some ({ state with data := Function.update state.data index (next index) }.goto tid
          (.storeData next seq0 (Function.update stored index true)))
      else none
  | .copyData seq1 copied copy =>
      if copied index = false then
        some (state.goto tid (.copyData seq1 (Function.update copied index true)
          (Function.update copy index (state.data index))))
      else none
  | _ => none

/-- One step. -/
def step (state : State Index Word) : Event Index Word → Option (State Index Word)
  | .update tid next =>
      if (state.threads tid).ready then some (state.goto tid (.lock next)) else none
  | .read tid stale =>
      if (state.threads tid).ready then some (state.goto tid (.loadSeq1 stale)) else none
  | .access tid => access state tid
  | .word tid index => copyWord state tid index

/-- The cache with an initial value as a transition system. -/
def routeCache (initial : Index → Word) : System (State Index Word) (Event Index Word) where
  init state := state = { data := initial }
  step := step

end Machine

/-! ## What is remembered of a run -/

/-- A completed read: the index of the latest completed update when it was called and when it
returned, and the value it returned. -/
structure ReadRecord (Index Word : Type) where
  called : Nat
  returned : Nat
  value : Index → Word

/-- The number of stores to `seq_`, the initial value followed by the arguments of the completed
updates, and for each thread the number of stores at the start of its current pass, the latest
completed update at the call of its current read, and its completed reads. An update is completed
by its final store to `seq_`. -/
structure History (Index Word : Type) where
  stores : Nat
  published : List (Index → Word)
  begun : ThreadId → Nat
  called : ThreadId → Nat
  reads : ThreadId → List (ReadRecord Index Word)

/-- The index of the latest completed update. The initial value has index 0. -/
def History.latest (history : History Index Word) : Nat :=
  history.published.length - 1

/-- The history of a run. -/
def recorder : Recorder (State Index Word) (Event Index Word) (History Index Word) where
  start state := ⟨0, [state.data], fun _ => 0, fun _ => 0, fun _ => []⟩
  observe state event _ history :=
    match event with
    | .read tid _ => { history with called := Function.update history.called tid history.latest }
    | .access tid =>
        match state.threads tid with
        | .storeOdd _ _ => { history with stores := history.stores + 1 }
        | .storeData next _ _ =>
            { history with
              stores := history.stores + 1
              published := history.published ++ [next] }
        | .loadSeq1 _ => { history with begun := Function.update history.begun tid history.stores }
        | .copyData seq1 _ copy =>
            if seq1 = state.seq then
              { history with
                reads := Function.update history.reads tid
                  (history.reads tid ++ [⟨history.called tid, history.latest, copy⟩]) }
            else history
        | _ => history
    | _ => history

/-- Between the two loads of one pass of `read` there were `2 ^ 64` stores to `seq_` or more, two
for each update. -/
def longPass (pair : State Index Word × History Index Word) : Event Index Word → Bool
  | .access tid =>
      match pair.1.threads tid with
      | .copyData _ _ _ => pair.2.stores - pair.2.begun tid ≥ 2 ^ 64
      | _ => false
  | _ => false

/-- Each read takes effect at an instant between its call and its return, when it returns the
value of the latest completed update, and the instants of successive reads do not go back. -/
def Linearized (published : List (Index → Word)) (reads : List (ReadRecord Index Word)) : Prop :=
  ∃ instants : List Nat, instants.Pairwise (· ≤ ·) ∧
    List.Forall₂ (fun read instant => read.called ≤ instant ∧ instant ≤ read.returned ∧
      published[instant]? = some read.value) reads instants

/-- In every run whose events meet `allow`, the reads of every thread linearize. -/
def ReadsLinearize [DecidableEq Index] [Fintype Index] (initial : Index → Word)
    (allow : State Index Word × History Index Word → Event Index Word → Prop) : Prop :=
  ∀ pair, ((routeCache initial).withHistory recorder).Reachable allow pair →
    ∀ tid, Linearized pair.2.published (pair.2.reads tid)

/-! ## The invariant -/

/-- The thread is inside the critical section of the writer mutex. -/
def Pc.holds : Pc Index Word → Bool
  | .loadSeq _ | .storeOdd _ _ | .storeData _ _ _ | .unlock => true
  | _ => false

/-- What holds of the shared words at each place of the thread that holds the mutex. -/
def WriterInv (seq : UInt64) (data : Index → Word) (history : History Index Word) :
    Pc Index Word → Prop
  | .storeOdd _ seq0 => Even history.stores ∧ history.published.getLast? = some data ∧ seq0 = seq
  | .storeData next seq0 stored => ¬ Even history.stores ∧ seq = seq0 + 1 ∧
      ∀ index, stored index = true → data index = next index
  | _ => Even history.stores ∧ history.published.getLast? = some data

/-- What holds of a thread inside `read`. -/
def ReaderInv (data : Index → Word) (history : History Index Word) (tid : ThreadId) :
    Pc Index Word → Prop
  | .copyData seq1 copied copy =>
      seq1 = UInt64.ofNat (history.begun tid) ∧ Even (history.begun tid) ∧
        Snapshot.Consistent history.stores data ⟨history.begun tid, copied, copy⟩
  | _ => True

/-- The place of the thread that holds the mutex. -/
def State.holderPc (state : State Index Word) : Pc Index Word :=
  state.writerMutex.elim .idle state.threads

/-- The completed reads of a thread return the value of the update that was the latest one when
they returned. -/
structure ReadsInv (history : History Index Word) (tid : ThreadId) : Prop where
  called : history.called tid ≤ history.latest
  returned : ∀ read ∈ history.reads tid, read.called ≤ read.returned ∧
    read.returned ≤ history.latest ∧ history.published[read.returned]? = some read.value
  ordered : (history.reads tid).Pairwise fun first second => first.returned ≤ second.returned

/-- The invariant of the cache. -/
structure CacheInv (pair : State Index Word × History Index Word) : Prop where
  seq : pair.1.seq = UInt64.ofNat pair.2.stores
  holder : ∀ tid, (pair.1.threads tid).holds = true ↔ pair.1.writerMutex = some tid
  shared : WriterInv pair.1.seq pair.1.data pair.2 pair.1.holderPc
  readers : ∀ tid, ReaderInv pair.1.data pair.2 tid (pair.1.threads tid)
  reads : ∀ tid, ReadsInv pair.2 tid

theorem Pc.ready_not_holds {pc : Pc Index Word} (h : pc.ready = true) : pc.holds = false := by
  cases pc <;> first | rfl | cases h

section Steps

variable {tid : ThreadId} {state next : State Index Word} {history history' : History Index Word}
  {seq seq' : UInt64} {data data' : Index → Word} {mutex' : Option ThreadId}
  {pc pc' : Pc Index Word}

/-- Outside the stores of `update`, the number is even and the data is the last value. -/
theorem WriterInv.of_not_stores (h : WriterInv seq data history pc)
    (hodd : Even history.stores)
    (hpc' : pc' = .idle ∨ pc' = .unlock ∨ ∃ next, pc' = .loadSeq next) :
    WriterInv seq data history pc' := by
  have hquiet : Even history.stores ∧ history.published.getLast? = some data := by
    cases pc with
    | storeData => exact absurd hodd h.1
    | storeOdd => exact ⟨h.1, h.2.1⟩
    | _ => exact h
  rcases hpc' with rfl | rfl | ⟨next, rfl⟩ <;> exact hquiet

/-- Whenever the number is even the data is the last value. -/
theorem WriterInv.last_eq (h : WriterInv seq data history pc) (heven : Even history.stores) :
    history.published.getLast? = some data :=
  (h.of_not_stores heven (.inl rfl)).2

/-- What other threads do keeps what holds of a reader: the counter moves, or the data stays, or
the counter is odd. -/
theorem ReaderInv.frame (h : ReaderInv data history tid pc)
    (hbegun : history'.begun tid = history.begun tid)
    (hmoves : history.stores < history'.stores ∨ history'.stores = history.stores ∧
      (data' = data ∨ ¬ Even history.stores)) : ReaderInv data' history' tid pc := by
  cases pc with
  | copyData seq1 copied copy =>
      obtain ⟨hseq1, heven, hcopy⟩ := h
      refine ⟨hbegun ▸ hseq1, hbegun ▸ heven, ?_⟩
      rw [hbegun]
      rcases hmoves with hlt | ⟨hsame, rfl | hodd⟩
      · exact hcopy.advance hlt
      · exact hsame ▸ hcopy
      · exact hsame ▸ hcopy.store hodd
  | _ => trivial

/-- Further updates keep what holds of completed reads. -/
theorem ReadsInv.mono (h : ReadsInv history tid)
    (hpublished : history.published <+: history'.published)
    (hcalled : history'.called tid = history.called tid ∨ history'.called tid = history'.latest)
    (hreads : history'.reads tid = history.reads tid) : ReadsInv history' tid := by
  have hlatest : history.latest ≤ history'.latest :=
    Nat.sub_le_sub_right hpublished.length_le 1
  refine ⟨?_, fun read hread => ?_, hreads ▸ h.ordered⟩
  · rcases hcalled with hsame | hlast
    · exact hsame ▸ h.called.trans hlatest
    · exact hlast.le
  · obtain ⟨hwindow, hle, hvalue⟩ := h.returned read (hreads ▸ hread)
    refine ⟨hwindow, hle.trans hlatest, ?_⟩
    obtain ⟨rest, hrest⟩ := hpublished
    rw [← hrest, List.getElem?_append_left (List.getElem?_eq_some_iff.mp hvalue).1]
    exact hvalue

/-- A thread moves. It may change the shared words and the mutex. -/
theorem CacheInv.move (h : CacheInv (state, history))
    (hseq : seq' = UInt64.ofNat history'.stores)
    (hmutex : ∀ other, other ≠ tid → (mutex' = some other ↔ state.writerMutex = some other))
    (hholds : pc'.holds = true ↔ mutex' = some tid)
    (hshared : WriterInv seq' data' history'
      (mutex'.elim .idle (Function.update state.threads tid pc')))
    (hbegun : ∀ other, other ≠ tid → history'.begun other = history.begun other)
    (hmoves : history.stores < history'.stores ∨ history'.stores = history.stores ∧
      (data' = state.data ∨ ¬ Even history.stores))
    (hreader : ReaderInv data' history' tid pc') (hreads : ∀ other, ReadsInv history' other) :
    CacheInv (({ state with seq := seq', data := data', writerMutex := mutex' } :
      State Index Word).goto tid pc', history') := by
  refine ⟨hseq, fun other => ?_, hshared, fun other => ?_, hreads⟩
  · by_cases heq : other = tid
    · subst heq
      simpa [State.goto] using hholds
    · simpa [State.goto, Function.update_of_ne heq, hmutex other heq] using h.holder other
  · by_cases heq : other = tid
    · subst heq
      simpa [State.goto] using hreader
    · simpa [State.goto, Function.update_of_ne heq] using
        (h.readers other).frame (hbegun other heq) hmoves

/-- A thread moves from one place outside the critical section to another. -/
theorem CacheInv.roam (h : CacheInv (state, history))
    (hpc : (state.threads tid).holds = false) (hpc' : pc'.holds = false)
    (hstores : history'.stores = history.stores)
    (hpublished : history'.published = history.published)
    (hbegun : ∀ other, other ≠ tid → history'.begun other = history.begun other)
    (hreader : ReaderInv state.data history' tid pc') (hreads : ∀ other, ReadsInv history' other) :
    CacheInv (state.goto tid pc', history') := by
  have hfree : state.writerMutex ≠ some tid := by
    rw [ne_eq, ← h.holder tid, hpc]
    exact Bool.false_ne_true
  refine h.move (hstores ▸ h.seq) (fun _ _ => Iff.rfl) (by simp [hpc', hfree]) ?_ hbegun
    (.inr ⟨hstores, .inl rfl⟩) hreader hreads
  have hsame : state.writerMutex.elim .idle (Function.update state.threads tid pc') =
      state.holderPc := by
    unfold State.holderPc
    cases hmutex : state.writerMutex with
    | none => rfl
    | some other =>
        have hne : other ≠ tid := fun heq => hfree (heq ▸ hmutex)
        exact Function.update_of_ne hne _ _
  rw [hsame]
  have hshared := h.shared
  cases hplace : state.holderPc <;>
    simpa only [WriterInv, hplace, hstores, hpublished] using hshared

/-- A thread in the critical section is the one that the shared words depend on. -/
theorem CacheInv.shared_of_holds (h : CacheInv (state, history))
    (hpc : (state.threads tid).holds = true) :
    state.writerMutex = some tid ∧
      WriterInv state.seq state.data history (state.threads tid) := by
  have hmutex : state.writerMutex = some tid := (h.holder tid).mp hpc
  have hshared := h.shared
  simp only [State.holderPc, hmutex, Option.elim_some] at hshared
  exact ⟨hmutex, hshared⟩

/-- The thread that holds the mutex moves on. -/
theorem CacheInv.advance (h : CacheInv (state, history))
    (hpc : (state.threads tid).holds = true) (hpc' : pc'.holds = true)
    (hseq : seq' = UInt64.ofNat history'.stores)
    (hshared : WriterInv seq' data' history' pc') (hbegun : history'.begun = history.begun)
    (hmoves : history.stores < history'.stores ∨ history'.stores = history.stores ∧
      (data' = state.data ∨ ¬ Even history.stores))
    (hreads : ∀ other, ReadsInv history' other) :
    CacheInv (({ state with seq := seq', data := data' } : State Index Word).goto tid pc',
      history') := by
  have hmutex : state.writerMutex = some tid := (h.holder tid).mp hpc
  refine h.move hseq (fun _ _ => Iff.rfl) (by simp [hpc', hmutex]) ?_ (fun _ _ => hbegun ▸ rfl)
    hmoves ?_ hreads
  · simpa [hmutex] using hshared
  · cases pc' with
    | copyData => cases hpc'
    | _ => trivial

/-- A completed read is recorded. -/
theorem ReadsInv.record (h : ReadsInv history tid) {copy : Index → Word}
    (hlast : history.published.getLast? = some copy)
    (hcalled : history'.called tid = history.called tid)
    (hpublished : history'.published = history.published)
    (hreads : history'.reads tid =
      history.reads tid ++ [⟨history.called tid, history.latest, copy⟩]) :
    ReadsInv history' tid := by
  have hlatest : history'.latest = history.latest := by simp only [History.latest, hpublished]
  refine ⟨?_, fun read hread => ?_, ?_⟩
  · rw [hcalled, hlatest]
    exact h.called
  · rw [hlatest, hpublished]
    rw [hreads, List.mem_append, List.mem_singleton] at hread
    rcases hread with hread | rfl
    · exact h.returned read hread
    · exact ⟨h.called, Nat.le_refl _,
        by simpa [History.latest, List.getLast?_eq_getElem?] using hlast⟩
  · rw [hreads, List.pairwise_append]
    refine ⟨h.ordered, List.pairwise_singleton _ _, fun read hread last hlast => ?_⟩
    obtain rfl := List.mem_singleton.mp hlast
    exact (h.returned read hread).2.1

end Steps

/-! ## Preservation -/

section Preservation

variable [Fintype Index] {tid : ThreadId} {state next : State Index Word}
  {history : History Index Word}

/-- An access of `update`. -/
theorem CacheInv.access_update (h : CacheInv (state, history))
    (hpc : (∃ value, state.threads tid = .lock value) ∨ (state.threads tid).holds = true)
    (hstep : access state tid = some next) :
    CacheInv (next, recorder.observe state (.access tid) next history) := by
  have hreads : ∀ other, ReadsInv history other := h.reads
  simp only [access] at hstep
  simp only [recorder]
  cases hplace : state.threads tid with
  | idle | loadSeq1 | copyData | returned => simp [hplace, Pc.holds] at hpc
  | lock value =>
      simp only [hplace] at hstep ⊢
      split at hstep
      · next hfree =>
          obtain rfl := Option.some.inj hstep
          have hshared := h.shared
          simp only [State.holderPc, hfree, Option.elim_none] at hshared
          refine h.move h.seq (fun other hne => ?_) (by simp [Pc.holds]) ?_ (fun _ _ => rfl)
            (.inr ⟨rfl, .inl rfl⟩) trivial hreads
          · simp [hfree, hne.symm]
          · simpa using hshared.of_not_stores hshared.1 (.inr (.inr ⟨value, rfl⟩))
      · cases hstep
  | loadSeq value =>
      have hholds : (state.threads tid).holds = true := by simp [hplace, Pc.holds]
      obtain ⟨-, hshared⟩ := h.shared_of_holds hholds
      simp only [hplace, Option.some.injEq] at hstep hshared ⊢
      subst hstep
      exact h.advance hholds rfl h.seq ⟨hshared.1, hshared.2, rfl⟩ rfl (.inr ⟨rfl, .inl rfl⟩) hreads
  | storeOdd value seq0 =>
      have hholds : (state.threads tid).holds = true := by simp [hplace, Pc.holds]
      obtain ⟨-, hshared⟩ := h.shared_of_holds hholds
      simp only [hplace, Option.some.injEq] at hstep hshared ⊢
      subst hstep
      obtain ⟨heven, -, rfl⟩ := hshared
      refine h.advance hholds rfl ?_ ⟨?_, rfl, fun _ hstored => ?_⟩ rfl
        (.inl (Nat.lt_succ_self _)) fun other => (hreads other).mono (List.prefix_refl _)
          (.inl rfl) rfl
      · rw [h.seq]
        exact (UInt64.ofNat_add _ _).symm
      · simpa [Nat.even_add_one] using heven
      · cases hstored
  | storeData value seq0 stored =>
      have hholds : (state.threads tid).holds = true := by simp [hplace, Pc.holds]
      obtain ⟨-, hshared⟩ := h.shared_of_holds hholds
      simp only [hplace] at hstep hshared ⊢
      split at hstep
      · next hall =>
          obtain rfl := Option.some.inj hstep
          obtain ⟨hodd, hseq, hwords⟩ := hshared
          have hdata : state.data = value := funext fun index => hwords index (hall index)
          refine h.advance hholds rfl ?_ ⟨?_, ?_⟩ rfl (.inl (Nat.lt_succ_self _))
            fun other => (hreads other).mono (List.prefix_append _ _) (.inl rfl) rfl
          · rw [UInt64.ofNat_add, ← h.seq, hseq, UInt64.add_assoc]
            rfl
          · simpa [Nat.even_add_one] using hodd
          · simp [hdata]
      · cases hstep
  | unlock =>
      have hholds : (state.threads tid).holds = true := by simp [hplace, Pc.holds]
      obtain ⟨hmutex, hshared⟩ := h.shared_of_holds hholds
      simp only [hplace, Option.some.injEq] at hstep hshared ⊢
      subst hstep
      refine h.move h.seq (fun other hne => ?_) (by simp [Pc.holds]) ?_ (fun _ _ => rfl)
        (.inr ⟨rfl, .inl rfl⟩) trivial hreads
      · simp [hmutex, hne.symm]
      · simpa using hshared.of_not_stores hshared.1 (.inl rfl)

/-- An access of `read`. -/
theorem CacheInv.access_read (h : CacheInv (state, history))
    (hpc : (state.threads tid).holds = false) (hlock : ∀ value, state.threads tid ≠ .lock value)
    (hlong : longPass (state, history) (.access tid) = false)
    (hstep : access state tid = some next) :
    CacheInv (next, recorder.observe state (.access tid) next history) := by
  have hreader := h.readers tid
  simp only [access] at hstep
  simp only [recorder]
  cases hplace : state.threads tid with
  | loadSeq | storeOdd | storeData | unlock => simp [hplace, Pc.holds] at hpc
  | lock value => exact absurd hplace (hlock value)
  | idle | returned => simp [hplace] at hstep
  | loadSeq1 copy =>
      simp only [hplace, Option.some.injEq] at hstep ⊢
      subst hstep
      have hbegun : ∀ other, other ≠ tid →
          Function.update history.begun tid history.stores other = history.begun other :=
        fun other hne => Function.update_of_ne hne _ _
      refine h.roam hpc (by split <;> rfl) rfl rfl hbegun ?_
        fun other => (h.reads other).mono (List.prefix_refl _) (.inl rfl) rfl
      split
      · trivial
      · next heven =>
          have hseq := h.seq
          simp only [ReaderInv, Function.update_self]
          refine ⟨hseq, ?_, Snapshot.consistent_begin _ _ _⟩
          exact (ofNat_and_one_eq_zero _).mp (hseq ▸ not_not.mp heven)
  | copyData seq1 copied copy =>
      simp only [hplace] at hstep hreader ⊢
      simp only [longPass, hplace, decide_eq_false_iff_not, not_le] at hlong
      split at hstep
      · next hall =>
          obtain rfl := Option.some.inj hstep
          split
          · next hsame =>
              obtain ⟨hseq1, hbegunEven, hcopy⟩ := hreader
              have hbegun : history.begun tid = history.stores :=
                begun_eq hcopy.begun_le hlong (hseq1 ▸ h.seq ▸ hsame)
              have heven : Even history.stores := hbegun ▸ hbegunEven
              have hdata : copy = state.data := hcopy.words_eq hbegun heven hall
              refine h.roam hpc rfl rfl rfl (fun _ _ => rfl) trivial fun other => ?_
              by_cases heq : other = tid
              · subst heq
                exact (h.reads other).record (hdata ▸ h.shared.last_eq heven) rfl rfl
                  (Function.update_self _ _ _)
              · exact (h.reads other).mono (List.prefix_refl _) (.inl rfl)
                  (Function.update_of_ne heq _ _)
          · exact h.roam hpc rfl rfl rfl (fun _ _ => rfl) trivial h.reads
      · cases hstep

variable [DecidableEq Index]

omit [Fintype Index] in
/-- One word of a `memcpy`. -/
theorem CacheInv.copy_word (h : CacheInv (state, history)) {index : Index}
    (hstep : copyWord state tid index = some next) : CacheInv (next, history) := by
  have hreader := h.readers tid
  simp only [copyWord] at hstep
  cases hplace : state.threads tid with
  | storeData value seq0 stored =>
      have hholds : (state.threads tid).holds = true := by simp [hplace, Pc.holds]
      obtain ⟨-, hshared⟩ := h.shared_of_holds hholds
      simp only [hplace] at hstep hshared
      split at hstep
      · obtain rfl := Option.some.inj hstep
        obtain ⟨hodd, hseq, hwords⟩ := hshared
        refine h.advance hholds rfl h.seq ⟨hodd, hseq, fun other hstored => ?_⟩ rfl
          (.inr ⟨rfl, .inr hodd⟩) h.reads
        by_cases heq : other = index
        · subst heq
          simp
        · rw [Function.update_of_ne heq] at hstored ⊢
          exact hwords other hstored
      · cases hstep
  | copyData seq1 copied copy =>
      simp only [hplace] at hstep hreader
      split at hstep
      · obtain rfl := Option.some.inj hstep
        obtain ⟨hseq1, heven, hcopy⟩ := hreader
        exact h.roam (by simp [hplace, Pc.holds]) rfl rfl rfl (fun _ _ => rfl)
          ⟨hseq1, heven, hcopy.take index⟩ h.reads
      · cases hstep
  | _ => simp [hplace] at hstep

/-- Every step keeps the invariant, unless a pass of `read` is too long. -/
theorem CacheInv.step {pair final : State Index Word × History Index Word}
    {initial : Index → Word} {event : Event Index Word} (h : CacheInv pair)
    (hlong : longPass pair event = false)
    (hstep : ((routeCache initial).withHistory recorder).step pair event = some final) :
    CacheInv final := by
  obtain ⟨state, history⟩ := pair
  obtain ⟨next, history'⟩ := final
  obtain ⟨hnext, hhistory⟩ := System.withHistory_step.mp hstep
  obtain rfl : history' = recorder.observe state event next history := hhistory
  cases event with
  | update tid value =>
      simp only [routeCache, Episode.step] at hnext
      split at hnext
      · next hready =>
          obtain rfl := Option.some.inj hnext
          exact h.roam (Pc.ready_not_holds hready) rfl rfl rfl (fun _ _ => rfl) trivial h.reads
      · cases hnext
  | read tid stale =>
      simp only [routeCache, Episode.step] at hnext
      split at hnext
      · next hready =>
          obtain rfl := Option.some.inj hnext
          refine h.roam (Pc.ready_not_holds hready) rfl rfl rfl (fun _ _ => rfl) trivial
            fun other => (h.reads other).mono (List.prefix_refl _) ?_ rfl
          by_cases heq : other = tid
          · subst heq
            exact .inr (Function.update_self _ _ _)
          · exact .inl (Function.update_of_ne heq _ _)
      · cases hnext
  | access tid =>
      by_cases hpc : (∃ value, state.threads tid = .lock value) ∨
          (state.threads tid).holds = true
      · exact h.access_update hpc hnext
      · obtain ⟨hlock, hholds⟩ := not_or.mp hpc
        exact h.access_read (by simpa using hholds) (not_exists.mp hlock) hlong hnext
  | word tid index => exact h.copy_word hnext

end Preservation

/-- The reads of every thread linearize, as long as no pass of `read` spans `2 ^ 64` stores to
`seq_`. -/
theorem reads_linearize [DecidableEq Index] [Fintype Index] (initial : Index → Word) :
    ReadsLinearize initial fun pair event => longPass pair event = false := by
  intro pair hreach tid
  have hinv : CacheInv pair := by
    refine hreach.invariant CacheInv ?_ fun _ _ _ h hlong hstep => h.step hlong hstep
    intro ⟨state, history⟩ ⟨hstate, hhistory⟩
    obtain rfl : state = { data := initial } := hstate
    obtain rfl : history = recorder.start { data := initial } := hhistory
    refine ⟨rfl, fun _ => by simp [Pc.holds], ⟨Even.zero, rfl⟩, fun _ => trivial, fun _ => ?_⟩
    exact ⟨Nat.zero_le _, fun read hread => (by cases hread), List.Pairwise.nil⟩
  have hreads := hinv.reads tid
  refine ⟨(pair.2.reads tid).map (·.returned), List.pairwise_map.mpr hreads.ordered, ?_⟩
  rw [List.forall₂_map_right_iff, List.forall₂_same]
  intro read hread
  obtain ⟨hwindow, -, hvalue⟩ := hreads.returned read hread
  exact ⟨hwindow, Nat.le_refl _, hvalue⟩

/-! ## A read that spans `2 ^ 63` updates -/

/-- The initial value of the run below. -/
def zeros : Bool → Bool := fun _ => false

/-- The argument of every update of the run below. -/
def ones : Bool → Bool := fun _ => true

/-- Thread 0 calls `update` and runs it to the end. -/
def updateRun : List (Event Bool Bool) :=
  [.update 0 ones, .access 0, .access 0, .access 0, .word 0 false, .word 0 true, .access 0,
    .access 0]

/-- An update that nothing interrupts. -/
theorem replay_update (state : State Bool Bool) (history : History Bool Bool)
    (hmutex : state.writerMutex = none) (hidle : state.threads 0 = .idle) :
    ∃ next, ((routeCache zeros).withHistory recorder).replay (fun _ _ => True) (state, history)
        updateRun = some next ∧
      next.1.seq = state.seq + 2 ∧ next.1.data = ones ∧ next.1.writerMutex = none ∧
      next.1.threads 0 = .idle ∧ (∀ other, other ≠ 0 →
        next.1.threads other = state.threads other) ∧
      next.2.published = history.published ++ [ones] ∧ next.2.reads = history.reads := by
  refine ⟨_, by
    simp [System.replay, updateRun, System.withHistory, routeCache, step, access, copyWord,
      State.goto, Pc.ready, hmutex, hidle]
    rfl, ?_⟩
  have hwords : Function.update (Function.update state.data false (ones false)) true (ones true) =
      ones := by
    funext index
    cases index <;> simp
  simp only [recorder, Function.update_self, hwords, true_and, and_true]
  exact fun other hne => Function.update_of_ne hne _ _

/-- Thread 1 has copied the first word, and `count` updates have completed since. -/
structure Stalled (count : Nat) (pair : State Bool Bool × History Bool Bool) : Prop where
  seq : pair.1.seq = UInt64.ofNat (2 * count)
  data : 0 < count → pair.1.data = ones
  free : pair.1.writerMutex = none
  writer : pair.1.threads 0 = .idle
  reader : pair.1.threads 1 =
    .copyData 0 (Function.update (fun _ => false) false true) zeros
  published : pair.2.published = zeros :: List.replicate count ones
  reads : pair.2.reads 1 = []

/-- Thread 1 can be stalled through any number of updates. -/
theorem exists_stalled (count : Nat) :
    ∃ pair, ((routeCache zeros).withHistory recorder).Reachable (fun _ _ => True) pair ∧
      Stalled count pair := by
  induction count with
  | zero =>
      have hinit : ((routeCache zeros).withHistory recorder).Reachable (fun _ _ => True)
          ({ data := zeros }, recorder.start { data := zeros }) := .init ⟨rfl, rfl⟩
      have hrun : ∃ pair, ((routeCache zeros).withHistory recorder).replay (fun _ _ => True)
          ({ data := zeros }, recorder.start { data := zeros })
          [.read 1 zeros, .access 1, .word 1 false] = some pair ∧ Stalled 0 pair := by
        refine ⟨_, by
          simp [System.replay, System.withHistory, routeCache, step, access, copyWord, State.goto,
            Pc.ready]
          rfl, ?_⟩
        exact ⟨rfl, fun h => absurd h (Nat.lt_irrefl 0), rfl, rfl, rfl, rfl, rfl⟩
      obtain ⟨pair, hrun, hstalled⟩ := hrun
      exact ⟨pair, hinit.replay hrun, hstalled⟩
  | succ count ih =>
      obtain ⟨⟨state, history⟩, hreach, h⟩ := ih
      obtain ⟨next, hrun, hseq, hdata, hfree, hwriter, hothers, hpublished, hreads⟩ :=
        replay_update state history h.free h.writer
      refine ⟨next, hreach.replay hrun, ?_, fun _ => hdata, hfree, hwriter, ?_, ?_, ?_⟩
      · rw [hseq, h.seq, Nat.mul_add, UInt64.ofNat_add]
        rfl
      · exact (hothers 1 (by decide)).trans h.reader
      · rw [hpublished, h.published, List.replicate_succ']
        rfl
      · rw [hreads]
        exact h.reads

/-- A read that spans `2 ^ 63` updates returns one word of the initial value and one word of the
updates. -/
theorem wrapped_number_hides_updates : ¬ ReadsLinearize zeros fun _ _ => True := by
  intro hlinear
  obtain ⟨⟨state, history⟩, hreach, h⟩ := exists_stalled (2 ^ 63)
  have hseq : state.seq = 0 := h.seq.trans (by decide)
  have hdata : state.data = ones := h.data (by decide)
  have hreader := h.reader
  simp only at hreader
  have hrun : ∃ pair, ((routeCache zeros).withHistory recorder).replay (fun _ _ => True)
      (state, history) [.word 1 true, .access 1] = some pair ∧
      pair.2.published = history.published ∧
      pair.2.reads 1 = [⟨history.called 1, history.latest, Function.update zeros true true⟩] := by
    have hreads : history.reads 1 = [] := h.reads
    refine ⟨_, by
      simp [System.replay, System.withHistory, routeCache, step, access, copyWord, State.goto,
        hreader, hseq, hdata]
      rfl, ?_⟩
    simp [recorder, hreads, ones]
  obtain ⟨pair, hrun, hpublished, hreads⟩ := hrun
  obtain ⟨instants, -, hinstants⟩ := hlinear pair (hreach.replay hrun) 1
  rw [hreads, List.forall₂_cons_left_iff] at hinstants
  obtain ⟨instant, -, ⟨-, -, hvalue⟩, -, -⟩ := hinstants
  have hmem := List.mem_of_getElem? hvalue
  rw [hpublished, h.published, List.mem_cons, List.mem_replicate] at hmem
  rcases hmem with hzeros | ⟨-, hones⟩
  · have hword := congrFun hzeros true
    simp [zeros] at hword
  · have hword := congrFun hones false
    simp [zeros, ones] at hword

end HotPath.Locks.Episode
