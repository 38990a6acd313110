import HotPath.Foundation.Snapshot
import HotPath.Foundation.Transition

/-!
# The sequence lock

`SeqLock` with one writer and any number of readers, one access at a time. The writer calls
`WriteBegin`, stores words of the payload, and calls `WriteEnd`. A reader calls `ReadBegin`, copies
words of the payload in any order, and calls `ReadRetry`.

`reads_snapshots` says that a reader that is told not to retry holds the payload as some completed
write left it, or the initial payload, if fewer than `2 ^ 63` writes completed during its read.
-/

namespace HotPath.Concurrency

open HotPath.Foundation

/-- `ReadRetry(start_seq)` when it loads `end_seq`. -/
def readRetry (startSeq endSeq : UInt64) : Bool :=
  startSeq &&& 1 != 0 || startSeq != endSeq

/-- Where a reader is. A reader that `ReadRetry` answered `false` keeps its copy. -/
inductive ReaderPc (Index Word : Type) where
  | idle
  | reading (startSeq : UInt64) (copied : Index → Bool) (copy : Index → Word)
  | accepted (copied : Index → Bool) (copy : Index → Word)

/-- The counter, the payload, and where the writer and the readers are. -/
structure SeqLockState (Index Word : Type) where
  sequence : UInt64
  payload : Index → Word
  writing : Bool
  readers : Nat → ReaderPc Index Word

/-- The accesses of the writer, and those of a reader given by its number. A reader begins with
any local values in its copy. -/
inductive SeqLockEvent (Index Word : Type) where
  | writeBegin
  | store (index : Index) (word : Word)
  | writeEnd
  | readBegin (reader : Nat) (stale : Index → Word)
  | copy (reader : Nat) (index : Index)
  | readRetry (reader : Nat)

variable {Index Word : Type} [DecidableEq Index]

/-- A reader goes to another place. -/
def SeqLockState.goto (state : SeqLockState Index Word) (reader : Nat)
    (pc : ReaderPc Index Word) : SeqLockState Index Word :=
  { state with readers := Function.update state.readers reader pc }

/-- One access. `fetch_add` wraps around at `2 ^ 64`. -/
def seqLockStep (state : SeqLockState Index Word) :
    SeqLockEvent Index Word → Option (SeqLockState Index Word)
  | .writeBegin =>
      if state.writing then none
      else some { state with sequence := state.sequence + 1, writing := true }
  | .store index word =>
      if state.writing then
        some { state with payload := Function.update state.payload index word }
      else none
  | .writeEnd =>
      if state.writing then some { state with sequence := state.sequence + 1, writing := false }
      else none
  | .readBegin reader stale =>
      match state.readers reader with
      | .reading _ _ _ => none
      | _ => some (state.goto reader (.reading state.sequence (fun _ => false) stale))
  | .copy reader index =>
      match state.readers reader with
      | .reading startSeq copied copy =>
          some (state.goto reader (.reading startSeq (Function.update copied index true)
            (Function.update copy index (state.payload index))))
      | _ => none
  | .readRetry reader =>
      match state.readers reader with
      | .reading startSeq copied copy =>
          some (state.goto reader
            (if readRetry startSeq state.sequence then .idle else .accepted copied copy))
      | _ => none

variable (Index Word) in
/-- The lock as a transition system. The initial sequence is even. -/
def seqLock : System (SeqLockState Index Word) (SeqLockEvent Index Word) where
  init state := Even state.sequence.toNat ∧ state.writing = false ∧ ∀ reader,
    state.readers reader = .idle
  step := seqLockStep

/-! ## What is remembered of a run -/

/-- The counter without wrap-around, the initial payload followed by the payload after each
completed write, the counter at each reader's `ReadBegin`, and the number of writes that completed
during its read. -/
structure SeqLockHistory (Index Word : Type) where
  count : Nat
  payloads : List (Index → Word)
  begun : Nat → Nat
  during : Nat → Nat

/-- The reader is between `ReadBegin` and `ReadRetry`. -/
def ReaderPc.inRead : ReaderPc Index Word → Bool
  | .reading _ _ _ => true
  | _ => false

/-- The history of a run. -/
def seqLockRecorder :
    Recorder (SeqLockState Index Word) (SeqLockEvent Index Word) (SeqLockHistory Index Word) where
  start state := ⟨state.sequence.toNat, [state.payload], fun _ => 0, fun _ => 0⟩
  observe state event _ history :=
    match event with
    | .writeBegin => { history with count := history.count + 1 }
    | .writeEnd =>
        { history with
          count := history.count + 1
          payloads := history.payloads ++ [state.payload]
          during := fun reader =>
            if (state.readers reader).inRead then history.during reader + 1
            else history.during reader }
    | .readBegin reader _ =>
        { history with
          begun := Function.update history.begun reader history.count
          during := Function.update history.during reader 0 }
    | _ => history

/-! ## The invariant -/

/-- What holds of a reader. -/
def ReadInv (payload : Index → Word) (history : SeqLockHistory Index Word) (reader : Nat) :
    ReaderPc Index Word → Prop
  | .idle => True
  | .reading startSeq copied copy =>
      startSeq = UInt64.ofNat (history.begun reader) ∧
        Snapshot.Consistent history.count payload ⟨history.begun reader, copied, copy⟩ ∧
        (Even (history.begun reader) →
          history.count ≤ history.begun reader + 2 * history.during reader + 1)
  | .accepted copied copy => history.during reader < 2 ^ 63 →
      ∃ payload ∈ history.payloads, ∀ index, copied index = true → copy index = payload index

/-- The counter is odd exactly during a write, and between writes the payload is the last one
recorded. -/
structure SeqLockInv (pair : SeqLockState Index Word × SeqLockHistory Index Word) : Prop where
  sequence : pair.1.sequence = UInt64.ofNat pair.2.count
  writing : pair.1.writing = true ↔ ¬ Even pair.2.count
  payload : pair.1.writing = false → pair.1.payload ∈ pair.2.payloads
  readers : ∀ reader, ReadInv pair.1.payload pair.2 reader (pair.1.readers reader)

section Steps

variable {state next : SeqLockState Index Word} {history : SeqLockHistory Index Word}
  {pc : ReaderPc Index Word} {reader : Nat}

omit [DecidableEq Index] in
/-- The counter moves at the beginning or at the end of a write. At the end of a write the reader
counts it. -/
theorem ReadInv.advance {history' : SeqLockHistory Index Word} {payload : Index → Word}
    (h : ReadInv payload history reader pc) (hbegun : history'.begun = history.begun)
    (hcount : history'.count = history.count + 1)
    (hpayloads : history.payloads ⊆ history'.payloads)
    (hduring : history'.during reader = history.during reader ∧
        (Even history.count ∨ pc.inRead = false) ∨
      history'.during reader = history.during reader + 1 ∧ pc.inRead = true) :
    ReadInv payload history' reader pc := by
  cases pc with
  | idle => trivial
  | reading startSeq copied copy =>
      obtain ⟨hstart, hcopy, hfew⟩ := h
      refine ⟨hbegun ▸ hstart, ?_, fun heven => ?_⟩
      · rw [hbegun, hcount]
        exact hcopy.advance (Nat.lt_succ_self _)
      · rw [hbegun] at heven ⊢
        have hle := hfew heven
        rw [Nat.even_iff] at heven
        rcases hduring with ⟨hsame, hquiet⟩ | ⟨hmore, -⟩
        · have hcountEven := hquiet.resolve_right (by simp [ReaderPc.inRead])
          rw [Nat.even_iff] at hcountEven
          omega
        · omega
  | accepted copied copy =>
      rcases hduring with ⟨hsame, -⟩ | ⟨-, hread⟩
      · intro hfew
        obtain ⟨payload, hmem, hcopy⟩ := h (hsame ▸ hfew)
        exact ⟨payload, hpayloads hmem, hcopy⟩
      · cases hread

omit [DecidableEq Index] in
/-- A reader moves. -/
theorem SeqLockInv.goto (h : SeqLockInv (state, history)) {history' : SeqLockHistory Index Word}
    (hcount : history'.count = history.count) (hpayloads : history'.payloads = history.payloads)
    (hothers : ∀ other, other ≠ reader → history'.begun other = history.begun other ∧
      history'.during other = history.during other)
    (hreader : ReadInv state.payload history' reader pc) :
    SeqLockInv (state.goto reader pc, history') := by
  refine ⟨hcount ▸ h.sequence, hcount ▸ h.writing, hpayloads ▸ h.payload, fun other => ?_⟩
  by_cases heq : other = reader
  · subst heq
    simp only [SeqLockState.goto, Function.update_self]
    exact hreader
  · obtain ⟨hbegun, hduring⟩ := hothers other heq
    have hother := h.readers other
    simp only [SeqLockState.goto, Function.update_of_ne heq]
    cases hpc : state.readers other with
    | idle => trivial
    | reading | accepted =>
        simpa only [hpc, ReadInv, hcount, hpayloads, hbegun, hduring] using hother

/-- The writer's accesses keep the invariant. -/
theorem SeqLockInv.write {event : SeqLockEvent Index Word} (h : SeqLockInv (state, history))
    (hevent : event = .writeBegin ∨ event = .writeEnd ∨ ∃ index word, event = .store index word)
    (hstep : seqLockStep state event = some next) :
    SeqLockInv (next, seqLockRecorder.observe state event next history) := by
  have hsucc : state.sequence + 1 = UInt64.ofNat (history.count + 1) := by
    rw [UInt64.ofNat_add, ← h.sequence]
    rfl
  rcases hevent with rfl | rfl | ⟨index, word, rfl⟩
  · simp only [seqLockStep] at hstep
    split at hstep
    · cases hstep
    · next hwriting =>
        obtain rfl := Option.some.inj hstep
        have heven : Even history.count := not_not.mp fun hodd => hwriting (h.writing.mpr hodd)
        refine ⟨hsucc, ?_, fun hquiet => (by cases hquiet), fun reader => ?_⟩
        · simpa [seqLockRecorder, Nat.even_add_one] using heven
        · exact (h.readers reader).advance rfl rfl (List.Subset.refl _) (.inl ⟨rfl, .inl heven⟩)
  · simp only [seqLockStep] at hstep
    split at hstep
    · next hwriting =>
        obtain rfl := Option.some.inj hstep
        have hodd := h.writing.mp hwriting
        refine ⟨hsucc, ?_, fun _ => by simp [seqLockRecorder], fun reader => ?_⟩
        · simpa [seqLockRecorder, Nat.even_add_one] using hodd
        · refine (h.readers reader).advance rfl rfl (List.subset_append_left _ _) ?_
          cases hread : (state.readers reader).inRead with
          | true => exact .inr ⟨by simp [seqLockRecorder, hread], rfl⟩
          | false => exact .inl ⟨by simp [seqLockRecorder, hread], .inr rfl⟩
    · cases hstep
  · simp only [seqLockStep] at hstep
    split at hstep
    · next hwriting =>
        obtain rfl := Option.some.inj hstep
        have hodd := h.writing.mp hwriting
        refine ⟨h.sequence, h.writing, fun hquiet => ?_, fun reader => ?_⟩
        · exact absurd hwriting (by simpa using hquiet)
        · have hreader := h.readers reader
          cases hpc : state.readers reader with
          | reading startSeq copied copy =>
              simp only [hpc] at hreader ⊢
              exact ⟨hreader.1, hreader.2.1.store hodd, hreader.2.2⟩
          | idle => trivial
          | accepted copied copy =>
              rw [hpc] at hreader
              exact hreader
    · cases hstep

/-- A reader's accesses keep the invariant. -/
theorem SeqLockInv.read {event : SeqLockEvent Index Word} (h : SeqLockInv (state, history))
    (hevent : (∃ stale, event = .readBegin reader stale) ∨ (∃ index, event = .copy reader index) ∨
      event = .readRetry reader)
    (hstep : seqLockStep state event = some next) :
    SeqLockInv (next, seqLockRecorder.observe state event next history) := by
  have hreader := h.readers reader
  rcases hevent with ⟨stale, rfl⟩ | ⟨index, rfl⟩ | rfl
  · simp only [seqLockStep] at hstep
    split at hstep
    · cases hstep
    · obtain rfl := Option.some.inj hstep
      refine h.goto rfl rfl (fun other hne => ?_) ?_
      · simp [seqLockRecorder, Function.update_of_ne hne]
      · simp only [ReadInv, seqLockRecorder, Function.update_self]
        exact ⟨h.sequence, Snapshot.consistent_begin _ _ _, fun _ => by omega⟩
  · cases hpc : state.readers reader with
    | idle | accepted => simp [seqLockStep, hpc] at hstep
    | reading startSeq copied copy =>
        simp only [seqLockStep, hpc, Option.some.injEq] at hstep hreader
        subst hstep
        exact h.goto rfl rfl (fun _ _ => ⟨rfl, rfl⟩)
          ⟨hreader.1, hreader.2.1.take index, hreader.2.2⟩
  · cases hpc : state.readers reader with
    | idle | accepted => simp [seqLockStep, hpc] at hstep
    | reading startSeq copied copy =>
        simp only [seqLockStep, hpc, Option.some.injEq] at hstep hreader
        subst hstep
        refine h.goto rfl rfl (fun _ _ => ⟨rfl, rfl⟩) ?_
        split
        · trivial
        · next hretry =>
            obtain ⟨hstart, hcopy, hfew⟩ := hreader
            simp only [readRetry, Bool.or_eq_true, bne_iff_ne, not_or, not_not] at hretry
            obtain ⟨heven, hsame⟩ := hretry
            intro hduring
            change history.during reader < 2 ^ 63 at hduring
            rw [hstart, ofNat_and_one_eq_zero] at heven
            have hle := hfew heven
            have hbegun : history.begun reader = history.count :=
              begun_eq hcopy.begun_le (by omega) (hstart ▸ h.sequence ▸ hsame)
            have hcount : Even history.count := hbegun ▸ heven
            have hquiet : state.writing = false := by
              cases hwriting : state.writing with
              | false => rfl
              | true => exact absurd hcount (h.writing.mp hwriting)
            exact ⟨state.payload, h.payload hquiet, hcopy.agree hbegun hcount⟩

end Steps

variable (Index Word) in
/-- In every reachable state, a reader that was told not to retry holds words of one payload: the
initial one or the one that some completed write left. The proviso is that fewer than `2 ^ 63`
writes completed during its read. -/
def ReadsSnapshots : Prop :=
  ∀ pair, ((seqLock Index Word).withHistory seqLockRecorder).Reachable (fun _ _ => True) pair →
    ∀ reader copied copy, pair.1.readers reader = .accepted copied copy →
      pair.2.during reader < 2 ^ 63 →
        ∃ payload ∈ pair.2.payloads, ∀ index, copied index = true → copy index = payload index

/-- The reads of a sequence lock are snapshots. -/
theorem reads_snapshots : ReadsSnapshots Index Word := by
  intro pair hreach reader copied copy haccepted hfew
  have hinv : SeqLockInv pair := by
    refine hreach.invariant SeqLockInv ?_ ?_
    · intro ⟨state, history⟩ ⟨⟨heven, hwriting, hidle⟩, hhistory⟩
      obtain rfl : history = seqLockRecorder.start state := hhistory
      refine ⟨by simp [seqLockRecorder], ?_, fun _ => by simp [seqLockRecorder], fun reader => ?_⟩
      · have hquiet : state.writing = false := hwriting
        simpa [seqLockRecorder, hquiet] using heven
      · rw [hidle reader]
        trivial
    · intro ⟨state, history⟩ event ⟨next, history'⟩ h _ hstep
      obtain ⟨hnext, hhistory⟩ := System.withHistory_step.mp hstep
      obtain rfl : history' = seqLockRecorder.observe state event next history := hhistory
      cases event with
      | writeBegin => exact h.write (.inl rfl) hnext
      | writeEnd => exact h.write (.inr (.inl rfl)) hnext
      | store index word => exact h.write (.inr (.inr ⟨index, word, rfl⟩)) hnext
      | readBegin reader stale => exact h.read (.inl ⟨stale, rfl⟩) hnext
      | copy reader index => exact h.read (.inr (.inl ⟨index, rfl⟩)) hnext
      | readRetry reader => exact h.read (.inr (.inr rfl)) hnext
  have hreader := hinv.readers reader
  rw [haccepted] at hreader
  exact hreader hfew

end HotPath.Concurrency
