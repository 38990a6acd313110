import HotPath.Foundation.Snapshot
import HotPath.Foundation.Transition
import Mathlib.Data.Fintype.Basic

/-!
# The route cache behind a sequence number

`SeqlockRouteCache` of the common header, one access at a time: the loads and stores of `seq_`,
and the copies of the four fields of `entry_` in any order. Any number of threads call `Write` and
`Read`.

The loop of `Read` is a `do`-`while` whose `continue` jumps to the test `s0 != s1` with the `s1`
of an earlier pass. When that `s1` is odd and the next pass finds the same odd number, the loop
ends and returns what the earlier pass copied while a write was in progress (`torn_read`). Without
such a match, and with fewer than `2 ^ 63` writes during one pass, a single writer's entries are
never torn (`read_tear_free`).

`Write` has no writer exclusion. Two overlapping writes let the number be even while fields are
being stored (`overlapping_writes`); writes that do not overlap never do (`writes_marked`).
-/

namespace HotPath.Locks

open HotPath.Foundation

/-- A thread, by number. -/
abbrev ThreadId := Nat

/-- The fields of `RouteEntry`. -/
inductive RouteField where
  | upstreamIp
  | timeoutMs
  | weight
  | checksum
  deriving DecidableEq

/-- The four fields. -/
instance : Fintype RouteField where
  elems := {.upstreamIp, .timeoutMs, .weight, .checksum}
  complete := fun field => by cases field <;> decide

/-- `RouteEntry`. -/
abbrev RouteEntry := RouteField → UInt64

/-- The default member values of `RouteEntry`. -/
def RouteEntry.initial : RouteEntry
  | .upstreamIp => 0x0A000001
  | .timeoutMs => 250
  | .weight => 100
  | .checksum => 0x0A000001 ^^^ 250 ^^^ 100

/-- Where a thread is. A thread that has returned from `Read` holds the copy. -/
inductive CachePc where
  | idle
  | writeLoad (next : RouteEntry)
  | writeOdd (next : RouteEntry) (s : UInt64)
  | writeFields (next : RouteEntry) (s : UInt64) (stored : RouteField → Bool)
  | readLoad (s1 : UInt64) (copy : RouteEntry)
  | readFields (s0 : UInt64) (copied : RouteField → Bool) (copy : RouteEntry)
  | returned (copy : RouteEntry)

/-- The state of the cache and its threads. -/
structure CacheState where
  seq : UInt64 := 0
  entry : RouteEntry := .initial
  threads : ThreadId → CachePc := fun _ => .idle

/-- A call, the next access to `seq_`, or the copy of one field. -/
inductive CacheEvent where
  | write (tid : ThreadId) (next : RouteEntry)
  | read (tid : ThreadId)
  | access (tid : ThreadId)
  | field (tid : ThreadId) (field : RouteField)

/-- A thread goes to another place. -/
def CacheState.goto (state : CacheState) (tid : ThreadId) (pc : CachePc) : CacheState :=
  { state with threads := Function.update state.threads tid pc }

/-- The thread can call a function. -/
def CachePc.ready : CachePc → Bool
  | .idle | .returned _ => true
  | _ => false

/-- The next access of a thread to `seq_`, with the local computation behind it. -/
def cacheAccess (state : CacheState) (tid : ThreadId) : Option CacheState :=
  match state.threads tid with
  | .writeLoad next => some (state.goto tid (.writeOdd next state.seq))
  | .writeOdd next s =>
      some ({ state with seq := s + 1 }.goto tid (.writeFields next s fun _ => false))
  | .writeFields _ s stored =>
      if ∀ field, stored field = true then some ({ state with seq := s + 2 }.goto tid .idle)
      else none
  | .readLoad s1 copy =>
      -- `continue` goes to the test of the loop.
      if state.seq &&& 1 ≠ 0 then
        some (state.goto tid (if state.seq ≠ s1 then .readLoad s1 copy else .returned copy))
      else some (state.goto tid (.readFields state.seq (fun _ => false) copy))
  | .readFields s0 copied copy =>
      if ∀ field, copied field = true then
        some (state.goto tid (if s0 ≠ state.seq then .readLoad state.seq copy else .returned copy))
      else none
  | _ => none

/-- The copy of one field, to or from `entry_`. -/
def cacheField (state : CacheState) (tid : ThreadId) (field : RouteField) : Option CacheState :=
  match state.threads tid with
  | .writeFields next s stored =>
      if stored field = false then
        some ({ state with entry := Function.update state.entry field (next field) }.goto tid
          (.writeFields next s (Function.update stored field true)))
      else none
  | .readFields s0 copied copy =>
      if copied field = false then
        some (state.goto tid (.readFields s0 (Function.update copied field true)
          (Function.update copy field (state.entry field))))
      else none
  | _ => none

/-- One step. `Read` starts with a default entry and `s1 = 0`. -/
def cacheStep (state : CacheState) : CacheEvent → Option CacheState
  | .write tid next =>
      if (state.threads tid).ready then some (state.goto tid (.writeLoad next)) else none
  | .read tid =>
      if (state.threads tid).ready then some (state.goto tid (.readLoad 0 .initial)) else none
  | .access tid => cacheAccess state tid
  | .field tid field => cacheField state tid field

/-- The cache as a transition system. -/
def routeCache : System CacheState CacheEvent where
  init state := state = {}
  step := cacheStep

/-! ## What is remembered of a run -/

/-- The number of stores to `seq_`, the initial entry followed by the arguments of the calls of
`Write`, and the number of stores that a reader's current pass started from. -/
structure CacheHistory where
  stores : Nat
  written : List RouteEntry
  begun : ThreadId → Nat

/-- The history of a run. -/
def cacheRecorder : Recorder CacheState CacheEvent CacheHistory where
  start state := ⟨0, [state.entry], fun _ => 0⟩
  observe state event _ history :=
    match event with
    | .write _ next => { history with written := history.written ++ [next] }
    | .access tid =>
        match state.threads tid with
        | .writeOdd _ _ | .writeFields _ _ _ => { history with stores := history.stores + 1 }
        | .readLoad _ _ =>
            { history with begun := Function.update history.begun tid history.stores }
        | _ => history
    | _ => history

/-- All writes are called by one thread. -/
def oneWriter (writer : ThreadId) : CacheEvent → Bool
  | .write tid _ => tid == writer
  | _ => true

/-- A pass of `Read` loads an odd number that equals the `s1` of an earlier pass. -/
def staleMatch (state : CacheState) : CacheEvent → Bool
  | .access tid =>
      match state.threads tid with
      | .readLoad s1 _ => state.seq &&& 1 != 0 && state.seq == s1
      | _ => false
  | _ => false

/-- Between the two loads of one pass of `Read` there were `2 ^ 64` stores to `seq_` or more, two
for each write. -/
def longPass (pair : CacheState × CacheHistory) : CacheEvent → Bool
  | .access tid =>
      match pair.1.threads tid with
      | .readFields _ _ _ => pair.2.stores - pair.2.begun tid ≥ 2 ^ 64
      | _ => false
  | _ => false

/-- In every run whose events meet `allow`, every entry that `Read` returns is the initial entry
or the argument of one write. -/
def TearFree (allow : CacheState × CacheHistory → CacheEvent → Prop) : Prop :=
  ∀ pair, (routeCache.withHistory cacheRecorder).Reachable allow pair →
    ∀ tid copy, pair.1.threads tid = .returned copy → copy ∈ pair.2.written

/-! ## A single writer -/

/-- What holds of the shared words at each place of the writer. -/
def WriterInv (seq : UInt64) (entry : RouteEntry) (history : CacheHistory) : CachePc → Prop
  | .writeLoad next => Even history.stores ∧ entry ∈ history.written ∧ next ∈ history.written
  | .writeOdd next s => Even history.stores ∧ entry ∈ history.written ∧
      next ∈ history.written ∧ s = seq
  | .writeFields next s stored => ¬ Even history.stores ∧ next ∈ history.written ∧
      seq = s + 1 ∧ ∀ field, stored field = true → entry field = next field
  | _ => Even history.stores ∧ entry ∈ history.written

/-- What holds of a thread inside or after `Read`. -/
def ReaderInv (entry : RouteEntry) (history : CacheHistory) (tid : ThreadId) : CachePc → Prop
  | .readFields s0 copied copy =>
      s0 = UInt64.ofNat (history.begun tid) ∧ Even (history.begun tid) ∧
        Snapshot.Consistent history.stores entry ⟨history.begun tid, copied, copy⟩
  | .returned copy => copy ∈ history.written
  | _ => True

/-- The thread is inside `Write`. -/
def CachePc.writes : CachePc → Bool
  | .writeLoad _ | .writeOdd _ _ | .writeFields _ _ _ => true
  | _ => false

/-- The invariant of runs with a single writer. -/
structure CacheInv (writer : ThreadId) (pair : CacheState × CacheHistory) : Prop where
  seq : pair.1.seq = UInt64.ofNat pair.2.stores
  shared : WriterInv pair.1.seq pair.1.entry pair.2 (pair.1.threads writer)
  others : ∀ tid, tid ≠ writer → (pair.1.threads tid).writes = false
  readers : ∀ tid, ReaderInv pair.1.entry pair.2 tid (pair.1.threads tid)

section Steps

variable {writer tid : ThreadId} {state : CacheState} {history history' : CacheHistory}
  {seq seq' : UInt64} {entry entry' : RouteEntry} {pc pc' : CachePc}

/-- A thread that is not inside `Write` says nothing of the shared words. -/
theorem WriterInv.of_not_writes (h : WriterInv seq entry history pc) (hpc : pc.writes = false)
    (hpc' : pc'.writes = false) : WriterInv seq entry history pc' := by
  have heven : Even history.stores ∧ entry ∈ history.written := by
    cases pc <;> first | exact h | cases hpc
  cases pc' <;> first | exact heven | cases hpc'

/-- Whenever the number is even the entry is one of the written entries. -/
theorem WriterInv.mem_written (h : WriterInv seq entry history pc) (heven : Even history.stores) :
    entry ∈ history.written := by
  cases pc with
  | writeFields => exact absurd heven h.1
  | writeLoad | writeOdd => exact h.2.1
  | _ => exact h.2

/-- What other threads do keeps what holds of a reader: the counter moves, or the entry stays, or
the counter is odd. -/
theorem ReaderInv.frame (h : ReaderInv entry history tid pc)
    (hbegun : history'.begun tid = history.begun tid)
    (hwritten : history.written ⊆ history'.written)
    (hmoves : history.stores < history'.stores ∨ history'.stores = history.stores ∧
      (entry' = entry ∨ ¬ Even history.stores)) : ReaderInv entry' history' tid pc := by
  cases pc with
  | readFields s0 copied copy =>
      obtain ⟨hs0, heven, hcopy⟩ := h
      refine ⟨hbegun ▸ hs0, hbegun ▸ heven, ?_⟩
      rw [hbegun]
      rcases hmoves with hlt | ⟨hsame, rfl | hodd⟩
      · exact hcopy.advance hlt
      · exact hsame ▸ hcopy
      · exact hsame ▸ hcopy.store hodd
  | returned copy => exact hwritten h
  | _ => trivial

/-- A thread moves. It may change the shared words if it is the writer. -/
theorem CacheInv.move (h : CacheInv writer (state, history))
    (hseq : seq' = UInt64.ofNat history'.stores)
    (hbegun : ∀ other, other ≠ tid → history'.begun other = history.begun other)
    (hwritten : history.written ⊆ history'.written)
    (hmoves : history.stores < history'.stores ∨ history'.stores = history.stores ∧
      (entry' = state.entry ∨ ¬ Even history.stores))
    (hwriter : WriterInv seq' entry' history'
      (if writer = tid then pc' else state.threads writer))
    (hpc' : tid ≠ writer → pc'.writes = false) (hreader : ReaderInv entry' history' tid pc') :
    CacheInv writer (({ state with seq := seq', entry := entry' } : CacheState).goto tid pc',
      history') := by
  refine ⟨hseq, ?_, fun other hne => ?_, fun other => ?_⟩
  · by_cases heq : writer = tid
    · subst heq
      simpa [CacheState.goto] using hwriter
    · simpa [CacheState.goto, Function.update_of_ne heq, heq] using hwriter
  · by_cases heq : other = tid
    · subst heq
      simpa [CacheState.goto] using hpc' hne
    · simpa [CacheState.goto, Function.update_of_ne heq] using h.others other hne
  · by_cases heq : other = tid
    · subst heq
      simpa [CacheState.goto] using hreader
    · have hother := (h.readers other).frame (hbegun other heq) hwritten hmoves
      simpa [CacheState.goto, Function.update_of_ne heq] using hother

/-- A thread moves from one place outside `Write` to another. -/
theorem CacheInv.roam (h : CacheInv writer (state, history))
    (hpc : (state.threads tid).writes = false) (hpc' : pc'.writes = false)
    (hstores : history'.stores = history.stores)
    (hwritten : history'.written = history.written)
    (hbegun : ∀ other, other ≠ tid → history'.begun other = history.begun other)
    (hreader : ReaderInv state.entry history' tid pc') :
    CacheInv writer (state.goto tid pc', history') := by
  have hframe : ∀ pc, WriterInv state.seq state.entry history pc →
      WriterInv state.seq state.entry history' pc := by
    intro pc hwriter
    cases pc <;> simpa only [WriterInv, hstores, hwritten] using hwriter
  refine h.move (hstores ▸ h.seq) hbegun (hwritten ▸ List.Subset.refl _)
    (.inr ⟨hstores, .inl rfl⟩) (hframe _ ?_) (fun _ => hpc') hreader
  split
  · next heq =>
      subst heq
      exact h.shared.of_not_writes hpc hpc'
  · exact h.shared

/-- The writer is the only thread inside `Write`. -/
theorem CacheInv.eq_writer {pair : CacheState × CacheHistory} (h : CacheInv writer pair)
    (hpc : (pair.1.threads tid).writes = true) : tid = writer := by
  by_contra hne
  rw [h.others tid hne] at hpc
  cases hpc

theorem CachePc.ready_not_writes (h : pc.ready = true) : pc.writes = false := by
  cases pc <;> first | rfl | cases h

end Steps

/-! ## Preservation -/

section Preservation

variable {writer tid : ThreadId} {state next : CacheState} {history : CacheHistory}

/-- A call of `Write`. -/
theorem CacheInv.call_write (h : CacheInv writer (state, history))
    (hready : (state.threads writer).ready = true) (entry : RouteEntry) :
    CacheInv writer (state.goto writer (.writeLoad entry),
      { history with written := history.written ++ [entry] }) := by
  have hidle : WriterInv state.seq state.entry history .idle :=
    h.shared.of_not_writes (CachePc.ready_not_writes hready) rfl
  refine h.move h.seq (fun _ _ => rfl) (List.subset_append_left _ _) (.inr ⟨rfl, .inl rfl⟩) ?_
    (fun hne => absurd rfl hne) trivial
  rw [if_pos rfl]
  exact ⟨hidle.1, List.mem_append_left _ hidle.2, by simp⟩

/-- An access of `Write` to `seq_`. -/
theorem CacheInv.access_write (h : CacheInv writer (state, history))
    (hwrites : (state.threads tid).writes = true)
    (hstep : cacheAccess state tid = some next) :
    CacheInv writer (next, cacheRecorder.observe state (.access tid) next history) := by
  obtain rfl := h.eq_writer hwrites
  have hshared := h.shared
  simp only [cacheAccess] at hstep
  simp only [cacheRecorder]
  cases hpc : state.threads tid with
  | idle | readLoad | readFields | returned => simp [hpc, CachePc.writes] at hwrites
  | writeLoad entry =>
      simp only [hpc, Option.some.injEq] at hstep hshared ⊢
      subst hstep
      refine h.move h.seq (fun _ _ => rfl) (List.Subset.refl _) (.inr ⟨rfl, .inl rfl⟩) ?_
        (fun hne => absurd rfl hne) trivial
      rw [if_pos rfl]
      exact ⟨hshared.1, hshared.2.1, hshared.2.2, rfl⟩
  | writeOdd entry s =>
      simp only [hpc, Option.some.injEq] at hstep hshared ⊢
      subst hstep
      obtain ⟨heven, -, hnext, rfl⟩ := hshared
      refine h.move ?_ (fun _ _ => rfl) (List.Subset.refl _)
        (.inl (Nat.lt_succ_self _)) ?_ (fun hne => absurd rfl hne) trivial
      · rw [h.seq]
        exact (UInt64.ofNat_add _ _).symm
      · rw [if_pos rfl]
        exact ⟨by simpa [Nat.even_add_one] using heven, hnext, rfl,
          fun _ hstored => by simp at hstored⟩
  | writeFields entry s stored =>
      simp only [hpc] at hstep hshared ⊢
      split at hstep
      · next hall =>
          obtain rfl := Option.some.inj hstep
          obtain ⟨hodd, hnext, hseq, hfields⟩ := hshared
          have hentry : state.entry = entry := funext fun field => hfields field (hall field)
          refine h.move ?_ (fun _ _ => rfl) (List.Subset.refl _)
            (.inl (Nat.lt_succ_self _)) ?_ (fun hne => absurd rfl hne) trivial
          · rw [UInt64.ofNat_add, ← h.seq, hseq, UInt64.add_assoc]
            rfl
          · rw [if_pos rfl]
            exact ⟨by simpa [Nat.even_add_one] using hodd, hentry ▸ hnext⟩
      · cases hstep

/-- An access of `Read` to `seq_`. -/
theorem CacheInv.access_read (h : CacheInv writer (state, history))
    (hwrites : (state.threads tid).writes = false)
    (hmatch : staleMatch state (.access tid) = false)
    (hlong : longPass (state, history) (.access tid) = false)
    (hstep : cacheAccess state tid = some next) :
    CacheInv writer (next, cacheRecorder.observe state (.access tid) next history) := by
  have hreader := h.readers tid
  simp only [cacheAccess] at hstep
  simp only [cacheRecorder]
  cases hpc : state.threads tid with
  | writeLoad | writeOdd | writeFields => simp [hpc, CachePc.writes] at hwrites
  | idle | returned => simp [hpc] at hstep
  | readLoad s1 copy =>
      simp only [hpc] at hstep ⊢
      simp only [staleMatch, hpc, Bool.and_eq_false_iff, bne_eq_false_iff_eq,
        beq_eq_false_iff_ne] at hmatch
      have hbegun : ∀ other, other ≠ tid →
          Function.update history.begun tid history.stores other = history.begun other :=
        fun other hne => Function.update_of_ne hne _ _
      split at hstep
      · next hodd =>
          -- The number is odd: the test compares it with a different `s1`.
          have hne : state.seq ≠ s1 := hmatch.resolve_left hodd
          rw [if_pos hne] at hstep
          obtain rfl := Option.some.inj hstep
          exact h.roam (by simp [hpc, CachePc.writes]) rfl rfl rfl hbegun trivial
      · next heven =>
          obtain rfl := Option.some.inj hstep
          refine h.roam (by simp [hpc, CachePc.writes]) rfl rfl rfl hbegun ?_
          have hseq := h.seq
          simp only [ReaderInv, Function.update_self]
          refine ⟨hseq, ?_, Snapshot.consistent_begin _ _ _⟩
          exact (ofNat_and_one_eq_zero _).mp (hseq ▸ not_not.mp heven)
  | readFields s0 copied copy =>
      simp only [hpc] at hstep hreader ⊢
      simp only [longPass, hpc, decide_eq_false_iff_not, not_le] at hlong
      split at hstep
      · next hall =>
          obtain rfl := Option.some.inj hstep
          refine h.roam (by simp [hpc, CachePc.writes]) (by split <;> rfl) rfl rfl
            (fun _ _ => rfl) ?_
          split
          · trivial
          · next hsame =>
              obtain ⟨hs0, hbegunEven, hcopy⟩ := hreader
              have hbegun : history.begun tid = history.stores :=
                begun_eq hcopy.begun_le hlong (hs0 ▸ h.seq ▸ not_not.mp hsame)
              have heven : Even history.stores := hbegun ▸ hbegunEven
              have hentry : copy = state.entry := hcopy.words_eq hbegun heven hall
              exact hentry ▸ h.shared.mem_written heven
      · cases hstep

/-- The copy of a field by a writer or a reader. -/
theorem CacheInv.field (h : CacheInv writer (state, history)) {field : RouteField}
    (hstep : cacheField state tid field = some next) : CacheInv writer (next, history) := by
  have hreader := h.readers tid
  simp only [cacheField] at hstep
  cases hpc : state.threads tid with
  | idle | writeLoad | writeOdd | readLoad | returned => simp [hpc] at hstep
  | writeFields entry s stored =>
      obtain rfl : tid = writer := h.eq_writer (by simp [hpc, CachePc.writes])
      have hshared := h.shared
      simp only [hpc] at hstep hshared
      split at hstep
      · obtain rfl := Option.some.inj hstep
        obtain ⟨hodd, hnext, hseq, hfields⟩ := hshared
        refine h.move h.seq (fun _ _ => rfl) (List.Subset.refl _) (.inr ⟨rfl, .inr hodd⟩) ?_
          (fun hne => absurd rfl hne) trivial
        rw [if_pos rfl]
        refine ⟨hodd, hnext, hseq, fun other hstored => ?_⟩
        by_cases heq : other = field
        · subst heq
          simp
        · rw [Function.update_of_ne heq] at hstored ⊢
          exact hfields other hstored
      · cases hstep
  | readFields s0 copied copy =>
      simp only [hpc] at hstep hreader
      split at hstep
      · obtain rfl := Option.some.inj hstep
        obtain ⟨hs0, heven, hcopy⟩ := hreader
        exact h.roam (by simp [hpc, CachePc.writes]) rfl rfl rfl (fun _ _ => rfl)
          ⟨hs0, heven, hcopy.take field⟩
      · cases hstep

/-- Every step of a run with a single writer keeps the invariant. -/
theorem CacheInv.step {pair final : CacheState × CacheHistory} {event : CacheEvent}
    (h : CacheInv writer pair) (hwriter : oneWriter writer event = true)
    (hmatch : staleMatch pair.1 event = false) (hlong : longPass pair event = false)
    (hstep : (routeCache.withHistory cacheRecorder).step pair event = some final) :
    CacheInv writer final := by
  obtain ⟨state, history⟩ := pair
  obtain ⟨next, history'⟩ := final
  obtain ⟨hnext, hhistory⟩ := System.withHistory_step.mp hstep
  obtain rfl : history' = cacheRecorder.observe state event next history := hhistory
  cases event with
  | write tid entry =>
      simp only [routeCache, cacheStep] at hnext
      split at hnext
      · next hready =>
          obtain rfl := Option.some.inj hnext
          obtain rfl : tid = writer := by simpa [oneWriter] using hwriter
          exact h.call_write hready entry
      · cases hnext
  | read tid =>
      simp only [routeCache, cacheStep] at hnext
      split at hnext
      · next hready =>
          obtain rfl := Option.some.inj hnext
          exact h.roam (CachePc.ready_not_writes hready) rfl rfl rfl (fun _ _ => rfl) trivial
      · cases hnext
  | access tid =>
      cases hwrites : (state.threads tid).writes with
      | true => exact h.access_write hwrites hnext
      | false => exact h.access_read hwrites hmatch hlong hnext
  | field tid field => exact h.field hnext

end Preservation

/-- `Read` returns no torn entry as long as no pass loads an odd number that equals the `s1` of an
earlier pass, and no pass spans `2 ^ 64` stores to `seq_`. -/
theorem read_tear_free (writer : ThreadId) :
    TearFree fun pair event => oneWriter writer event = true ∧
      staleMatch pair.1 event = false ∧ longPass pair event = false := by
  intro pair hreach tid copy hreturned
  have hinv : CacheInv writer pair := by
    refine hreach.invariant (CacheInv writer) ?_ ?_
    · intro ⟨state, history⟩ ⟨hstate, hhistory⟩
      obtain rfl : state = {} := hstate
      obtain rfl : history = cacheRecorder.start {} := hhistory
      exact ⟨rfl, ⟨Even.zero, List.mem_singleton.mpr rfl⟩, fun _ _ => rfl, fun _ => trivial⟩
    · intro state event next h hallow hstep
      exact h.step hallow.1 hallow.2.1 hallow.2.2 hstep
  have hreader := hinv.readers tid
  rw [hreturned] at hreader
  exact hreader

/-- A reader whose first pass spans the beginning of a write, and whose second pass finds the odd
number that the first pass ended with. -/
def tornReadRun : List CacheEvent :=
  [.read 1, .access 1, .field 1 .upstreamIp,
    .write 0 fun _ => 7, .access 0, .access 0,
    .field 0 .upstreamIp, .field 0 .timeoutMs, .field 0 .weight, .field 0 .checksum,
    .field 1 .timeoutMs, .field 1 .weight, .field 1 .checksum,
    .access 1, .access 1]

/-- With one writer, `Read` returns an entry that mixes two entries. -/
theorem torn_read : ¬ TearFree fun _ event => oneWriter 0 event = true := by
  intro htear
  obtain ⟨pair, hreach, hgood⟩ := System.exists_reachable_of_replay
    (routeCache.withHistory cacheRecorder) (fun _ event => oneWriter 0 event = true)
    ({}, cacheRecorder.start {}) tornReadRun
    (fun pair => match pair.1.threads 1 with
      | .returned copy => pair.2.written.all fun entry =>
          copy .upstreamIp != entry .upstreamIp || copy .timeoutMs != entry .timeoutMs
      | _ => false)
    (.init ⟨rfl, rfl⟩) (by decide +kernel)
  split at hgood
  · next copy hreturned =>
      have hmem := htear pair hreach 1 copy hreturned
      simpa using List.all_eq_true.mp hgood copy hmem
  · cases hgood

/-! ## Several writers -/

/-- The thread is in `Write`, past its load of `seq_`. -/
def CachePc.engaged : CachePc → Bool
  | .writeOdd _ _ | .writeFields _ _ _ => true
  | _ => false

/-- The thread has begun to store fields and has not stored the final number. -/
def CachePc.storing : CachePc → Prop
  | .writeFields _ _ stored => ∃ field, stored field = true
  | _ => False

/-- A `Write` loads `seq_` while another is past that load and has not stored its final number. -/
def overlaps (state : CacheState) : CacheEvent → Prop
  | .access tid => (∃ next, state.threads tid = .writeLoad next) ∧
      ∃ other, (state.threads other).engaged = true
  | _ => False

/-- A `Write` that loaded `2 ^ 64 - 2` stores its final number. -/
def wrapsAround (state : CacheState) : CacheEvent → Prop
  | .access tid => ∃ next s stored, state.threads tid = .writeFields next s stored ∧ s + 2 = 0
  | _ => False

/-- If the state is reached through events that meet `allow`, the number is odd in it while fields
are being stored, and no such event decreases it. -/
def MarksWritesAt (allow : CacheState → CacheEvent → Prop) (state : CacheState) : Prop :=
  routeCache.Reachable allow state →
    (∀ tid, (state.threads tid).storing → state.seq &&& 1 ≠ 0) ∧
      ∀ event next, allow state event → cacheStep state event = some next → state.seq ≤ next.seq

/-- In every run whose events meet `allow`, the number is odd while fields are being stored, and
it never decreases. -/
def MarksWrites (allow : CacheState → CacheEvent → Prop) : Prop :=
  ∀ state, MarksWritesAt allow state

/-- What `Write` knows about the number at each place. -/
def Marked (seq : UInt64) : CachePc → Prop
  | .writeOdd _ s => s = seq ∧ s &&& 1 = 0
  | .writeFields _ s _ => s + 1 = seq ∧ s &&& 1 = 0
  | _ => True

/-- The invariant of runs whose writes do not overlap. -/
structure MarkedInv (state : CacheState) : Prop where
  alone : ∀ tid other, (state.threads tid).engaged = true →
    (state.threads other).engaged = true → tid = other
  quiet : (∀ tid, (state.threads tid).engaged = false) → state.seq &&& 1 = 0
  marked : ∀ tid, Marked state.seq (state.threads tid)

section Marks

variable {tid : ThreadId} {state next : CacheState} {seq s : UInt64} {entry : RouteEntry}
  {pc : CachePc}

theorem succ_and_one_ne_zero (heven : s &&& 1 = 0) : (s + 1) &&& 1 ≠ 0 := by
  have hs : Even s.toNat := (ofNat_and_one_eq_zero _).mp (by simpa using heven)
  have hsucc := (ofNat_and_one_ne_zero (s.toNat + 1)).mpr (by simpa [Nat.even_add_one] using hs)
  simpa [UInt64.ofNat_add] using hsucc

theorem add_two_and_one_eq_zero (heven : s &&& 1 = 0) : (s + 2) &&& 1 = 0 := by
  have hs : Even s.toNat := (ofNat_and_one_eq_zero _).mp (by simpa using heven)
  have hsucc := (ofNat_and_one_eq_zero (s.toNat + 2)).mpr (by simpa [Nat.even_add_one] using hs)
  simpa [UInt64.ofNat_add] using hsucc

/-- An even number is not the last one. -/
theorem le_add_one_of_even (heven : s &&& 1 = 0) : s ≤ s + 1 := by
  have hs : Even s.toNat := (ofNat_and_one_eq_zero _).mp (by simpa using heven)
  rw [Nat.even_iff] at hs
  have hlt := s.toNat_lt
  simp only [UInt64.le_iff_toNat_le, UInt64.toNat_add, UInt64.reduceToNat]
  omega

theorem add_one_le_add_two (hne : s + 2 ≠ 0) : s + 1 ≤ s + 2 := by
  rw [← UInt64.toNat_inj.ne] at hne
  simp only [UInt64.le_iff_toNat_le, UInt64.toNat_add, UInt64.reduceToNat, ne_eq] at hne ⊢
  omega

theorem CachePc.ready_not_engaged (h : pc.ready = true) : pc.engaged = false := by
  cases pc <;> first | rfl | cases h

/-- A thread that is not engaged says nothing about the number. -/
theorem Marked.of_not_engaged (h : pc.engaged = false) : Marked seq pc := by
  cases pc <;> trivial

/-- While a thread is engaged, the others are not. -/
theorem MarkedInv.others (h : MarkedInv state) (tid : ThreadId)
    (hpc : (state.threads tid).engaged = true) (other : ThreadId) (hne : other ≠ tid) :
      (state.threads other).engaged = false := by
  by_contra hother
  exact hne (h.alone other tid (by simpa using hother) hpc)

/-- A thread goes on or becomes engaged while the others are not. -/
theorem MarkedInv.hold (hothers : ∀ other, other ≠ tid → (state.threads other).engaged = false)
    (hpc : pc.engaged = true) (hmarked : Marked seq pc) :
    MarkedInv (({ state with seq := seq, entry := entry } : CacheState).goto tid pc) := by
  have honly : ∀ other, (Function.update state.threads tid pc other).engaged = true →
      other = tid := by
    intro other hengaged
    by_contra hne
    rw [Function.update_of_ne hne, hothers other hne] at hengaged
    cases hengaged
  refine ⟨fun first second hfirst hsecond => ?_, fun hquiet => ?_, fun other => ?_⟩
  · exact (honly first hfirst).trans (honly second hsecond).symm
  · have htid := hquiet tid
    simp [CacheState.goto, hpc] at htid
  · by_cases heq : other = tid
    · subst heq
      simpa [CacheState.goto] using hmarked
    · simpa [CacheState.goto, Function.update_of_ne heq] using
        Marked.of_not_engaged (hothers other heq)

/-- A thread stores its final number while the others are not engaged. -/
theorem MarkedInv.release (hothers : ∀ other, other ≠ tid → (state.threads other).engaged = false)
    (hpc : pc.engaged = false) (hseq : seq &&& 1 = 0) :
    MarkedInv (({ state with seq := seq } : CacheState).goto tid pc) := by
  have hnone : ∀ other, (Function.update state.threads tid pc other).engaged = false := by
    intro other
    by_cases heq : other = tid
    · subst heq
      simpa using hpc
    · rw [Function.update_of_ne heq]
      exact hothers other heq
  refine ⟨fun first _ hfirst => ?_, fun _ => hseq, fun other => .of_not_engaged (hnone other)⟩
  exact absurd hfirst (by simp [CacheState.goto, hnone first])

/-- A thread that is not engaged goes to a place where it is not engaged. -/
theorem MarkedInv.roam (h : MarkedInv state) (hpc : (state.threads tid).engaged = false)
    (hpc' : pc.engaged = false) : MarkedInv (state.goto tid pc) := by
  have hsame : ∀ other, (Function.update state.threads tid pc other).engaged =
      (state.threads other).engaged := by
    intro other
    by_cases heq : other = tid
    · subst heq
      simp [hpc, hpc']
    · rw [Function.update_of_ne heq]
  refine ⟨fun first second hfirst hsecond => ?_, fun hquiet => ?_, fun other => ?_⟩
  · exact h.alone first second ((hsame first).symm.trans hfirst) ((hsame second).symm.trans hsecond)
  · exact h.quiet fun other => (hsame other).symm.trans (hquiet other)
  · by_cases heq : other = tid
    · subst heq
      simpa [CacheState.goto] using Marked.of_not_engaged hpc'
    · simpa [CacheState.goto, Function.update_of_ne heq] using h.marked other

/-- Every step of a run whose writes do not overlap keeps the invariant, and does not decrease the
number unless it wraps around. -/
theorem MarkedInv.step {event : CacheEvent} (h : MarkedInv state)
    (halone : ¬ overlaps state event) (hfits : ¬ wrapsAround state event)
    (hstep : cacheStep state event = some next) : MarkedInv next ∧ state.seq ≤ next.seq := by
  cases event with
  | write tid entry =>
      simp only [cacheStep] at hstep
      split at hstep
      · next hready =>
          obtain rfl := Option.some.inj hstep
          exact ⟨h.roam (CachePc.ready_not_engaged hready) rfl, UInt64.le_refl _⟩
      · cases hstep
  | read tid =>
      simp only [cacheStep] at hstep
      split at hstep
      · next hready =>
          obtain rfl := Option.some.inj hstep
          exact ⟨h.roam (CachePc.ready_not_engaged hready) rfl, UInt64.le_refl _⟩
      · cases hstep
  | access tid =>
      have hmarked := h.marked tid
      simp only [cacheStep, cacheAccess] at hstep
      cases hpc : state.threads tid with
      | idle | returned => simp [hpc] at hstep
      | writeLoad entry =>
          simp only [hpc, Option.some.injEq] at hstep
          subst hstep
          -- No other write is open, so the number that is loaded is even.
          have hnone : ∀ other, (state.threads other).engaged = false := by
            intro other
            by_contra hother
            exact halone ⟨⟨entry, hpc⟩, other, by simpa using hother⟩
          exact ⟨.hold (fun other _ => hnone other) rfl ⟨rfl, h.quiet hnone⟩, UInt64.le_refl _⟩
      | writeOdd entry s =>
          simp only [hpc, Option.some.injEq] at hstep hmarked
          subst hstep
          obtain ⟨rfl, heven⟩ := hmarked
          have hothers := h.others tid (by simp [hpc, CachePc.engaged])
          exact ⟨.hold hothers rfl ⟨rfl, heven⟩, le_add_one_of_even heven⟩
      | writeFields entry s stored =>
          simp only [hpc] at hstep hmarked
          split at hstep
          · obtain rfl := Option.some.inj hstep
            obtain ⟨hseq, heven⟩ := hmarked
            have hothers := h.others tid (by simp [hpc, CachePc.engaged])
            have hne : s + 2 ≠ 0 := fun hzero => hfits ⟨entry, s, stored, hpc, hzero⟩
            exact ⟨.release hothers rfl (add_two_and_one_eq_zero heven),
              hseq ▸ add_one_le_add_two hne⟩
          · cases hstep
      | readLoad s1 copy =>
          simp only [hpc] at hstep
          split at hstep
          · obtain rfl := Option.some.inj hstep
            exact ⟨h.roam (by simp [hpc, CachePc.engaged]) (by split <;> rfl), UInt64.le_refl _⟩
          · obtain rfl := Option.some.inj hstep
            exact ⟨h.roam (by simp [hpc, CachePc.engaged]) rfl, UInt64.le_refl _⟩
      | readFields s0 copied copy =>
          simp only [hpc] at hstep
          split at hstep
          · obtain rfl := Option.some.inj hstep
            exact ⟨h.roam (by simp [hpc, CachePc.engaged]) (by split <;> rfl), UInt64.le_refl _⟩
          · cases hstep
  | field tid field =>
      have hmarked := h.marked tid
      simp only [cacheStep, cacheField] at hstep
      cases hpc : state.threads tid with
      | idle | writeLoad | writeOdd | readLoad | returned => simp [hpc] at hstep
      | writeFields entry s stored =>
          simp only [hpc] at hstep hmarked
          split at hstep
          · obtain rfl := Option.some.inj hstep
            have hothers := h.others tid (by simp [hpc, CachePc.engaged])
            exact ⟨.hold hothers rfl hmarked, UInt64.le_refl _⟩
          · cases hstep
      | readFields s0 copied copy =>
          simp only [hpc] at hstep
          split at hstep
          · obtain rfl := Option.some.inj hstep
            exact ⟨h.roam (by simp [hpc, CachePc.engaged]) rfl, UInt64.le_refl _⟩
          · cases hstep

end Marks

/-- Writes that do not overlap are marked, as long as the number does not wrap around. -/
theorem writes_marked (state : CacheState) :
    MarksWritesAt (fun state event => ¬ overlaps state event ∧ ¬ wrapsAround state event)
      state := by
  intro hreach
  have hinv : MarkedInv state := by
    refine hreach.invariant MarkedInv ?_ ?_
    · intro state hstate
      obtain rfl : state = {} := hstate
      exact ⟨fun _ _ hengaged => (by cases hengaged), fun _ => rfl, fun _ => trivial⟩
    · intro state event next h hallow hstep
      exact (h.step hallow.1 hallow.2 hstep).1
  refine ⟨fun tid hstoring => ?_, fun event next hallow hstep => ?_⟩
  · have hmarked := hinv.marked tid
    cases hpc : state.threads tid with
    | writeFields entry s stored =>
        rw [hpc] at hmarked
        exact hmarked.1 ▸ succ_and_one_ne_zero hmarked.2
    | _ => simp [hpc, CachePc.storing] at hstoring
  · exact (hinv.step hallow.1 hallow.2 hstep).2

/-- Two writes that load the same number. The first one ends while the second stores fields. -/
def overlappingRun : List CacheEvent :=
  [.write 0 fun _ => 7, .write 1 fun _ => 8, .access 0, .access 1, .access 0, .access 1,
    .field 1 .upstreamIp, .field 0 .upstreamIp, .field 0 .timeoutMs, .field 0 .weight,
    .field 0 .checksum, .access 0]

/-- Two writes at a time let the number be even while fields are being stored. -/
theorem overlapping_writes : ¬ MarksWrites fun _ _ => True := by
  intro hmarks
  obtain ⟨state, hreach, hgood⟩ := System.exists_reachable_of_replay
    routeCache (fun _ _ => True) {} overlappingRun
    (fun state => match state.threads 1 with
      | .writeFields _ _ stored => stored .upstreamIp && state.seq &&& 1 == 0
      | _ => false)
    (.init rfl) (by decide +kernel)
  split at hgood
  · next next s stored hpc =>
      rw [Bool.and_eq_true, beq_iff_eq] at hgood
      exact (hmarks state hreach).1 1 (by rw [hpc]; exact ⟨_, hgood.1⟩) hgood.2
  · cases hgood

end HotPath.Locks
