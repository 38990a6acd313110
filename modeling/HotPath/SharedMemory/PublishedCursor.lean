import HotPath.SharedMemory.DetectedEviction

/-!
# Consumed and published positions

A handle keeps its own cursor, and its slot holds the cursor that the producer reads. The ring's
`Advance` moves both. `BroadcastReader::Advance`, which takes the header of a polled frame, has no
access to the ring and moves the cursor of the handle only.

`unpublished` records for one reader the bytes that it has passed over since it last published.
`Tracks` is the invariant: as long as the reader is registered and not evicted, its slot is behind
its cursor by exactly these bytes.
-/

namespace HotPath.SharedMemory

open HotPath.Foundation

/-- `BroadcastReader::Advance`: move the local cursor past a frame. -/
def BroadcastReader.advance (handle : BroadcastReader) (header : FrameHeader) : BroadcastReader :=
  { handle with cursor := handle.cursor + (totalFrameSize header.length).toUInt64 }

/-- The calls of the ring buffer, and the `Advance` of a handle. -/
inductive HandleEvent where
  | ring (event : Event)
  | advanceHeader (reader : ReaderId) (header : FrameHeader)

/-- One step. -/
def handleStep (cfg : Config) (state : State) : HandleEvent → Option State
  | .ring event => step cfg state event
  | .advanceHeader reader header =>
      some (state.setReader reader (state.shared, (state.readers reader).advance header))

/-- The ring buffer with handles that can also be advanced on their own. -/
def handles (cfg : Config) : System State HandleEvent where
  init := (ring cfg).init
  step := handleStep cfg

/-! ## Bytes that have not been published -/

/-- The bytes that a registered reader has passed over since it last published, `none` when it is
not registered or has lost its slot. -/
abbrev Unpublished := Option UInt64

/-- The bytes after a call, if the reader keeps its slot. -/
def bytesAfter (cfg : Config) (reader : ReaderId) (state : State) (bytes : Unpublished) :
    HandleEvent → Unpublished
  | .ring (.registerReader caller) =>
      if caller = reader ∧ (state.readers reader).slotIndex = none then some 0 else bytes
  | .ring call =>
      if call.reader = some reader ∧ (call.advancesBy cfg state).isSome then bytes.map fun _ => 0
      else bytes
  | .advanceHeader caller header =>
      if caller = reader then
        bytes.map fun count => count + (totalFrameSize header.length).toUInt64
      else bytes

/-- The bytes after a step that leads to the given slots and handle. A reader loses its slot when
its handle is unbound or its slot is cleared. -/
def unpublishedAfter (slots : Fin kMaxReaders → ReaderSlot) (handle : BroadcastReader)
    (bytes : Unpublished) : Unpublished :=
  match handle.slotIndex with
  | some index => if (slots index).active then bytes else none
  | none => none

/-- The calls made with a handle determine what it has not published. -/
def unpublished (cfg : Config) (reader : ReaderId) : Recorder State HandleEvent Unpublished where
  start _ := none
  observe state event next bytes :=
    unpublishedAfter next.slots (next.readers reader) (bytesAfter cfg reader state bytes event)

/-- A reader with recorded bytes is waited for, and its slot is behind by these bytes. -/
def Tracks (slots : Fin kMaxReaders → ReaderSlot) (handle : BroadcastReader)
    (bytes : Unpublished) : Prop :=
  ∀ count, bytes = some count → ∃ index, handle.slotIndex = some index ∧
    (slots index).active = true ∧ (slots index).generationId = handle.generationId ∧
    (slots index).cursor + count = handle.cursor

/-- While it is registered the reader does not set its cursor, and no other handle advances that
is bound to the same slot with the same generation. Two such handles exist only after `2 ^ 32`
registrations in one slot. -/
structure Undisturbed (cfg : Config) (reader : ReaderId) (pair : State × Unpublished)
    (event : HandleEvent) : Prop where
  cursorKept : ∀ cursor, event = .ring (.setCursor reader cursor) → pair.2 = none
  slotKept : ∀ call other length, event = .ring call → call.reader = some other →
    other ≠ reader → call.advancesBy cfg pair.1 = some length → pair.2 ≠ none →
    (pair.1.readers other).slotIndex = (pair.1.readers reader).slotIndex →
    (pair.1.readers other).generationId ≠ (pair.1.readers reader).generationId

section Steps

variable {cfg : Config} {reader : ReaderId} {state : State} {bytes : Unpublished}

/-- Bytes are recorded only while the handle is bound to an active slot. -/
theorem unpublishedAfter_some {slots : Fin kMaxReaders → ReaderSlot} {handle : BroadcastReader}
    {count : UInt64} (h : unpublishedAfter slots handle bytes = some count) :
    ∃ index, handle.slotIndex = some index ∧ (slots index).active = true ∧
      bytes = some count := by
  unfold unpublishedAfter at h
  split at h
  · next index hindex =>
      split at h
      · next hactive => exact ⟨index, hindex, hactive, h⟩
      · simp at h
  · simp at h

/-- A call that advances a handle publishes the bytes of that handle. -/
theorem bytesAfter_advance {call : Event} {caller : ReaderId} {length : UInt64}
    (hcaller : call.reader = some caller) (hlength : call.advancesBy cfg state = some length) :
    bytesAfter cfg reader state bytes (.ring call) =
      if caller = reader then bytes.map fun _ => 0 else bytes := by
  cases call <;> simp_all [bytesAfter, Event.advancesBy]

/-- A call that advances no handle and binds none records nothing. -/
theorem bytesAfter_other (call : Event) (hlength : call.advancesBy cfg state = none)
    (hbound : call = .registerReader reader → (state.readers reader).slotIndex ≠ none) :
    bytesAfter cfg reader state bytes (.ring call) = bytes := by
  cases call with
  | registerReader caller =>
      simp only [bytesAfter, ite_eq_right_iff, and_imp]
      rintro rfl hnone
      exact absurd hnone (hbound rfl)
  | _ => simp [bytesAfter, hlength]

/-- A call of the ring leaves the bytes as they are or publishes them. -/
theorem bytesAfter_ring (call : Event) :
    bytesAfter cfg reader state bytes (.ring call) = bytes ∨
      bytesAfter cfg reader state bytes (.ring call) = some 0 ∨
      bytesAfter cfg reader state bytes (.ring call) = bytes.map fun _ => 0 := by
  cases call <;> simp only [bytesAfter] <;> split <;> simp

/-- Every call of the ring keeps the distance between slot and handle. -/
theorem RosterStep.tracks {call : Event} {slots : Fin kMaxReaders → ReaderSlot}
    {readers : ReaderId → BroadcastReader} (hstep : RosterStep cfg state call slots readers)
    (h : Tracks state.slots (state.readers reader) bytes)
    (hquiet : Undisturbed cfg reader (state, bytes) (.ring call)) :
    Tracks slots (readers reader)
      (unpublishedAfter slots (readers reader)
        (bytesAfter cfg reader state bytes (.ring call))) := by
  intro count hcount
  obtain ⟨index, hindex, hactive, hbytes⟩ := unpublishedAfter_some hcount
  cases hstep with
  | same _ hnone _ =>
      rw [bytesAfter_other call hnone fun _ => by simp [hindex]] at hbytes
      exact h count hbytes
  | scan tsc pending _ =>
      obtain ⟨named, hnamed, -, hgen, hcursor⟩ := h count hbytes
      obtain rfl : named = index := Option.some.inj (hnamed.symm.trans hindex)
      have hslot := evictExpired_of_active hactive
      exact ⟨named, hnamed, hactive, by simpa only [hslot] using hgen,
        by simpa only [hslot] using hcursor⟩
  | setCursor caller cursor =>
      have hne : reader ≠ caller := by
        rintro rfl
        have hnone : bytes = none := hquiet.cursorKept cursor rfl
        rw [bytesAfter_other (.setCursor _ cursor) rfl nofun] at hbytes
        simp [hnone] at hbytes
      rw [bytesAfter_other (.setCursor _ cursor) rfl nofun] at hbytes
      simpa [hne] using h count hbytes
  | register caller claimed hnone hfree =>
      by_cases hcaller : caller = reader
      · subst hcaller
        obtain rfl : 0 = count := by simpa [bytesAfter, hnone] using hbytes
        exact ⟨claimed, by simp⟩
      · rw [bytesAfter_other (.registerReader caller) rfl fun heq =>
          absurd (Event.registerReader.inj heq) hcaller] at hbytes
        obtain ⟨named, hnamed, hheld, hkept⟩ := h count hbytes
        have hslot : named ≠ claimed := by
          rintro rfl
          simp [freeSlot_inactive hfree] at hheld
        simpa [Function.update_of_ne (Ne.symm hcaller)] using
          ⟨named, hnamed, by simpa [hslot] using ⟨hheld, hkept⟩⟩
  | unregister caller cleared hcleared =>
      have hne : reader ≠ caller := by
        rintro rfl
        simp at hindex
      rw [bytesAfter_other (.unregisterReader caller) rfl nofun] at hbytes
      obtain ⟨named, hnamed, hheld, hkept⟩ := h count hbytes
      simp only [Function.update_of_ne hne] at hindex ⊢
      obtain rfl : named = index := Option.some.inj (hnamed.symm.trans hindex)
      have hslot : named ≠ cleared := by
        rintro rfl
        simp at hactive
      exact ⟨named, hnamed, by simpa [hslot] using ⟨hheld, hkept⟩⟩
  | publish _ caller published length hcaller hlength hpublished hgen =>
      rw [bytesAfter_advance hcaller hlength] at hbytes
      by_cases hsame : caller = reader
      · subst hsame
        simp only [if_true, Option.map_eq_some_iff] at hbytes
        obtain ⟨before, hbefore, rfl⟩ := hbytes
        obtain ⟨named, hnamed, hheld, hkept, -⟩ := h before hbefore
        obtain rfl : named = published := Option.some.inj (hnamed.symm.trans hpublished)
        exact ⟨named, by simpa using ⟨hnamed, hheld, hkept⟩⟩
      · rw [if_neg hsame] at hbytes
        obtain ⟨named, hnamed, hheld, hkept, hcursor⟩ := h count hbytes
        have hslot : named ≠ published := by
          rintro rfl
          -- Both handles would be bound to the slot with the generation that it carries.
          exact hquiet.slotKept _ caller length rfl hcaller hsame hlength (by simp [hbytes])
            (hpublished.trans hnamed.symm) (hgen.symm.trans hkept)
        simpa [Function.update_of_ne (Ne.symm hsame)] using
          ⟨named, hnamed, by simpa [hslot] using ⟨hheld, hkept, hcursor⟩⟩
  | unbind _ caller _ length hcaller hlength _ _ =>
      have hne : reader ≠ caller := by
        rintro rfl
        simp at hindex
      rw [bytesAfter_advance hcaller hlength, if_neg (Ne.symm hne)] at hbytes
      simpa [hne] using h count hbytes
  | move _ caller length hcaller hlength hnone =>
      have hne : reader ≠ caller := by
        rintro rfl
        simp [hnone] at hindex
      rw [bytesAfter_advance hcaller hlength, if_neg (Ne.symm hne)] at hbytes
      simpa [hne] using h count hbytes

/-- Advancing a handle by a header adds the frame to the bytes of that handle. -/
theorem Tracks.advanceHeader (h : Tracks state.slots (state.readers reader) bytes)
    (caller : ReaderId) (header : FrameHeader) :
    let handle :=
      Function.update state.readers caller ((state.readers caller).advance header) reader
    Tracks state.slots handle (unpublishedAfter state.slots handle
      (bytesAfter cfg reader state bytes (.advanceHeader caller header))) := by
  intro handle count hcount
  obtain ⟨_, _, _, hbytes⟩ := unpublishedAfter_some hcount
  by_cases hcaller : caller = reader
  · subst hcaller
    simp only [bytesAfter, if_true, Option.map_eq_some_iff] at hbytes
    obtain ⟨before, hbefore, rfl⟩ := hbytes
    obtain ⟨index, hindex, hactive, hgen, hcursor⟩ := h before hbefore
    refine ⟨index, ?_⟩
    simp [handle, BroadcastReader.advance, hindex, hactive, hgen, ← hcursor, UInt64.add_assoc]
  · simp only [bytesAfter, hcaller, if_false] at hbytes
    simpa [handle, Function.update_of_ne (Ne.symm hcaller)] using h count hbytes

end Steps

/-! ## Runs -/

/-- The slot that the handle names holds the cursor of the handle. -/
def CursorPublished (state : State) (reader : ReaderId) : Prop :=
  ∃ index, (state.readers reader).slotIndex = some index ∧
    (state.slots index).cursor = (state.readers reader).cursor

/-- The runs with the bytes that one reader has not published. -/
abbrev readerRuns (cfg : Config) (reader : ReaderId) : System (State × Unpublished) HandleEvent :=
  (handles cfg).withHistory (unpublished cfg reader)

/-- In every run whose steps meet `allow`, the slot of the reader holds its cursor as long as the
reader is registered and not evicted. -/
def FollowsReader (cfg : Config) (reader : ReaderId)
    (allow : State × Unpublished → HandleEvent → Prop) : Prop :=
  ∀ pair, (readerRuns cfg reader).Reachable allow pair → pair.2 ≠ none →
    CursorPublished pair.1 reader

section Runs

variable {cfg : Config} {reader : ReaderId} {allow : State × Unpublished → HandleEvent → Prop}
  (hallow : ∀ pair event, allow pair event → Undisturbed cfg reader pair event)
include hallow

/-- The slot of the reader is behind by the recorded bytes in every undisturbed run. -/
theorem reachable_tracks {pair : State × Unpublished}
    (h : (readerRuns cfg reader).Reachable allow pair) :
    Tracks pair.1.slots (pair.1.readers reader) pair.2 := by
  refine h.invariant (fun pair => Tracks pair.1.slots (pair.1.readers reader) pair.2) ?_ ?_
  · rintro ⟨state, bytes⟩ ⟨-, hstart⟩
    obtain rfl : bytes = none := hstart
    exact nofun
  · rintro ⟨state, bytes⟩ event ⟨next, bytes'⟩ hinv hevent hstep
    obtain ⟨hnext, hrecord⟩ := System.withHistory_step.mp hstep
    obtain rfl : bytes' = unpublishedAfter next.slots (next.readers reader)
      (bytesAfter cfg reader state bytes event) := hrecord
    cases event with
    | ring call => exact (step_roster hnext).tracks hinv (hallow _ _ hevent)
    | advanceHeader caller header =>
        obtain rfl := Option.some.inj hnext
        exact hinv.advanceHeader caller header

/-- The slot of a registered reader holds its cursor exactly when nothing is left to publish. -/
theorem cursor_published_iff {pair : State × Unpublished}
    (h : (readerRuns cfg reader).Reachable allow pair) {count : UInt64}
    (hcount : pair.2 = some count) : CursorPublished pair.1 reader ↔ count = 0 := by
  obtain ⟨index, hindex, -, -, hcursor⟩ := reachable_tracks hallow h count hcount
  constructor
  · rintro ⟨named, hnamed, hpublished⟩
    obtain rfl : index = named := Option.some.inj (hindex.symm.trans hnamed)
    rw [hpublished] at hcursor
    exact UInt64.add_eq_left.mp hcursor
  · rintro rfl
    exact ⟨index, hindex, by simpa using hcursor⟩

/-- The published cursor follows the reader in exactly the runs in which it never has bytes left
that it passed over with the `Advance` of its handle and has not published since. -/
theorem follows_reader_iff :
    FollowsReader cfg reader allow ↔
      ∀ pair, (readerRuns cfg reader).Reachable allow pair → ∀ count, pair.2 = some count →
        count = 0 := by
  constructor
  · intro hfollows pair hreach count hcount
    exact (cursor_published_iff hallow hreach hcount).mp
      (hfollows pair hreach (by simp [hcount]))
  · intro hzero pair hreach hregistered
    obtain ⟨count, hcount⟩ := Option.ne_none_iff_exists'.mp hregistered
    exact (cursor_published_iff hallow hreach hcount).mpr (hzero pair hreach count hcount)

end Runs

/-- A reader that only uses the calls of the ring leaves nothing unpublished. -/
theorem ring_calls_publish {cfg : Config} {reader : ReaderId}
    {allow : State × Unpublished → HandleEvent → Prop}
    (hring : ∀ pair header, ¬ allow pair (.advanceHeader reader header))
    {pair : State × Unpublished} (h : (readerRuns cfg reader).Reachable allow pair)
    {count : UInt64} (hcount : pair.2 = some count) : count = 0 := by
  refine h.invariant (fun pair => ∀ count, pair.2 = some count → count = 0) ?_ ?_ count hcount
  · rintro ⟨state, bytes⟩ ⟨-, hstart⟩ count hsome
    simp [show bytes = none from hstart] at hsome
  · rintro ⟨state, bytes⟩ event ⟨next, bytes'⟩ hzero hevent hstep count hsome
    obtain ⟨-, hrecord⟩ := System.withHistory_step.mp hstep
    obtain rfl : bytes' = unpublishedAfter next.slots (next.readers reader)
      (bytesAfter cfg reader state bytes event) := hrecord
    obtain ⟨_, _, _, hbytes⟩ := unpublishedAfter_some hsome
    cases event with
    | ring call =>
        rcases bytesAfter_ring call with hkeep | hbound | hpublish
        · exact hzero count (hkeep.symm.trans hbytes)
        · exact (Option.some.inj (hbound.symm.trans hbytes)).symm
        · rw [hpublish, Option.map_eq_some_iff] at hbytes
          obtain ⟨_, _, hcount⟩ := hbytes
          exact hcount.symm
    | advanceHeader caller header =>
        have hne : caller ≠ reader := by
          rintro rfl
          exact hring _ header hevent
        exact hzero count (by simpa [bytesAfter, hne] using hbytes)

/-- The calls of one reader, but for releasing its slot and setting its cursor, with the calls of
the producer. -/
def readerCall (reader : ReaderId) : HandleEvent → Bool
  | .ring (.registerReader caller) | .ring (.pollZeroCopy caller) | .ring (.pollCopy caller)
  | .ring (.pollCopyBatch caller _) | .ring (.advance caller _) | .advanceHeader caller _ =>
      caller == reader
  | .ring (.reserve ..) | .ring (.scan _) | .ring (.writePayload _) | .ring .commit
  | .ring (.tick _) => true
  | .ring (.setCursor ..) | .ring (.unregisterReader _) => false

/-- A reader on its own is not disturbed. -/
theorem reader_call_undisturbed {cfg : Config} {reader : ReaderId} {event : HandleEvent}
    (h : readerCall reader event = true) (pair : State × Unpublished) :
    Undisturbed cfg reader pair event := by
  refine ⟨?_, ?_⟩
  · rintro cursor rfl
    simp [readerCall] at h
  · rintro call other length rfl hother hne
    cases call <;> simp_all [readerCall, Event.reader]

/-- Reader 0 polls a frame and moves past it with the header that it was given. -/
def localAdvance : List HandleEvent :=
  [.ring (.registerReader 0), .ring (.reserve 8 1 0), .ring .commit, .ring (.pollZeroCopy 0),
    .advanceHeader 0 ⟨8, 1, 0⟩]

/-- The published cursor of a reader on its own. -/
theorem follows_lone_reader_iff :
    FollowsReader onePage 0 (fun _ event => readerCall 0 event = true) ↔
      ∀ pair, (readerRuns onePage 0).Reachable (fun _ event => readerCall 0 event = true) pair →
        ∀ count, pair.2 = some count → count = 0 :=
  follows_reader_iff fun pair _ h => reader_call_undisturbed h pair

/-- A reader that moves past a frame with its header leaves its slot behind. -/
theorem header_advance_unpublished :
    ¬ FollowsReader onePage 0 fun _ event => readerCall 0 event = true := by
  intro hfollows
  obtain ⟨pair, hreach, hpair⟩ := System.exists_reachable_of_replay (readerRuns onePage 0)
    (fun _ event => readerCall 0 event = true) (created 0, none) localAdvance
    (fun pair => pair.2 == some 32) (.init ⟨⟨0, rfl⟩, rfl⟩) (by decide +kernel)
  have hzero := (cursor_published_iff (fun pair _ h => reader_call_undisturbed h pair) hreach
    (beq_iff_eq.mp hpair)).mp
    (hfollows pair hreach (by simp [beq_iff_eq.mp hpair]))
  exact absurd hzero (by decide)

end HotPath.SharedMemory
