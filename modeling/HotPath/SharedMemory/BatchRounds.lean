import HotPath.SharedMemory.Backpressure
import Mathlib.Algebra.BigOperators.Group.List.Basic
import Mathlib.Data.UInt

/-!
# `PollCopyBatch` and repeated `PollCopy`

`PollCopyBatch` has its own copy of the checks of `PollCopy`, reuses the entries of its output
vector and calls `Advance` once at its end. `batch_eq_rounds` says that with nobody else running it
returns what rounds of `PollCopy` and `Advance` return, and leaves the same cursors, as long as
every position that the reader comes to has an even version word. Both are compared with
`batchFrames`, the frames that lie ahead of the reader.

A reader whose cursor is not at a frame can find an odd word there although every frame is
finished. `PollCopy` then does not return, and `PollCopyBatch` gives up (`polls_differ_at_odd`,
`spins_inside_payload`).
-/

namespace HotPath.SharedMemory

open HotPath.Foundation

/-! ## The frames ahead -/

/-- A frame that a poll copies: its stream position, its message and its size. -/
structure PolledFrame where
  position : UInt64
  message : SafeMessage
  size : UInt32

/-- The frames that the loop of `PollCopyBatch` copies, with the number of messages that are still
allowed. -/
def batchFrames (capacity : UInt64) (shared : Shared) : Nat → UInt64 → List PolledFrame
  | 0, _ => []
  | remaining + 1, current =>
      if current < shared.header.commitCursor then
        match readFrame capacity shared current (kMaxRetries + 1) with
        | .read message size =>
            ⟨current, message, size⟩ ::
              batchFrames capacity shared remaining (current + size.toUInt64)
        | _ => []
      else []

/-- The bytes that the frames take. -/
def bytesTaken (frames : List PolledFrame) : UInt64 :=
  (frames.map fun frame => frame.size.toUInt64).sum

/-- The messages of the frames. -/
def messagesOf (frames : List PolledFrame) : List SafeMessage :=
  frames.map PolledFrame.message

/-- The error that ends the loop of `PollCopyBatch` before its first message. -/
def batchError (capacity : UInt64) (shared : Shared) (current : UInt64) : Option Status :=
  match readFrame capacity shared current (kMaxRetries + 1) with
  | .lapped => some ⟨.resourceExhausted, "Consumer was evicted and lapped"⟩
  | .corrupt => some ⟨.dataLoss, "Corrupt frame length detected"⟩
  | _ => none

/-! ## The output vector -/

/-- Messages are put into the output vector one after the other. -/
def putMessages (messagesOut : List SafeMessage) (index : Nat) :
    List SafeMessage → List SafeMessage
  | [] => messagesOut
  | message :: rest => putMessages (putMessage messagesOut index message) (index + 1) rest

theorem take_putMessage {messagesOut : List SafeMessage} {index : Nat} {message : SafeMessage}
    (h : index ≤ messagesOut.length) :
    (putMessage messagesOut index message).take (index + 1) =
      messagesOut.take index ++ [message] := by
  unfold putMessage
  split
  · next hle =>
      obtain rfl : index = messagesOut.length := Nat.le_antisymm h hle
      rw [List.take_of_length_le (by simp), List.take_length]
  · next hlt =>
      have hlength : (messagesOut.take index).length = index := List.length_take_of_le h
      rw [List.take_set, List.take_add_one, List.getElem?_eq_getElem (Nat.lt_of_not_le hlt),
        List.set_append_right index message hlength.le, hlength, Nat.sub_self]
      rfl

theorem length_putMessage {messagesOut : List SafeMessage} {index : Nat} {message : SafeMessage}
    (h : index ≤ messagesOut.length) :
    index + 1 ≤ (putMessage messagesOut index message).length := by
  unfold putMessage
  split
  · simpa using h
  · next hlt =>
      rw [List.length_set]
      exact Nat.lt_of_not_le hlt

/-- The messages stand in the vector from the index on, whatever was there before. -/
theorem take_putMessages {messagesOut : List SafeMessage} {index : Nat}
    (messages : List SafeMessage) (h : index ≤ messagesOut.length) :
    (putMessages messagesOut index messages).take (index + messages.length) =
      messagesOut.take index ++ messages := by
  induction messages generalizing messagesOut index with
  | nil => simp [putMessages]
  | cons message rest ih =>
      rw [putMessages, List.length_cons, Nat.add_comm rest.length, ← Nat.add_assoc,
        ih (length_putMessage h), take_putMessage h, List.append_assoc]
      rfl

/-! ## The batch loop -/

variable {capacity : UInt64} {shared : Shared}

/-- The loop of `PollCopyBatch` copies the frames ahead. -/
theorem batchLoop_eq (capacity : UInt64) (shared : Shared) (remaining : Nat) (current : UInt64)
    (batch : Batch)
    (hnone : batch.failure = none) :
    let frames := batchFrames capacity shared remaining current
    let result := batchLoop capacity shared shared.header.commitCursor remaining current batch
    result.messagesRead = batch.messagesRead + frames.length ∧
      result.totalBytesAdvanced = batch.totalBytesAdvanced + bytesTaken frames ∧
      result.messagesOut =
        putMessages batch.messagesOut batch.messagesRead (messagesOf frames) ∧
      (0 < result.messagesRead → result.failure = none) ∧
      (result.messagesRead = 0 → current < shared.header.commitCursor → 0 < remaining →
        result.failure = batchError capacity shared current) := by
  induction remaining generalizing current batch with
  | zero => simp [batchFrames, batchLoop, bytesTaken, messagesOf, putMessages, hnone]
  | succ remaining ih =>
      by_cases hdata : current < shared.header.commitCursor
      · simp only [batchFrames, batchLoop, if_pos hdata, batchError]
        cases hread : readFrame capacity shared current (kMaxRetries + 1) with
        | read message size =>
            obtain ⟨hcount, hbytes, hout, hsome, -⟩ := ih (current + size.toUInt64)
              { messagesRead := batch.messagesRead + 1
                totalBytesAdvanced := batch.totalBytesAdvanced + size.toUInt64
                messagesOut := putMessage batch.messagesOut batch.messagesRead message
                failure := none } rfl
            dsimp only at hcount hbytes hout hsome ⊢
            refine ⟨?_, ?_, hout, hsome, fun hzero => ?_⟩
            · rw [hcount, List.length_cons]
              omega
            · rw [hbytes, bytesTaken, bytesTaken, List.map_cons, List.sum_cons, UInt64.add_assoc]
            · omega
        | lapped | corrupt =>
            by_cases hread : 0 < batch.messagesRead
            · simp [hread, hnone, bytesTaken, messagesOf, putMessages]
              omega
            · simp [hread, bytesTaken, messagesOf, putMessages]
        | gaveUp => simp [hnone, bytesTaken, messagesOf, putMessages]
      · simp [batchFrames, batchLoop, hdata, hnone, bytesTaken, messagesOf, putMessages]

/-! ## Rounds of `PollCopy` and `Advance` -/

/-- Rounds of `PollCopy` and `Advance` over the frame that it returned, until the number of
messages is reached or a call fails. The result is `none` when a `PollCopy` does not return. The
clock may run between the rounds. -/
def copyRounds (capacity : UInt64) (clocks : Nat → Int) : Nat → Shared → BroadcastReader →
    Option (List SafeMessage × Option Status × Shared × BroadcastReader)
  | 0, shared, reader => some ([], none, shared, reader)
  | remaining + 1, shared, reader =>
      match pollCopy capacity shared reader with
      | none => none
      | some (.error status) => some ([], some status, shared, reader)
      | some (.ok (header, message)) =>
          let (shared, reader) :=
            advance shared reader (totalFrameSize header.length).toUInt64 (clocks remaining)
          (copyRounds capacity clocks remaining shared reader).map fun rest =>
            (message :: rest.1, rest.2)

/-- The positions that a reader comes to when it goes from frame to frame. -/
def framePosition (capacity : UInt64) (data : Nat → UInt8) : UInt64 → Nat → UInt64
  | cursor, 0 => cursor
  | cursor, index + 1 =>
      framePosition capacity data
        (cursor + (totalFrameSize (loadLength capacity data
          (frameAddress capacity cursor))).toUInt64) index

/-- There is data at the position, and the producer has not lapped it. -/
def Pollable (capacity : UInt64) (shared : Shared) (position : UInt64) : Prop :=
  position < shared.header.commitCursor ∧ shared.header.producerCursor - position ≤ capacity

/-- The length field at the position passes the check of the polls. -/
def LengthChecked (capacity : UInt64) (data : Nat → UInt8) (position : UInt64) : Prop :=
  (loadLength capacity data (frameAddress capacity position)).toUInt64 ≤ capacity

/-- The positions that a reader comes to, going from frame to frame, have even version words. -/
def EvenAhead (capacity : UInt64) (shared : Shared) (cursor : UInt64) : Prop :=
  ∀ index, (∀ earlier ≤ index,
      Pollable capacity shared (framePosition capacity shared.data cursor earlier)) →
    (∀ earlier < index,
      LengthChecked capacity shared.data (framePosition capacity shared.data cursor earlier)) →
    loadVersion capacity shared.data
      (frameAddress capacity (framePosition capacity shared.data cursor index)) &&& 1 = 0

theorem EvenAhead.here {cursor : UInt64} (h : EvenAhead capacity shared cursor)
    (hpollable : Pollable capacity shared cursor) :
    loadVersion capacity shared.data (frameAddress capacity cursor) &&& 1 = 0 := by
  refine h 0 (fun earlier hle => ?_) fun earlier hlt => absurd hlt (Nat.not_lt_zero earlier)
  rw [Nat.le_zero.mp hle]
  exact hpollable

theorem EvenAhead.next {cursor : UInt64} (h : EvenAhead capacity shared cursor)
    (hpollable : Pollable capacity shared cursor)
    (hlength : LengthChecked capacity shared.data cursor) :
    EvenAhead capacity shared (cursor + (totalFrameSize (loadLength capacity shared.data
      (frameAddress capacity cursor))).toUInt64) := by
  intro index hbelow hlengths
  refine h (index + 1) (fun earlier hle => ?_) (fun earlier hlt => ?_)
  · cases earlier with
    | zero => exact hpollable
    | succ earlier => exact hbelow earlier (Nat.le_of_succ_le_succ hle)
  · cases earlier with
    | zero => exact hlength
    | succ earlier => exact hlengths earlier (Nat.lt_of_succ_lt_succ hlt)

/-- There is data at the position that is not lapped, and its version word is odd. -/
def OddAt (capacity : UInt64) (shared : Shared) (position : UInt64) : Prop :=
  Pollable capacity shared position ∧
    loadVersion capacity shared.data (frameAddress capacity position) &&& 1 ≠ 0

/-- A pass of `PollCopy` at such a position asks for another. -/
theorem pollCopyPass_odd {position : UInt64} (h : OddAt capacity shared position) :
    pollCopyPass capacity shared position = .retry := by
  have hlapped : ¬ shared.header.producerCursor - position > capacity :=
    UInt64.not_lt.mpr h.1.2
  simp [pollCopyPass, hlapped, h.2]

/-- `PollCopy` does not return at such a position. -/
theorem pollCopy_odd {reader : BroadcastReader} (h : OddAt capacity shared reader.cursor) :
    pollCopy capacity shared reader = none := by
  simp only [pollCopy, if_neg (UInt64.not_le.mpr h.1.1), pollCopyPass_odd h]

/-- `PollCopyBatch` gives up on the frame at such a position. -/
theorem readFrame_odd {position : UInt64} (h : OddAt capacity shared position) (retries : Nat) :
    readFrame capacity shared position retries = .gaveUp := by
  have hlapped : ¬ shared.header.producerCursor - position > capacity :=
    UInt64.not_lt.mpr h.1.2
  induction retries with
  | zero => rfl
  | succ retries ih => simp [readFrame, hlapped, h.2, ih]

/-- A pass over a frame with an even version word is the same in both functions. -/
theorem pollCopy_of_even {reader : BroadcastReader}
    (hdata : reader.cursor < shared.header.commitCursor)
    (heven : shared.header.producerCursor - reader.cursor ≤ capacity →
      loadVersion capacity shared.data (frameAddress capacity reader.cursor) &&& 1 = 0)
    (retries : Nat) :
    match readFrame capacity shared reader.cursor (retries + 1) with
    | .read message size => ∃ header, pollCopy capacity shared reader =
      some (.ok (header, message)) ∧
        size = totalFrameSize (loadLength capacity shared.data
          (frameAddress capacity reader.cursor)) ∧
        header.length = loadLength capacity shared.data (frameAddress capacity reader.cursor) ∧
        Pollable capacity shared reader.cursor ∧ LengthChecked capacity shared.data reader.cursor
    | .lapped => pollCopy capacity shared reader =
        some (.error ⟨.resourceExhausted, "Consumer was evicted and lapped"⟩)
    | .corrupt => pollCopy capacity shared reader =
        some (.error ⟨.dataLoss, "Corrupt frame length detected"⟩)
    | .gaveUp => False := by
  have hge : ¬ reader.cursor ≥ shared.header.commitCursor := UInt64.not_le.mpr hdata
  by_cases hlapped : shared.header.producerCursor - reader.cursor > capacity
  · simp [readFrame, pollCopy, pollCopyPass, hge, hlapped]
  · have heven := heven (UInt64.not_lt.mp hlapped)
    by_cases hcorrupt :
      (loadLength capacity shared.data (frameAddress capacity reader.cursor)).toUInt64 > capacity
    · simp [readFrame, pollCopy, pollCopyPass, hge, hlapped, heven, hcorrupt]
    · have hpollable : Pollable capacity shared reader.cursor :=
        ⟨hdata, UInt64.not_lt.mp hlapped⟩
      have hlength : LengthChecked capacity shared.data reader.cursor := UInt64.not_lt.mp hcorrupt
      simp [readFrame, pollCopy, pollCopyPass, hge, hlapped, heven, hcorrupt, hpollable, hlength]

/-! ## Advancing in several steps -/

/-- The shared segments without the heartbeats. -/
def Shared.forgetHeartbeats (shared : Shared) : Shared :=
  { shared with
    header := { shared.header with
      readers := fun index => { shared.header.readers index with heartbeatTs := 0 } } }

theorem forgetHeartbeats_setSlot (shared : Shared) (index : Fin kMaxReaders) (slot : ReaderSlot) :
    (shared.setSlot index slot).forgetHeartbeats =
      shared.forgetHeartbeats.setSlot index { slot with heartbeatTs := 0 } := by
  simp only [Shared.forgetHeartbeats, Shared.setSlot]
  congr 2
  funext other
  by_cases heq : other = index
  · subst heq
    simp
  · simp [Function.update_of_ne heq]

theorem setSlot_setSlot (shared : Shared) (index : Fin kMaxReaders) (slot slot' : ReaderSlot) :
    (shared.setSlot index slot).setSlot index slot' = shared.setSlot index slot' := by
  simp [Shared.setSlot]

theorem readers_setSlot (shared : Shared) (index : Fin kMaxReaders) (slot : ReaderSlot) :
    (shared.setSlot index slot).header.readers index = slot := by
  simp [Shared.setSlot]

/-- `Advance` leaves the cursors of the producer and the data segment. -/
theorem advance_memory (shared : Shared) (reader : BroadcastReader) (length : UInt64)
    (clock : Int) :
    (advance shared reader length clock).1.data = shared.data ∧
      (advance shared reader length clock).1.header.producerCursor =
        shared.header.producerCursor ∧
      (advance shared reader length clock).1.header.commitCursor = shared.header.commitCursor := by
  dsimp only [advance]
  split
  · split
    · exact ⟨rfl, rfl, rfl⟩
    · exact ⟨rfl, rfl, rfl⟩
  · exact ⟨rfl, rfl, rfl⟩

/-- `Advance` moves the local cursor. -/
theorem advance_cursor (shared : Shared) (reader : BroadcastReader) (length : UInt64)
    (clock : Int) : (advance shared reader length clock).2.cursor = reader.cursor + length := by
  dsimp only [advance]
  split
  · split
    · rfl
    · rfl
  · rfl

/-- The clock shows in the heartbeat alone. -/
theorem advance_clock (shared : Shared) (reader : BroadcastReader) (length : UInt64)
    (clock clock' : Int) :
    (advance shared reader length clock).2 = (advance shared reader length clock').2 ∧
      (advance shared reader length clock).1.forgetHeartbeats =
        (advance shared reader length clock').1.forgetHeartbeats := by
  cases hslot : reader.slotIndex with
  | none => simp [advance, hslot]
  | some index =>
      by_cases hgeneration : (shared.header.readers index).generationId = reader.generationId
      · simp [advance, hslot, hgeneration, forgetHeartbeats_setSlot]
      · simp [advance, hslot, hgeneration]

/-- Advancing twice is advancing once over the sum, but for the heartbeats. -/
theorem advance_advance (shared : Shared) (reader : BroadcastReader) (first second : UInt64)
    (clock clock' clock'' : Int) :
    let once := advance shared reader first clock
    (advance once.1 once.2 second clock').2 = (advance shared reader (first + second) clock'').2 ∧
      (advance once.1 once.2 second clock').1.forgetHeartbeats =
        (advance shared reader (first + second) clock'').1.forgetHeartbeats := by
  cases hslot : reader.slotIndex with
  | none => simp [advance, hslot, UInt64.add_assoc]
  | some index =>
      by_cases hgeneration : (shared.header.readers index).generationId = reader.generationId
      · simp [advance, hslot, hgeneration, UInt64.add_assoc, forgetHeartbeats_setSlot,
          setSlot_setSlot, readers_setSlot]
      · simp [advance, hslot, hgeneration, UInt64.add_assoc]

/-! ## Both are the same -/

/-- A poll of a frame looks at the shared cursors and the data segment only. -/
theorem readFrame_congr {other : Shared}
    (hproducer : other.header.producerCursor = shared.header.producerCursor)
    (hbytes : other.data = shared.data) (current : UInt64) (retries : Nat) :
    readFrame capacity other current retries = readFrame capacity shared current retries := by
  induction retries with
  | zero => rfl
  | succ retries ih => simp only [readFrame, hproducer, hbytes, ih]

theorem EvenAhead.congr {other : Shared} {cursor : UInt64} (h : EvenAhead capacity shared cursor)
    (hproducer : other.header.producerCursor = shared.header.producerCursor)
    (hcommit : other.header.commitCursor = shared.header.commitCursor)
    (hbytes : other.data = shared.data) : EvenAhead capacity other cursor := by
  unfold EvenAhead Pollable at h ⊢
  rwa [hproducer, hcommit, hbytes]

theorem batchFrames_congr {other : Shared}
    (hproducer : other.header.producerCursor = shared.header.producerCursor)
    (hcommit : other.header.commitCursor = shared.header.commitCursor)
    (hbytes : other.data = shared.data) (remaining : Nat) (current : UInt64) :
    batchFrames capacity other remaining current =
      batchFrames capacity shared remaining current := by
  induction remaining generalizing current with
  | zero => rfl
  | succ remaining ih => simp only [batchFrames, hcommit, readFrame_congr hproducer hbytes, ih]

/-- What is left of the reader after the frames: one `Advance` over all of them, if there are
any. -/
def advanceOver (shared : Shared) (reader : BroadcastReader) (frames : List PolledFrame)
    (clock : Int) : Shared × BroadcastReader :=
  if frames = [] then (shared, reader) else advance shared reader (bytesTaken frames) clock

/-- Advancing over one frame and then over the others is advancing over all of them. -/
theorem advanceOver_cons (shared : Shared) (reader : BroadcastReader) (frame : PolledFrame)
    (rest : List PolledFrame) (clock clock' : Int) :
    let once := advance shared reader frame.size.toUInt64 clock
    (advanceOver once.1 once.2 rest clock').2 =
        (advanceOver shared reader (frame :: rest) clock').2 ∧
      (advanceOver once.1 once.2 rest clock').1.forgetHeartbeats =
        (advanceOver shared reader (frame :: rest) clock').1.forgetHeartbeats := by
  have hbytes : bytesTaken (frame :: rest) = frame.size.toUInt64 + bytesTaken rest := by
    simp [bytesTaken]
  cases rest with
  | nil =>
      have hone : bytesTaken [frame] = frame.size.toUInt64 := by simp [bytesTaken]
      simp only [advanceOver, ↓reduceIte, List.cons_ne_nil, hone]
      exact advance_clock shared reader frame.size.toUInt64 clock clock'
  | cons second rest =>
      simp only [advanceOver, ↓reduceIte, List.cons_ne_nil, hbytes]
      exact advance_advance shared reader frame.size.toUInt64 _ clock clock' clock'

/-- The rounds copy the frames ahead and advance over them. When there are none, they end with the
error of the first call. -/
theorem copyRounds_eq (clocks : Nat → Int) (clock : Int) (remaining : Nat)
    (reader : BroadcastReader)
    (heven : EvenAhead capacity shared reader.cursor) :
    let frames := batchFrames capacity shared remaining reader.cursor
    ∃ failure final, copyRounds capacity clocks remaining shared reader =
        some (messagesOf frames, failure, final) ∧
      (frames = [] → 0 < remaining → failure =
        if reader.cursor < shared.header.commitCursor then
          batchError capacity shared reader.cursor
        else some ⟨.notFound, "No data"⟩) ∧
      (frames = [] → 0 < remaining → failure ≠ none) ∧
      final.2 = (advanceOver shared reader frames clock).2 ∧
      final.1.forgetHeartbeats = (advanceOver shared reader frames clock).1.forgetHeartbeats := by
  induction remaining generalizing shared reader with
  | zero => exact ⟨none, (shared, reader), rfl, by simp, by simp, rfl, rfl⟩
  | succ remaining ih =>
      by_cases hdata : reader.cursor < shared.header.commitCursor
      · have hpoll := pollCopy_of_even hdata (fun hfits => heven.here ⟨hdata, hfits⟩) kMaxRetries
        simp only [batchFrames, if_pos hdata, batchError]
        cases hread : readFrame capacity shared reader.cursor (kMaxRetries + 1) with
        | read message size =>
            simp only [hread] at hpoll
            obtain ⟨header, hcopy, hsize, hlength, hpollable, hchecked⟩ := hpoll
            have hnext := heven.next hpollable hchecked
            rw [← hsize] at hnext
            rw [← hlength] at hsize
            obtain ⟨hbytes, hproducer, hcommit⟩ :=
              advance_memory shared reader size.toUInt64 (clocks remaining)
            have hcursor := advance_cursor shared reader size.toUInt64 (clocks remaining)
            generalize hadvance : advance shared reader size.toUInt64 (clocks remaining) = once at *
            rw [← hcursor] at hnext
            have hrest := @ih once.1 once.2 (hnext.congr hproducer hcommit hbytes)
            simp only [batchFrames_congr hproducer hcommit hbytes, hcursor] at hrest
            obtain ⟨failure, final, hrounds, -, -, hreader, hshared⟩ := hrest
            have hover := advanceOver_cons shared reader ⟨reader.cursor, message, size⟩
              (batchFrames capacity shared remaining (reader.cursor + size.toUInt64))
              (clocks remaining) clock
            dsimp only at hover
            rw [hadvance] at hover
            refine ⟨failure, final, ?_, by simp, by simp, hreader.trans hover.1,
              hshared.trans hover.2⟩
            rw [copyRounds, hcopy]
            dsimp only
            rw [← hsize, hadvance, hrounds]
            rfl
        | lapped | corrupt =>
            simp only [hread] at hpoll
            exact ⟨_, (shared, reader), by simp only [copyRounds, hpoll]; rfl, by simp, by simp,
              rfl, rfl⟩
        | gaveUp =>
            simp only [hread] at hpoll
      · have hpoll : pollCopy capacity shared reader = some (.error ⟨.notFound, "No data"⟩) := by
          simp [pollCopy, UInt64.not_lt.mp hdata]
        simp only [batchFrames, if_neg hdata]
        exact ⟨_, (shared, reader), by simp only [copyRounds, hpoll]; rfl, by simp, by simp,
          rfl, rfl⟩

/-- `PollCopyBatch` copies the frames ahead into the first entries of its vector. -/
theorem pollBatch_eq (capacity : UInt64) (shared : Shared) (reader : BroadcastReader)
    (maxMessages : Nat) (messagesOut : List SafeMessage) :
    let frames := batchFrames capacity shared maxMessages reader.cursor
    let batch := pollBatch capacity shared reader maxMessages messagesOut
    batch.messagesRead = frames.length ∧ batch.totalBytesAdvanced = bytesTaken frames ∧
      batch.messagesOut.take frames.length = messagesOf frames ∧
      (frames ≠ [] → batch.failure = none) ∧
      (frames = [] → 0 < maxMessages → batch.failure =
        if reader.cursor < shared.header.commitCursor then
          batchError capacity shared reader.cursor
        else some ⟨.notFound, "No data"⟩) := by
  by_cases hdata : reader.cursor < shared.header.commitCursor
  · obtain ⟨hcount, hbytes, hout, hsome, herror⟩ :=
      batchLoop_eq capacity shared maxMessages reader.cursor ⟨0, 0, messagesOut, none⟩ rfl
    dsimp only at hcount hbytes hout hsome herror ⊢
    rw [Nat.zero_add] at hcount
    simp only [pollBatch, if_neg (UInt64.not_le.mpr hdata), if_pos hdata]
    refine ⟨hcount, by simpa using hbytes, ?_, fun hframes => hsome ?_, fun hframes hmax => ?_⟩
    · have htake := take_putMessages
        (messagesOf (batchFrames capacity shared maxMessages reader.cursor))
        (Nat.zero_le messagesOut.length)
      rw [Nat.zero_add] at htake
      rw [hout]
      simpa [messagesOf] using htake
    · rw [hcount]
      exact List.length_pos_of_ne_nil hframes
    · exact herror (by rw [hcount, hframes]; rfl) hdata hmax
  · have hframes : batchFrames capacity shared maxMessages reader.cursor = [] := by
      cases maxMessages with
      | zero => rfl
      | succ remaining => simp [batchFrames, hdata]
    simp [pollBatch, UInt64.not_lt.mp hdata, hdata, hframes, bytesTaken, messagesOf]

/-- The effect of `PollCopyBatch` is one `Advance` over the frames ahead. -/
theorem pollCopyBatch_eq (reader : BroadcastReader) (maxMessages : Nat) (clock : Int) :
    pollCopyBatch capacity shared reader maxMessages clock =
      advanceOver shared reader (batchFrames capacity shared maxMessages reader.cursor) clock := by
  obtain ⟨hcount, hbytes, -⟩ := pollBatch_eq capacity shared reader maxMessages []
  simp only [pollCopyBatch, advanceOver, hcount, hbytes]
  cases batchFrames capacity shared maxMessages reader.cursor with
  | nil => rfl
  | cons frame rest => rfl

/-- `PollCopyBatch` agrees with rounds of `PollCopy` and `Advance`. The first entries of its vector
are the messages of the rounds, it returns their number, or the error of the first call if there
are none, and both leave the same handle and the same shared segments but for the heartbeats. -/
def AgreesWithRounds (capacity : UInt64) (shared : Shared) (reader : BroadcastReader)
    (maxMessages : Nat) (messagesOut : List SafeMessage) (clock : Int)
    (clocks : Nat → Int) : Prop :=
  ∃ messages failure final,
    copyRounds capacity clocks maxMessages shared reader = some (messages, failure, final) ∧
      (pollBatch capacity shared reader maxMessages messagesOut).messagesOut.take messages.length =
        messages ∧
      (messages ≠ [] → (pollBatch capacity shared reader maxMessages messagesOut).result =
        .ok messages.length) ∧
      (messages = [] → ∃ status, failure = some status ∧
        (pollBatch capacity shared reader maxMessages messagesOut).result = .error status) ∧
      final.2 = (pollCopyBatch capacity shared reader maxMessages clock).2 ∧
      final.1.forgetHeartbeats =
        (pollCopyBatch capacity shared reader maxMessages clock).1.forgetHeartbeats

/-- The two agree when nobody else runs and the reader comes to even version words only. -/
theorem batch_eq_rounds (capacity : UInt64) (shared : Shared) (reader : BroadcastReader)
    {maxMessages : Nat} (messagesOut : List SafeMessage) (clock : Int) (clocks : Nat → Int)
    (hmax : 1 ≤ maxMessages) (heven : EvenAhead capacity shared reader.cursor) :
    AgreesWithRounds capacity shared reader maxMessages messagesOut clock clocks := by
  obtain ⟨failure, final, hrounds, hfailure, hfails, hreader, hshared⟩ :=
    copyRounds_eq clocks clock maxMessages reader heven
  obtain ⟨hcount, -, htake, hsome, herror⟩ := pollBatch_eq capacity
    shared reader maxMessages messagesOut
  rw [← pollCopyBatch_eq] at hreader hshared
  have hlength : (messagesOf (batchFrames capacity shared maxMessages reader.cursor)).length =
      (batchFrames capacity shared maxMessages reader.cursor).length := List.length_map ..
  have hempty : messagesOf (batchFrames capacity shared maxMessages reader.cursor) = [] ↔
      batchFrames capacity shared maxMessages reader.cursor = [] := List.map_eq_nil_iff
  refine ⟨_, failure, final, hrounds, by rw [hlength]; exact htake, fun hframes => ?_,
    fun hframes => ?_, hreader, hshared⟩
  · rw [ne_eq, hempty] at hframes
    have hpos := List.length_pos_of_ne_nil hframes
    simp [Batch.result, hsome hframes, hcount, hlength, hpos]
  · rw [hempty] at hframes
    obtain ⟨status, hstatus⟩ := Option.ne_none_iff_exists'.mp (hfails hframes hmax)
    refine ⟨status, hstatus, ?_⟩
    rw [hfailure hframes hmax] at hstatus
    simp only [Batch.result, (herror hframes hmax).trans hstatus]

/-- One frame with a payload of five bytes, read into a vector with a stale entry. -/
theorem batch_eq_rounds_one_frame :
    AgreesWithRounds 4096 (commit onePage (reserve onePage (created 0) 5 7 0) ⟨32, 0, 32⟩).shared
      {} 3 [⟨1, 1, [1]⟩] 5 (fun _ => 6) := by
  refine batch_eq_rounds 4096 _ {} _ 5 _ (by decide) fun index hbelow _ => ?_
  cases index with
  | zero => decide +kernel
  | succ index => exact absurd (hbelow 1 (Nat.le_add_left 1 index)).1 (by decide +kernel)

/-- At an odd version word the two differ: `PollCopy` does not return, and `PollCopyBatch` finds no
data. -/
theorem polls_differ_at_odd {reader : BroadcastReader} {maxMessages : Nat}
    (messagesOut : List SafeMessage) (h : OddAt capacity shared reader.cursor)
    (hmax : 1 ≤ maxMessages) :
    pollCopy capacity shared reader = none ∧
      (pollBatch capacity shared reader maxMessages messagesOut).result =
        .error ⟨.notFound, "No data"⟩ := by
  refine ⟨pollCopy_odd h, ?_⟩
  obtain ⟨remaining, rfl⟩ := Nat.exists_eq_add_of_le' hmax
  have hframes : batchFrames capacity shared (remaining + 1) reader.cursor = [] := by
    simp only [batchFrames, if_pos h.1.1, readFrame_odd h]
  obtain ⟨hcount, -, -, -, herror⟩ :=
    pollBatch_eq capacity shared reader (remaining + 1) messagesOut
  have hnone := herror hframes hmax
  rw [if_pos h.1.1, batchError, readFrame_odd h] at hnone
  rw [hframes] at hcount
  simp [Batch.result, hnone, hcount]

/-- In a ring that has not wrapped around yet, every frame below `commit_cursor` has an even
version word. The frames follow each other from position 0 on. -/
def FramesEven (capacity : UInt64) (shared : Shared) : Prop :=
  shared.header.producerCursor ≤ capacity ∧
    ∀ index, (∀ earlier ≤ index,
        framePosition capacity shared.data 0 earlier < shared.header.commitCursor) →
      loadVersion capacity shared.data
        (frameAddress capacity (framePosition capacity shared.data 0 index)) &&& 1 = 0

/-- A frame whose payload begins with an odd word. -/
def oddPayload : List Event :=
  [.reserve 8 7 0, .writePayload [1, 0, 0, 0, 0, 0, 0, 0], .commit]

/-- A reader whose cursor is in the payload of a finished frame finds an odd word there. -/
theorem spins_inside_payload : ¬ ∀ state, (ring onePage).Reachable (fun _ _ => True) state →
    FramesEven onePage.capacity state.shared →
    ∀ reader maxMessages messagesOut clock clocks, 1 ≤ maxMessages →
      AgreesWithRounds onePage.capacity state.shared reader maxMessages messagesOut clock
        clocks := by
  intro hagrees
  obtain ⟨state, hreach, hgood⟩ := System.exists_reachable_of_replay (ring onePage)
    (fun _ _ => True) (created 0) oddPayload
    (fun state => state.shared.header.commitCursor == 32 &&
      state.shared.header.producerCursor == 32 &&
      loadVersion onePage.capacity state.shared.data 0 == 2 &&
      loadLength onePage.capacity state.shared.data 0 == 8 &&
      loadVersion onePage.capacity state.shared.data 24 == 1)
    (.init ⟨0, rfl⟩) (by decide +kernel)
  simp only [Bool.and_eq_true, beq_iff_eq] at hgood
  obtain ⟨⟨⟨⟨hcommit, hproducer⟩, hversion⟩, hlength⟩, hodd⟩ := hgood
  have heven : FramesEven onePage.capacity state.shared := by
    refine ⟨by rw [hproducer]; decide, fun index hbelow => ?_⟩
    cases index with
    | zero => exact congrArg (· &&& 1) hversion
    | succ index =>
        -- the frame ends at `commit_cursor`
        have hnext := hbelow 1 (Nat.le_add_left 1 index)
        have hend : framePosition onePage.capacity state.shared.data 0 1 = 32 := by
          show 0 + (totalFrameSize (loadLength onePage.capacity state.shared.data 0)).toUInt64 = 32
          rw [hlength]
          rfl
        rw [hend, hcommit] at hnext
        exact absurd hnext (UInt64.lt_irrefl _)
  have hspins : OddAt onePage.capacity state.shared 24 := by
    refine ⟨⟨by rw [hcommit]; decide, by rw [hproducer]; decide⟩, fun hzero => ?_⟩
    rw [show frameAddress onePage.capacity 24 = 24 from rfl, hodd] at hzero
    exact absurd hzero (by decide)
  obtain ⟨messages, failure, final, hrounds, -⟩ :=
    hagrees state hreach heven { cursor := 24 } 1 [] 0 (fun _ => 0) (Nat.le_refl 1)
  rw [copyRounds, (polls_differ_at_odd [] hspins (Nat.le_refl 1)).1] at hrounds
  cases hrounds

end HotPath.SharedMemory
