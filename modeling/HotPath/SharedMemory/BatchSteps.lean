import HotPath.SharedMemory.Overtaking
import HotPath.SharedMemory.RosterSteps
import HotPath.SharedMemory.SlotOwnership
import Mathlib.Algebra.BigOperators.Group.List.Basic

/-!
# Single loads of `PollCopyBatch`

`PollCopyBatch` with every load of shared memory as one step, next to the producer of
`ProducerSteps`. Each message is written into its entry of the output vector field by field, and
its payload byte by byte. The call ends with the accesses of `Advance`.

The size of a frame is computed from a load of the length field that follows the closing load of
the version word. A producer that overtakes the copy can have stored another length there by then
(`overtaken_length`). `batch_advances` says that otherwise the reader's cursor grows by the sizes of
the returned messages, which are those of published frames that follow each other, and comes to the
boundary of the next frame.
-/

namespace HotPath.SharedMemory.Access

open HotPath.Foundation

/-- The program points of `PollCopyBatch`, named by the load that comes next. The loads of a frame
carry `retry_count`. -/
inductive BatchPc where
  | idle
  | loadCommit
  | loadProducer (retries : Nat)
  | loadVersionBefore (retries : Nat)
  | loadLength (retries : Nat) (version : UInt32)
  | loadType (retries : Nat) (version length : UInt32)
  | loadTimestamp (retries : Nat) (version length : UInt32)
  | copyPayload (retries : Nat) (version length : UInt32)
  | loadVersionAfter (retries : Nat) (version : UInt32)
  | loadTotalFrameSize
  | advance
  | returned (result : Except Status Nat)

/-- A call of `PollCopyBatch`: its reader, its parameters, its locals and its program point. -/
structure BatchCall where
  client : Client := {}
  maxMessages : Nat := 0
  messagesOut : List SafeMessage := []
  commit : UInt64 := 0
  current : UInt64 := 0
  messagesRead : Nat := 0
  totalBytesAdvanced : UInt64 := 0
  pc : BatchPc := .idle

/-- Go on to another program point. -/
def BatchCall.goto (call : BatchCall) (pc : BatchPc) : BatchCall := { call with pc }

/-- `batch_done`: advance over what was read, or fail with the status. -/
def BatchCall.finish (call : BatchCall) (failure : Status) : BatchCall :=
  if call.messagesRead > 0 then
    { call with client := call.client.advance call.totalBytesAdvanced, pc := .advance }
  else
    call.goto (.returned (.error failure))

/-- The test of the batch loop. -/
def BatchCall.loop (call : BatchCall) : BatchCall :=
  if call.messagesRead < call.maxMessages ∧ call.current < call.commit then
    call.goto (.loadProducer 0)
  else
    call.finish ⟨.notFound, "No data"⟩

/-- The entry of the current message is there. -/
def BatchCall.emplace (call : BatchCall) : BatchCall :=
  if call.messagesOut.length ≤ call.messagesRead then
    { call with messagesOut := call.messagesOut ++ [⟨0, 0, []⟩] }
  else
    call

/-- Write to the entry of the current message. -/
def BatchCall.modify (call : BatchCall) (change : SafeMessage → SafeMessage) : BatchCall :=
  { call with messagesOut := call.messagesOut.modify call.messagesRead change }

/-- The next access of the call. -/
def BatchCall.load (capacity : UInt64) (clock : Int) (shared : Shared) (call : BatchCall) :
    Option (Shared × BatchCall) :=
  let frame := frameAddress capacity call.current
  match call.pc with
  | .idle | .returned _ => none
  | .loadCommit =>
      let commit := shared.header.commitCursor
      if call.client.reader.cursor ≥ commit then
        some (shared, call.goto (.returned (.error ⟨.notFound, "No data"⟩)))
      else
        some (shared, { call with
          commit
          current := call.client.reader.cursor
          messagesRead := 0
          totalBytesAdvanced := 0 }.loop)
  | .loadProducer retries =>
      if shared.header.producerCursor - call.current > capacity then
        some (shared, call.finish ⟨.resourceExhausted, "Consumer was evicted and lapped"⟩)
      else
        some (shared, call.goto (.loadVersionBefore retries))
  | .loadVersionBefore retries =>
      let version := loadVersion capacity shared.data frame
      if version &&& 1 ≠ 0 then
        -- The retry loop is left, and the batch loop with it.
        if retries + 1 > kMaxRetries then some (shared, call.finish ⟨.notFound, "No data"⟩)
        else some (shared, call.goto (.loadProducer (retries + 1)))
      else
        some (shared, call.goto (.loadLength retries version))
  | .loadLength retries version =>
      let length := loadLength capacity shared.data frame
      if length.toUInt64 > capacity then
        some (shared, call.finish ⟨.dataLoss, "Corrupt frame length detected"⟩)
      else
        some (shared, call.emplace.goto (.loadType retries version length))
  | .loadType retries version length =>
      let type := loadType capacity shared.data frame
      some (shared, (call.modify fun message => { message with type }).goto
        (.loadTimestamp retries version length))
  -- `payload.assign` begins with the next access.
  | .loadTimestamp retries version length =>
      let timestamp := loadTimestamp capacity shared.data frame
      some (shared, (call.modify fun message => { message with timestamp, payload := [] }).goto
        (.copyPayload retries version length))
  | .copyPayload retries version length =>
      let copied := ((call.messagesOut[call.messagesRead]?).map fun message =>
        message.payload.length).getD 0
      if copied < length.toNat then
        let byte := byteAt capacity.toNat shared.data (frame + kFrameHeaderSize + copied)
        some (shared, call.modify fun message =>
          { message with payload := message.payload ++ [byte] })
      else
        some (shared, call.goto (.loadVersionAfter retries version))
  | .loadVersionAfter retries version =>
      if version = loadVersion capacity shared.data frame then
        some (shared, call.goto .loadTotalFrameSize)
      else
        -- This retry is counted but not bounded.
        some (shared, call.goto (.loadProducer (retries + 1)))
  | .loadTotalFrameSize =>
      -- `frame->TotalFrameSize()` loads the length field once more.
      let size := (totalFrameSize (loadLength capacity shared.data frame)).toUInt64
      some (shared, { call with
        current := call.current + size
        totalBytesAdvanced := call.totalBytesAdvanced + size
        messagesRead := call.messagesRead + 1 }.loop)
  | .advance =>
      match call.client.access clock shared with
      | some (shared, client) => some (shared, { call with client })
      | none => some (shared, call.goto (.returned (.ok call.messagesRead)))

/-! ## The system -/

/-- The producer with one consumer that polls batches. -/
structure Batching where
  machine : Machine
  call : BatchCall

/-- The producer's steps, the calls of `PollCopyBatch` and their accesses. -/
inductive BatchEvent where
  | producer (event : Event)
  | pollCopyBatch (reader : BroadcastReader) (maxMessages : Nat) (messagesOut : List SafeMessage)
  | load

/-- The consumer has no call open. -/
def BatchCall.ready (call : BatchCall) : Bool :=
  match call.pc with
  | .idle | .returned _ => true
  | _ => false

/-- One step. A call starts with any handle and any contents of the output vector. -/
def batchStep (cfg : Config) (batching : Batching) : BatchEvent → Option Batching
  | .producer event =>
      (step cfg batching.machine event).map fun machine => { batching with machine }
  | .pollCopyBatch reader maxMessages messagesOut =>
      if batching.call.ready then
        some { batching with
          call := { client := { reader }, maxMessages, messagesOut, pc := .loadCommit } }
      else none
  | .load =>
      (batching.call.load cfg.capacity batching.machine.clock batching.machine.shared).map
        fun result => { machine := { batching.machine with shared := result.1 }, call := result.2 }

/-- The producer and a consumer that polls batches as a transition system. -/
def batching (cfg : Config) : System Batching BatchEvent where
  init batching := ∃ clock, batching = ⟨created cfg clock, {}⟩
  step := batchStep cfg

/-- The recorded steps of the producer, and the cursor with which the last call began. -/
structure BatchHistory where
  watched : Watched := {}
  start : UInt64 := 0

/-- The recorder of what the producer has published, of its overtaking of the frame that is being
copied, and of the cursor with which the last call began. -/
def batchHistory (cfg : Config) : Recorder Batching BatchEvent BatchHistory where
  start _ := {}
  observe batching event next history :=
    match event, batching.call.pc with
    | .producer event, _ =>
        { history with
          watched := history.watched.produce cfg batching.machine next.machine event
            batching.call.current.toNat }
    | .pollCopyBatch reader _ _, _ => { history with start := reader.cursor }
    | .load, .loadProducer _ =>
        { history with
          watched :=
            history.watched.check cfg batching.machine.shared batching.call.current.toNat }
    | _, _ => history

/-! ## What the cursor grows by -/

/-- The size of the frame of a message. -/
def messageBytes (message : SafeMessage) : Nat :=
  kFrameHeaderSize + (message.payload.length + 7) / 8 * 8

/-- The size of the frames of several messages. -/
def batchBytes (messages : List SafeMessage) : Nat :=
  (messages.map messageBytes).sum

/-- Published frames that follow each other from `start` to `stop` carry the messages. -/
def FramesBetween (frames : List (Nat × SafeMessage)) (stop : Nat) : Nat → List SafeMessage → Prop
  | start, [] => start = stop
  | start, message :: rest =>
      (start, message) ∈ frames ∧ FramesBetween frames stop (start + messageBytes message) rest

/-- The reader has advanced by the sizes of the first `count` messages. It stands at the frame
boundary that follows the last of the published frames which these messages are. -/
structure AdvancedOver (history : BatchHistory) (call : BatchCall) (count : Nat) : Prop where
  le : count ≤ call.messagesOut.length
  grown : call.client.reader.cursor =
    history.start + UInt64.ofNat (batchBytes (call.messagesOut.take count))
  frames : FramesBetween history.watched.published.frames call.client.reader.cursor.toNat
    history.start.toNat (call.messagesOut.take count)
  boundary : call.client.reader.cursor.toNat ∈ history.watched.published.cuts

/-- In every run whose steps meet `allow`, a call that returns messages has advanced its reader
over them. -/
def AdvancesByBatch (cfg : Config) (allow : Batching × BatchHistory → BatchEvent → Prop) : Prop :=
  ∀ pair, ((batching cfg).withHistory (batchHistory cfg)).Reachable allow pair →
    ∀ count, pair.1.call.pc = .returned (.ok count) → AdvancedOver pair.2 pair.1.call count

/-- The producer closes its reservations, the reader's cursor is a frame boundary, and when the
size of a frame is computed the producer has not overtaken its copy since the last lap check. -/
def SizesFrames (cfg : Config) (pair : Batching × BatchHistory) : BatchEvent → Prop
  | .producer event => Closes cfg (pair.1.machine, pair.2.watched.published) event
  | .pollCopyBatch reader _ _ => reader.cursor.toNat ∈ pair.2.watched.published.cuts
  | .load => pair.1.call.pc = .loadTotalFrameSize → pair.2.watched.overtaken = false

/-! ## The invariant -/

/-- What the call has accumulated: the reader has not moved, and the messages that were read are
those of the frames up to the current position, whose sizes add up to the total. -/
structure Accumulated (history : BatchHistory) (commitCursor : UInt64) (call : BatchCall) :
    Prop where
  cursor : call.client.reader.cursor = history.start
  count : call.messagesRead ≤ call.messagesOut.length
  total : call.totalBytesAdvanced =
    UInt64.ofNat (batchBytes (call.messagesOut.take call.messagesRead))
  current : call.current = history.start + call.totalBytesAdvanced
  frames : FramesBetween history.watched.published.frames call.current.toNat history.start.toNat
    (call.messagesOut.take call.messagesRead)
  boundary : call.current.toNat ∈ history.watched.published.cuts
  commit : call.commit ≤ commitCursor

/-- The call has come to another frame below the commit cursor. -/
structure AtFrame (history : BatchHistory) (commitCursor : UInt64) (call : BatchCall) : Prop
    extends Accumulated history commitCursor call where
  below : call.current < call.commit

/-- As long as the current frame has not been overtaken, its published message and the entry that
it is copied to are related. -/
def EntryAgrees (cfg : Config) (history : BatchHistory) (call : BatchCall)
    (loaded : SafeMessage → SafeMessage → Prop) : Prop :=
  ∃ entry, call.messagesOut[call.messagesRead]? = some entry ∧
    Agrees cfg history.watched.published call.current (loaded entry)

/-- What holds of a call at each program point. -/
def BatchInv (cfg : Config) (history : BatchHistory) (commitCursor : UInt64) (call : BatchCall) :
    BatchPc → Prop
  | .idle | .returned (.error _) => True
  | .loadCommit => call.client.reader.cursor = history.start ∧
      history.start.toNat ∈ history.watched.published.cuts
  | .loadProducer _ | .loadVersionBefore _ | .loadLength _ _ => AtFrame history commitCursor call
  | .loadType _ _ length => AtFrame history commitCursor call ∧
      EntryAgrees cfg history call fun _ message => message.header.length = length
  | .loadTimestamp _ _ length => AtFrame history commitCursor call ∧
      EntryAgrees cfg history call fun entry message =>
        message.header.length = length ∧ entry.type = message.type
  | .copyPayload _ _ length => AtFrame history commitCursor call ∧
      EntryAgrees cfg history call fun entry message => PartCopied entry length message
  | .loadVersionAfter _ _ | .loadTotalFrameSize => AtFrame history commitCursor call ∧
      EntryAgrees cfg history call fun entry message => entry = message
  | .advance => AdvancedOver history call call.messagesRead
  | .returned (.ok count) => AdvancedOver history call count

section Frames

variable {frames later : List (Nat × SafeMessage)} {start stop : Nat} {messages : List SafeMessage}
  {message : SafeMessage}

theorem FramesBetween.mono (h : FramesBetween frames stop start messages)
    (hmore : ∀ frame ∈ frames, frame ∈ later) : FramesBetween later stop start messages := by
  induction messages generalizing start with
  | nil => exact h
  | cons message rest ih => exact ⟨hmore _ h.1, ih h.2⟩

/-- Another frame follows at the end. -/
theorem FramesBetween.append (h : FramesBetween frames stop start messages)
    (hmem : (stop, message) ∈ frames) :
    FramesBetween frames (stop + messageBytes message) start (messages ++ [message]) := by
  induction messages generalizing start with
  | nil =>
      obtain rfl : start = stop := h
      exact ⟨hmem, rfl⟩
  | cons first rest ih => exact ⟨h.1, ih h.2⟩

/-- A walker advances over a published frame by the size of its message. -/
theorem frameBytes_eq_messageBytes {cfg : Config} (h : Admitted cfg message) :
    frameBytes message = messageBytes message := by
  have hlength := h.length_toNat
  have hsize := h.size
  rw [frameBytes, requiredSpace_toNat, alignedPayloadSize_toNat (by omega), hlength]
  rfl

end Frames

section Calls

variable {cfg : Config} {history later : BatchHistory} {commitCursor commitCursor' : UInt64}
  {call next : BatchCall}

/-- A call with the same accumulated fields. -/
theorem Accumulated.goto (h : Accumulated history commitCursor call) (pc : BatchPc) :
    Accumulated history commitCursor (call.goto pc) :=
  ⟨h.cursor, h.count, h.total, h.current, h.frames, h.boundary, h.commit⟩

theorem AtFrame.goto (h : AtFrame history commitCursor call) (pc : BatchPc) :
    AtFrame history commitCursor (call.goto pc) :=
  ⟨h.toAccumulated.goto pc, h.below⟩

/-- Writing to the entry of the current message leaves the messages that were read. -/
theorem AtFrame.modify (h : AtFrame history commitCursor call)
    (change : SafeMessage → SafeMessage) :
    AtFrame history commitCursor (call.modify change) := by
  have htake : (call.messagesOut.modify call.messagesRead change).take call.messagesRead =
      call.messagesOut.take call.messagesRead := by
    apply List.ext_getElem?
    intro index
    by_cases hlt : index < call.messagesRead
    · simp [hlt, Nat.ne_of_gt hlt]
    · simp [hlt]
  refine ⟨⟨h.cursor, ?_, ?_, h.current, ?_, h.boundary, h.commit⟩, h.below⟩
  · simpa [BatchCall.modify] using h.count
  · simpa [BatchCall.modify, htake] using h.total
  · simpa [BatchCall.modify, htake] using h.frames

/-- What has been written to the entry of the current message. -/
theorem EntryAgrees.modify {loaded : SafeMessage → SafeMessage → Prop}
    {change : SafeMessage → SafeMessage} {entry : SafeMessage}
    (hentry : call.messagesOut[call.messagesRead]? = some entry)
    (h : Agrees cfg history.watched.published call.current (loaded (change entry))) :
    EntryAgrees cfg history (call.modify change) loaded := by
  refine ⟨change entry, ?_, h⟩
  simp [BatchCall.modify, hentry]

/-- The entry of the current message is there after `emplace_back`. -/
theorem AtFrame.emplace (h : AtFrame history commitCursor call) :
    AtFrame history commitCursor call.emplace ∧
      ∃ entry, call.emplace.messagesOut[call.emplace.messagesRead]? = some entry := by
  unfold BatchCall.emplace
  split
  · next hfull =>
      have hlength : call.messagesRead = call.messagesOut.length := Nat.le_antisymm h.count hfull
      have htake : ∀ entry, (call.messagesOut ++ [entry]).take call.messagesRead =
          call.messagesOut.take call.messagesRead := by simp [hlength]
      refine ⟨⟨⟨h.cursor, ?_, ?_, h.current, ?_, h.boundary, h.commit⟩, h.below⟩, ⟨0, 0, []⟩, ?_⟩
      · simp [hlength]
      · rw [htake]
        exact h.total
      · rw [htake]
        exact h.frames
      · simp [hlength]
  · next hmore => exact ⟨h, _, List.getElem?_eq_getElem (Nat.lt_of_not_le hmore)⟩

/-- A call that ends advances its reader over what it has read. -/
theorem BatchInv.finish (h : Accumulated history commitCursor call) (failure : Status) :
    BatchInv cfg history commitCursor (call.finish failure) (call.finish failure).pc := by
  unfold BatchCall.finish
  split
  · have hcursor : (call.client.advance call.totalBytesAdvanced).reader.cursor = call.current := by
      rw [h.current, ← h.cursor]
      simp only [Client.advance]
      split
      · rfl
      · rfl
    refine ⟨h.count, ?_, ?_, ?_⟩
    · rw [hcursor, h.current, h.total]
    · rw [hcursor]
      exact h.frames
    · rw [hcursor]
      exact h.boundary
  · trivial

theorem BatchInv.loop (h : Accumulated history commitCursor call) :
    BatchInv cfg history commitCursor call.loop call.loop.pc := by
  unfold BatchCall.loop
  split
  · next hmore =>
      exact ⟨⟨h.cursor, h.count, h.total, h.current, h.frames, h.boundary, h.commit⟩, hmore.2⟩
  · exact .finish h _

theorem AdvancedOver.grow {count : Nat} (h : AdvancedOver history call count)
    (hstart : later.start = history.start)
    (hgrows : history.watched.published.Grows later.watched.published) :
    AdvancedOver later call count := by
  refine ⟨h.le, ?_, ?_, hgrows.cuts _ h.boundary⟩
  · rw [hstart]
    exact h.grown
  · rw [hstart]
    exact h.frames.mono hgrows.frames

theorem AtFrame.grow (h : AtFrame history commitCursor call) (hstart : later.start = history.start)
    (hgrows : history.watched.published.Grows later.watched.published)
    (hcommit : commitCursor ≤ commitCursor') : AtFrame later commitCursor' call := by
  refine ⟨⟨?_, h.count, h.total, ?_, ?_, hgrows.cuts _ h.boundary,
    UInt64.le_trans h.commit hcommit⟩, h.below⟩
  · rw [hstart]
    exact h.cursor
  · rw [hstart]
    exact h.current
  · rw [hstart]
    exact h.frames.mono hgrows.frames

theorem EntryAgrees.grow {loaded : SafeMessage → SafeMessage → Prop}
    (h : EntryAgrees cfg history call loaded)
    (hgrows : history.watched.published.Grows later.watched.published) :
    EntryAgrees cfg later call loaded := by
  obtain ⟨entry, hentry, hagrees⟩ := h
  exact ⟨entry, hentry, hagrees.grow hgrows⟩

/-- A call keeps its invariant while the producer runs. -/
theorem BatchInv.grow {pc : BatchPc} (h : BatchInv cfg history commitCursor call pc)
    (hstart : later.start = history.start)
    (hgrows : history.watched.published.Grows later.watched.published)
    (hcommit : commitCursor ≤ commitCursor') : BatchInv cfg later commitCursor' call pc := by
  cases pc with
  | idle => trivial
  | loadCommit => exact ⟨hstart ▸ h.1, hstart ▸ hgrows.cuts _ h.2⟩
  | loadProducer | loadVersionBefore | loadLength => exact AtFrame.grow h hstart hgrows hcommit
  | loadType | loadTimestamp | copyPayload | loadVersionAfter | loadTotalFrameSize =>
      exact ⟨h.1.grow hstart hgrows hcommit, h.2.grow hgrows⟩
  | advance => exact AdvancedOver.grow h hstart hgrows
  | returned result =>
      cases result with
      | error => trivial
      | ok => exact AdvancedOver.grow h hstart hgrows

end Calls

/-! ## The loads -/

/-- The loads of a frame, which follow the lap check. -/
def BatchPc.checked : BatchPc → Bool
  | .loadVersionBefore _ | .loadLength _ _ | .loadType _ _ _ | .loadTimestamp _ _ _
  | .copyPayload _ _ _ | .loadVersionAfter _ _ | .loadTotalFrameSize => true
  | _ => false

section Loads

variable {cfg : Config} {history : BatchHistory} {call next : BatchCall} {clock : Int}
  {shared shared' : Shared} {process : Option Process}

/-- A frame that is retained below the commit cursor adds its message and its size. -/
theorem AtFrame.read {before : Stream} {message : SafeMessage}
    (h : AtFrame history before.commitCursor call)
    (hinv : Inv cfg before history.watched.published process)
    (hmem : (call.current.toNat, message) ∈ history.watched.published.frames)
    (hretained : history.watched.published.frontier ≤ call.current.toNat + cfg.capacity.toNat)
    (hentry : call.messagesOut[call.messagesRead]? = some message) :
    Accumulated history before.commitCursor { call with
      current := call.current +
        (totalFrameSize (loadLength cfg.capacity before.data call.current.toNat)).toUInt64
      totalBytesAdvanced := call.totalBytesAdvanced +
        (totalFrameSize (loadLength cfg.capacity before.data call.current.toNat)).toUInt64
      messagesRead := call.messagesRead + 1 } := by
  have hframe := hinv.retained.stored _ message hmem hretained
  have hwalk := hframe.walk
  have hbelow := hframe.below
  have hends := hframe.ends
  rw [frameBytes_eq_messageBytes hframe.admitted] at hwalk hbelow hends
  generalize totalFrameSize (loadLength cfg.capacity before.data call.current.toNat) = size at *
  have hsize : size.toUInt64 = UInt64.ofNat (messageBytes message) := by
    rw [← hwalk]
    exact (UInt64.toNat_inj.mp (by simp)).symm
  have hnext : (call.current + size.toUInt64).toNat =
      call.current.toNat + messageBytes message := by
    have hlt := before.commitCursor.toNat_lt
    rw [UInt64.toNat_add, UInt32.toNat_toUInt64, hwalk]
    exact Nat.mod_eq_of_lt (by omega)
  have htake : call.messagesOut.take (call.messagesRead + 1) =
      call.messagesOut.take call.messagesRead ++ [message] := by
    rw [List.take_add_one, hentry]
    rfl
  exact {
    cursor := h.cursor
    count := (List.getElem?_eq_some_iff.mp hentry).1
    total := by
      dsimp only
      rw [htake, h.total, hsize, ← UInt64.ofNat_add]
      simp [batchBytes]
    current := by
      dsimp only
      rw [h.current, UInt64.add_assoc]
    frames := by
      dsimp only
      rw [htake, hnext]
      exact h.frames.append hmem
    boundary := by
      dsimp only
      rw [hnext]
      exact hends
    commit := h.commit }

/-- An access of the roster leaves the local cursor and the stream. -/
theorem Client.access_keeps {client client' : Client}
    (h : client.access clock shared = some (shared', client')) :
    client'.reader.cursor = client.reader.cursor ∧ stream shared' = stream shared := by
  cases client.access_cases h <;> exact ⟨rfl, rfl⟩

/-- The accesses of a call leave the stream. -/
theorem load_stream (h : call.load cfg.capacity clock shared = some (shared', next)) :
    stream shared' = stream shared := by
  unfold BatchCall.load at h
  cases hpc : call.pc with
  | advance =>
      simp only [hpc] at h
      split at h
      · next client haccess =>
          cases h
          exact (Client.access_keeps haccess).2
      · cases h
        rfl
  | _ =>
      simp only [hpc] at h
      first
        | cases h
          rfl
        | split at h
          · first
              | cases h
                rfl
              | split at h <;> cases h <;> rfl
          · cases h
            rfl
        | cases h

/-- The batch begins at the reader's cursor. -/
theorem BatchInv.load_commit (h : BatchInv cfg history shared.header.commitCursor call call.pc)
    (hpc : call.pc = .loadCommit)
    (hload : call.load cfg.capacity clock shared = some (shared', next)) :
    BatchInv cfg history shared.header.commitCursor next next.pc := by
  rw [hpc] at h
  simp only [BatchCall.load, hpc] at hload
  split at hload
  · cases hload
    trivial
  · cases hload
    obtain ⟨hcursor, hboundary⟩ := h
    refine .loop ⟨hcursor, Nat.zero_le _, by simp [batchBytes], ?_, ?_, ?_, UInt64.le_refl _⟩
    · simpa using hcursor
    · exact congrArg UInt64.toNat hcursor.symm
    · rw [hcursor]
      exact hboundary

/-- The length is that of the published frame. -/
theorem BatchInv.load_length (hinv : Inv cfg (stream shared) history.watched.published process)
    (h : BatchInv cfg history shared.header.commitCursor call call.pc) {retries : Nat}
    {version : UInt32} (hpc : call.pc = .loadLength retries version)
    (hload : call.load cfg.capacity clock shared = some (shared', next)) :
    BatchInv cfg history shared.header.commitCursor next next.pc := by
  rw [hpc] at h
  simp only [BatchCall.load, frameAddress_eq, hpc] at hload
  split at hload
  · cases hload
    exact .finish h.toAccumulated _
  · cases hload
    obtain ⟨hframe, entry, hentry⟩ := h.emplace
    have hagrees := (hinv.agrees h.boundary (UInt64.lt_of_lt_of_le h.below h.commit)).load hinv
      fun message _ hstored _ => hstored.header.length.symm
    rw [← loadLength_mod] at hagrees
    refine ⟨hframe.goto _, entry, hentry, ?_⟩
    have hcurrent : call.emplace.current = call.current := by
      unfold BatchCall.emplace
      split <;> rfl
    show Agrees cfg _ call.emplace.current _
    rw [hcurrent]
    exact hagrees

/-- The type is that of the published frame. -/
theorem BatchInv.load_type (hinv : Inv cfg (stream shared) history.watched.published process)
    (h : BatchInv cfg history shared.header.commitCursor call call.pc) {retries : Nat}
    {version length : UInt32} (hpc : call.pc = .loadType retries version length)
    (hload : call.load cfg.capacity clock shared = some (shared', next)) :
    BatchInv cfg history shared.header.commitCursor next next.pc := by
  rw [hpc] at h
  simp only [BatchCall.load, frameAddress_eq, hpc] at hload
  cases hload
  obtain ⟨hframe, entry, hentry, hagrees⟩ := h
  refine ⟨(hframe.modify _).goto _, .modify hentry (hagrees.load hinv ?_)⟩
  intro message hlength hstored _
  rw [loadType_mod]
  exact ⟨hlength, hstored.header.type⟩

/-- The timestamp is that of the published frame. -/
theorem BatchInv.load_timestamp (hinv : Inv cfg (stream shared) history.watched.published process)
    (h : BatchInv cfg history shared.header.commitCursor call call.pc) {retries : Nat}
    {version length : UInt32} (hpc : call.pc = .loadTimestamp retries version length)
    (hload : call.load cfg.capacity clock shared = some (shared', next)) :
    BatchInv cfg history shared.header.commitCursor next next.pc := by
  rw [hpc] at h
  simp only [BatchCall.load, frameAddress_eq, hpc] at hload
  cases hload
  obtain ⟨hframe, entry, hentry, hagrees⟩ := h
  refine ⟨(hframe.modify _).goto _, .modify hentry (hagrees.load hinv ?_)⟩
  intro message ⟨hlength, htype⟩ hstored _
  rw [loadTimestamp_mod]
  exact ⟨hlength, htype, hstored.header.timestamp, message.payload, rfl⟩

/-- The next byte of the payload is that of the published frame, and the copy ends with the last
one. -/
theorem BatchInv.load_payload (hinv : Inv cfg (stream shared) history.watched.published process)
    (h : BatchInv cfg history shared.header.commitCursor call call.pc) {retries : Nat}
    {version length : UInt32} (hpc : call.pc = .copyPayload retries version length)
    (hload : call.load cfg.capacity clock shared = some (shared', next)) :
    BatchInv cfg history shared.header.commitCursor next next.pc := by
  rw [hpc] at h
  obtain ⟨hframe, entry, hentry, hagrees⟩ := h
  simp only [BatchCall.load, frameAddress_eq, hpc, hentry, Option.map_some, Option.getD_some]
    at hload
  split at hload
  · next hmore =>
      cases hload
      change BatchInv cfg history _ _ call.pc
      rw [hpc]
      refine ⟨hframe.modify _, .modify hentry (hagrees.load hinv ?_)⟩
      intro message hcopied hstored hadmitted
      rw [Nat.add_assoc, byteAt_mod_add, ← Nat.add_assoc]
      exact hcopied.append hadmitted hstored hmore
  · next hall =>
      cases hload
      exact ⟨hframe.goto _, entry, hentry, hagrees.load hinv fun message hcopied _ hadmitted =>
        hcopied.complete hadmitted hall⟩

/-- The frame that was copied adds its size, as long as it has not been overtaken. -/
theorem BatchInv.load_size (hinv : Inv cfg (stream shared) history.watched.published process)
    (h : BatchInv cfg history shared.header.commitCursor call call.pc)
    (hretained : history.watched.published.frontier ≤ call.current.toNat + cfg.capacity.toNat)
    (hpc : call.pc = .loadTotalFrameSize)
    (hload : call.load cfg.capacity clock shared = some (shared', next)) :
    BatchInv cfg history shared.header.commitCursor next next.pc := by
  rw [hpc] at h
  simp only [BatchCall.load, frameAddress_eq, hpc, loadLength_mod] at hload
  cases hload
  obtain ⟨hframe, entry, hentry, hagrees⟩ := h
  obtain ⟨message, hmem, rfl⟩ := hagrees hretained
  have hread := hframe.read hinv hmem hretained hentry
  rw [hpc] at hread
  exact .loop hread

/-- A load keeps the invariant of its call, if its frame has not been overtaken when its size is
computed. -/
theorem BatchInv.load (hinv : Inv cfg (stream shared) history.watched.published process)
    (h : BatchInv cfg history shared.header.commitCursor call call.pc)
    (hclear : call.pc = .loadTotalFrameSize → history.watched.published.frontier ≤
      call.current.toNat + cfg.capacity.toNat)
    (hload : call.load cfg.capacity clock shared = some (shared', next)) :
    BatchInv cfg history shared.header.commitCursor next next.pc := by
  cases hpc : call.pc with
  | idle | returned => simp [BatchCall.load, hpc] at hload
  | loadCommit => exact h.load_commit hpc hload
  | loadProducer retries =>
      rw [hpc] at h
      simp only [BatchCall.load, hpc] at hload
      split at hload
      · cases hload
        exact .finish h.toAccumulated _
      · cases hload
        exact h.goto _
  | loadVersionBefore retries =>
      rw [hpc] at h
      simp only [BatchCall.load, hpc] at hload
      split at hload
      · split at hload
        · cases hload
          exact .finish h.toAccumulated _
        · cases hload
          exact h.goto _
      · cases hload
        exact h.goto _
  | loadLength => exact .load_length hinv h hpc hload
  | loadType => exact .load_type hinv h hpc hload
  | loadTimestamp => exact .load_timestamp hinv h hpc hload
  | copyPayload => exact .load_payload hinv h hpc hload
  | loadVersionAfter retries version =>
      rw [hpc] at h
      simp only [BatchCall.load, hpc] at hload
      split at hload
      · cases hload
        exact ⟨h.1.goto _, h.2⟩
      · cases hload
        exact h.1.goto _
  | loadTotalFrameSize => exact .load_size hinv h (hclear hpc) hpc hload
  | advance =>
      rw [hpc] at h
      simp only [BatchCall.load, hpc] at hload
      split at hload
      · next client haccess =>
          cases hload
          have hcursor := (Client.access_keeps haccess).1
          exact ⟨h.le, hcursor ▸ h.grown, hcursor ▸ h.frames, hcursor ▸ h.boundary⟩
      · cases hload
        exact ⟨h.le, h.grown, h.frames, h.boundary⟩

theorem checked_finish (call : BatchCall) (failure : Status) :
    (call.finish failure).pc.checked = false := by
  unfold BatchCall.finish
  split <;> rfl

theorem checked_loop (call : BatchCall) : call.loop.pc.checked = false := by
  unfold BatchCall.loop
  split
  · rfl
  · exact checked_finish _ _

/-- A load comes to the loads of a frame by the lap check only, and stays at its position. -/
theorem batch_checked (h : call.load cfg.capacity clock shared = some (shared', next))
    (hchecked : next.pc.checked = true) : next.current = call.current ∧
      (call.pc.checked = true ∨ (∃ retries, call.pc = .loadProducer retries) ∧
        ¬ shared.header.producerCursor - call.current > cfg.capacity) := by
  unfold BatchCall.load at h
  cases hpc : call.pc with
  | idle | returned => simp [hpc] at h
  | loadCommit =>
      simp only [hpc] at h
      split at h
      · cases h
        cases hchecked
      · cases h
        rw [checked_loop] at hchecked
        cases hchecked
  | loadProducer retries =>
      simp only [hpc] at h
      split at h
      · cases h
        rw [checked_finish] at hchecked
        cases hchecked
      · next hpasses =>
          cases h
          exact ⟨rfl, .inr ⟨⟨retries, rfl⟩, hpasses⟩⟩
  | loadVersionBefore retries =>
      simp only [hpc] at h
      split at h
      · split at h
        · cases h
          rw [checked_finish] at hchecked
          cases hchecked
        · cases h
          cases hchecked
      · cases h
        exact ⟨rfl, .inl rfl⟩
  | loadLength retries version =>
      simp only [hpc] at h
      split at h
      · cases h
        rw [checked_finish] at hchecked
        cases hchecked
      · cases h
        refine ⟨?_, .inl rfl⟩
        simp only [BatchCall.goto, BatchCall.emplace]
        split <;> rfl
  | loadType | loadTimestamp =>
      simp only [hpc] at h
      cases h
      exact ⟨rfl, .inl rfl⟩
  | copyPayload | loadVersionAfter =>
      simp only [hpc] at h
      split at h
      · cases h
        exact ⟨rfl, .inl rfl⟩
      · cases h
        exact ⟨rfl, .inl rfl⟩
  | loadTotalFrameSize =>
      simp only [hpc] at h
      cases h
      rw [checked_loop] at hchecked
      cases hchecked
  | advance =>
      simp only [hpc] at h
      split at h
      · cases h
        cases hchecked
      · cases h
        cases hchecked

end Loads

/-! ## The system -/

/-- The invariant of the producer and a reader that polls batches. -/
structure BatchingInv (cfg : Config) (pair : Batching × BatchHistory) : Prop where
  producer : Inv cfg (stream pair.1.machine.shared) pair.2.watched.published pair.1.machine.process
  clear : pair.1.call.pc.checked = true → Clear cfg pair.2.watched pair.1.call.current.toNat
  call : BatchInv cfg pair.2 pair.1.machine.shared.header.commitCursor pair.1.call pair.1.call.pc

section Steps

variable {cfg : Config} {current next : Batching} {history : BatchHistory} {event : BatchEvent}

/-- A load leaves what is published and where the call began. -/
theorem observe_load_batch (cfg : Config) (current after : Batching) (history : BatchHistory) :
    ((batchHistory cfg).observe current .load after history).watched.published =
        history.watched.published ∧
      ((batchHistory cfg).observe current .load after history).start = history.start := by
  cases hat : current.call.pc <;> simp [batchHistory, hat, Watched.check]

/-- A load keeps the position of the copy clear, and the lap check makes it so. -/
theorem batch_clear {call : BatchCall} {shared : Shared} (hinv : BatchingInv cfg (current, history))
    (h : current.call.load cfg.capacity current.machine.clock current.machine.shared =
      some (shared, call))
    (hchecked : call.pc.checked = true) (after : Batching) :
    Clear cfg ((batchHistory cfg).observe current .load after history).watched
      call.current.toNat := by
  obtain ⟨hcurrent, hbefore⟩ := batch_checked h hchecked
  rw [hcurrent]
  rcases hbefore with hchecked | ⟨⟨retries, hat⟩, hpasses⟩
  · have hkeep : (batchHistory cfg).observe current .load after history = history := by
      cases hat : current.call.pc <;> simp_all [batchHistory, BatchPc.checked]
    rw [hkeep]
    exact hinv.clear hchecked
  · have hcheck : ((batchHistory cfg).observe current .load after history).watched =
        history.watched.check cfg current.machine.shared current.call.current.toNat := by
      simp only [batchHistory, hat]
    have hcall := hinv.call
    rw [hat] at hcall
    rw [hcheck]
    exact .check (hinv.producer.cuts.le _ hcall.boundary) hpasses

/-- One step keeps the invariant. -/
theorem batch_step_inv (hinv : BatchingInv cfg (current, history))
    (hallow : SizesFrames cfg (current, history) event)
    (h : batchStep cfg current event = some next) :
    BatchingInv cfg (next, (batchHistory cfg).observe current event next history) := by
  cases event with
  | producer event =>
      obtain ⟨machine, hstep, rfl⟩ := Option.map_eq_some_iff.mp h
      exact {
        producer := step_inv hinv.producer hallow hstep
        clear := fun hchecked => (hinv.clear hchecked).produce
        call := hinv.call.grow rfl (publication_grows cfg current.machine machine event _)
          (step_commit_le hinv.producer hstep) }
  | pollCopyBatch reader maxMessages messagesOut =>
      simp only [batchStep] at h
      split at h
      · obtain rfl := Option.some.inj h
        exact ⟨hinv.producer, nofun, rfl, hallow⟩
      · simp at h
  | load =>
      obtain ⟨⟨shared, call⟩, hload, rfl⟩ := Option.map_eq_some_iff.mp h
      have hstream := load_stream hload
      have hcommit : shared.header.commitCursor = current.machine.shared.header.commitCursor :=
        congrArg Stream.commitCursor hstream
      have hclear : current.call.pc = .loadTotalFrameSize → history.watched.published.frontier ≤
          current.call.current.toNat + cfg.capacity.toNat := fun hat =>
        hinv.clear (by rw [hat]; rfl) (hallow hat)
      have hcall := hinv.call.load hinv.producer hclear hload
      generalize hafter : ({ machine := { current.machine with shared }, call } : Batching) = after
      obtain ⟨hpublished, hstart⟩ := observe_load_batch cfg current after history
      subst hafter
      exact {
        producer := by
          rw [hpublished, hstream]
          exact hinv.producer
        clear := fun hchecked => batch_clear hinv hload hchecked _
        call := by
          rw [hcommit]
          refine hcall.grow hstart ?_ (UInt64.le_refl _)
          rw [hpublished]
          exact ⟨Nat.le_refl _, fun _ h => h, fun _ h => h⟩ }

/-- The invariant holds in every run in which sizes belong to the frames that were copied. -/
theorem reachable_batching {pair : Batching × BatchHistory}
    (h : ((batching cfg).withHistory (batchHistory cfg)).Reachable (SizesFrames cfg) pair) :
    BatchingInv cfg pair := by
  refine h.invariant (BatchingInv cfg) ?_ ?_
  · intro ⟨batching, history⟩ ⟨⟨clock, hbatching⟩, hhistory⟩
    obtain rfl : batching = ⟨created cfg clock, {}⟩ := hbatching
    obtain rfl : history = {} := hhistory
    exact ⟨created_inv cfg clock, nofun, trivial⟩
  · intro ⟨current, history⟩ event ⟨next, after⟩ hinv hallow hnext
    obtain ⟨hstep, hobserve⟩ := System.withHistory_step.mp hnext
    obtain rfl : after = (batchHistory cfg).observe current event next history := hobserve
    exact batch_step_inv hinv hallow hstep

end Steps

/-- A batch advances its reader over what it returned, to the boundary of the frame that follows,
if the producer does not overtake a copy between its lap check and the load of its frame size. -/
theorem batch_advances (cfg : Config) : AdvancesByBatch cfg (SizesFrames cfg) := by
  intro pair hreach count hreturned
  have hcall := (reachable_batching hreach).call
  rw [hreturned] at hcall
  exact hcall

/-! ## The overtaken length -/

/-- The calls of a producer that reserves, writes and commits one frame after the other, and of its
consumer. -/
def batchCycle (pair : Batching × BatchHistory) : BatchEvent → Bool
  | .producer (.reserve _ _) =>
      pair.1.machine.process.any fun process => process.grant.isNone
  | .producer .commit => pair.1.machine.process.any fun process => process.grant.isSome
  | .producer .crash | .producer (.attach _) => false
  | _ => true

/-- The reader copies a frame of 64 bytes and finds its version word unchanged. The producer then
fills the buffer and writes the header of a frame of 32 bytes over the one that was copied, before
the reader loads its length field again. -/
def overtakingLength : List BatchEvent :=
  List.flatten [
    [.producer (.reserve 40 1)], List.replicate 7 (.producer (.access 0)),
    [.producer .commit], List.replicate 3 (.producer (.access 0)),
    [.pollCopyBatch {} 1 []], List.replicate 48 .load,
    [.producer (.reserve 4008 1)], List.replicate 7 (.producer (.access 0)),
    [.producer .commit], List.replicate 3 (.producer (.access 0)),
    [.producer (.reserve 8 1)], List.replicate 22 (.producer (.access 0)),
    List.replicate 2 .load]

/-- The number of messages that a call has returned. -/
def BatchPc.returns : BatchPc → Option Nat
  | .returned (.ok count) => some count
  | _ => none

theorem BatchPc.eq_of_returns {pc : BatchPc} {count : Nat} (h : pc.returns = some count) :
    pc = .returned (.ok count) := by
  unfold BatchPc.returns at h
  split at h
  · rw [Option.some.inj h]
  · cases h

/-- The call returned one message of 64 bytes that it found at position 0, and left the cursor at
32. -/
def advancedShort (pair : Batching × BatchHistory) : Bool :=
  pair.1.call.pc.returns == some 1 && pair.1.call.client.reader.cursor == 32 &&
    pair.2.start == 0 && batchBytes (pair.1.call.messagesOut.take 1) == 64

/-- The reader has advanced by the size of the other frame. -/
theorem overtaken_length : ¬ AdvancesByBatch onePage fun pair event => batchCycle pair event := by
  intro hadvances
  obtain ⟨pair, hreach, hpair⟩ := System.exists_reachable_of_replay
    ((batching onePage).withHistory (batchHistory onePage))
    (fun pair event => batchCycle pair event = true) (⟨created onePage 0, {}⟩, {}) overtakingLength
    advancedShort (.init ⟨⟨_, rfl⟩, rfl⟩) (by decide +kernel)
  simp only [advancedShort, Bool.and_eq_true, beq_iff_eq] at hpair
  obtain ⟨⟨⟨hreturned, hcursor⟩, hstart⟩, hbytes⟩ := hpair
  have hgrown := (hadvances pair hreach 1 (BatchPc.eq_of_returns hreturned)).grown
  rw [hcursor, hstart, hbytes] at hgrown
  cases hgrown

end HotPath.SharedMemory.Access
