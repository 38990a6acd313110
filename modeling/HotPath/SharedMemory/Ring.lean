import HotPath.Foundation.Transition
import HotPath.SharedMemory.Layout
import Mathlib.Data.List.FinRange
import Mathlib.Logic.Function.Basic

/-!
# Whole calls of the broadcast ring buffer

`BroadcastRingBuffer` with every member function executed as one step: the producer's `Reserve`,
`Commit` and payload writes, and the consumers' `RegisterReader`, `UnregisterReader`,
`PollZeroCopy`, `PollCopy`, `PollCopyBatch` and `Advance`. A `Reserve` that has to wait for space
is the one exception: every pass of its scan loop is a step, and other calls may run between two
passes, since it is their progress that ends the wait.

The state holds the shared segments, the fields of the producer's object, the handles of an
unbounded family of consumers and the clock that `absl::Now` reads. Time stamp counter readings
are arguments of the events.
-/

namespace HotPath.SharedMemory

open HotPath.Foundation

/-- A consumer, by number. -/
abbrev ReaderId := Nat

/-- The parameters given to `Create`. The data segment is mapped with the magic mirror, which
asks for whole pages. -/
structure Config where
  capacity : UInt64
  evictTimeoutNs : Int
  pageAligned : capacity.toNat % 4096 = 0
  nonempty : 0 < capacity.toNat

/-- The contents of the two shared segments. -/
structure Shared where
  header : BroadcastHeader
  data : Nat → UInt8

/-- Replace a slot of the roster. -/
def Shared.setSlot (shared : Shared) (index : Fin kMaxReaders) (slot : ReaderSlot) : Shared :=
  { shared with
    header := { shared.header with readers := Function.update shared.header.readers index slot } }

/-- `BroadcastRingBuffer::Reservation`. -/
structure Reservation where
  claimedCursor : UInt64
  startOffset : UInt64
  totalFrameSize : UInt32
  deriving DecidableEq

/-- The locals of a `Reserve` call inside its `while (true)` loop. -/
structure PendingReserve where
  payloadSize : UInt32
  typeId : UInt32
  currentCursor : UInt64
  targetCursor : UInt64
  now : Int
  lastTsc : UInt64
  deriving DecidableEq

/-- What a successful `Reserve` hands to its caller: the address of the payload and the size that
was asked for. It is given up at `Commit`. -/
structure Grant where
  address : Nat
  payloadSize : UInt32
  deriving DecidableEq

/-- The producer's object. `current_reservation_` is not initialised before the first `Reserve`. -/
structure Producer where
  isProducer : Bool := true
  cachedMinCursor : UInt64 := 0
  currentReservation : Option Reservation := none
  pending : Option PendingReserve := none
  grant : Option Grant := none

/-- The state of a ring buffer with its producer and consumers. -/
structure State where
  shared : Shared
  producer : Producer
  readers : ReaderId → BroadcastReader
  clock : Int

/-! ## Producer calls -/

/-- The checks of `Reserve` that come before anything is read from shared memory. -/
def reserveError (cfg : Config) (producer : Producer) (payloadSize : UInt32) : Option Status :=
  if !producer.isProducer then
    some ⟨.permissionDenied, "Cannot write to read-only buffer"⟩
  else if requiredSpace payloadSize > cfg.capacity then
    some ⟨.invalidArgument,
      s!"Payload size {payloadSize} exceeds buffer capacity {cfg.capacity}"⟩
  else
    none

/-- One iteration of the scan over the roster: evict an expired reader, otherwise lower `min_c`
to its cursor. -/
def scanSlot (now evictTimeoutNs : Int) (acc : (Fin kMaxReaders → ReaderSlot) × UInt64)
    (index : Fin kMaxReaders) : (Fin kMaxReaders → ReaderSlot) × UInt64 :=
  let slot := acc.1 index
  if slot.active then
    -- `continue`: the cursor of an evicted reader does not count.
    if now - slot.heartbeatTs > evictTimeoutNs then
      (Function.update acc.1 index { slot with active := false }, acc.2)
    else if slot.cursor < acc.2 then
      (acc.1, slot.cursor)
    else
      acc
  else
    acc

/-- The scan over all slots, which starts from `min_c = target_cursor`. -/
def scanReaders (now evictTimeoutNs : Int) (readers : Fin kMaxReaders → ReaderSlot)
    (targetCursor : UInt64) : (Fin kMaxReaders → ReaderSlot) × UInt64 :=
  (List.finRange kMaxReaders).foldl (scanSlot now evictTimeoutNs) (readers, targetCursor)

/-- The `now` of a scan pass: the clock is read again once 100,000 cycles have gone by. -/
def PendingReserve.refresh (pending : PendingReserve) (currentTsc : UInt64) (clock : Int) :
    PendingReserve :=
  if currentTsc - pending.lastTsc > 100000 then
    { pending with now := clock, lastTsc := currentTsc }
  else
    pending

/-- The end of `Reserve`, after the backpressure check has passed. -/
def finishReserve (cfg : Config) (state : State) (payloadSize typeId : UInt32)
    (currentCursor targetCursor : UInt64) : State :=
  let frame := frameAddress cfg.capacity currentCursor
  { state with
    shared := {
      header := { state.shared.header with producerCursor := targetCursor }
      data := writeHeader cfg.capacity state.shared.data frame payloadSize typeId
        (Int64.ofInt state.clock) }
    producer := { state.producer with
      currentReservation := some {
        claimedCursor := targetCursor
        startOffset := currentCursor % cfg.capacity
        totalFrameSize := (requiredSpace payloadSize).toUInt32 }
      pending := none
      grant := some ⟨frame + kFrameHeaderSize, payloadSize⟩ } }

/-- Enter or stay in the scan loop of `Reserve`. -/
def State.wait (state : State) (pending : PendingReserve) : State :=
  { state with producer := { state.producer with pending := some pending } }

/-- `Reserve` up to its scan loop. It returns at once when it fails or when the cached minimum
leaves enough room. -/
def reserve (cfg : Config) (state : State) (payloadSize typeId : UInt32) (tsc : UInt64) : State :=
  match reserveError cfg state.producer payloadSize with
  | some _ => state
  | none =>
      let currentCursor := state.shared.header.producerCursor
      let targetCursor := currentCursor + requiredSpace payloadSize
      if targetCursor - state.producer.cachedMinCursor > cfg.capacity then
        state.wait ⟨payloadSize, typeId, currentCursor, targetCursor, state.clock, tsc⟩
      else
        finishReserve cfg state payloadSize typeId currentCursor targetCursor

/-- The scan of one pass: evict expired readers and cache the minimum cursor of the others. -/
def rescan (cfg : Config) (state : State) (pending : PendingReserve) : State :=
  let scan := scanReaders pending.now cfg.evictTimeoutNs state.shared.header.readers
    pending.targetCursor
  { state with
    shared := { state.shared with header := { state.shared.header with readers := scan.1 } }
    producer := { state.producer with cachedMinCursor := scan.2, pending := some pending } }

/-- One pass of the scan loop of `Reserve`, with the rest of the call when the pass ends the
loop. -/
def scanPass (cfg : Config) (state : State) (pending : PendingReserve) (currentTsc : UInt64) :
    State :=
  let pending := pending.refresh currentTsc state.clock
  let scanned := rescan cfg state pending
  if pending.targetCursor - scanned.producer.cachedMinCursor ≤ cfg.capacity then
    finishReserve cfg scanned pending.payloadSize pending.typeId pending.currentCursor
      pending.targetCursor
  else
    scanned

/-- The caller's write of payload bytes through the pointer that `Reserve` returned. -/
def writePayload (cfg : Config) (state : State) (grant : Grant) (payload : List UInt8) : State :=
  { state with shared := { state.shared with
      data := storeBytes cfg.capacity.toNat state.shared.data grant.address payload } }

/-- `Commit` of a reservation. -/
def commit (cfg : Config) (state : State) (reservation : Reservation) : State :=
  let frame := reservation.startOffset.toNat
  let version := loadVersion cfg.capacity state.shared.data frame
  { state with
    shared := {
      header := { state.shared.header with commitCursor := reservation.claimedCursor }
      data := storeVersion cfg.capacity state.shared.data frame (version + 1) }
    producer := { state.producer with grant := none } }

/-! ## Consumer calls -/

/-- `RegisterReader`: claim the first slot that is not active. -/
def registerReader (shared : Shared) (reader : BroadcastReader) (clock : Int) :
    Except Status (Shared × BroadcastReader) :=
  if reader.slotIndex ≠ none then
    .error ⟨.alreadyExists, "Reader is already registered"⟩
  else
    match (List.finRange kMaxReaders).find? fun index => !(shared.header.readers index).active with
    | some index =>
        let slot := shared.header.readers index
        let generationId := slot.generationId + 1
        .ok (shared.setSlot index
            { active := true, cursor := reader.cursor, heartbeatTs := clock, generationId },
          { reader with slotIndex := some index, generationId })
    | none => .error ⟨.resourceExhausted, "Maximum number of readers reached"⟩

/-- `UnregisterReader`: clear the slot that the handle names. -/
def unregisterReader (shared : Shared) (reader : BroadcastReader) : Shared × BroadcastReader :=
  match reader.slotIndex with
  | some index =>
      (shared.setSlot index { shared.header.readers index with active := false },
        { reader with slotIndex := none })
  | none => (shared, reader)

/-- `Advance`: move the local cursor, and publish it with a heartbeat if the slot still carries
the reader's generation. -/
def advance (shared : Shared) (reader : BroadcastReader) (totalFrameLength : UInt64) (clock : Int) :
    Shared × BroadcastReader :=
  let newCursor := reader.cursor + totalFrameLength
  let reader := { reader with cursor := newCursor }
  match reader.slotIndex with
  | some index =>
      let slot := shared.header.readers index
      if slot.generationId = reader.generationId then
        (shared.setSlot index { slot with cursor := newCursor, heartbeatTs := clock }, reader)
      else
        (shared, { reader with slotIndex := none })
  | none => (shared, reader)

/-- A view into the data segment. -/
structure Span where
  address : Nat
  size : Nat
  deriving DecidableEq

/-- `PollZeroCopy`: the header fields and a span over the payload in shared memory. -/
def pollZeroCopy (capacity : UInt64) (shared : Shared) (reader : BroadcastReader) :
    Except Status (FrameHeader × Span) :=
  let current := reader.cursor
  if current ≥ shared.header.commitCursor then
    .error ⟨.notFound, "No data"⟩
  else if shared.header.producerCursor - current > capacity then
    .error ⟨.resourceExhausted, "Consumer was evicted and lapped"⟩
  else
    let frame := frameAddress capacity current
    let length := loadLength capacity shared.data frame
    if length.toUInt64 > capacity then
      .error ⟨.dataLoss, "Corrupt frame length detected"⟩
    else
      .ok (⟨length, loadType capacity shared.data frame, loadTimestamp capacity shared.data frame⟩,
        ⟨frame + kFrameHeaderSize, length.toNat⟩)

/-- The outcome of one pass of the retry loop of `PollCopy`. -/
inductive Pass (Result : Type) where
  | retry
  | done (result : Result)

/-- One pass of the retry loop of `PollCopy`, with nobody else running. -/
def pollCopyPass (capacity : UInt64) (shared : Shared) (current : UInt64) :
    Pass (Except Status (FrameHeader × SafeMessage)) :=
  let frame := frameAddress capacity current
  if shared.header.producerCursor - current > capacity then
    .done (.error ⟨.resourceExhausted, "Consumer was evicted and lapped"⟩)
  else
    let versionBefore := loadVersion capacity shared.data frame
    if versionBefore &&& 1 ≠ 0 then
      .retry
    else
      let length := loadLength capacity shared.data frame
      if length.toUInt64 > capacity then
        .done (.error ⟨.dataLoss, "Corrupt frame length detected"⟩)
      else
        let type := loadType capacity shared.data frame
        let timestamp := loadTimestamp capacity shared.data frame
        let payload := loadPayload capacity shared.data frame length.toNat
        let versionAfter := loadVersion capacity shared.data frame
        if versionBefore = versionAfter then
          .done (.ok (⟨length, type, timestamp⟩, ⟨type, timestamp, payload⟩))
        else
          .retry

/-- `PollCopy` with nobody else running. A pass that asks for a retry finds the same memory
again, so the call does not return; this is `none`. -/
def pollCopy (capacity : UInt64) (shared : Shared) (reader : BroadcastReader) :
    Option (Except Status (FrameHeader × SafeMessage)) :=
  if reader.cursor ≥ shared.header.commitCursor then
    some (.error ⟨.notFound, "No data"⟩)
  else
    match pollCopyPass capacity shared reader.cursor with
    | .retry => none
    | .done result => some result

/-- `kMaxRetries`. -/
def kMaxRetries : Nat := 1000

/-- How the retry loop of `PollCopyBatch` ends for one frame. -/
inductive FrameRead where
  | lapped
  | corrupt
  | gaveUp
  | read (message : SafeMessage) (totalFrameSize : UInt32)

/-- The retry loop of `PollCopyBatch` for the frame at `current`, with nobody else running and
`retries` passes left. -/
def readFrame (capacity : UInt64) (shared : Shared) (current : UInt64) : Nat → FrameRead
  | 0 => .gaveUp
  | retries + 1 =>
      let frame := frameAddress capacity current
      if shared.header.producerCursor - current > capacity then
        .lapped
      else if loadVersion capacity shared.data frame &&& 1 ≠ 0 then
        readFrame capacity shared current retries
      else
        let length := loadLength capacity shared.data frame
        if length.toUInt64 > capacity then
          .corrupt
        else
          .read ⟨loadType capacity shared.data frame, loadTimestamp capacity shared.data frame,
            loadPayload capacity shared.data frame length.toNat⟩ (totalFrameSize length)

/-- The locals of `PollCopyBatch` when its loop ends: what it read, and the error that ended it
before the first message. -/
structure Batch where
  messagesRead : Nat
  totalBytesAdvanced : UInt64
  messagesOut : List SafeMessage
  failure : Option Status

/-- `messages_out[index] = message`, growing the vector by one when the index is its size. -/
def putMessage (messagesOut : List SafeMessage) (index : Nat) (message : SafeMessage) :
    List SafeMessage :=
  if messagesOut.length ≤ index then messagesOut ++ [message] else messagesOut.set index message

/-- The batch loop of `PollCopyBatch` with `remaining` messages still allowed. -/
def batchLoop (capacity : UInt64) (shared : Shared) (commit : UInt64) :
    Nat → UInt64 → Batch → Batch
  | 0, _, batch => batch
  | remaining + 1, current, batch =>
      if current < commit then
        match readFrame capacity shared current (kMaxRetries + 1) with
        | .lapped =>
            if batch.messagesRead > 0 then batch
            else { batch with
              failure := some ⟨.resourceExhausted, "Consumer was evicted and lapped"⟩ }
        | .corrupt =>
            if batch.messagesRead > 0 then batch
            else { batch with failure := some ⟨.dataLoss, "Corrupt frame length detected"⟩ }
        -- The batch loop is left without an error of its own.
        | .gaveUp => batch
        | .read message totalFrameSize =>
            batchLoop capacity shared commit remaining (current + totalFrameSize.toUInt64)
              { messagesRead := batch.messagesRead + 1
                totalBytesAdvanced := batch.totalBytesAdvanced + totalFrameSize.toUInt64
                messagesOut := putMessage batch.messagesOut batch.messagesRead message
                failure := none }
      else
        batch

/-- The locals with which `PollCopyBatch` leaves its loop. -/
def pollBatch (capacity : UInt64) (shared : Shared) (reader : BroadcastReader) (maxMessages : Nat)
    (messagesOut : List SafeMessage) : Batch :=
  if reader.cursor ≥ shared.header.commitCursor then
    ⟨0, 0, messagesOut, some ⟨.notFound, "No data"⟩⟩
  else
    batchLoop capacity shared shared.header.commitCursor maxMessages reader.cursor
      ⟨0, 0, messagesOut, none⟩

/-- The status or message count that `PollCopyBatch` returns. -/
def Batch.result (batch : Batch) : Except Status Nat :=
  match batch.failure with
  | some status => .error status
  | none =>
      if batch.messagesRead > 0 then .ok batch.messagesRead else .error ⟨.notFound, "No data"⟩

/-- The effect of `PollCopyBatch`: it advances the reader over what it read. -/
def pollCopyBatch (capacity : UInt64) (shared : Shared) (reader : BroadcastReader)
    (maxMessages : Nat) (clock : Int) : Shared × BroadcastReader :=
  let batch := pollBatch capacity shared reader maxMessages []
  if batch.messagesRead > 0 then advance shared reader batch.totalBytesAdvanced clock
  else (shared, reader)

/-! ## The system -/

/-- The calls, the passes of a waiting `Reserve`, and the passage of time. `setCursor` stands for
the start cursor given to the constructor of a handle and for `set_cursor`. -/
inductive Event where
  | reserve (payloadSize typeId : UInt32) (tsc : UInt64)
  | scan (tsc : UInt64)
  | writePayload (payload : List UInt8)
  | commit
  | setCursor (reader : ReaderId) (cursor : UInt64)
  | registerReader (reader : ReaderId)
  | unregisterReader (reader : ReaderId)
  | pollZeroCopy (reader : ReaderId)
  | pollCopy (reader : ReaderId)
  | pollCopyBatch (reader : ReaderId) (maxMessages : Nat)
  | advance (reader : ReaderId) (totalFrameLength : UInt64)
  | tick (elapsed : Nat)

/-- Replace the shared segments and one handle. -/
def State.setReader (state : State) (reader : ReaderId) (result : Shared × BroadcastReader) :
    State :=
  { state with shared := result.1, readers := Function.update state.readers reader result.2 }

/-- One step. The producer's own calls are disabled while its `Reserve` is waiting, and a payload
write needs an uncommitted grant that is large enough. -/
def step (cfg : Config) (state : State) : Event → Option State
  | .reserve payloadSize typeId tsc =>
      if state.producer.pending.isSome then none
      else some (reserve cfg state payloadSize typeId tsc)
  | .scan tsc => state.producer.pending.map fun pending => scanPass cfg state pending tsc
  | .writePayload payload =>
      match state.producer.pending, state.producer.grant with
      | none, some grant =>
          if payload.length ≤ grant.payloadSize.toNat then
            some (writePayload cfg state grant payload)
          else none
      | _, _ => none
  | .commit =>
      match state.producer.pending, state.producer.currentReservation with
      | none, some reservation => some (commit cfg state reservation)
      | _, _ => none
  | .setCursor reader cursor =>
      some (state.setReader reader (state.shared, { state.readers reader with cursor }))
  | .registerReader reader =>
      match registerReader state.shared (state.readers reader) state.clock with
      | .ok result => some (state.setReader reader result)
      | .error _ => some state
  | .unregisterReader reader =>
      some (state.setReader reader (unregisterReader state.shared (state.readers reader)))
  | .pollZeroCopy _ => some state
  | .pollCopy reader =>
      (pollCopy cfg.capacity state.shared (state.readers reader)).map fun _ => state
  | .pollCopyBatch reader maxMessages =>
      some (state.setReader reader
        (pollCopyBatch cfg.capacity state.shared (state.readers reader) maxMessages state.clock))
  | .advance reader totalFrameLength =>
      some (state.setReader reader
        (advance state.shared (state.readers reader) totalFrameLength state.clock))
  | .tick elapsed => some { state with clock := state.clock + elapsed }

/-- The state that `Create` leaves: zero cursors and an empty roster. Fresh shared memory is
zero. -/
def created (clock : Int) : State where
  shared := { header := {}, data := fun _ => 0 }
  producer := {}
  readers := fun _ => {}
  clock := clock

/-- The ring buffer as a transition system. -/
def ring (cfg : Config) : System State Event where
  init state := ∃ clock, state = created clock
  step := step cfg

end HotPath.SharedMemory
