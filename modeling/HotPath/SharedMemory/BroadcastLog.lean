import HotPath.Foundation.AppendLog
import HotPath.SharedMemory.Backpressure

/-!
# The ring buffer as an append-only log

`Journal` runs the abstract log alongside the ring buffer: a `Commit` appends the message that was
reserved and written, a registration joins, and an `Advance` after a successful poll takes the
next entry. It also keeps what the ring really handed out, with the payload of a zero-copy view
read from the buffer at the moment of the `Advance`. `RefinesLog` compares the two.

`StreamInv` is the producer's half of the invariant: the commit cursor is at the end of the log,
and every entry that the producer has not overtaken is stored at its stream position, whatever
stale bytes of earlier laps surround it.
-/

namespace HotPath.SharedMemory

open HotPath.Foundation

/-! ## The journal -/

/-- How far the producer is with its current frame. -/
inductive Stage where
  | idle
  | reserved (header : FrameHeader)
  | written (message : SafeMessage)
  deriving DecidableEq

/-- What the last successful poll of a reader returned. -/
inductive Polled where
  | view (header : FrameHeader) (span : Span)
  | copy (header : FrameHeader) (message : SafeMessage)
  deriving DecidableEq

/-- The header that a poll filled in. -/
def Polled.header : Polled → FrameHeader
  | .view header _ | .copy header _ => header

/-- The message that a poll returned. The payload of a view is still in the buffer. -/
def Polled.message (capacity : UInt64) (data : Nat → UInt8) : Polled → SafeMessage
  | .view header span =>
      ⟨header.type, header.timestamp, loadBytes capacity.toNat data span.size span.address⟩
  | .copy _ message => message

/-- The abstract log and what the readers have received. -/
structure Journal where
  owners : Owners
  stage : Stage
  log : AppendLog SafeMessage ReaderId
  received : ReaderId → List SafeMessage
  polled : ReaderId → Option Polled

/-- The reader is registered and has not been evicted. -/
def Journal.holds (journal : Journal) (reader : ReaderId) : Prop :=
  ∃ index, journal.owners index = some reader

/-- `holds` is decidable by a look at all the slots. -/
instance (journal : Journal) (reader : ReaderId) : Decidable (journal.holds reader) :=
  inferInstanceAs (Decidable (∃ index, journal.owners index = some reader))

/-- The stage after a call. -/
def stageAfter (cfg : Config) (state : State) (event : Event) (next : State) (stage : Stage) :
    Stage :=
  match event with
  | .reserve payloadSize typeId _ =>
      if (reserveError cfg state.producer payloadSize).isNone && next.producer.pending.isNone then
        .reserved ⟨payloadSize, typeId, Int64.ofInt state.clock⟩
      else stage
  | .scan _ =>
      match state.producer.pending, next.producer.pending with
      | some pending, none =>
          .reserved ⟨pending.payloadSize, pending.typeId, Int64.ofInt state.clock⟩
      | _, _ => stage
  | .writePayload payload =>
      match stage with
      | .reserved header => .written ⟨header.type, header.timestamp, payload⟩
      | _ => stage
  | .commit => .idle
  | _ => stage

/-- A registration of the reader has just succeeded. -/
def joined (state next : State) (reader : ReaderId) : Bool :=
  (state.readers reader).slotIndex.isNone && (next.readers reader).slotIndex.isSome

/-- The abstract log after a call. -/
def logAfter (state : State) (event : Event) (next : State) (journal : Journal) :
    AppendLog SafeMessage ReaderId :=
  match event with
  | .commit =>
      match journal.stage with
      | .written message => journal.log.append message
      | _ => journal.log
  | .registerReader reader =>
      if joined state next reader then journal.log.join reader else journal.log
  | .advance reader _ =>
      if (journal.polled reader).isSome then journal.log.take reader else journal.log
  | _ => journal.log

/-- What the readers have received after a call. -/
def receivedAfter (cfg : Config) (state : State) (event : Event) (next : State)
    (journal : Journal) : ReaderId → List SafeMessage :=
  match event with
  | .registerReader reader =>
      if joined state next reader then Function.update journal.received reader []
      else journal.received
  | .advance reader _ =>
      match journal.polled reader with
      | some polled => Function.update journal.received reader
          (journal.received reader ++ [polled.message cfg.capacity state.shared.data])
      | none => journal.received
  | _ => journal.received

/-- What the last polls have returned after a call. -/
def polledAfter (cfg : Config) (state : State) (event : Event) (next : State)
    (journal : Journal) : ReaderId → Option Polled :=
  match event with
  | .pollZeroCopy reader =>
      match pollZeroCopy cfg.capacity state.shared (state.readers reader) with
      | .ok (header, span) => Function.update journal.polled reader (some (.view header span))
      | .error _ => journal.polled
  | .pollCopy reader =>
      match pollCopy cfg.capacity state.shared (state.readers reader) with
      | some (.ok (header, message)) =>
          Function.update journal.polled reader (some (.copy header message))
      | _ => journal.polled
  | .registerReader reader =>
      if joined state next reader then Function.update journal.polled reader none
      else journal.polled
  | .advance reader _ => Function.update journal.polled reader none
  | _ => journal.polled

/-- The journal of a run. -/
def journal (cfg : Config) : Recorder State Event Journal where
  start _ := ⟨fun _ => none, .idle, .empty, fun _ => [], fun _ => none⟩
  observe state event next journal := {
    owners := ownersAfter state event next.slots next.readers journal.owners
    stage := stageAfter cfg state event next journal.stage
    log := logAfter state event next journal
    received := receivedAfter cfg state event next journal
    polled := polledAfter cfg state event next journal }

/-! ## The calls -/

/-- The producer reserves, writes and commits accepted payloads one after the other. Readers
register at the end of a stream without an open reservation and set their cursor only while they
have no slot. A registered reader polls, and advances over what its last successful poll
returned. -/
def logCall (cfg : Config) (pair : State × Journal) : Event → Bool
  | .reserve payloadSize _ _ => pair.2.stage == .idle && payloadSize.toNat ≤ 2 ^ 32 - 8 &&
      reserveError cfg pair.1.producer payloadSize == none
  | .writePayload payload =>
      match pair.2.stage with
      | .reserved header => payload.length == header.length.toNat
      | _ => false
  | .commit =>
      match pair.2.stage with
      | .written _ => true
      | _ => false
  | .setCursor reader _ => (pair.1.readers reader).slotIndex == none
  | .registerReader reader =>
      (pair.1.readers reader).cursor == pair.1.shared.header.producerCursor &&
        (pair.1.readers reader).cursor == pair.1.shared.header.commitCursor
  | .pollZeroCopy reader | .pollCopy reader => pair.2.holds reader
  | .advance reader length => pair.2.holds reader &&
      match pair.2.polled reader with
      | some polled => length == (totalFrameSize polled.header.length).toUInt64
      | none => false
  | .scan _ | .tick _ => true
  | .unregisterReader _ | .pollCopyBatch .. => false

/-- The end of a reservation stays below `2 ^ 64`. -/
def CursorFits (state : State) : Event → Prop
  | .reserve payloadSize _ _ =>
      state.shared.header.producerCursor.toNat + (requiredSpace payloadSize).toNat < 2 ^ 64
  | _ => True

/-- What a registered reader sees of the log: it has received the entries after its joining point,
and both polls answer with the next entry, or with `NotFound` if there is none. -/
structure ReadsLog (cfg : Config) (state : State) (journal : Journal) (reader : ReaderId) :
    Prop where
  received : journal.received reader = journal.log.delivered reader
  caught_up : journal.log.upcoming reader = none →
    pollZeroCopy cfg.capacity state.shared (state.readers reader) =
        .error ⟨.notFound, "No data"⟩ ∧
      pollCopy cfg.capacity state.shared (state.readers reader) =
        some (.error ⟨.notFound, "No data"⟩)
  unread : ∀ message, journal.log.upcoming reader = some message →
    (∃ span, pollZeroCopy cfg.capacity state.shared (state.readers reader) =
        .ok (message.header, span) ∧
      loadBytes cfg.capacity.toNat state.shared.data span.size span.address = message.payload) ∧
      pollCopy cfg.capacity state.shared (state.readers reader) =
        some (.ok (message.header, message))

/-- In every run whose calls meet `allow`, every registered reader sees the log. -/
def RefinesLog (cfg : Config) (allow : State × Journal → Event → Prop) : Prop :=
  ∀ pair, ((ring cfg).withHistory (journal cfg)).Reachable allow pair →
    ∀ reader, pair.2.holds reader → ReadsLog cfg pair.1 pair.2 reader

/-! ## The stream -/

/-- The bytes that the frame of a message occupies. -/
def frameBytes (message : SafeMessage) : Nat := (requiredSpace message.header.length).toNat

/-- The stream position behind a list of messages. -/
def streamEnd (messages : List SafeMessage) : Nat := (messages.map frameBytes).sum

/-- A message that can be in the log. -/
structure Admitted (cfg : Config) (message : SafeMessage) : Prop where
  size : message.payload.length ≤ 2 ^ 32 - 8
  space : frameBytes message ≤ cfg.capacity.toNat

/-- The producer holds a reservation of the given payload size, which starts at the commit
cursor. -/
structure Claims (cfg : Config) (state : State) (payloadSize : UInt32) : Prop where
  idle : state.producer.pending = none
  size : payloadSize.toNat ≤ 2 ^ 32 - 8
  space : (requiredSpace payloadSize).toNat ≤ cfg.capacity.toNat
  target : state.shared.header.producerCursor.toNat =
    state.shared.header.commitCursor.toNat + (requiredSpace payloadSize).toNat
  reservation : ∃ reservation, state.producer.currentReservation = some reservation ∧
    reservation.claimedCursor = state.shared.header.producerCursor ∧
    reservation.startOffset = state.shared.header.commitCursor % cfg.capacity

/-- The version word at the commit cursor is odd, and the header fields follow it. -/
structure HeaderOpen (cfg : Config) (state : State) (header : FrameHeader) : Prop where
  odd : ∃ version, loadVersion cfg.capacity state.shared.data
    state.shared.header.commitCursor.toNat = version ||| 1
  header : HeaderStored cfg.capacity state.shared.data
    state.shared.header.commitCursor.toNat header

/-- What the producer has done of its current frame. -/
def StageInv (cfg : Config) (state : State) : Stage → Prop
  | .idle => state.shared.header.producerCursor = state.shared.header.commitCursor
  | .reserved header => Claims cfg state header.length ∧ HeaderOpen cfg state header ∧
      state.producer.grant = some
        ⟨frameAddress cfg.capacity state.shared.header.commitCursor + kFrameHeaderSize,
          header.length⟩
  | .written message => Claims cfg state message.header.length ∧ Admitted cfg message ∧
      HeaderOpen cfg state message.header ∧
      loadPayload cfg.capacity state.shared.data state.shared.header.commitCursor.toNat
        message.payload.length = message.payload

/-- The stream carries the log: the commit cursor is at its end, and every entry that has not been
overtaken is stored at its position. -/
structure StreamInv (cfg : Config) (state : State) (stage : Stage) (entries : List SafeMessage) :
    Prop where
  producer : ProducerInv cfg state.shared.header state.producer
  committed : state.shared.header.commitCursor.toNat = streamEnd entries
  stage : StageInv cfg state stage
  admitted : ∀ message ∈ entries, Admitted cfg message
  stored : ∀ before message after, entries = before ++ message :: after →
    state.shared.header.producerCursor.toNat ≤ streamEnd before + cfg.capacity.toNat →
    FrameStored cfg.capacity state.shared.data (streamEnd before) message

@[simp] theorem streamEnd_append (front back : List SafeMessage) :
    streamEnd (front ++ back) = streamEnd front + streamEnd back := by
  simp [streamEnd]

@[simp] theorem streamEnd_cons (message : SafeMessage) (rest : List SafeMessage) :
    streamEnd (message :: rest) = frameBytes message + streamEnd rest := by
  simp [streamEnd]

@[simp] theorem streamEnd_nil : streamEnd [] = 0 := rfl

/-- A buffer of whole pages holds a header. -/
theorem Config.page_le (cfg : Config) : 4096 ≤ cfg.capacity.toNat :=
  Nat.le_of_dvd cfg.nonempty (Nat.dvd_of_mod_eq_zero cfg.pageAligned)

theorem Config.header_le (cfg : Config) : kFrameHeaderSize ≤ cfg.capacity.toNat :=
  Nat.le_trans (by decide) cfg.page_le

namespace Admitted

variable {cfg : Config} {message : SafeMessage} (h : Admitted cfg message)
include h

theorem length_toNat : message.header.length.toNat = message.payload.length := by
  have hsize := h.size
  simp only [SafeMessage.header, UInt32.toNat_ofNat']
  omega

/-- The frame of a message holds its header and its payload. -/
theorem payload_fits : kFrameHeaderSize + message.payload.length ≤ frameBytes message := by
  have hsize := h.size
  rw [frameBytes, ← h.length_toNat]
  exact SharedMemory.payload_fits (by rw [h.length_toNat]; exact hsize)

end Admitted

section Stream

variable {cfg : Config} {state next : State} {event : Event} {stage : Stage}
  {entries : List SafeMessage}

/-- The stream invariant depends on the cursors, the data and the producer's object. -/
theorem StreamInv.congr (h : StreamInv cfg state stage entries)
    (hproducer : next.shared.header.producerCursor = state.shared.header.producerCursor)
    (hcommit : next.shared.header.commitCursor = state.shared.header.commitCursor)
    (hdata : next.shared.data = state.shared.data) (hobject : next.producer = state.producer)
    (hinv : ProducerInv cfg next.shared.header next.producer) :
    StreamInv cfg next stage entries := by
  refine ⟨hinv, by rw [hcommit, h.committed], ?_, h.admitted,
    by rw [hproducer, hdata]; exact h.stored⟩
  have hclaims : ∀ size, Claims cfg state size → Claims cfg next size := fun size hclaims =>
    ⟨by rw [hobject]; exact hclaims.idle, hclaims.size, hclaims.space,
      by rw [hproducer, hcommit]; exact hclaims.target,
      by rw [hproducer, hcommit, hobject]; exact hclaims.reservation⟩
  have hopen : ∀ header, HeaderOpen cfg state header → HeaderOpen cfg next header :=
    fun header hopen => ⟨by rw [hcommit, hdata]; exact hopen.odd,
      by rw [hcommit, hdata]; exact hopen.header⟩
  have hstage := h.stage
  cases stage with
  | idle => exact hproducer.trans (hstage.trans hcommit.symm)
  | reserved header =>
      exact ⟨hclaims _ hstage.1, hopen _ hstage.2.1, by rw [hcommit, hobject]; exact hstage.2.2⟩
  | written message =>
      exact ⟨hclaims _ hstage.1, hstage.2.1, hopen _ hstage.2.2.1,
        by rw [hcommit, hdata]; exact hstage.2.2.2⟩

/-- An entry ends at or before the commit cursor. -/
theorem StreamInv.entry_end (h : StreamInv cfg state stage entries)
    {before after : List SafeMessage} {message : SafeMessage}
    (hentries : entries = before ++ message :: after) :
    streamEnd before + frameBytes message ≤ state.shared.header.commitCursor.toNat := by
  rw [h.committed, hentries, streamEnd_append, streamEnd_cons]
  omega

/-- A producer that waits for space has no frame open. -/
theorem StreamInv.stage_idle (h : StreamInv cfg state stage entries) {pending : PendingReserve}
    (hpending : state.producer.pending = some pending) : stage = .idle := by
  have hstage := h.stage
  cases stage with
  | idle => rfl
  | reserved header | written message => simp [hstage.1.idle] at hpending

/-- A change of the data that spares the committed bytes of the last lap keeps the entries. -/
theorem StreamInv.stored_of_bytes (h : StreamInv cfg state stage entries)
    (hle : state.shared.header.producerCursor.toNat ≤ next.shared.header.producerCursor.toNat)
    (hbytes : ∀ position, position < state.shared.header.commitCursor.toNat →
      next.shared.header.producerCursor.toNat ≤ position + cfg.capacity.toNat →
      byteAt cfg.capacity.toNat next.shared.data position =
        byteAt cfg.capacity.toNat state.shared.data position)
    {before after : List SafeMessage} {message : SafeMessage}
    (hentries : entries = before ++ message :: after)
    (hlap : next.shared.header.producerCursor.toNat ≤ streamEnd before + cfg.capacity.toNat) :
    FrameStored cfg.capacity next.shared.data (streamEnd before) message := by
  have hmessage := h.admitted message (by simp [hentries])
  have hend := h.entry_end hentries
  have hfits := hmessage.payload_fits
  refine (h.stored before message after hentries (by omega)).congr fun i hi => ?_
  exact hbytes _ (by omega) (by omega)

/-- Handing out space opens a frame at the end of the stream. -/
theorem StreamInv.grant (h : StreamInv cfg state .idle entries)
    (hinv : ProducerInv cfg next.shared.header next.producer) {payloadSize typeId : UInt32}
    (hgrant : Grants cfg state payloadSize typeId next)
    (hbytes : ∀ position, position < state.shared.header.commitCursor.toNat →
      next.shared.header.producerCursor.toNat ≤ position + cfg.capacity.toNat →
      byteAt cfg.capacity.toNat next.shared.data position =
        byteAt cfg.capacity.toNat state.shared.data position) :
    StreamInv cfg next (.reserved ⟨payloadSize, typeId, Int64.ofInt state.clock⟩) entries := by
  have hidle : state.shared.header.producerCursor = state.shared.header.commitCursor := h.stage
  have htarget := hgrant.target
  obtain ⟨hversion, hheader⟩ := writeHeader_stored cfg.header_le state.shared.data
    (frameAddress cfg.capacity state.shared.header.producerCursor) payloadSize typeId
    (Int64.ofInt state.clock)
  rw [← hgrant.data, frameAddress_eq, hidle] at hheader
  rw [← hgrant.data, frameAddress_eq, hidle, loadVersion_mod] at hversion
  refine ⟨hinv, by rw [hgrant.committed, h.committed], ⟨?_, ?_, ?_⟩, h.admitted,
    fun _ _ _ => h.stored_of_bytes (by omega) hbytes⟩
  · refine ⟨hgrant.idle, hgrant.size, hgrant.space, ?_, ?_⟩
    · rw [hgrant.committed, ← hidle, htarget]
    · rw [hgrant.committed, ← hidle]
      exact hgrant.reservation
  · rw [← hgrant.committed] at hversion hheader
    exact ⟨⟨_, hversion⟩, headerStored_mod.mp hheader⟩
  · rw [hgrant.committed, ← hidle]
    exact hgrant.grant

/-- Writing the payload completes the frame, except for its version word. -/
theorem StreamInv.write {header : FrameHeader} (h : StreamInv cfg state (.reserved header) entries)
    {grant : Grant} (hgrant : state.producer.grant = some grant) {payload : List UInt8}
    (hlength : payload.length = header.length.toNat)
    (hbytes : ∀ position, position < state.shared.header.commitCursor.toNat →
      state.shared.header.producerCursor.toNat ≤ position + cfg.capacity.toNat →
      byteAt cfg.capacity.toNat (writePayload cfg state grant payload).shared.data position =
        byteAt cfg.capacity.toNat state.shared.data position) :
    StreamInv cfg (writePayload cfg state grant payload)
      (.written ⟨header.type, header.timestamp, payload⟩) entries := by
  obtain ⟨hclaims, hopen, hgranted⟩ := h.stage
  obtain rfl := Option.some.inj (hgrant.symm.trans hgranted)
  have hheader : SafeMessage.header ⟨header.type, header.timestamp, payload⟩ = header := by
    simp [SafeMessage.header, hlength]
  have hfits := SharedMemory.payload_fits hclaims.size
  have hsize := hclaims.size
  have hspace := hclaims.space
  have hkeep : ∀ i < kFrameHeaderSize,
      byteAt cfg.capacity.toNat (storeBytes cfg.capacity.toNat state.shared.data
        (frameAddress cfg.capacity state.shared.header.commitCursor + kFrameHeaderSize) payload)
        (state.shared.header.commitCursor.toNat + i) =
      byteAt cfg.capacity.toNat state.shared.data
        (state.shared.header.commitCursor.toNat + i) := by
    intro i hi
    rw [frameAddress_eq, storeBytes_mod_add]
    exact byteAt_storePayload hi (by omega)
  refine ⟨⟨h.producer.commit_le, h.producer.cached_le, h.producer.claimed_le, h.producer.pending,
    h.producer.grant⟩, h.committed, ⟨?_, ⟨?_, ?_⟩, ⟨?_, ?_⟩, ?_⟩, h.admitted,
    fun _ _ _ => h.stored_of_bytes (by exact Nat.le_refl _) hbytes⟩
  · rw [hheader]
    exact ⟨hclaims.idle, hclaims.size, hclaims.space, hclaims.target, hclaims.reservation⟩
  · rw [hlength]
    exact hclaims.size
  · rw [frameBytes, hheader]
    exact hclaims.space
  · obtain ⟨version, hversion⟩ := hopen.odd
    refine ⟨version, Eq.trans (congrArg UInt32.ofNat ?_) hversion⟩
    exact loadWord_congr (loadBytes_congr fun i hi => hkeep i (by unfold kFrameHeaderSize; omega))
  · rw [hheader]
    exact hopen.header.congr fun i _ hi => hkeep i hi
  · simp only [writePayload, frameAddress_eq, storeBytes_mod_add, loadPayload]
    exact loadBytes_storeBytes_same (by omega)

/-- A commit appends the written message. -/
theorem StreamInv.commit {message : SafeMessage}
    (h : StreamInv cfg state (.written message) entries)
    {reservation : Reservation}
    (hreservation : state.producer.currentReservation = some reservation)
    (hinv : ProducerInv cfg (commit cfg state reservation).shared.header
      (commit cfg state reservation).producer) :
    StreamInv cfg (SharedMemory.commit cfg state reservation) .idle (entries ++ [message]) := by
  obtain ⟨hclaims, hmessage, hopen, hpayload⟩ := h.stage
  obtain ⟨claimed, hclaimed, hcursor, hoffset⟩ := hclaims.reservation
  obtain rfl := Option.some.inj (hreservation.symm.trans hclaimed)
  have hpage := cfg.page_le
  have hfits := hmessage.payload_fits
  have hspace : frameBytes message ≤ cfg.capacity.toNat := hmessage.space
  have htarget : state.shared.header.producerCursor.toNat =
    state.shared.header.commitCursor.toNat + frameBytes message := hclaims.target
  obtain ⟨version, hversion⟩ := hopen.odd
  have hoffset : reservation.startOffset.toNat =
      state.shared.header.commitCursor.toNat % cfg.capacity.toNat := by
    rw [hoffset, UInt64.toNat_mod]
  have hdata : (SharedMemory.commit cfg state reservation).shared.data =
      storeVersion cfg.capacity state.shared.data state.shared.header.commitCursor.toNat
        ((version ||| 1) + 1) := by
    simp only [SharedMemory.commit, hoffset, storeVersion_mod, loadVersion_mod, hversion]
  have hkeep : ∀ i, 4 ≤ i → i < cfg.capacity.toNat →
      byteAt cfg.capacity.toNat (SharedMemory.commit cfg state reservation).shared.data
        (state.shared.header.commitCursor.toNat + i) =
      byteAt cfg.capacity.toNat state.shared.data
        (state.shared.header.commitCursor.toNat + i) := by
    intro i hlow hhigh
    rw [hdata]
    exact byteAt_storeVersion hlow hhigh
  have hbytes : ∀ position, position < state.shared.header.commitCursor.toNat →
      state.shared.header.producerCursor.toNat ≤ position + cfg.capacity.toNat →
      byteAt cfg.capacity.toNat (SharedMemory.commit cfg state reservation).shared.data position =
        byteAt cfg.capacity.toNat state.shared.data position := by
    intro position hupper hlap
    rw [hdata]
    unfold kFrameHeaderSize at hfits
    exact byteAt_storeBytes_apart (Apart.of_window (by omega) (by simp; omega))
  refine ⟨hinv, ?_, hcursor.symm, ?_, ?_⟩
  · rw [streamEnd_append, streamEnd_cons, streamEnd_nil, Nat.add_zero, ← h.committed,
      ← htarget, ← hcursor]
    rfl
  · intro other hother
    rcases List.mem_append.mp hother with hold | hnew
    · exact h.admitted other hold
    · exact List.mem_singleton.mp hnew ▸ hmessage
  · intro before other after hentries hlap
    rcases List.eq_nil_or_concat after with rfl | ⟨after', last, rfl⟩
    · obtain ⟨rfl, hlast⟩ := List.append_inj' hentries rfl
      obtain rfl : message = other := by simpa using hlast
      rw [← h.committed]
      refine ⟨?_, hopen.header.congr fun i hlow hi => hkeep i hlow (by omega), ?_⟩
      · rw [hdata, loadVersion_storeVersion cfg.header_le, version_even]
      · refine Eq.trans (loadBytes_congr fun i hi => ?_) hpayload
        have hbyte := hkeep (kFrameHeaderSize + i) (by unfold kFrameHeaderSize; omega) (by omega)
        simpa [Nat.add_assoc] using hbyte
    · rw [List.concat_eq_append, ← List.cons_append, ← List.append_assoc] at hentries
      obtain ⟨rfl, -⟩ := List.append_inj' hentries rfl
      exact h.stored_of_bytes (by exact Nat.le_refl _) hbytes rfl hlap

/-- Waiting for space leaves the stream. -/
theorem StreamInv.stay (h : StreamInv cfg state .idle entries) (hstay : Stays state next)
    (hinv : ProducerInv cfg next.shared.header next.producer) :
    StreamInv cfg next .idle entries := by
  have hidle : state.shared.header.producerCursor = state.shared.header.commitCursor := h.stage
  exact ⟨hinv, by rw [hstay.committed, h.committed],
    hstay.cursor.trans (hidle.trans hstay.committed.symm), h.admitted,
    by rw [hstay.cursor, hstay.data]; exact h.stored⟩

end Stream

end HotPath.SharedMemory
