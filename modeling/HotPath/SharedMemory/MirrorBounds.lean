import HotPath.SharedMemory.BatchRounds

/-!
# Bounds of frames and spans

The data segment is mapped twice in a row, so a frame and a span of payload bytes have to end
before twice the capacity. `hands_out_fitting` says for which payload sizes `Reserve` hands out
space that fits. The sizes near `2 ^ 32` wrap around in its 32-bit rounding and in the 32-bit size
that it stores. `polls_inside` says for which contents of a header the polls stay inside: their
guard compares the length field with the capacity and leaves out the offset and the header.
-/

namespace HotPath.SharedMemory

open HotPath.Foundation

/-! ## A whole call of `Reserve` -/

/-- What a pass of the scan finds: the roster, the clock and the time stamp counter. Other parties
change the first while `Reserve` waits. -/
structure Turn where
  readers : Fin kMaxReaders → ReaderSlot
  clock : Int
  tsc : UInt64

/-- The next pass of a waiting `Reserve`. A call that has returned is left alone. -/
def passAt (cfg : Config) (state : State) (turn : Turn) : State :=
  match state.producer.pending with
  | none => state
  | some pending =>
      scanPass cfg
        { state with
          shared := { state.shared with
            header := { state.shared.header with readers := turn.readers } }
          clock := turn.clock } pending turn.tsc

/-- A call of `Reserve` with the given turns of its scan. -/
def reserveCall (cfg : Config) (state : State) (payloadSize typeId : UInt32) (tsc : UInt64)
    (turns : List Turn) : State :=
  turns.foldl (passAt cfg) (reserve cfg state payloadSize typeId tsc)

/-- The space of a reservation holds the payload, and everybody computes the same size for it. -/
structure GrantFits (cfg : Config) (start after : State) (payloadSize : UInt32) (grant : Grant)
    (reservation : Reservation) : Prop where
  payload : reservation.startOffset.toNat + kFrameHeaderSize = grant.address
  in_frame : grant.address + payloadSize.toNat ≤
    reservation.startOffset.toNat + reservation.totalFrameSize.toNat
  in_mirror : grant.address + payloadSize.toNat ≤ 2 * cfg.capacity.toNat
  in_capacity : kFrameHeaderSize + payloadSize.toNat ≤ cfg.capacity.toNat
  grows : (after.shared.header.producerCursor - start.shared.header.producerCursor).toNat =
    reservation.totalFrameSize.toNat
  read_back : totalFrameSize (loadLength cfg.capacity after.shared.data
    reservation.startOffset.toNat) = reservation.totalFrameSize

/-- `Reserve` hands out space that fits, or it returns an error and changes nothing. -/
def HandsOutFitting (cfg : Config) (state : State) (payloadSize : UInt32) : Prop :=
  ∀ typeId tsc,
    match reserveError cfg state.producer payloadSize with
    | some _ => reserve cfg state payloadSize typeId tsc = state
    | none => ∀ turns,
        let after := reserveCall cfg state payloadSize typeId tsc turns
        after.producer.pending = none →
          ∃ grant reservation, after.producer.grant = some grant ∧
            after.producer.currentReservation = some reservation ∧
            GrantFits cfg state after payloadSize grant reservation

section Call

variable {cfg : Config} {start state : State} {payloadSize typeId : UInt32}

/-- A call of `Reserve` that was not rejected waits for the space that it has computed, or has
returned. -/
inductive CallInv (cfg : Config) (start : State) (payloadSize typeId : UInt32) : State → Prop where
  | waits {state : State} {pending : PendingReserve} :
      state.producer.pending = some pending →
      pending.payloadSize = payloadSize → pending.typeId = typeId →
      pending.currentCursor = start.shared.header.producerCursor →
      pending.targetCursor = start.shared.header.producerCursor + requiredSpace payloadSize →
      CallInv cfg start payloadSize typeId state
  | returned {state : State} :
      CallInv cfg start payloadSize typeId
        (finishReserve cfg state payloadSize typeId start.shared.header.producerCursor
          (start.shared.header.producerCursor + requiredSpace payloadSize))

theorem CallInv.reserve (haccepted : reserveError cfg start.producer payloadSize = none)
    (tsc : UInt64) :
    CallInv cfg start payloadSize typeId (reserve cfg start payloadSize typeId tsc) := by
  simp only [SharedMemory.reserve, haccepted]
  split
  · exact .waits rfl rfl rfl rfl rfl
  · exact .returned

theorem CallInv.pass (h : CallInv cfg start payloadSize typeId state) (turn : Turn) :
    CallInv cfg start payloadSize typeId (passAt cfg state turn) := by
  cases h with
  | returned => exact .returned
  | @waits _ pending hpending hsize htype hcurrent htarget =>
      obtain ⟨hsize', htype', hcurrent', htarget'⟩ := refresh_fields pending turn.tsc turn.clock
      rw [hsize] at hsize'
      rw [htype] at htype'
      rw [hcurrent] at hcurrent'
      rw [htarget] at htarget'
      simp only [passAt, hpending, scanPass]
      split
      · rw [hsize', htype', hcurrent', htarget']
        exact .returned
      · exact .waits rfl hsize' htype' hcurrent' htarget'

theorem CallInv.call (haccepted : reserveError cfg start.producer payloadSize = none)
    (tsc : UInt64) (turns : List Turn) :
    CallInv cfg start payloadSize typeId
      (reserveCall cfg start payloadSize typeId tsc turns) := by
  have hpasses : ∀ (turns : List Turn) (state : State),
      CallInv cfg start payloadSize typeId state →
        CallInv cfg start payloadSize typeId (turns.foldl (passAt cfg) state) := by
    intro turns
    induction turns with
    | nil => exact fun _ h => h
    | cons turn turns ih => exact fun state h => ih (passAt cfg state turn) (h.pass turn)
  exact hpasses turns _ (.reserve haccepted tsc)

/-- A call that has returned did so through the end of `Reserve`. -/
theorem CallInv.finished (h : CallInv cfg start payloadSize typeId state)
    (hreturned : state.producer.pending = none) :
    ∃ before, state = finishReserve cfg before payloadSize typeId
      start.shared.header.producerCursor
      (start.shared.header.producerCursor + requiredSpace payloadSize) := by
  cases h with
  | @waits _ pending hpending =>
      rw [hreturned] at hpending
      cases hpending
  | returned => exact ⟨_, rfl⟩

/-- Over an empty roster the scan lowers nothing, so a pass ends the wait. -/
theorem passAt_returns {turn : Turn} (hempty : turn.readers = fun _ => {})
    (state : State) : (passAt cfg state turn).producer.pending = none := by
  unfold passAt
  split
  · next hnone => exact hnone
  · next pending _ =>
      have hscan : ∀ (now timeout : Int) (target : UInt64),
          (scanReaders now timeout turn.readers target).2 = target := by
        intro now timeout target
        rw [hempty, scanReaders]
        generalize List.finRange kMaxReaders = indices
        induction indices with
        | nil => rfl
        | cons index indices ih =>
            rw [List.foldl_cons]
            exact ih
      simp only [scanPass, rescan, hscan, UInt64.sub_self]
      rfl

end Call

/-! ## When the space fits -/

/-- A producer rejects what its whole buffer cannot hold. -/
theorem reserveError_eq_none_iff {cfg : Config} {producer : Producer} {payloadSize : UInt32} :
    reserveError cfg producer payloadSize = none ↔
      producer.isProducer = true ∧ requiredSpace payloadSize ≤ cfg.capacity := by
  unfold reserveError
  cases producer.isProducer with
  | false => simp
  | true => simp

/-- The payload sizes whose frame size has 32 bits. -/
theorem reservation_size {payloadSize : UInt32} (h : payloadSize.toNat ≤ 2 ^ 32 - 32) :
    (requiredSpace payloadSize).toUInt32.toNat = (requiredSpace payloadSize).toNat ∧
      (requiredSpace payloadSize).toNat < 2 ^ 32 := by
  have hspace := requiredSpace_toNat payloadSize
  rw [alignedPayloadSize_toNat (by omega)] at hspace
  have hlt : (requiredSpace payloadSize).toNat < 2 ^ 32 := by
    unfold kFrameHeaderSize at hspace
    omega
  refine ⟨?_, hlt⟩
  rw [UInt64.toNat_toUInt32, Nat.mod_eq_of_lt hlt]

/-- Beyond them the rounding or the stored size wraps around to at most a header. -/
theorem reservation_size_wraps {payloadSize : UInt32} (h : 2 ^ 32 - 32 < payloadSize.toNat) :
    (requiredSpace payloadSize).toUInt32.toNat ≤ kFrameHeaderSize := by
  have hlt := payloadSize.toNat_lt
  rw [UInt64.toNat_toUInt32, requiredSpace_toNat, alignedPayloadSize, and_not_seven_toNat,
    UInt32.toNat_add]
  simp only [UInt32.reduceToNat, kFrameHeaderSize]
  omega

section Fits

variable {cfg : Config} {start state : State} {payloadSize typeId : UInt32}

/-- What `Reserve` leaves when it returns a pointer fits, if the frame size has 32 bits. -/
theorem GrantFits.finish (hsize : payloadSize.toNat ≤ 2 ^ 32 - 32)
    (haccepted : requiredSpace payloadSize ≤ cfg.capacity) :
    let after := finishReserve cfg state payloadSize typeId start.shared.header.producerCursor
      (start.shared.header.producerCursor + requiredSpace payloadSize)
    ∃ grant reservation, after.producer.grant = some grant ∧
      after.producer.currentReservation = some reservation ∧
      GrantFits cfg start after payloadSize grant reservation := by
  obtain ⟨hstored, hlt⟩ := reservation_size hsize
  have hfits : kFrameHeaderSize + payloadSize.toNat ≤ (requiredSpace payloadSize).toNat :=
    payload_fits (by omega)
  have hcapacity : (requiredSpace payloadSize).toNat ≤ cfg.capacity.toNat := by
    rwa [UInt64.le_iff_toNat_le] at haccepted
  have hframe : frameAddress cfg.capacity start.shared.header.producerCursor <
      cfg.capacity.toNat := by
    rw [frameAddress_eq]
    exact Nat.mod_lt _ cfg.nonempty
  refine ⟨_, _, rfl, rfl, rfl, ?_, ?_, ?_, ?_, ?_⟩
  · rw [hstored]
    change frameAddress _ _ + _ + _ ≤ frameAddress _ _ + _
    omega
  · change frameAddress _ _ + _ + _ ≤ _
    omega
  · omega
  · change (start.shared.header.producerCursor + requiredSpace payloadSize -
      start.shared.header.producerCursor).toNat = _
    rw [UInt64.add_comm, UInt64.add_sub_cancel, hstored]
  · have hheader : kFrameHeaderSize ≤ cfg.capacity.toNat := by omega
    have hread := (writeHeader_stored hheader state.shared.data
      (frameAddress cfg.capacity start.shared.header.producerCursor) payloadSize typeId
      (Int64.ofInt state.clock)).2.length
    change totalFrameSize (loadLength cfg.capacity (writeHeader cfg.capacity state.shared.data
      (frameAddress cfg.capacity start.shared.header.producerCursor) payloadSize typeId _) _) = _
    change loadLength cfg.capacity _ (frameAddress _ _) = _ at hread
    apply UInt32.toNat_inj.mp
    rw [show (start.shared.header.producerCursor % cfg.capacity).toNat =
      frameAddress cfg.capacity start.shared.header.producerCursor from rfl, hread,
      totalFrameSize_toNat hlt, hstored]

end Fits

/-- `Reserve` hands out space that fits exactly for the payload sizes up to `2 ^ 32 - 32` and those
that it rejects. -/
theorem hands_out_fitting (cfg : Config) (state : State) (payloadSize : UInt32) :
    HandsOutFitting cfg state payloadSize ↔
      payloadSize.toNat ≤ 2 ^ 32 - 32 ∨ state.producer.isProducer = false ∨
        cfg.capacity < requiredSpace payloadSize := by
  constructor
  · intro h
    by_contra hcontra
    push Not at hcontra
    obtain ⟨hsize, hproducer, hcapacity⟩ := hcontra
    have haccepted : reserveError cfg state.producer payloadSize = none :=
      reserveError_eq_none_iff.mpr ⟨by simpa using hproducer, UInt64.not_lt.mp hcapacity⟩
    have hcall := h 0 0
    simp only [haccepted] at hcall
    -- The others have all left when the call looks at the roster.
    let left : Turn := ⟨fun _ => {}, 0, 0⟩
    obtain ⟨grant, reservation, -, hreservation, hfits⟩ := hcall [left] (passAt_returns rfl _)
    have hinv : CallInv cfg state payloadSize 0 (reserveCall cfg state payloadSize 0 0 [left]) :=
      .call haccepted 0 [left]
    obtain ⟨before, hafter⟩ := hinv.finished (passAt_returns rfl _)
    have htotal : reservation.totalFrameSize = (requiredSpace payloadSize).toUInt32 := by
      rw [hafter] at hreservation
      exact congrArg Reservation.totalFrameSize (Option.some.inj hreservation).symm
    have hwraps := reservation_size_wraps hsize
    have hframe := hfits.in_frame
    rw [← hfits.payload, htotal] at hframe
    omega
  · intro h typeId tsc
    cases haccepted : reserveError cfg state.producer payloadSize with
    | some status => simp only [reserve, haccepted]
    | none =>
        obtain ⟨hproducer, hcapacity⟩ := reserveError_eq_none_iff.mp haccepted
        have hsize : payloadSize.toNat ≤ 2 ^ 32 - 32 := by
          rcases h with hsize | hreader | hlarge
          · exact hsize
          · rw [hproducer] at hreader
            cases hreader
          · exact absurd hcapacity (UInt64.not_le.mpr hlarge)
        intro turns
        dsimp only
        intro hreturned
        obtain ⟨before, hafter⟩ := (CallInv.call haccepted tsc turns).finished hreturned
        rw [hafter]
        exact GrantFits.finish hsize hcapacity

/-- The size that rounds up to `2 ^ 32` is accepted by every buffer. -/
theorem wrapped_payload_does_not_fit : ¬ HandsOutFitting onePage (created 0) 4294967295 := by
  intro h
  obtain ⟨_, _, -, -, hfits⟩ := h 0 0 [] rfl
  exact absurd hfits.in_capacity (by decide)

/-! ## What a poll reads -/

/-- A poll copies the frame at the position. -/
structure Readable (capacity : UInt64) (shared : Shared) (position : UInt64) : Prop where
  pollable : Pollable capacity shared position
  even : loadVersion capacity shared.data (frameAddress capacity position) &&& 1 = 0
  checked : LengthChecked capacity shared.data position

/-- The length field at the position. -/
def lengthAt (capacity : UInt64) (data : Nat → UInt8) (position : UInt64) : Nat :=
  (loadLength capacity data (frameAddress capacity position)).toNat

/-- A payload at the position ends inside the mirror. -/
def InsideMirror (capacity : UInt64) (position : UInt64) (length : Nat) : Prop :=
  frameAddress capacity position + kFrameHeaderSize + length ≤ 2 * capacity.toNat

section Batch

variable {capacity : UInt64} {shared : Shared}

/-- The batch loop copies the frame at a position exactly if it is readable. -/
theorem readFrame_readable {position : UInt64} (h : Readable capacity shared position)
    (retries : Nat) :
    ∃ message, readFrame capacity shared position (retries + 1) =
      .read message (totalFrameSize (loadLength capacity shared.data
        (frameAddress capacity position))) := by
  have hlapped : ¬ shared.header.producerCursor - position > capacity :=
    UInt64.not_lt.mpr h.pollable.2
  have hchecked : ¬ (loadLength capacity shared.data
      (frameAddress capacity position)).toUInt64 > capacity := UInt64.not_lt.mpr h.checked
  simp [readFrame, hlapped, h.even, hchecked]

theorem readable_of_read {position : UInt64} {message : SafeMessage} {size : UInt32}
    {retries : Nat} (hdata : position < shared.header.commitCursor)
    (h : readFrame capacity shared position retries = .read message size) :
    Readable capacity shared position ∧
      size = totalFrameSize (loadLength capacity shared.data (frameAddress capacity position)) ∧
      message.payload.length = lengthAt capacity shared.data position := by
  induction retries with
  | zero => cases h
  | succ retries ih =>
      simp only [readFrame] at h
      split at h
      · cases h
      · next hlapped =>
          split at h
          · exact ih h
          · next heven =>
              split at h
              · cases h
              · next hchecked =>
                  cases h
                  exact ⟨⟨⟨hdata, UInt64.not_lt.mp hlapped⟩, not_not.mp heven,
                    UInt64.not_lt.mp hchecked⟩, rfl, by simp [loadPayload, lengthAt]⟩

/-- The frame with an index in a batch stands at the position with that index. -/
theorem batchFrames_getElem {maxMessages index : Nat} {cursor : UInt64} {frame : PolledFrame}
    (h : (batchFrames capacity shared maxMessages cursor)[index]? = some frame) :
    Readable capacity shared (framePosition capacity shared.data cursor index) ∧
      frame.message.payload.length =
        lengthAt capacity shared.data (framePosition capacity shared.data cursor index) := by
  induction maxMessages generalizing index cursor with
  | zero => cases h
  | succ remaining ih =>
      simp only [batchFrames] at h
      split at h
      · next hdata =>
          split at h
          · next message size hread =>
              obtain ⟨hreadable, hsize, hlength⟩ := readable_of_read hdata hread
              cases index with
              | zero =>
                  obtain rfl := Option.some.inj h
                  exact ⟨hreadable, hlength⟩
              | succ index =>
                  rw [hsize, List.getElem?_cons_succ] at h
                  have hrest := ih h
                  exact hrest
          · cases h
      · cases h

theorem length_batchFrames_le (maxMessages : Nat) (cursor : UInt64) :
    (batchFrames capacity shared maxMessages cursor).length ≤ maxMessages := by
  induction maxMessages generalizing cursor with
  | zero => exact Nat.le_refl 0
  | succ remaining ih =>
      simp only [batchFrames]
      split
      · split
        · exact Nat.succ_le_succ (ih _)
        · exact Nat.zero_le _
      · exact Nat.zero_le _

/-- A batch copies the frames as long as they are readable. -/
theorem exists_batchFrame {maxMessages index : Nat} {cursor : UInt64} (hlt : index < maxMessages)
    (h : ∀ earlier ≤ index,
      Readable capacity shared (framePosition capacity shared.data cursor earlier)) :
    ∃ frame, (batchFrames capacity shared maxMessages cursor)[index]? = some frame := by
  induction maxMessages generalizing index cursor with
  | zero => cases hlt
  | succ remaining ih =>
      have hfirst : Readable capacity shared cursor := h 0 (Nat.zero_le _)
      obtain ⟨message, hread⟩ := readFrame_readable hfirst kMaxRetries
      simp only [batchFrames, if_pos hfirst.pollable.1, hread]
      cases index with
      | zero => exact ⟨_, rfl⟩
      | succ index =>
          exact ih (Nat.lt_of_succ_lt_succ hlt) fun earlier hle =>
            h (earlier + 1) (Nat.succ_le_succ hle)

end Batch

/-! ## When the polls stay inside the mirror -/

/-- The answer to a length field that is too large. -/
def corruptLength : Status := ⟨.dataLoss, "Corrupt frame length detected"⟩

/-- `PollZeroCopy` exposes bytes of the mirror only, and answers a length field for which this is
not so with an error. -/
def ZeroCopyInside (capacity : UInt64) (shared : Shared) (reader : BroadcastReader) : Prop :=
  (∀ header span, pollZeroCopy capacity shared reader = .ok (header, span) →
      span.address + span.size ≤ 2 * capacity.toNat) ∧
    (Pollable capacity shared reader.cursor →
      ¬ InsideMirror capacity reader.cursor (lengthAt capacity shared.data reader.cursor) →
      pollZeroCopy capacity shared reader = .error corruptLength)

/-- The same for the bytes that `PollCopy` copies. -/
def CopyInside (capacity : UInt64) (shared : Shared) (reader : BroadcastReader) : Prop :=
  (∀ header message, pollCopy capacity shared reader = some (.ok (header, message)) →
      InsideMirror capacity reader.cursor message.payload.length) ∧
    (Pollable capacity shared reader.cursor →
      loadVersion capacity shared.data (frameAddress capacity reader.cursor) &&& 1 = 0 →
      ¬ InsideMirror capacity reader.cursor (lengthAt capacity shared.data reader.cursor) →
      pollCopy capacity shared reader = some (.error corruptLength))

/-- The same for the bytes that `PollCopyBatch` copies, and for its first frame. -/
def BatchInside (capacity : UInt64) (shared : Shared) (reader : BroadcastReader)
    (maxMessages : Nat) (messagesOut : List SafeMessage) : Prop :=
  let batch := pollBatch capacity shared reader maxMessages messagesOut
  (∀ index < batch.messagesRead, ∀ message, batch.messagesOut[index]? = some message →
      InsideMirror capacity (framePosition capacity shared.data reader.cursor index)
        message.payload.length) ∧
    (0 < maxMessages → Pollable capacity shared reader.cursor →
      loadVersion capacity shared.data (frameAddress capacity reader.cursor) &&& 1 = 0 →
      ¬ InsideMirror capacity reader.cursor (lengthAt capacity shared.data reader.cursor) →
      batch.result = .error corruptLength)

/-- A length field passes the check of the polls although its payload ends beyond the mirror. -/
def Overhangs (capacity : UInt64) (data : Nat → UInt8) (position : UInt64) : Prop :=
  LengthChecked capacity data position ∧
    ¬ InsideMirror capacity position (lengthAt capacity data position)

/-- Only a header that begins less than its size before the end of the buffer can overhang. -/
theorem Overhangs.near_end {capacity : UInt64} {data : Nat → UInt8} {position : UInt64}
    (h : Overhangs capacity data position) :
    capacity.toNat < frameAddress capacity position + kFrameHeaderSize := by
  obtain ⟨hchecked, hout⟩ := h
  have hlength := UInt64.le_iff_toNat_le.mp hchecked
  rw [UInt32.toNat_toUInt64] at hlength
  unfold InsideMirror lengthAt at hout
  omega

section Polls

variable {capacity : UInt64} {shared : Shared} {reader : BroadcastReader}

/-- `PollZeroCopy` where there is data that is not lapped. -/
theorem pollZeroCopy_pollable (h : Pollable capacity shared reader.cursor) :
    (LengthChecked capacity shared.data reader.cursor → ∃ header,
        pollZeroCopy capacity shared reader = .ok (header,
          ⟨frameAddress capacity reader.cursor + kFrameHeaderSize,
            lengthAt capacity shared.data reader.cursor⟩)) ∧
      (¬ LengthChecked capacity shared.data reader.cursor →
        pollZeroCopy capacity shared reader = .error corruptLength) := by
  have hge : ¬ reader.cursor ≥ shared.header.commitCursor := UInt64.not_le.mpr h.1
  have hlapped : ¬ shared.header.producerCursor - reader.cursor > capacity :=
    UInt64.not_lt.mpr h.2
  constructor
  · intro hchecked
    have hlength : ¬ (loadLength capacity shared.data
        (frameAddress capacity reader.cursor)).toUInt64 > capacity := UInt64.not_lt.mpr hchecked
    simp [pollZeroCopy, hge, hlapped, hlength, lengthAt]
  · intro hchecked
    have hlength : (loadLength capacity shared.data
        (frameAddress capacity reader.cursor)).toUInt64 > capacity := UInt64.not_le.mp hchecked
    simp [pollZeroCopy, hge, hlapped, hlength, corruptLength]

/-- Elsewhere it answers with an error. -/
theorem pollZeroCopy_not_pollable (h : ¬ Pollable capacity shared reader.cursor) :
    ∃ status, pollZeroCopy capacity shared reader = .error status := by
  by_cases hdata : reader.cursor < shared.header.commitCursor
  · have hlapped : shared.header.producerCursor - reader.cursor > capacity :=
      UInt64.not_le.mp fun hle => h ⟨hdata, hle⟩
    simp [pollZeroCopy, UInt64.not_le.mpr hdata, hlapped]
  · simp [pollZeroCopy, UInt64.not_lt.mp hdata]

/-- `PollZeroCopy` stays inside unless the header that it looks at overhangs. -/
theorem zeroCopy_inside :
    ZeroCopyInside capacity shared reader ↔
      (Pollable capacity shared reader.cursor →
        ¬ Overhangs capacity shared.data reader.cursor) := by
  by_cases hpollable : Pollable capacity shared reader.cursor
  · obtain ⟨hok, herror⟩ := pollZeroCopy_pollable hpollable
    constructor
    · rintro ⟨hspan, -⟩ - ⟨hchecked, hout⟩
      obtain ⟨header, hpoll⟩ := hok hchecked
      exact hout (hspan header _ hpoll)
    · intro hinside
      refine ⟨fun header span hpoll => ?_, fun _ hout => herror fun hchecked =>
        hinside hpollable ⟨hchecked, hout⟩⟩
      by_cases hchecked : LengthChecked capacity shared.data reader.cursor
      · obtain ⟨header', hpoll'⟩ := hok hchecked
        rw [hpoll'] at hpoll
        cases hpoll
        by_contra hout
        exact hinside hpollable ⟨hchecked, hout⟩
      · rw [herror hchecked] at hpoll
        cases hpoll
  · obtain ⟨status, hpoll⟩ := pollZeroCopy_not_pollable hpollable
    refine ⟨fun _ h => absurd h hpollable, fun _ => ⟨fun header span h => ?_,
      fun h => absurd h hpollable⟩⟩
    rw [hpoll] at h
    cases h

/-- A copy that `PollCopy` returns is that of a readable frame. -/
theorem readable_of_pollCopy {header : FrameHeader} {message : SafeMessage}
    (h : pollCopy capacity shared reader = some (.ok (header, message))) :
    Readable capacity shared reader.cursor ∧
      message.payload.length = lengthAt capacity shared.data reader.cursor := by
  simp only [pollCopy, pollCopyPass] at h
  split at h
  · cases h
  · next hdata =>
      by_cases hlapped : shared.header.producerCursor - reader.cursor > capacity
      · simp [hlapped] at h
      · by_cases heven : loadVersion capacity shared.data
          (frameAddress capacity reader.cursor) &&& 1 = 0
        · by_cases hlength : (loadLength capacity shared.data
            (frameAddress capacity reader.cursor)).toUInt64 > capacity
          · simp [hlapped, heven, hlength] at h
          · simp only [hlapped, heven, hlength, ne_eq, not_true_eq_false, ↓reduceIte,
              Option.some.injEq, Except.ok.injEq, Prod.mk.injEq] at h
            obtain ⟨-, rfl⟩ := h
            exact ⟨⟨⟨UInt64.not_le.mp hdata, UInt64.not_lt.mp hlapped⟩, heven,
              UInt64.not_lt.mp hlength⟩, by simp [loadPayload, lengthAt]⟩
        · simp [hlapped, heven] at h

/-- `PollCopy` where there is a finished frame that is not lapped. -/
theorem pollCopy_pollable (h : Pollable capacity shared reader.cursor)
    (heven : loadVersion capacity shared.data (frameAddress capacity reader.cursor) &&& 1 = 0) :
    (LengthChecked capacity shared.data reader.cursor → ∃ header message,
        pollCopy capacity shared reader = some (.ok (header, message))) ∧
      (¬ LengthChecked capacity shared.data reader.cursor →
        pollCopy capacity shared reader = some (.error corruptLength)) := by
  have hge : ¬ reader.cursor ≥ shared.header.commitCursor := UInt64.not_le.mpr h.1
  have hlapped : ¬ shared.header.producerCursor - reader.cursor > capacity :=
    UInt64.not_lt.mpr h.2
  constructor
  · intro hchecked
    have hlength : ¬ (loadLength capacity shared.data
        (frameAddress capacity reader.cursor)).toUInt64 > capacity := UInt64.not_lt.mpr hchecked
    simp [pollCopy, pollCopyPass, hge, hlapped, heven, hlength]
  · intro hchecked
    have hlength : (loadLength capacity shared.data
        (frameAddress capacity reader.cursor)).toUInt64 > capacity := UInt64.not_le.mp hchecked
    simp [pollCopy, pollCopyPass, hge, hlapped, heven, hlength, corruptLength]

/-- `PollCopy` stays inside unless the header of the finished frame that it looks at overhangs. -/
theorem copy_inside :
    CopyInside capacity shared reader ↔
      (Pollable capacity shared reader.cursor →
        loadVersion capacity shared.data (frameAddress capacity reader.cursor) &&& 1 = 0 →
        ¬ Overhangs capacity shared.data reader.cursor) := by
  constructor
  · rintro ⟨hcopy, -⟩ hpollable heven ⟨hchecked, hout⟩
    obtain ⟨header, message, hpoll⟩ := (pollCopy_pollable hpollable heven).1 hchecked
    rw [← (readable_of_pollCopy hpoll).2] at hout
    exact hout (hcopy header message hpoll)
  · intro hinside
    refine ⟨fun header message hpoll => ?_, fun hpollable heven hout =>
      (pollCopy_pollable hpollable heven).2 fun hchecked =>
        hinside hpollable heven ⟨hchecked, hout⟩⟩
    obtain ⟨hreadable, hlength⟩ := readable_of_pollCopy hpoll
    rw [hlength]
    by_contra hout
    exact hinside hreadable.pollable hreadable.even ⟨hreadable.checked, hout⟩

/-- A batch whose first frame has a length field that is too large returns the error. -/
theorem pollBatch_corrupt {maxMessages : Nat} (messagesOut : List SafeMessage)
    (hmax : 0 < maxMessages) (h : Pollable capacity shared reader.cursor)
    (heven : loadVersion capacity shared.data (frameAddress capacity reader.cursor) &&& 1 = 0)
    (hcorrupt : ¬ LengthChecked capacity shared.data reader.cursor) :
    (pollBatch capacity shared reader maxMessages messagesOut).result = .error corruptLength := by
  have hlapped : ¬ shared.header.producerCursor - reader.cursor > capacity :=
    UInt64.not_lt.mpr h.2
  have hlength : (loadLength capacity shared.data
      (frameAddress capacity reader.cursor)).toUInt64 > capacity := UInt64.not_le.mp hcorrupt
  have hread : readFrame capacity shared reader.cursor (kMaxRetries + 1) = .corrupt := by
    simp [readFrame, hlapped, heven, hlength]
  obtain ⟨remaining, rfl⟩ := Nat.exists_eq_add_of_lt hmax
  have hframes : batchFrames capacity shared (0 + remaining + 1) reader.cursor = [] := by
    simp only [batchFrames, hread, ite_self]
  obtain ⟨-, -, -, -, herror⟩ := pollBatch_eq capacity shared reader (0 + remaining + 1) messagesOut
  have hfailure := herror hframes hmax
  rw [if_pos h.1] at hfailure
  simp only [batchError, hread] at hfailure
  simp only [Batch.result, hfailure, corruptLength]

/-- `PollCopyBatch` stays inside unless one of the frames that it copies overhangs. -/
theorem batch_inside {maxMessages : Nat} {messagesOut : List SafeMessage} :
    BatchInside capacity shared reader maxMessages messagesOut ↔
      ∀ index < maxMessages, (∀ earlier ≤ index,
          Readable capacity shared (framePosition capacity shared.data reader.cursor earlier)) →
        ¬ Overhangs capacity shared.data
          (framePosition capacity shared.data reader.cursor index) := by
  obtain ⟨hcount, -, htake, -⟩ := pollBatch_eq capacity shared reader maxMessages messagesOut
  have hentry : ∀ index frame,
      (batchFrames capacity shared maxMessages reader.cursor)[index]? = some frame →
        index < (pollBatch capacity shared reader maxMessages messagesOut).messagesRead ∧
          (pollBatch capacity shared reader maxMessages messagesOut).messagesOut[index]? =
            some frame.message := by
    intro index frame hframe
    obtain ⟨hlt, hget⟩ := List.getElem?_eq_some_iff.mp hframe
    refine ⟨hcount ▸ hlt, ?_⟩
    have hmessage := congrArg (·[index]?) htake
    simpa [List.getElem?_take, hlt, messagesOf, hget] using hmessage
  constructor
  · rintro ⟨hbatch, -⟩ index hlt hreadable ⟨hchecked, hout⟩
    obtain ⟨frame, hframe⟩ := exists_batchFrame hlt hreadable
    obtain ⟨hread, hmessage⟩ := hentry index frame hframe
    rw [← (batchFrames_getElem hframe).2] at hout
    exact hout (hbatch index hread frame.message hmessage)
  · intro hinside
    refine ⟨fun index hread message hmessage => ?_, fun hmax hpollable heven hout =>
      pollBatch_corrupt messagesOut hmax hpollable heven fun hchecked => ?_⟩
    · rw [hcount] at hread
      obtain ⟨frame, hframe⟩ : ∃ frame,
          (batchFrames capacity shared maxMessages reader.cursor)[index]? = some frame :=
        ⟨_, List.getElem?_eq_getElem hread⟩
      rw [(hentry index frame hframe).2] at hmessage
      obtain rfl := Option.some.inj hmessage
      obtain ⟨hreadable, hlength⟩ := batchFrames_getElem hframe
      rw [hlength]
      by_contra hout
      have hlt := Nat.lt_of_lt_of_le hread (length_batchFrames_le maxMessages reader.cursor)
      refine hinside index hlt (fun earlier hle => ?_) ⟨hreadable.checked, hout⟩
      exact (batchFrames_getElem (List.getElem?_eq_getElem (Nat.lt_of_le_of_lt hle hread))).1
    · exact hinside 0 hmax (fun earlier hle => by
        rw [Nat.le_zero.mp hle]
        exact ⟨hpollable, heven, hchecked⟩) ⟨hchecked, hout⟩

end Polls

/-- The three polls stay inside the mirror exactly if no header that they act on overhangs. -/
theorem polls_inside (capacity : UInt64) (shared : Shared) (reader : BroadcastReader)
    (maxMessages : Nat) (messagesOut : List SafeMessage) :
    (ZeroCopyInside capacity shared reader ↔
      (Pollable capacity shared reader.cursor →
        ¬ Overhangs capacity shared.data reader.cursor)) ∧
    (CopyInside capacity shared reader ↔
      (Pollable capacity shared reader.cursor →
        loadVersion capacity shared.data (frameAddress capacity reader.cursor) &&& 1 = 0 →
        ¬ Overhangs capacity shared.data reader.cursor)) ∧
    (BatchInside capacity shared reader maxMessages messagesOut ↔
      ∀ index < maxMessages, (∀ earlier ≤ index,
          Readable capacity shared (framePosition capacity shared.data reader.cursor earlier)) →
        ¬ Overhangs capacity shared.data
          (framePosition capacity shared.data reader.cursor index)) :=
  ⟨zeroCopy_inside, copy_inside, batch_inside⟩

/-- A header eight bytes before the end of a buffer of one page, with the capacity in its length
field. -/
theorem overhanging_header_escapes :
    ¬ (ZeroCopyInside 4096 ⟨⟨8184, 8184, fun _ => {}⟩,
      fun address => if address = 4093 then 16 else 0⟩
        { cursor := 4088 } ∧
      CopyInside 4096 ⟨⟨8184, 8184, fun _ => {}⟩, fun address => if address = 4093 then 16 else 0⟩
        { cursor := 4088 } ∧
      BatchInside 4096 ⟨⟨8184, 8184, fun _ => {}⟩, fun address => if address = 4093 then 16 else 0⟩
        { cursor := 4088 } 1 []) := by
  rintro ⟨⟨hspan, -⟩, -⟩
  exact absurd (hspan ⟨4096, 0, 0⟩ ⟨4112, 4096⟩ (by decide +kernel)) (by decide)

end HotPath.SharedMemory
