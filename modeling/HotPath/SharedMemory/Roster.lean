import HotPath.SharedMemory.Ring

/-!
# What a call does to the reader slots

`RosterStep` lists everything that one call can do to the slots and to the consumers' handles,
and `step_roster` reads it off the step function. The invariants about slots, heartbeats and
handles are proved by cases on `RosterStep` and never unfold a call again.

`scanReaders_slots` and `scanReaders_min_le` say the same for the producer's scan: the slots
whose heartbeat is too old are cleared, and the resulting minimum is a lower bound of the cursors
of the slots that stay active.
-/

namespace HotPath.SharedMemory

open HotPath.Foundation

/-! ## The scan -/

/-- The slot after a scan pass has looked at it. -/
def evictExpired (now evictTimeoutNs : Int) (slot : ReaderSlot) : ReaderSlot :=
  if slot.active ∧ now - slot.heartbeatTs > evictTimeoutNs then { slot with active := false }
  else slot

/-- A slot that is active after the pass was active before it and is unchanged. -/
theorem evictExpired_of_active {now evictTimeoutNs : Int} {slot : ReaderSlot}
    (h : (evictExpired now evictTimeoutNs slot).active = true) :
    evictExpired now evictTimeoutNs slot = slot := by
  unfold evictExpired at h ⊢
  split at h
  · simp at h
  · split
    · contradiction
    · rfl

@[simp] theorem evictExpired_generationId (now evictTimeoutNs : Int) (slot : ReaderSlot) :
    (evictExpired now evictTimeoutNs slot).generationId = slot.generationId := by
  unfold evictExpired
  split <;> rfl

@[simp] theorem evictExpired_heartbeatTs (now evictTimeoutNs : Int) (slot : ReaderSlot) :
    (evictExpired now evictTimeoutNs slot).heartbeatTs = slot.heartbeatTs := by
  unfold evictExpired
  split <;> rfl

/-- One iteration of the scan evicts its slot if the slot has expired and leaves the others. -/
theorem scanSlot_slots (now evictTimeoutNs : Int)
    (acc : (Fin kMaxReaders → ReaderSlot) × UInt64) (index : Fin kMaxReaders) :
    (scanSlot now evictTimeoutNs acc index).1 =
      Function.update acc.1 index (evictExpired now evictTimeoutNs (acc.1 index)) := by
  simp only [scanSlot]
  split
  · next hactive =>
      split
      · next hexpired => rw [evictExpired, if_pos ⟨hactive, hexpired⟩]
      · next hexpired =>
          have hkeep : evictExpired now evictTimeoutNs (acc.1 index) = acc.1 index :=
            if_neg fun h => hexpired h.2
          rw [hkeep, Function.update_eq_self]
          split <;> rfl
  · next hinactive =>
      have hkeep : evictExpired now evictTimeoutNs (acc.1 index) = acc.1 index :=
        if_neg fun h => hinactive h.1
      rw [hkeep, Function.update_eq_self]

/-- One iteration of the scan never raises the minimum, and takes a surviving slot into
account. -/
theorem scanSlot_min (now evictTimeoutNs : Int)
    (acc : (Fin kMaxReaders → ReaderSlot) × UInt64) (index : Fin kMaxReaders) :
    (scanSlot now evictTimeoutNs acc index).2 ≤ acc.2 ∧
      ((evictExpired now evictTimeoutNs (acc.1 index)).active = true →
        (scanSlot now evictTimeoutNs acc index).2 ≤ (acc.1 index).cursor) := by
  simp only [scanSlot, evictExpired]
  split
  · next hactive =>
      split
      · next hexpired => simp [hactive, hexpired]
      · split
        · next hlt => exact ⟨UInt64.le_of_lt hlt, fun _ => UInt64.le_refl _⟩
        · next hge => exact ⟨UInt64.le_refl _, fun _ => UInt64.not_lt.mp hge⟩
  · next hinactive => simp [hinactive]

/-- The scan over a list of distinct slots. -/
theorem scan_foldl (now evictTimeoutNs : Int) (indices : List (Fin kMaxReaders))
    (hnodup : indices.Nodup) (acc : (Fin kMaxReaders → ReaderSlot) × UInt64) :
    let scan := indices.foldl (scanSlot now evictTimeoutNs) acc
    (∀ other, scan.1 other =
      if other ∈ indices then evictExpired now evictTimeoutNs (acc.1 other) else acc.1 other) ∧
    scan.2 ≤ acc.2 ∧
    ∀ index ∈ indices, (evictExpired now evictTimeoutNs (acc.1 index)).active = true →
      scan.2 ≤ (acc.1 index).cursor := by
  induction indices generalizing acc with
  | nil => simp
  | cons head rest ih =>
      obtain ⟨hhead, hrest⟩ := List.nodup_cons.mp hnodup
      obtain ⟨hslots, hmin, hcursors⟩ := ih hrest (scanSlot now evictTimeoutNs acc head)
      obtain ⟨hlower, hcursor⟩ := scanSlot_min now evictTimeoutNs acc head
      simp only [List.foldl_cons]
      refine ⟨fun other => ?_, UInt64.le_trans hmin hlower, fun index hindex hactive => ?_⟩
      · rw [hslots other, scanSlot_slots]
        by_cases hother : other = head
        · subst hother
          simp [hhead]
        · simp [hother, Function.update_of_ne]
      · rcases List.mem_cons.mp hindex with rfl | hmem
        · exact UInt64.le_trans hmin (hcursor hactive)
        · have hne : index ≠ head := fun heq => hhead (heq ▸ hmem)
          have hslot : (scanSlot now evictTimeoutNs acc head).1 index = acc.1 index := by
            simp [scanSlot_slots, hne]
          simpa [hslot] using hcursors index hmem (by simpa [hslot] using hactive)

section Scan

variable {now evictTimeoutNs : Int} {slots : Fin kMaxReaders → ReaderSlot} {targetCursor : UInt64}

/-- A scan evicts exactly the expired slots. -/
theorem scanReaders_slots (targetCursor : UInt64) :
    (scanReaders now evictTimeoutNs slots targetCursor).1 =
      fun index => evictExpired now evictTimeoutNs (slots index) := by
  funext index
  have hscan := (scan_foldl now evictTimeoutNs (List.finRange kMaxReaders)
    (List.nodup_finRange _) (slots, targetCursor)).1 index
  simpa [scanReaders] using hscan

/-- The minimum of a scan is at most the target. -/
theorem scanReaders_le_target :
    (scanReaders now evictTimeoutNs slots targetCursor).2 ≤ targetCursor :=
  (scan_foldl now evictTimeoutNs _ (List.nodup_finRange _) (slots, targetCursor)).2.1

/-- The minimum of a scan is a lower bound of the cursors that stay active. -/
theorem scanReaders_min_le {index : Fin kMaxReaders}
    (h : (evictExpired now evictTimeoutNs (slots index)).active = true) :
    (scanReaders now evictTimeoutNs slots targetCursor).2 ≤ (slots index).cursor :=
  (scan_foldl now evictTimeoutNs _ (List.nodup_finRange _) (slots, targetCursor)).2.2 index
    (List.mem_finRange index) h

/-- The minimum of a scan is the target or the cursor of an active slot. -/
theorem scanReaders_min_mem :
    (scanReaders now evictTimeoutNs slots targetCursor).2 = targetCursor ∨
      ∃ index, (slots index).active = true ∧
        (scanReaders now evictTimeoutNs slots targetCursor).2 = (slots index).cursor := by
  have hfold : ∀ (indices : List (Fin kMaxReaders))
      (acc : (Fin kMaxReaders → ReaderSlot) × UInt64),
      (∀ index, (acc.1 index).active = true → acc.1 index = slots index) →
      (acc.2 = targetCursor ∨
        ∃ index, (slots index).active = true ∧ acc.2 = (slots index).cursor) →
      (indices.foldl (scanSlot now evictTimeoutNs) acc).2 = targetCursor ∨
        ∃ index, (slots index).active = true ∧
          (indices.foldl (scanSlot now evictTimeoutNs) acc).2 = (slots index).cursor := by
    intro indices
    induction indices with
    | nil => exact fun _ _ hmin => hmin
    | cons head rest ih =>
        intro acc hkeep hmin
        refine ih _ (fun index hactive => ?_) ?_
        · rw [scanSlot_slots] at hactive ⊢
          by_cases hindex : index = head
          · subst hindex
            simp only [Function.update_self] at hactive ⊢
            have hkept := evictExpired_of_active hactive
            rw [hkept] at hactive ⊢
            exact hkeep index hactive
          · simp only [ne_eq, hindex, not_false_eq_true, Function.update_of_ne] at hactive ⊢
            exact hkeep index hactive
        · simp only [scanSlot]
          split
          · next hactive =>
              split
              · exact hmin
              · split
                · have hslot := hkeep head hactive
                  exact .inr ⟨head, hslot ▸ hactive, congrArg ReaderSlot.cursor hslot⟩
                · exact hmin
          · exact hmin
  exact hfold _ _ (fun _ _ => rfl) (.inl rfl)

end Scan

/-! ## Calls on slots and handles -/

/-- The first slot that is not active, which `RegisterReader` claims. -/
def freeSlot (slots : Fin kMaxReaders → ReaderSlot) : Option (Fin kMaxReaders) :=
  (List.finRange kMaxReaders).find? fun index => !(slots index).active

/-- The slot found is not active. -/
theorem freeSlot_inactive {index : Fin kMaxReaders} (h : freeSlot slots = some index) :
    (slots index).active = false := by
  simpa using List.find?_some h

/-- The handle that a call is made with. -/
def Event.reader : Event → Option ReaderId
  | .setCursor reader _ | .registerReader reader | .unregisterReader reader
  | .pollZeroCopy reader | .pollCopy reader | .pollCopyBatch reader _ | .advance reader _ =>
      some reader
  | .reserve .. | .scan _ | .writePayload _ | .commit | .tick _ => none

/-- The bytes by which a call advances the handle it is made with: the argument of `Advance`, or
the total that `PollCopyBatch` read. -/
def Event.advancesBy (cfg : Config) (state : State) : Event → Option UInt64
  | .advance _ totalFrameLength => some totalFrameLength
  | .pollCopyBatch reader maxMessages =>
      let batch := pollBatch cfg.capacity state.shared (state.readers reader) maxMessages []
      if batch.messagesRead > 0 then some batch.totalBytesAdvanced else none
  | _ => none

/-- The slots of the roster. -/
abbrev State.slots (state : State) : Fin kMaxReaders → ReaderSlot := state.shared.header.readers

/-- Everything that a call can do to the slots and the handles. -/
inductive RosterStep (cfg : Config) (state : State) :
    Event → (Fin kMaxReaders → ReaderSlot) → (ReaderId → BroadcastReader) → Prop where
  /-- A call that touches neither. -/
  | same (event) : event.advancesBy cfg state = none →
      (∀ reader, event = .unregisterReader reader → (state.readers reader).slotIndex = none) →
      RosterStep cfg state event state.slots state.readers
  /-- A pass of the producer's scan. -/
  | scan (tsc pending) : state.producer.pending = some pending →
      RosterStep cfg state (.scan tsc)
        (fun index => evictExpired (pending.refresh tsc state.clock).now cfg.evictTimeoutNs
          (state.slots index))
        state.readers
  /-- A consumer moves its local cursor only. -/
  | setCursor (reader cursor) :
      RosterStep cfg state (.setCursor reader cursor) state.slots
        (Function.update state.readers reader { state.readers reader with cursor })
  /-- A consumer claims a free slot. -/
  | register (reader index) : (state.readers reader).slotIndex = none →
      freeSlot state.slots = some index →
      RosterStep cfg state (.registerReader reader)
        (Function.update state.slots index {
          active := true
          cursor := (state.readers reader).cursor
          heartbeatTs := state.clock
          generationId := (state.slots index).generationId + 1 })
        (Function.update state.readers reader { state.readers reader with
          slotIndex := some index
          generationId := (state.slots index).generationId + 1 })
  /-- A bound consumer clears the slot that it names. -/
  | unregister (reader index) : (state.readers reader).slotIndex = some index →
      RosterStep cfg state (.unregisterReader reader)
        (Function.update state.slots index { state.slots index with active := false })
        (Function.update state.readers reader { state.readers reader with slotIndex := none })
  /-- A bound consumer advances and its generation matches. -/
  | publish (event reader index length) : event.reader = some reader →
      event.advancesBy cfg state = some length →
      (state.readers reader).slotIndex = some index →
      (state.slots index).generationId = (state.readers reader).generationId →
      RosterStep cfg state event
        (Function.update state.slots index { state.slots index with
          cursor := (state.readers reader).cursor + length
          heartbeatTs := state.clock })
        (Function.update state.readers reader { state.readers reader with
          cursor := (state.readers reader).cursor + length })
  /-- A bound consumer advances and finds that its slot has been given away. -/
  | unbind (event reader index length) : event.reader = some reader →
      event.advancesBy cfg state = some length →
      (state.readers reader).slotIndex = some index →
      (state.slots index).generationId ≠ (state.readers reader).generationId →
      RosterStep cfg state event state.slots
        (Function.update state.readers reader { state.readers reader with
          cursor := (state.readers reader).cursor + length
          slotIndex := none })
  /-- A consumer without a slot advances. -/
  | move (event reader length) : event.reader = some reader →
      event.advancesBy cfg state = some length →
      (state.readers reader).slotIndex = none →
      RosterStep cfg state event state.slots
        (Function.update state.readers reader { state.readers reader with
          cursor := (state.readers reader).cursor + length })

/-- `Reserve` fails, waits for space, or returns at once. -/
theorem reserve_cases (cfg : Config) (state : State) (payloadSize typeId : UInt32)
    (tsc : UInt64) :
    ((reserveError cfg state.producer payloadSize).isSome ∧
      reserve cfg state payloadSize typeId tsc = state) ∨
    (reserveError cfg state.producer payloadSize = none ∧
      state.shared.header.producerCursor + requiredSpace payloadSize -
        state.producer.cachedMinCursor > cfg.capacity ∧
      reserve cfg state payloadSize typeId tsc = state.wait ⟨payloadSize, typeId,
        state.shared.header.producerCursor,
        state.shared.header.producerCursor + requiredSpace payloadSize, state.clock, tsc⟩) ∨
    (reserveError cfg state.producer payloadSize = none ∧
      state.shared.header.producerCursor + requiredSpace payloadSize -
        state.producer.cachedMinCursor ≤ cfg.capacity ∧
      reserve cfg state payloadSize typeId tsc = finishReserve cfg state payloadSize typeId
        state.shared.header.producerCursor
        (state.shared.header.producerCursor + requiredSpace payloadSize)) := by
  unfold reserve
  cases herror : reserveError cfg state.producer payloadSize with
  | some status => exact .inl ⟨rfl, rfl⟩
  | none =>
      dsimp only
      split
      · next hwait => exact .inr (.inl ⟨rfl, hwait, rfl⟩)
      · next hroom => exact .inr (.inr ⟨rfl, UInt64.not_lt.mp hroom, rfl⟩)

/-- A pass of the scan loop ends the call or leaves it waiting. -/
theorem scanPass_cases (cfg : Config) (state : State) (pending : PendingReserve)
    (tsc : UInt64) :
    let refreshed := pending.refresh tsc state.clock
    let scanned := rescan cfg state refreshed
    (refreshed.targetCursor - scanned.producer.cachedMinCursor ≤ cfg.capacity ∧
      scanPass cfg state pending tsc = finishReserve cfg scanned refreshed.payloadSize
        refreshed.typeId refreshed.currentCursor refreshed.targetCursor) ∨
    (refreshed.targetCursor - scanned.producer.cachedMinCursor > cfg.capacity ∧
      scanPass cfg state pending tsc = scanned) := by
  dsimp only [scanPass]
  split
  · next hroom => exact .inl ⟨hroom, rfl⟩
  · next hwait => exact .inr ⟨UInt64.not_le.mp hwait, rfl⟩

section FinishReserve

variable (cfg : Config) (state : State) (payloadSize typeId : UInt32)
  (currentCursor target : UInt64)

@[simp] theorem finishReserve_slots :
    (finishReserve cfg state payloadSize typeId currentCursor target).slots = state.slots := rfl

@[simp] theorem finishReserve_readers :
    (finishReserve cfg state payloadSize typeId currentCursor target).readers = state.readers := rfl

@[simp] theorem finishReserve_clock :
    (finishReserve cfg state payloadSize typeId currentCursor target).clock = state.clock := rfl

@[simp] theorem finishReserve_producerCursor :
    (finishReserve cfg state payloadSize typeId currentCursor
      target).shared.header.producerCursor = target := rfl

@[simp] theorem finishReserve_commitCursor :
    (finishReserve cfg state payloadSize typeId currentCursor target).shared.header.commitCursor =
      state.shared.header.commitCursor := rfl

@[simp] theorem finishReserve_producer :
    (finishReserve cfg state payloadSize typeId currentCursor target).producer =
      { state.producer with
        currentReservation := some {
          claimedCursor := target
          startOffset := currentCursor % cfg.capacity
          totalFrameSize := (requiredSpace payloadSize).toUInt32 }
        pending := none
        grant := some ⟨frameAddress cfg.capacity currentCursor + kFrameHeaderSize, payloadSize⟩ } :=
  rfl

end FinishReserve

/-- `Advance` does one of the three things that a moving consumer can do. -/
theorem advance_roster {cfg : Config} {state : State} {event : Event} {reader : ReaderId}
    {length : UInt64} (hreader : event.reader = some reader)
    (hlength : event.advancesBy cfg state = some length) {next : State}
    (hnext : next = state.setReader reader
      (advance state.shared (state.readers reader) length state.clock)) :
    RosterStep cfg state event next.slots next.readers := by
  subst hnext
  cases hindex : (state.readers reader).slotIndex with
  | none =>
      have hmove : RosterStep cfg state event _ _ :=
        .move event reader length hreader hlength hindex
      simpa [State.slots, State.setReader, advance, hindex] using hmove
  | some index =>
      by_cases hgen : (state.slots index).generationId = (state.readers reader).generationId
      · have hpublish : RosterStep cfg state event _ _ :=
          .publish event reader index length hreader hlength hindex hgen
        simpa [State.slots, State.setReader, advance, hindex, hgen, Shared.setSlot] using hpublish
      · have hunbind : RosterStep cfg state event _ _ :=
          .unbind event reader index length hreader hlength hindex hgen
        simpa [State.slots, State.setReader, advance, hindex, hgen] using hunbind

/-- Every call does one of the things that `RosterStep` lists. -/
theorem step_roster {cfg : Config} {state next : State} {event : Event}
    (h : step cfg state event = some next) :
    RosterStep cfg state event next.slots next.readers := by
  cases event with
  | reserve payloadSize typeId tsc =>
      simp only [step] at h
      split at h
      · simp at h
      · obtain rfl := Option.some.inj h
        rcases reserve_cases cfg state payloadSize typeId tsc with hstay | hwait | hfinish
        · rw [hstay.2]
          exact .same _ rfl nofun
        · rw [hwait.2.2]
          exact .same _ rfl nofun
        · rw [hfinish.2.2]
          exact .same _ rfl nofun
  | scan tsc =>
      simp only [step, Option.map_eq_some_iff] at h
      obtain ⟨pending, hpending, rfl⟩ := h
      have hscan : RosterStep cfg state (.scan tsc) _ _ := .scan tsc pending hpending
      rw [← scanReaders_slots (pending.refresh tsc state.clock).targetCursor] at hscan
      rcases scanPass_cases cfg state pending tsc with hfinish | hwait
      · rw [hfinish.2]
        exact hscan
      · rw [hwait.2]
        exact hscan
  | writePayload payload =>
      simp only [step] at h
      split at h
      · split at h
        · obtain rfl := Option.some.inj h
          exact .same _ rfl nofun
        · simp at h
      · simp at h
  | commit =>
      simp only [step] at h
      split at h
      · obtain rfl := Option.some.inj h
        exact .same _ rfl nofun
      · simp at h
  | setCursor reader cursor =>
      obtain rfl := Option.some.inj h
      exact .setCursor reader cursor
  | registerReader reader =>
      simp only [step, registerReader] at h
      split at h
      · next result hresult =>
          obtain rfl := Option.some.inj h
          split at hresult
          · simp at hresult
          · next hnone =>
              simp only [ne_eq, not_not] at hnone
              split at hresult
              · next index hindex =>
                  obtain rfl := Except.ok.inj hresult
                  exact .register reader index hnone hindex
              · simp at hresult
      · obtain rfl := Option.some.inj h
        exact .same _ rfl nofun
  | unregisterReader reader =>
      obtain rfl := Option.some.inj h
      cases hindex : (state.readers reader).slotIndex with
      | none =>
          have hsame : RosterStep cfg state (.unregisterReader reader) _ _ :=
            .same _ rfl fun _ heq => Event.unregisterReader.inj heq ▸ hindex
          simpa [State.slots, State.setReader, unregisterReader, hindex] using hsame
      | some index =>
          have hrelease : RosterStep cfg state (.unregisterReader reader) _ _ :=
            .unregister reader index hindex
          simpa [State.slots, State.setReader, unregisterReader, hindex, Shared.setSlot] using
            hrelease
  | pollZeroCopy reader =>
      obtain rfl := Option.some.inj h
      exact .same _ rfl nofun
  | pollCopy reader =>
      simp only [step, Option.map_eq_some_iff] at h
      obtain ⟨_, _, rfl⟩ := h
      exact .same _ rfl nofun
  | pollCopyBatch reader maxMessages =>
      obtain hnext := (Option.some.inj h).symm
      by_cases hread : (pollBatch cfg.capacity state.shared (state.readers reader) maxMessages
          []).messagesRead > 0
      · simp only [pollCopyBatch, hread, if_true] at hnext
        exact advance_roster rfl (by simp [Event.advancesBy, hread]) hnext
      · simp only [pollCopyBatch, hread, if_false, State.setReader, Function.update_eq_self]
          at hnext
        subst hnext
        exact .same _ (by simp [Event.advancesBy, hread]) nofun
  | advance reader totalFrameLength =>
      exact advance_roster rfl rfl (Option.some.inj h).symm
  | tick elapsed =>
      obtain rfl := Option.some.inj h
      exact .same _ rfl nofun

end HotPath.SharedMemory
