import HotPath.SharedMemory.SlotOwnership

/-!
# Backpressure

The producer keeps `producer_cursor - slot.cursor <= capacity` for every active slot, so that it
never writes over bytes that a registered reader still has to read. It decides from a cached
minimum of the reader cursors and scans the roster only when that minimum leaves too little room.

The cached minimum is set to the target cursor when the scan finds no reader. A reader that joins
behind it afterwards is overlooked by every `Reserve` that skips its scan, and can be lapped
(`late_reader_is_lapped`). `zero_data_loss` shows that this is the only way to lose data: the
bound holds in every run in which a `Reserve` skips its scan only while the cached minimum is a
lower bound of the active cursors, the aligned payload size and the cursors do not overflow, and
generation numbers are not reused under a live handle. So it does in every run in which readers
register at the end of the stream (`zero_loss_joining`).
-/

namespace HotPath.SharedMemory

open HotPath.Foundation

/-- Every active slot has a cursor that satisfies the predicate. -/
def ActiveCursors (bound : Nat → Prop) (slots : Fin kMaxReaders → ReaderSlot) : Prop :=
  ∀ index, (slots index).active = true → bound (slots index).cursor.toNat

/-- A position is at most one capacity ahead of every active slot. -/
def SlotsWithin (cfg : Config) (position : Nat) : (Fin kMaxReaders → ReaderSlot) → Prop :=
  ActiveCursors fun cursor => position ≤ cursor + cfg.capacity.toNat

/-- The producer cursor is at most one capacity ahead of every active slot. -/
def WithinCapacity (cfg : Config) (state : State) : Prop :=
  SlotsWithin cfg state.shared.header.producerCursor.toNat state.slots

/-- The producer's `Reserve`, with the passes of its scan, and its payload write. -/
def Event.stores : Event → Bool
  | .reserve .. | .scan _ | .writePayload _ => true
  | _ => false

/-- In every run whose calls meet `allow`, an active slot is within one capacity of the producer,
and as long as it stays active, the producer's stores leave the committed bytes from its cursor on
as they are. -/
def ZeroDataLoss (cfg : Config) (allow : State → Event → Prop) : Prop :=
  ∀ state, (ring cfg).Reachable allow state →
    WithinCapacity cfg state ∧
    ∀ event next, allow state event → step cfg state event = some next → event.stores = true →
      ∀ index, (next.slots index).active = true →
      ∀ position, (next.slots index).cursor.toNat ≤ position →
        position < state.shared.header.commitCursor.toNat →
        byteAt cfg.capacity.toNat next.shared.data position =
          byteAt cfg.capacity.toNat state.shared.data position

/-! ## The calls -/

/-- The reader's cursor lies in the window of the last `capacity` bytes. -/
def InWindow (cfg : Config) (state : State) (reader : ReaderId) : Prop :=
  state.shared.header.producerCursor - (state.readers reader).cursor ≤ cfg.capacity ∧
    (state.readers reader).cursor ≤ state.shared.header.producerCursor

/-- Readers register inside the window and set their cursor only while they have no slot. -/
def WindowCall (cfg : Config) (state : State) : Event → Prop
  | .registerReader reader => InWindow cfg state reader
  | .setCursor reader _ => (state.readers reader).slotIndex = none
  | .unregisterReader _ => False
  | _ => True

/-- A `Reserve` that skips its scan finds the cached minimum at or below every active cursor. -/
def CacheSound (cfg : Config) (state : State) (payloadSize : UInt32) : Prop :=
  state.shared.header.producerCursor + requiredSpace payloadSize -
      state.producer.cachedMinCursor ≤ cfg.capacity →
    ∀ index, (state.slots index).active = true →
      state.producer.cachedMinCursor ≤ (state.slots index).cursor

/-- Neither the aligned payload size nor the target cursor overflows. -/
def ReserveFits (state : State) (payloadSize : UInt32) : Prop :=
  payloadSize.toNat ≤ 2 ^ 32 - 8 ∧
    state.shared.header.producerCursor.toNat + (requiredSpace payloadSize).toNat < 2 ^ 64

/-- A `Reserve` does not overflow and its cached minimum can be trusted. -/
def ReserveSound (cfg : Config) (state : State) (event : Event) : Prop :=
  ∀ payloadSize typeId tsc, event = .reserve payloadSize typeId tsc →
    ReserveFits state payloadSize ∧ CacheSound cfg state payloadSize

/-- The cursor of a reader that advances does not overflow. -/
def NoCarry (cfg : Config) (state : State) (event : Event) : Prop :=
  ∀ reader length, event.reader = some reader → event.advancesBy cfg state = some length →
    (state.readers reader).cursor.toNat + length.toNat < 2 ^ 64

/-- The conditions under which backpressure works. -/
structure BackpressureSound (cfg : Config) (state : State) (event : Event) : Prop where
  reserve : ReserveSound cfg state event
  carry : NoCarry cfg state event
  fresh : ∀ reader, event = .registerReader reader → FreshGeneration state reader

/-! ## The producer's side -/

/-- What holds of the cursors and of the producer's object, apart from the readers. -/
structure ProducerInv (cfg : Config) (header : BroadcastHeader) (producer : Producer) : Prop where
  commit_le : header.commitCursor ≤ header.producerCursor
  cached_le : producer.cachedMinCursor ≤ header.producerCursor
  claimed_le : ∀ reservation, producer.currentReservation = some reservation →
    reservation.claimedCursor ≤ header.producerCursor
  pending : ∀ pending, producer.pending = some pending →
    pending.currentCursor = header.producerCursor ∧
      pending.targetCursor.toNat =
        header.producerCursor.toNat + (requiredSpace pending.payloadSize).toNat ∧
      (requiredSpace pending.payloadSize).toNat ≤ cfg.capacity.toNat ∧
      pending.payloadSize.toNat ≤ 2 ^ 32 - 8
  grant : ∀ grant, producer.grant = some grant → ∃ start,
    start + (requiredSpace grant.payloadSize).toNat = header.producerCursor.toNat ∧
      header.commitCursor.toNat ≤ start ∧
      grant.address = start % cfg.capacity.toNat + kFrameHeaderSize ∧
      (requiredSpace grant.payloadSize).toNat ≤ cfg.capacity.toNat ∧
      grant.payloadSize.toNat ≤ 2 ^ 32 - 8

/-- A difference of cursors within the capacity, read in the integers. -/
theorem toNat_le_of_sub_le {target lower capacity : UInt64} (hle : lower ≤ target)
    (h : target - lower ≤ capacity) : target.toNat ≤ lower.toNat + capacity.toNat := by
  rw [UInt64.le_iff_toNat_le, UInt64.toNat_sub_of_le _ _ hle] at h
  omega

/-- The checks of `Reserve` leave only requests that fit the buffer. -/
theorem requiredSpace_le_of_accepted {cfg : Config} {producer : Producer} {payloadSize : UInt32}
    (h : reserveError cfg producer payloadSize = none) :
    (requiredSpace payloadSize).toNat ≤ cfg.capacity.toNat := by
  unfold reserveError at h
  split at h
  · simp at h
  · split at h
    · simp at h
    · next hfits => exact UInt64.le_iff_toNat_le.mp (UInt64.not_lt.mp hfits)

/-- A target cursor that does not overflow. -/
theorem toNat_target {state : State} {payloadSize : UInt32}
    (h : ReserveFits state payloadSize) :
    (state.shared.header.producerCursor + requiredSpace payloadSize).toNat =
      state.shared.header.producerCursor.toNat + (requiredSpace payloadSize).toNat := by
  rw [UInt64.toNat_add]
  exact Nat.mod_eq_of_lt h.2

/-- Refreshing the clock reading changes no cursor. -/
theorem refresh_fields (pending : PendingReserve) (tsc : UInt64) (clock : Int) :
    (pending.refresh tsc clock).payloadSize = pending.payloadSize ∧
      (pending.refresh tsc clock).typeId = pending.typeId ∧
      (pending.refresh tsc clock).currentCursor = pending.currentCursor ∧
      (pending.refresh tsc clock).targetCursor = pending.targetCursor := by
  unfold PendingReserve.refresh
  split <;> exact ⟨rfl, rfl, rfl, rfl⟩

/-- Handing out a reservation keeps the producer's invariant. -/
theorem ProducerInv.finish {cfg : Config} {state : State} {payloadSize typeId : UInt32}
    {targetCursor : UInt64}
    (hcommit : state.shared.header.commitCursor ≤ state.shared.header.producerCursor)
    (htarget : targetCursor.toNat =
      state.shared.header.producerCursor.toNat + (requiredSpace payloadSize).toNat)
    (hcap : (requiredSpace payloadSize).toNat ≤ cfg.capacity.toNat)
    (hsize : payloadSize.toNat ≤ 2 ^ 32 - 8)
    (hcached : state.producer.cachedMinCursor ≤ targetCursor) :
    let next := finishReserve cfg state payloadSize typeId state.shared.header.producerCursor
      targetCursor
    ProducerInv cfg next.shared.header next.producer := by
  have hcommit := UInt64.le_iff_toNat_le.mp hcommit
  refine ⟨UInt64.le_iff_toNat_le.mpr ?_, hcached, ?_, nofun, ?_⟩
  · simp only [finishReserve]
    omega
  · rintro reservation hreservation
    obtain rfl := Option.some.inj hreservation
    exact UInt64.le_refl _
  · rintro grant hgrant
    obtain rfl := Option.some.inj hgrant
    exact ⟨_, htarget.symm, hcommit, by rw [frameAddress_eq], hcap, hsize⟩

/-- A scan pass that does not end the loop leaves a minimum below the producer cursor. -/
theorem cached_le_of_waiting {capacity target lower producer required : UInt64}
    (hle : lower ≤ target) (htarget : target.toNat = producer.toNat + required.toNat)
    (hcap : required.toNat ≤ capacity.toNat) (h : target - lower > capacity) :
    lower ≤ producer := by
  have hsub := UInt64.lt_iff_toNat_lt.mp h
  rw [UInt64.toNat_sub_of_le _ _ hle] at hsub
  exact UInt64.le_iff_toNat_le.mpr (by omega)

/-- The calls that the producer does not make leave its cursors, its object and the data as they
are. -/
theorem step_frame {cfg : Config} {state next : State} {event : Event}
    (h : step cfg state event = some next) (hstores : event.stores = false)
    (hcommit : event ≠ .commit) :
    next.shared.header.producerCursor = state.shared.header.producerCursor ∧
      next.shared.header.commitCursor = state.shared.header.commitCursor ∧
      next.shared.data = state.shared.data ∧ next.producer = state.producer := by
  have hadvance : ∀ reader length,
      (advance state.shared reader length state.clock).1.header.producerCursor =
        state.shared.header.producerCursor ∧
      (advance state.shared reader length state.clock).1.header.commitCursor =
        state.shared.header.commitCursor ∧
      (advance state.shared reader length state.clock).1.data = state.shared.data := by
    intro reader length
    simp only [advance]
    split
    · split <;> exact ⟨rfl, rfl, rfl⟩
    · exact ⟨rfl, rfl, rfl⟩
  cases event with
  | reserve | scan | writePayload => simp [Event.stores] at hstores
  | commit => exact absurd rfl hcommit
  | setCursor | pollZeroCopy | tick =>
      obtain rfl := Option.some.inj h
      exact ⟨rfl, rfl, rfl, rfl⟩
  | registerReader reader =>
      simp only [step, registerReader] at h
      split at h
      · next result hresult =>
          obtain rfl := Option.some.inj h
          split at hresult
          · simp at hresult
          · split at hresult
            · obtain rfl := Except.ok.inj hresult
              exact ⟨rfl, rfl, rfl, rfl⟩
            · simp at hresult
      · obtain rfl := Option.some.inj h
        exact ⟨rfl, rfl, rfl, rfl⟩
  | unregisterReader reader =>
      obtain rfl := Option.some.inj h
      cases hindex : (state.readers reader).slotIndex <;>
        simp [State.setReader, unregisterReader, hindex, Shared.setSlot]
  | pollCopy reader =>
      simp only [step, Option.map_eq_some_iff] at h
      obtain ⟨_, _, rfl⟩ := h
      exact ⟨rfl, rfl, rfl, rfl⟩
  | pollCopyBatch reader maxMessages =>
      obtain rfl := Option.some.inj h
      dsimp only [State.setReader, pollCopyBatch]
      split
      · exact ⟨(hadvance _ _).1, (hadvance _ _).2.1, (hadvance _ _).2.2, rfl⟩
      · exact ⟨rfl, rfl, rfl, rfl⟩
  | advance reader length =>
      obtain rfl := Option.some.inj h
      exact ⟨(hadvance _ _).1, (hadvance _ _).2.1, (hadvance _ _).2.2, rfl⟩

/-- The producer's invariant is kept by every call. -/
theorem ProducerInv.step {cfg : Config} {state next : State} {event : Event}
    (h : ProducerInv cfg state.shared.header state.producer)
    (hstep : SharedMemory.step cfg state event = some next)
    (hfits : ∀ payloadSize typeId tsc, event = .reserve payloadSize typeId tsc →
      ReserveFits state payloadSize) :
    ProducerInv cfg next.shared.header next.producer := by
  cases event with
  | reserve payloadSize typeId tsc =>
      simp only [SharedMemory.step] at hstep
      split at hstep
      · simp at hstep
      · obtain rfl := Option.some.inj hstep
        have hfits := hfits payloadSize typeId tsc rfl
        rcases reserve_cases cfg state payloadSize typeId tsc with
            hstay | ⟨haccept, -, hwait⟩ | ⟨haccept, -, hfinish⟩
        · rwa [hstay.2]
        · rw [hwait]
          refine ⟨h.commit_le, h.cached_le, h.claimed_le, ?_, h.grant⟩
          rintro pending hpending
          obtain rfl := Option.some.inj hpending
          exact ⟨rfl, toNat_target hfits, requiredSpace_le_of_accepted haccept, hfits.1⟩
        · rw [hfinish]
          refine ProducerInv.finish h.commit_le (toNat_target hfits)
            (requiredSpace_le_of_accepted haccept) hfits.1 ?_
          have hcached := UInt64.le_iff_toNat_le.mp h.cached_le
          exact UInt64.le_iff_toNat_le.mpr (by rw [toNat_target hfits]; omega)
  | scan tsc =>
      simp only [SharedMemory.step, Option.map_eq_some_iff] at hstep
      obtain ⟨pending, hpending, rfl⟩ := hstep
      obtain ⟨hcurrent, htarget, hcap, hsize⟩ := h.pending pending hpending
      obtain ⟨hpayload, htype, hrefreshed, htargeted⟩ := refresh_fields pending tsc state.clock
      rcases scanPass_cases cfg state pending tsc with ⟨hroom, hfinish⟩ | ⟨hroom, hwait⟩
      · rw [hfinish, hrefreshed, hcurrent]
        rw [← htargeted, ← hpayload] at htarget
        exact ProducerInv.finish h.commit_le htarget (hpayload ▸ hcap) (hpayload ▸ hsize)
          scanReaders_le_target
      · rw [hwait]
        rw [htargeted] at hroom
        refine ⟨h.commit_le, ?_, h.claimed_le, ?_, h.grant⟩
        · exact cached_le_of_waiting (htargeted ▸ scanReaders_le_target) htarget hcap hroom
        · rintro refreshed hrefresh
          obtain rfl := Option.some.inj hrefresh
          rw [hpayload, htargeted, hrefreshed]
          exact ⟨hcurrent, htarget, hcap, hsize⟩
  | writePayload payload =>
      simp only [SharedMemory.step] at hstep
      split at hstep
      · split at hstep
        · obtain rfl := Option.some.inj hstep
          exact ⟨h.commit_le, h.cached_le, h.claimed_le, h.pending, h.grant⟩
        · simp at hstep
      · simp at hstep
  | commit =>
      simp only [SharedMemory.step] at hstep
      split at hstep
      · next reservation hidle hreservation =>
          obtain rfl := Option.some.inj hstep
          exact ⟨h.claimed_le _ hreservation, h.cached_le, h.claimed_le, h.pending,
            by simp [SharedMemory.commit]⟩
      · simp at hstep
  | _ =>
      obtain ⟨hproducer, hcommit, -, heq⟩ := step_frame hstep rfl (by simp)
      rw [heq]
      refine ⟨hcommit ▸ hproducer ▸ h.commit_le, hproducer ▸ h.cached_le, ?_, ?_, ?_⟩
      · rw [hproducer]
        exact h.claimed_le
      · rw [hproducer]
        exact h.pending
      · rw [hproducer, hcommit]
        exact h.grant

/-! ## The readers' side -/

/-- A bound from below on the active cursors is kept by every call, when readers register above
it and their cursors do not overflow. -/
theorem RosterStep.active_cursors {cfg : Config} {state : State} {event : Event}
    {slots : Fin kMaxReaders → ReaderSlot} {readers : ReaderId → BroadcastReader} {owners : Owners}
    (hstep : RosterStep cfg state event slots readers) {bound : Nat → Prop}
    (hmono : ∀ low high, low ≤ high → bound low → bound high)
    (h : ActiveCursors bound state.slots)
    (hagree : CursorsAgree state.slots state.readers owners)
    (howns : MatchesOwner cfg state event owners)
    (hjoin : ∀ reader, event = .registerReader reader →
      bound (state.readers reader).cursor.toNat)
    (hcarry : NoCarry cfg state event) :
    ActiveCursors bound slots := by
  cases hstep with
  | same => exact h
  | scan tsc pending hpending =>
      intro index hactive
      have hslot := evictExpired_of_active hactive
      dsimp only at hactive ⊢
      rw [hslot] at hactive ⊢
      exact h index hactive
  | setCursor => exact h
  | register reader claimed hnone hfree =>
      intro index hactive
      by_cases hindex : index = claimed
      · subst hindex
        simpa using hjoin reader rfl
      · simp only [ne_eq, hindex, not_false_eq_true, Function.update_of_ne] at hactive ⊢
        exact h index hactive
  | unregister reader cleared =>
      intro index hactive
      have hindex : index ≠ cleared := by
        rintro rfl
        simp at hactive
      simp only [ne_eq, hindex, not_false_eq_true, Function.update_of_ne] at hactive ⊢
      exact h index hactive
  | publish _ reader published length hreader hlength hbound hmatch =>
      intro index hactive
      by_cases hindex : index = published
      · subst hindex
        simp only [Function.update_self] at hactive ⊢
        have howner := howns index reader length hreader hlength hbound hactive hmatch
        have hold := h index hactive
        rw [hagree index reader howner] at hold
        rw [UInt64.toNat_add, Nat.mod_eq_of_lt (hcarry reader length hreader hlength)]
        exact hmono _ _ (Nat.le_add_right _ _) hold
      · simp only [ne_eq, hindex, not_false_eq_true, Function.update_of_ne] at hactive ⊢
        exact h index hactive
  | unbind => exact h
  | move => exact h

/-! ## Reservations -/

/-- The lower bound that a `Reserve` relies on when it hands out space. -/
theorem within_of_lower {cfg : Config} {slots : Fin kMaxReaders → ReaderSlot}
    {target lower : UInt64} (hle : lower ≤ target) (hroom : target - lower ≤ cfg.capacity)
    (hlower : ∀ index, (slots index).active = true → lower ≤ (slots index).cursor) :
    SlotsWithin cfg target.toNat slots := by
  intro index hactive
  have htarget := toNat_le_of_sub_le hle hroom
  have hcursor := UInt64.le_iff_toNat_le.mp (hlower index hactive)
  omega

/-- A call that hands out space moves the producer cursor and writes a header over the space. -/
structure Grants (cfg : Config) (state : State) (payloadSize typeId : UInt32) (next : State) :
    Prop where
  size : payloadSize.toNat ≤ 2 ^ 32 - 8
  space : (requiredSpace payloadSize).toNat ≤ cfg.capacity.toNat
  target : next.shared.header.producerCursor.toNat =
    state.shared.header.producerCursor.toNat + (requiredSpace payloadSize).toNat
  committed : next.shared.header.commitCursor = state.shared.header.commitCursor
  data : next.shared.data = writeHeader cfg.capacity state.shared.data
    (frameAddress cfg.capacity state.shared.header.producerCursor) payloadSize typeId
    (Int64.ofInt state.clock)
  idle : next.producer.pending = none
  grant : next.producer.grant = some
    ⟨frameAddress cfg.capacity state.shared.header.producerCursor + kFrameHeaderSize, payloadSize⟩
  reservation : ∃ reservation, next.producer.currentReservation = some reservation ∧
    reservation.claimedCursor = next.shared.header.producerCursor ∧
    reservation.startOffset = state.shared.header.producerCursor % cfg.capacity
  within : SlotsWithin cfg next.shared.header.producerCursor.toNat next.slots

/-- A call that leaves the cursors, the data and the reservation as they are. -/
structure Stays (state next : State) : Prop where
  cursor : next.shared.header.producerCursor = state.shared.header.producerCursor
  committed : next.shared.header.commitCursor = state.shared.header.commitCursor
  data : next.shared.data = state.shared.data
  grant : next.producer.grant = state.producer.grant
  reservation : next.producer.currentReservation = state.producer.currentReservation

/-- A call that waits for space for the given payload. -/
def Waits (state : State) (payloadSize typeId : UInt32) (next : State) : Prop :=
  Stays state next ∧ ∃ pending, next.producer.pending = some pending ∧
    pending.payloadSize = payloadSize ∧ pending.typeId = typeId

/-- `Reserve` does nothing, waits for space, or hands it out. -/
theorem reserve_outcome {cfg : Config} {state next : State} {payloadSize typeId : UInt32}
    {tsc : UInt64} (h : ProducerInv cfg state.shared.header state.producer)
    (hfits : ReserveFits state payloadSize) (hcache : CacheSound cfg state payloadSize)
    (hstep : step cfg state (.reserve payloadSize typeId tsc) = some next) :
    ((reserveError cfg state.producer payloadSize).isSome ∧ next = state) ∨
      Waits state payloadSize typeId next ∨ Grants cfg state payloadSize typeId next := by
  simp only [step] at hstep
  split at hstep
  · simp at hstep
  · obtain rfl := Option.some.inj hstep
    rcases reserve_cases cfg state payloadSize typeId tsc with
        ⟨herror, hstay⟩ | ⟨haccept, -, hwait⟩ | ⟨haccept, hroom, hfinish⟩
    · exact .inl ⟨herror, hstay⟩
    · rw [hwait]
      exact .inr (.inl ⟨⟨rfl, rfl, rfl, rfl, rfl⟩, _, rfl, rfl, rfl⟩)
    · rw [hfinish]
      have hcached := UInt64.le_iff_toNat_le.mp h.cached_le
      have hle : state.producer.cachedMinCursor ≤
          state.shared.header.producerCursor + requiredSpace payloadSize :=
        UInt64.le_iff_toNat_le.mpr (by rw [toNat_target hfits]; omega)
      exact .inr (.inr ⟨hfits.1, requiredSpace_le_of_accepted haccept, toNat_target hfits, rfl,
        rfl, rfl, rfl, ⟨_, rfl, rfl, rfl⟩, within_of_lower hle hroom (hcache hroom)⟩)

/-- A scan pass keeps waiting for space or hands it out. -/
theorem scan_outcome {cfg : Config} {state next : State} {pending : PendingReserve} {tsc : UInt64}
    (h : ProducerInv cfg state.shared.header state.producer)
    (hpending : state.producer.pending = some pending)
    (hstep : step cfg state (.scan tsc) = some next) :
    Waits state pending.payloadSize pending.typeId next ∨
      Grants cfg state pending.payloadSize pending.typeId next := by
  simp only [step, hpending, Option.map_some, Option.some.injEq] at hstep
  subst hstep
  obtain ⟨hcurrent, htarget, hcap, hsize⟩ := h.pending pending hpending
  obtain ⟨hpayload, htype, hrefreshed, htargeted⟩ := refresh_fields pending tsc state.clock
  rcases scanPass_cases cfg state pending tsc with ⟨hroom, hfinish⟩ | ⟨hroom, hwait⟩
  · rw [hfinish, hrefreshed, hcurrent, hpayload, htype]
    refine .inr ⟨hsize, hcap, ?_, rfl, rfl, rfl, rfl, ⟨_, rfl, rfl, rfl⟩, ?_⟩
    · rw [finishReserve_producerCursor, htargeted, htarget]
    · refine within_of_lower scanReaders_le_target hroom fun index hactive => ?_
      simp only [finishReserve_slots, State.slots, rescan, scanReaders_slots] at hactive ⊢
      rw [evictExpired_of_active hactive]
      exact scanReaders_min_le hactive
  · rw [hwait]
    exact .inl ⟨⟨rfl, rfl, rfl, rfl, rfl⟩, _, rfl, hpayload, htype⟩

/-- `Reserve` and its scan passes leave the cursor, or hand out the space behind it. -/
theorem stays_or_grants {cfg : Config} {state next : State} {event : Event}
    (h : ProducerInv cfg state.shared.header state.producer) (hsound : ReserveSound cfg state event)
    (hstep : step cfg state event = some next)
    (hevent : (∃ payloadSize typeId tsc, event = .reserve payloadSize typeId tsc) ∨
      ∃ tsc, event = .scan tsc) :
    Stays state next ∨ ∃ payloadSize typeId, Grants cfg state payloadSize typeId next := by
  rcases hevent with ⟨payloadSize, typeId, tsc, rfl⟩ | ⟨tsc, rfl⟩
  · obtain ⟨hfits, hcache⟩ := hsound payloadSize typeId tsc rfl
    rcases reserve_outcome h hfits hcache hstep with ⟨-, rfl⟩ | hwait | hgrant
    · exact .inl ⟨rfl, rfl, rfl, rfl, rfl⟩
    · exact .inl hwait.1
    · exact .inr ⟨_, _, hgrant⟩
  · cases hpending : state.producer.pending with
    | none => simp [step, hpending] at hstep
    | some pending =>
        rcases scan_outcome h hpending hstep with hwait | hgrant
        · exact .inl hwait.1
        · exact .inr ⟨_, _, hgrant⟩

/-- `Reserve` itself neither scans nor touches the cached minimum. -/
theorem reserve_cached {cfg : Config} {state next : State} {payloadSize typeId : UInt32}
    {tsc : UInt64} (hstep : step cfg state (.reserve payloadSize typeId tsc) = some next) :
    next.producer.cachedMinCursor = state.producer.cachedMinCursor ∧ next.slots = state.slots := by
  simp only [step] at hstep
  split at hstep
  · simp at hstep
  · obtain rfl := Option.some.inj hstep
    rcases reserve_cases cfg state payloadSize typeId tsc with hstay | hwait | hfinish
    · simp [hstay.2]
    · rw [hwait.2.2]
      exact ⟨rfl, rfl⟩
    · rw [hfinish.2.2]
      exact ⟨rfl, rfl⟩

/-- A scan pass caches a lower bound of the cursors that it leaves active. -/
theorem scan_cached {cfg : Config} {state next : State} {tsc : UInt64}
    (hstep : step cfg state (.scan tsc) = some next) :
    ActiveCursors (next.producer.cachedMinCursor.toNat ≤ ·) next.slots := by
  simp only [step, Option.map_eq_some_iff] at hstep
  obtain ⟨pending, -, rfl⟩ := hstep
  have hscanned : ActiveCursors
      ((rescan cfg state (pending.refresh tsc state.clock)).producer.cachedMinCursor.toNat ≤ ·)
      (rescan cfg state (pending.refresh tsc state.clock)).slots := by
    intro index hactive
    simp only [State.slots, rescan, scanReaders_slots] at hactive ⊢
    rw [evictExpired_of_active hactive]
    exact UInt64.le_iff_toNat_le.mp (scanReaders_min_le hactive)
  rcases scanPass_cases cfg state pending tsc with ⟨-, hfinish⟩ | ⟨-, hwait⟩
  · rwa [hfinish]
  · rwa [hwait]

/-- What the other calls of the producer do. -/
theorem writePayload_outcome {cfg : Config} {state next : State} {payload : List UInt8}
    (hstep : step cfg state (.writePayload payload) = some next) :
    ∃ grant, state.producer.grant = some grant ∧ payload.length ≤ grant.payloadSize.toNat ∧
      next = writePayload cfg state grant payload := by
  simp only [step] at hstep
  split at hstep
  · next grant _ hgrant =>
      split at hstep
      · next hlength => exact ⟨grant, hgrant, hlength, (Option.some.inj hstep).symm⟩
      · simp at hstep
  · simp at hstep

theorem commit_outcome {cfg : Config} {state next : State}
    (hstep : step cfg state .commit = some next) :
    ∃ reservation, state.producer.currentReservation = some reservation ∧
      next = commit cfg state reservation := by
  simp only [step] at hstep
  split at hstep
  · next reservation _ hreservation =>
      exact ⟨reservation, hreservation, (Option.some.inj hstep).symm⟩
  · simp at hstep

/-- The cached minimum stays below the active cursors. -/
theorem cached_step {cfg : Config} {state next : State} {event : Event}
    (hstep : SharedMemory.step cfg state event = some next)
    (hcached : ActiveCursors (state.producer.cachedMinCursor.toNat ≤ ·) next.slots) :
    ActiveCursors (next.producer.cachedMinCursor.toNat ≤ ·) next.slots := by
  cases event with
  | reserve => rwa [(reserve_cached hstep).1]
  | scan => exact scan_cached hstep
  | writePayload =>
      obtain ⟨_, -, -, rfl⟩ := writePayload_outcome hstep
      exact hcached
  | commit =>
      obtain ⟨_, -, rfl⟩ := commit_outcome hstep
      exact hcached
  | _ => rwa [(step_frame hstep rfl nofun).2.2.2]

/-- A committed position at most one capacity behind the producer cursor lies outside the stores of
`Reserve` and of the payload write. -/
theorem byteAt_stores {cfg : Config} {state next : State} {event : Event}
    (h : ProducerInv cfg state.shared.header state.producer) (hsound : ReserveSound cfg state event)
    (hstep : step cfg state event = some next) (hstores : event.stores = true) {position : Nat}
    (hlap : next.shared.header.producerCursor.toNat ≤ position + cfg.capacity.toNat)
    (hupper : position < state.shared.header.commitCursor.toNat) :
    byteAt cfg.capacity.toNat next.shared.data position =
      byteAt cfg.capacity.toNat state.shared.data position := by
  have hcommit := UInt64.le_iff_toNat_le.mp h.commit_le
  have hreserve : (∃ payloadSize typeId tsc, event = .reserve payloadSize typeId tsc) ∨
      (∃ tsc, event = .scan tsc) → byteAt cfg.capacity.toNat next.shared.data position =
        byteAt cfg.capacity.toNat state.shared.data position := by
    intro hevent
    rcases stays_or_grants h hsound hstep hevent with hstay | ⟨payloadSize, typeId, hgrant⟩
    · rw [hstay.data]
    · have hheader := header_fits payloadSize
      have htarget := hgrant.target
      have hapart : Apart cfg.capacity.toNat position 1
          (frameAddress cfg.capacity state.shared.header.producerCursor) kFrameHeaderSize := by
        rw [frameAddress_eq]
        exact (Apart.of_window (by omega) (by omega)).mod_right
      have hload : loadBytes cfg.capacity.toNat (writeHeader cfg.capacity state.shared.data
          (frameAddress cfg.capacity state.shared.header.producerCursor) payloadSize typeId
          (Int64.ofInt state.clock)) 1 position =
          loadBytes cfg.capacity.toNat state.shared.data 1 position :=
        loadBytes_writeHeader_apart hapart
      rw [hgrant.data]
      simpa [loadBytes_one] using hload
  cases event with
  | reserve => exact hreserve (.inl ⟨_, _, _, rfl⟩)
  | scan => exact hreserve (.inr ⟨_, rfl⟩)
  | writePayload payload =>
      obtain ⟨grant, hgrant, hlength, rfl⟩ := writePayload_outcome hstep
      obtain ⟨start, hend, hstart, haddress, hcap, hsize⟩ := h.grant grant hgrant
      have hlap : state.shared.header.producerCursor.toNat ≤
        position + cfg.capacity.toNat := hlap
      have hfits := payload_fits hsize
      simp only [writePayload, haddress, storeBytes_mod_add]
      exact byteAt_storeBytes_apart (Apart.of_window (by omega) (by omega))
  | _ => simp [Event.stores] at hstores

/-- The producer stays within the capacity of every slot that a call leaves active. -/
theorem within_step {cfg : Config} {state next : State} {event : Event}
    (h : ProducerInv cfg state.shared.header state.producer) (hsound : ReserveSound cfg state event)
    (hwithin : SlotsWithin cfg state.shared.header.producerCursor.toNat next.slots)
    (hstep : step cfg state event = some next) : WithinCapacity cfg next := by
  have hreserve : (∃ payloadSize typeId tsc, event = .reserve payloadSize typeId tsc) ∨
      (∃ tsc, event = .scan tsc) → WithinCapacity cfg next := by
    intro hevent
    rcases stays_or_grants h hsound hstep hevent with hstay | ⟨_, _, hgrant⟩
    · rwa [WithinCapacity, hstay.cursor]
    · exact hgrant.within
  cases event with
  | reserve => exact hreserve (.inl ⟨_, _, _, rfl⟩)
  | scan => exact hreserve (.inr ⟨_, rfl⟩)
  | writePayload =>
      obtain ⟨grant, -, -, rfl⟩ := writePayload_outcome hstep
      exact hwithin
  | commit =>
      obtain ⟨reservation, -, rfl⟩ := commit_outcome hstep
      exact hwithin
  | _ => rwa [WithinCapacity, (step_frame hstep rfl nofun).1]

/-! ## Zero data loss -/

/-- What holds of every state in which backpressure works. -/
structure BackpressureInv (cfg : Config) (state : State) (owners : Owners) : Prop where
  producer : ProducerInv cfg state.shared.header state.producer
  owned : SlotsOwned state.slots state.readers owners
  agree : CursorsAgree state.slots state.readers owners
  within : WithinCapacity cfg state

/-- The calls for which backpressure is shown to work. -/
def SoundCall (cfg : Config) (state : State) (event : Event) : Prop :=
  WindowCall cfg state event ∧ BackpressureSound cfg state event

/-- Sound calls keep ownership exclusive. -/
theorem SoundCall.keepsOwnership {cfg : Config} {state : State} {event : Event}
    (h : SoundCall cfg state event) : KeepsOwnership state event := by
  cases event with
  | registerReader reader => exact h.2.fresh reader rfl
  | unregisterReader => exact h.1.elim
  | _ => trivial

/-- Consumers stay within the capacity under sound calls. -/
theorem BackpressureInv.slotsWithin {cfg : Config} {state next : State} {event : Event}
    {owners : Owners} (h : BackpressureInv cfg state owners) (hcall : SoundCall cfg state event)
    (hstep : SharedMemory.step cfg state event = some next) :
    SlotsWithin cfg state.shared.header.producerCursor.toNat next.slots := by
  refine (step_roster hstep).active_cursors (fun _ _ hle hlow => by omega) h.within h.agree
    (h.owned.matchesOwner event) ?_ hcall.2.carry
  rintro reader rfl
  exact toNat_le_of_sub_le hcall.1.2 hcall.1.1

/-- Backpressure keeps working under sound calls. -/
theorem BackpressureInv.step {cfg : Config} {state next : State} {event : Event} {owners : Owners}
    (h : BackpressureInv cfg state owners) (hcall : SoundCall cfg state event)
    (hstep : SharedMemory.step cfg state event = some next) :
    BackpressureInv cfg next (ownersAfter state event next.slots next.readers owners) := by
  have hroster := step_roster hstep
  have hwithin := h.slotsWithin hcall hstep
  refine ⟨h.producer.step hstep fun _ _ _ heq => (hcall.2.reserve _ _ _ heq).1,
    hroster.owned h.owned hcall.keepsOwnership,
    hroster.cursors_agree h.agree h.owned.toSlotsHeld ?_ (h.owned.matchesOwner event), ?_⟩
  · rintro reader cursor rfl
    exact hcall.1
  · exact within_step h.producer hcall.2.reserve hwithin hstep

/-- Backpressure works in every run of sound calls. -/
theorem reachable_backpressure {cfg : Config} {state : State}
    (h : (ring cfg).Reachable (SoundCall cfg) state) :
    ∃ owners, BackpressureInv cfg state owners := by
  obtain ⟨owners, hrecord⟩ := h.record ownership
  refine ⟨owners, hrecord.invariant (fun pair => BackpressureInv cfg pair.1 pair.2) ?_ ?_⟩
  · rintro ⟨state, owners⟩ ⟨⟨clock, rfl⟩, hstart⟩
    obtain rfl : owners = fun _ => none := hstart
    exact ⟨⟨UInt64.le_refl _, UInt64.le_refl _, nofun, nofun, nofun⟩, ⟨⟨nofun, nofun⟩, nofun⟩,
      nofun, nofun⟩
  · rintro ⟨state, owners⟩ event ⟨next, owners'⟩ hinv hevent hstep
    obtain ⟨hnext, hrecorded⟩ := System.withHistory_step.mp hstep
    obtain rfl : owners' = ownersAfter state event next.slots next.readers owners := hrecorded
    exact hinv.step hevent hnext

/-- What a sound call leaves as it is. -/
theorem BackpressureInv.keeps_data {cfg : Config} {state next : State} {event : Event}
    {owners : Owners} (h : BackpressureInv cfg state owners) (hcall : SoundCall cfg state event)
    (hstep : SharedMemory.step cfg state event = some next) (hstores : event.stores = true)
    {index : Fin kMaxReaders} (hactive : (next.slots index).active = true) {position : Nat}
    (hlower : (next.slots index).cursor.toNat ≤ position)
    (hupper : position < state.shared.header.commitCursor.toNat) :
    byteAt cfg.capacity.toNat next.shared.data position =
      byteAt cfg.capacity.toNat state.shared.data position := by
  have hwithin := (h.step hcall hstep).within index hactive
  exact byteAt_stores h.producer hcall.2.reserve hstep hstores (by omega) hupper

/-- A call of which the reader's cursor tells that backpressure works: a reader registers at the
producer cursor, or not below the cached minimum. Nothing overflows. -/
structure JoiningCall (cfg : Config) (state : State) (event : Event) : Prop where
  window : WindowCall cfg state event
  joins : ∀ reader, event = .registerReader reader →
    (state.readers reader).cursor = state.shared.header.producerCursor ∨
      state.producer.cachedMinCursor ≤ (state.readers reader).cursor
  fits : ∀ payloadSize typeId tsc, event = .reserve payloadSize typeId tsc →
    ReserveFits state payloadSize
  carry : NoCarry cfg state event
  fresh : ∀ reader, event = .registerReader reader → FreshGeneration state reader

/-- While the cached minimum is below the active cursors, it can be trusted. -/
theorem JoiningCall.sound {cfg : Config} {state : State} {event : Event}
    (h : JoiningCall cfg state event)
    (hcached : ActiveCursors (state.producer.cachedMinCursor.toNat ≤ ·) state.slots) :
    SoundCall cfg state event :=
  ⟨h.window, fun payloadSize typeId tsc heq => ⟨h.fits payloadSize typeId tsc heq,
    fun _ index hactive => UInt64.le_iff_toNat_le.mpr (hcached index hactive)⟩, h.carry, h.fresh⟩

/-- The cached minimum stays below the active cursors. -/
theorem JoiningCall.cached {cfg : Config} {state next : State} {event : Event} {owners : Owners}
    (h : JoiningCall cfg state event) (hinv : BackpressureInv cfg state owners)
    (hcached : ActiveCursors (state.producer.cachedMinCursor.toNat ≤ ·) state.slots)
    (hstep : step cfg state event = some next) :
    ActiveCursors (next.producer.cachedMinCursor.toNat ≤ ·) next.slots := by
  refine cached_step hstep ((step_roster hstep).active_cursors (fun _ _ hle hlow => by omega)
    hcached hinv.agree (hinv.owned.matchesOwner event) (fun reader heq => ?_) h.carry)
  rcases h.joins reader heq with hend | habove
  · rw [hend]
    exact UInt64.le_iff_toNat_le.mp hinv.producer.cached_le
  · exact UInt64.le_iff_toNat_le.mp habove

/-- Backpressure gives zero data loss in every run in which readers register at the end of the
stream, or not below the cached minimum. -/
theorem zero_loss_joining (cfg : Config) : ZeroDataLoss cfg (JoiningCall cfg) := by
  intro state hreach
  have hsound : (ring cfg).Reachable (SoundCall cfg) state ∧
      ActiveCursors (state.producer.cachedMinCursor.toNat ≤ ·) state.slots := by
    induction hreach with
    | init hinit =>
        refine ⟨.init hinit, ?_⟩
        obtain ⟨clock, rfl⟩ := hinit
        exact nofun
    | step _ hcall hstep ih =>
        obtain ⟨hreach, hcached⟩ := ih
        obtain ⟨owners, hinv⟩ := reachable_backpressure hreach
        exact ⟨.step hreach (hcall.sound hcached) hstep, hcall.cached hinv hcached hstep⟩
  obtain ⟨owners, hinv⟩ := reachable_backpressure hsound.1
  exact ⟨hinv.within, fun event next hcall hstep hstores index hactive position hlower hupper =>
    hinv.keeps_data (hcall.sound hsound.2) hstep hstores hactive hlower hupper⟩

/-- Backpressure gives zero data loss in every run of sound calls. -/
theorem zero_data_loss (cfg : Config) : ZeroDataLoss cfg (SoundCall cfg) := by
  intro state hreach
  obtain ⟨owners, hinv⟩ := reachable_backpressure hreach
  exact ⟨hinv.within, fun event next hcall hstep hstores index hactive position hlower hupper =>
    hinv.keeps_data hcall hstep hstores hactive hlower hupper⟩

/-- Readers join at the committed end of the stream, while it is still in the window, and never
move. -/
def joinsAtLatest (cfg : Config) (state : State) : Event → Bool
  | .registerReader reader =>
      (state.readers reader).cursor == state.shared.header.commitCursor &&
        state.shared.header.producerCursor - (state.readers reader).cursor ≤ cfg.capacity
  | .setCursor reader _ => (state.readers reader).slotIndex == none
  | .reserve .. | .scan _ | .writePayload _ | .commit => true
  | _ => false

/-- A scan without readers caches the end of a reservation that is still open, a reader joins at
the start of that reservation, and the next reservation needs no scan. -/
def lateReader : List Event :=
  [.reserve 4072 1 0, .commit, .reserve 8 1 0, .scan 0, .setCursor 0 4096,
    .registerReader 0, .commit, .reserve 4064 1 0]

/-- A reader that joins behind the cached minimum is lapped while its slot is active. -/
theorem late_reader_is_lapped :
    ¬ ZeroDataLoss onePage fun state event => joinsAtLatest onePage state event = true := by
  intro hloss
  obtain ⟨state, hreach, hstate⟩ := System.exists_reachable_of_replay (ring onePage)
    (fun state event => joinsAtLatest onePage state event = true) (created 0) lateReader
    (fun state => (state.slots 0).active && (state.slots 0).cursor == 4096 &&
      state.shared.header.producerCursor == 8216)
    (.init ⟨0, rfl⟩) (by decide +kernel)
  simp only [Bool.and_eq_true, beq_iff_eq] at hstate
  have hwithin := (hloss state hreach).1 0 hstate.1.1
  rw [hstate.1.2, hstate.2] at hwithin
  simp [onePage] at hwithin

end HotPath.SharedMemory
