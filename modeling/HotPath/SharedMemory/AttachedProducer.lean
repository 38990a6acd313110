import HotPath.SharedMemory.MirrorBounds
import HotPath.SharedMemory.ProducerSteps
import HotPath.SharedMemory.SlotOwnership

/-!
# A producer that is attached again

Part of a producer is in shared memory and part of it only in its object: the eviction timeout,
the cached minimum cursor and the current reservation. `Attach(name, writable=true)` makes a new
object over the segments that a stopped producer has left. The twins of this module are the
original producer and the attached one, each with its own copy of the segments and of the
consumers, under the same calls and clock readings. `BehavesAlike` says that nobody can tell them
apart: they reject and delay the same `Reserve` calls, write the same bytes, and the attached one
evicts no reader that the original keeps.

`Attach` sets the timeout to zero and the cached minimum to zero. The attached producer evicts
every reader whose heartbeat is older than the clock reading of a scan, and may scan when the
original does not (`attached_overtakes`). `attached_alike` shows that the two behave alike as long
as these fields make no difference to a scan. They make none while every reader has a fresh
heartbeat and leaves room (`attached_alike_fresh`).
-/

namespace HotPath.SharedMemory

open HotPath.Foundation

/-! ## The twins -/

/-- The same ring with another eviction timeout. -/
def Config.withTimeout (cfg : Config) (evictTimeoutNs : Int) : Config := { cfg with evictTimeoutNs }

@[simp] theorem Config.withTimeout_capacity (cfg : Config) (evictTimeoutNs : Int) :
    (cfg.withTimeout evictTimeoutNs).capacity = cfg.capacity := rfl

@[simp] theorem Config.withTimeout_evictTimeoutNs (cfg : Config) (evictTimeoutNs : Int) :
    (cfg.withTimeout evictTimeoutNs).evictTimeoutNs = evictTimeoutNs := rfl

/-- `Reserve` with the first pass of its scan, if it has to scan. Further passes are steps of their
own. -/
def reserveOnce (cfg : Config) (state : State) (payloadSize typeId : UInt32)
    (tsc passTsc : UInt64) : State :=
  let entered := reserve cfg state payloadSize typeId tsc
  match entered.producer.pending with
  | some pending => scanPass cfg entered pending passTsc
  | none => entered

/-- A producer has stopped: no call and no reservation is open. -/
structure Stopped (cfg : Config) (state : State) : Prop where
  reachable : (ring cfg).Reachable (fun _ _ => True) state
  returned : state.producer.pending = none
  closed : state.producer.grant = none

/-- The segments and the consumers of a stopped producer, with the object that `Attach` makes. -/
def State.attached (state : State) (process : Access.Process) : State :=
  { state with producer := {
      isProducer := process.isProducer
      cachedMinCursor := process.cachedMinCursor
      currentReservation := process.currentReservation } }

/-- The original producer, the attached one, and the timeout of the attached one. -/
structure Twin where
  original : State
  attached : State
  evictTimeoutNs : Int

/-- A call of `Reserve` with its first scan, or another event of the ring. -/
inductive TwinEvent where
  | reserve (payloadSize typeId : UInt32) (tsc passTsc : UInt64)
  | other (event : Event)

/-- One step of one of the twins. -/
def callStep (cfg : Config) (state : State) : TwinEvent → Option State
  | .reserve payloadSize typeId tsc passTsc =>
      if state.producer.pending.isSome then none
      else some (reserveOnce cfg state payloadSize typeId tsc passTsc)
  | .other (.reserve _ _ _) => none
  | .other event => step cfg state event

/-- One step of both twins. -/
def twinStep (cfg : Config) (twin : Twin) (event : TwinEvent) : Option Twin := do
  let original ← callStep cfg twin.original event
  let attached ← callStep (cfg.withTimeout twin.evictTimeoutNs) twin.attached event
  some { twin with original, attached }

/-- A stopped producer and the one that is attached in its place. -/
def twins (cfg : Config) : System Twin TwinEvent where
  init twin := ∃ name process, Access.attach name cfg.capacity true = .ok process ∧
    Stopped cfg twin.original ∧ twin.attached = twin.original.attached process ∧
    twin.evictTimeoutNs = process.evictTimeoutNs
  step := twinStep cfg

/-! ## Behaving alike -/

/-- Nobody can tell the twins apart: they reject the same calls, wait at the same time, have handed
out the same space, and their segments hold the same stream. -/
structure Alike (cfg : Config) (twin : Twin) : Prop where
  rejects : ∀ payloadSize, reserveError cfg twin.original.producer payloadSize =
    reserveError (cfg.withTimeout twin.evictTimeoutNs) twin.attached.producer payloadSize
  waits : twin.original.producer.pending.isSome = twin.attached.producer.pending.isSome
  grants : twin.original.producer.grant = twin.attached.producer.grant
  data : twin.original.shared.data = twin.attached.shared.data
  producerCursor : twin.original.shared.header.producerCursor =
    twin.attached.shared.header.producerCursor
  commitCursor : twin.original.shared.header.commitCursor =
    twin.attached.shared.header.commitCursor

/-- A step clears the flag of a slot in the attached ring only if it is clear in the original
one. -/
def EvictsLess (before after : Twin) : Prop :=
  ∀ index, (before.attached.slots index).active = true →
    (after.attached.slots index).active = false → (after.original.slots index).active = false

/-- In every run whose steps meet `allow`, the twins are alike, can take the same steps, and the
attached one evicts no reader that the original keeps. -/
def BehavesAlike (cfg : Config) (allow : Twin → TwinEvent → Prop) : Prop :=
  ∀ twin, (twins cfg).Reachable allow twin →
    Alike cfg twin ∧ ∀ event, allow twin event →
      ((callStep cfg twin.original event).isSome ↔
        (callStep (cfg.withTimeout twin.evictTimeoutNs) twin.attached event).isSome) ∧
      ∀ next, twinStep cfg twin event = some next → EvictsLess twin next

/-- Every active reader has expired for both timeouts or for none. -/
def SameExpired (slots : Fin kMaxReaders → ReaderSlot) (now first second : Int) : Prop :=
  ∀ index, (slots index).active = true →
    (now - (slots index).heartbeatTs > first ↔ now - (slots index).heartbeatTs > second)

/-- A scan finds no expired reader, and all readers leave room up to the target. -/
def FindsRoom (cfg : Config) (slots : Fin kMaxReaders → ReaderSlot) (now : Int) (target : UInt64) :
    Prop :=
  ∀ index, (slots index).active = true →
    ¬ now - (slots index).heartbeatTs > cfg.evictTimeoutNs ∧
      ((slots index).cursor < target → target - (slots index).cursor ≤ cfg.capacity)

/-- `Reserve` scans the roster, because the cached minimum leaves no room. -/
def Scans (cfg : Config) (state : State) (payloadSize : UInt32) : Prop :=
  state.shared.header.producerCursor + requiredSpace payloadSize -
    state.producer.cachedMinCursor > cfg.capacity

/-- What the attached producer has lost makes no difference to a `Reserve`: if both scan, their
timeouts agree, and if only one of them scans, it evicts nobody and does not wait. -/
structure ScansAlike (cfg : Config) (twin : Twin) (payloadSize : UInt32) : Prop where
  both : Scans cfg twin.original payloadSize → Scans cfg twin.attached payloadSize →
    SameExpired twin.original.slots twin.original.clock cfg.evictTimeoutNs twin.evictTimeoutNs
  original : Scans cfg twin.original payloadSize → ¬ Scans cfg twin.attached payloadSize →
    FindsRoom cfg twin.original.slots twin.original.clock
      (twin.original.shared.header.producerCursor + requiredSpace payloadSize)
  attached : ¬ Scans cfg twin.original payloadSize → Scans cfg twin.attached payloadSize →
    FindsRoom (cfg.withTimeout twin.evictTimeoutNs) twin.original.slots twin.original.clock
      (twin.original.shared.header.producerCursor + requiredSpace payloadSize)

/-- The lost fields make no difference to any scan, and a `Commit` closes a reservation. -/
def LosesNothing (cfg : Config) (twin : Twin) : TwinEvent → Prop
  | .reserve payloadSize _ _ _ =>
      requiredSpace payloadSize ≤ cfg.capacity → ScansAlike cfg twin payloadSize
  | .other (.scan tsc) => ∀ pending, twin.original.producer.pending = some pending →
      SameExpired twin.original.slots (pending.refresh tsc twin.original.clock).now
        cfg.evictTimeoutNs twin.evictTimeoutNs
  | .other .commit => twin.original.producer.grant ≠ none
  | .other _ => True

/-! ## States that look alike -/

/-- Two states that differ in private fields of the producer only. -/
structure SameWorld (first second : State) : Prop where
  shared : first.shared = second.shared
  readers : first.readers = second.readers
  clock : first.clock = second.clock
  isProducer : first.producer.isProducer = second.producer.isProducer

/-- Two states whose producers also have the same calls and reservations open. -/
structure Lookalike (first second : State) : Prop extends SameWorld first second where
  pending : first.producer.pending = second.producer.pending
  grant : first.producer.grant = second.producer.grant
  reservation : first.producer.grant ≠ none →
    first.producer.currentReservation = second.producer.currentReservation

section Scan

variable {cfg : Config} {first second : State} {slots : Fin kMaxReaders → ReaderSlot}
  {now evictTimeoutNs : Int} {target : UInt64}

/-- Timeouts that agree on every active reader evict the same readers. -/
theorem scanReaders_congr (h : SameExpired slots now cfg.evictTimeoutNs evictTimeoutNs) :
    scanReaders now cfg.evictTimeoutNs slots target =
      scanReaders now evictTimeoutNs slots target := by
  have hfold : ∀ (indices : List (Fin kMaxReaders)) (acc : (Fin kMaxReaders → ReaderSlot) × UInt64),
      SameExpired acc.1 now cfg.evictTimeoutNs evictTimeoutNs →
      indices.foldl (scanSlot now cfg.evictTimeoutNs) acc =
        indices.foldl (scanSlot now evictTimeoutNs) acc := by
    intro indices
    induction indices with
    | nil => exact fun _ _ => rfl
    | cons index indices ih =>
        intro acc hacc
        have hslot : scanSlot now cfg.evictTimeoutNs acc index =
            scanSlot now evictTimeoutNs acc index := by
          simp only [scanSlot]
          split
          · next hactive => simp only [hacc index hactive]
          · rfl
        rw [List.foldl_cons, List.foldl_cons, hslot]
        refine ih _ fun other hother => ?_
        rw [scanSlot_slots] at hother ⊢
        by_cases heq : other = index
        · subst heq
          rw [Function.update_self] at hother ⊢
          have hkept := evictExpired_of_active hother
          rw [hkept] at hother ⊢
          exact hacc other hother
        · rw [Function.update_of_ne heq] at hother ⊢
          exact hacc other hother
  exact hfold _ _ h

/-- A scan that finds room leaves the roster. -/
theorem FindsRoom.scan (h : FindsRoom cfg slots now target) :
    (scanReaders now cfg.evictTimeoutNs slots target).1 = slots ∧
      target - (scanReaders now cfg.evictTimeoutNs slots target).2 ≤ cfg.capacity := by
  constructor
  · rw [scanReaders_slots]
    funext index
    exact if_neg fun hexpired => (h index hexpired.1).1 hexpired.2
  · have hmin : (scanReaders now cfg.evictTimeoutNs slots target).2 = target ∨
        ∃ index, (slots index).active = true ∧
          (scanReaders now cfg.evictTimeoutNs slots target).2 = (slots index).cursor :=
      scanReaders_min_mem
    rcases hmin with htarget | ⟨index, hactive, hcursor⟩
    · rw [htarget, UInt64.sub_self]
      exact UInt64.zero_le
    · have hle : (slots index).cursor ≤ target := by
        rw [← hcursor]
        exact scanReaders_le_target
      rw [hcursor]
      rcases UInt64.lt_or_eq_of_le hle with hlt | heq
      · exact (h index hactive).2 hlt
      · rw [heq, UInt64.sub_self]
        exact UInt64.zero_le

/-- The end of `Reserve` makes states alike that differ in private fields only. -/
theorem SameWorld.finish (h : SameWorld first second) (evictTimeoutNs : Int)
    (payloadSize typeId : UInt32) (currentCursor targetCursor : UInt64) :
    Lookalike (finishReserve cfg first payloadSize typeId currentCursor targetCursor)
      (finishReserve (cfg.withTimeout evictTimeoutNs) second payloadSize typeId currentCursor
        targetCursor) where
  shared := by
    simp only [finishReserve, h.shared, h.clock]
    rfl
  readers := h.readers
  clock := h.clock
  isProducer := h.isProducer
  pending := rfl
  grant := rfl
  reservation _ := rfl

/-- The scans of states that look alike, with timeouts that agree. -/
theorem Lookalike.rescan (h : Lookalike first second) (pending : PendingReserve)
    (hexpired : SameExpired first.slots pending.now cfg.evictTimeoutNs evictTimeoutNs) :
    Lookalike (rescan cfg first pending) (rescan (cfg.withTimeout evictTimeoutNs) second pending) ∧
      (rescan cfg first pending).producer.cachedMinCursor =
        (rescan (cfg.withTimeout evictTimeoutNs) second pending).producer.cachedMinCursor := by
  have hscan : scanReaders pending.now cfg.evictTimeoutNs first.shared.header.readers
        pending.targetCursor =
      scanReaders pending.now (cfg.withTimeout evictTimeoutNs).evictTimeoutNs
        second.shared.header.readers pending.targetCursor := by
    rw [← h.shared]
    exact scanReaders_congr hexpired
  refine ⟨⟨⟨?_, h.readers, h.clock, h.isProducer⟩, rfl, h.grant, h.reservation⟩,
    congrArg Prod.snd hscan⟩
  simp only [SharedMemory.rescan]
  rw [hscan, h.shared]

/-- A pass of two scans that evict the same readers. -/
theorem Lookalike.pass (h : Lookalike first second) (pending : PendingReserve) (tsc : UInt64)
    (hexpired : SameExpired first.slots (pending.refresh tsc first.clock).now cfg.evictTimeoutNs
      evictTimeoutNs) :
    Lookalike (scanPass cfg first pending tsc)
      (scanPass (cfg.withTimeout evictTimeoutNs) second pending tsc) := by
  obtain ⟨hscanned, hcached⟩ := h.rescan (pending.refresh tsc first.clock) hexpired
  simp only [scanPass, ← h.clock, hcached, Config.withTimeout_capacity]
  split
  · exact hscanned.toSameWorld.finish evictTimeoutNs _ _ _ _
  · exact hscanned

/-- A pass that finds room changes nothing but private fields before it ends `Reserve`. -/
theorem scanPass_of_room {state : State} {pending : PendingReserve} {tsc : UInt64}
    (h : FindsRoom cfg state.slots (pending.refresh tsc state.clock).now pending.targetCursor) :
    ∃ scanned, SameWorld scanned state ∧
      scanPass cfg state pending tsc = finishReserve cfg scanned pending.payloadSize
        pending.typeId pending.currentCursor pending.targetCursor := by
  obtain ⟨hsize, htype, hcurrent, htarget⟩ := refresh_fields pending tsc state.clock
  obtain ⟨hslots, hroom⟩ := h.scan
  refine ⟨rescan cfg state (pending.refresh tsc state.clock), ⟨?_, rfl, rfl, rfl⟩, ?_⟩
  · rw [← htarget] at hslots
    show ({ state.shared with header := { state.shared.header with readers := _ } } : Shared) = _
    rw [hslots]
  · rcases scanPass_cases cfg state pending tsc with ⟨-, hpass⟩ | ⟨hwait, -⟩
    · rw [hpass, hsize, htype, hcurrent, htarget]
    · rw [← htarget] at hroom
      exact absurd hroom (UInt64.not_le.mpr hwait)

end Scan

/-! ## The steps -/

section Steps

variable {cfg : Config} {first second : State} {evictTimeoutNs : Int}
  {payloadSize typeId : UInt32} {tsc passTsc : UInt64}

/-- The claim that a `Reserve` scans for. -/
def State.claims (state : State) (payloadSize typeId : UInt32) (tsc : UInt64) : PendingReserve :=
  ⟨payloadSize, typeId, state.shared.header.producerCursor,
    state.shared.header.producerCursor + requiredSpace payloadSize, state.clock, tsc⟩

/-- `Reserve` is rejected, returns at once, or scans. -/
theorem reserveOnce_cases (cfg : Config) {state : State} (hidle : state.producer.pending = none)
    (payloadSize typeId : UInt32) (tsc passTsc : UInt64) :
    (reserveError cfg state.producer payloadSize ≠ none ∧
      reserveOnce cfg state payloadSize typeId tsc passTsc = state) ∨
    (reserveError cfg state.producer payloadSize = none ∧ ¬ Scans cfg state payloadSize ∧
      reserveOnce cfg state payloadSize typeId tsc passTsc =
        finishReserve cfg state payloadSize typeId state.shared.header.producerCursor
          (state.shared.header.producerCursor + requiredSpace payloadSize)) ∨
    (reserveError cfg state.producer payloadSize = none ∧ Scans cfg state payloadSize ∧
      reserveOnce cfg state payloadSize typeId tsc passTsc =
        scanPass cfg (state.wait (state.claims payloadSize typeId tsc))
          (state.claims payloadSize typeId tsc) passTsc) := by
  rcases reserve_cases cfg state payloadSize typeId tsc with
      ⟨herror, hreserve⟩ | ⟨herror, hscans, hreserve⟩ | ⟨herror, hroom, hreserve⟩
  · refine .inl ⟨fun hnone => by simp [hnone] at herror, ?_⟩
    simp only [reserveOnce, hreserve, hidle]
  · refine .inr (.inr ⟨herror, hscans, ?_⟩)
    simp only [reserveOnce, hreserve]
    rfl
  · refine .inr (.inl ⟨herror, UInt64.not_lt.mpr hroom, ?_⟩)
    simp only [reserveOnce, hreserve]
    rfl

/-- The first pass of a scan has the clock reading of its call. -/
theorem refresh_claims (state : State) (payloadSize typeId : UInt32) (tsc passTsc : UInt64) :
    ((state.claims payloadSize typeId tsc).refresh passTsc state.clock).now = state.clock := by
  unfold PendingReserve.refresh
  split <;> rfl

/-- A `Reserve` that scans and finds room ends as if it had not scanned. -/
theorem reserveOnce_of_room {state : State}
    (hroom : FindsRoom cfg state.slots state.clock
      (state.shared.header.producerCursor + requiredSpace payloadSize)) :
    ∃ scanned, SameWorld scanned state ∧
      scanPass cfg (state.wait (state.claims payloadSize typeId tsc))
          (state.claims payloadSize typeId tsc) passTsc =
        finishReserve cfg scanned payloadSize typeId state.shared.header.producerCursor
          (state.shared.header.producerCursor + requiredSpace payloadSize) := by
  have hscan : FindsRoom cfg (state.wait (state.claims payloadSize typeId tsc)).slots
      ((state.claims payloadSize typeId tsc).refresh passTsc state.clock).now
      (state.claims payloadSize typeId tsc).targetCursor := by
    rw [refresh_claims]
    exact hroom
  obtain ⟨scanned, hworld, hpass⟩ := scanPass_of_room hscan
  exact ⟨scanned, ⟨hworld.shared, hworld.readers, hworld.clock, hworld.isProducer⟩, hpass⟩

theorem SameWorld.symm (h : SameWorld first second) : SameWorld second first :=
  ⟨h.shared.symm, h.readers.symm, h.clock.symm, h.isProducer.symm⟩

theorem SameWorld.trans {third : State} (h : SameWorld first second)
    (hthen : SameWorld second third) : SameWorld first third :=
  ⟨h.shared.trans hthen.shared, h.readers.trans hthen.readers, h.clock.trans hthen.clock,
    h.isProducer.trans hthen.isProducer⟩

/-- The twins reject the same calls. -/
theorem SameWorld.rejects (h : SameWorld first second) (payloadSize : UInt32) :
    reserveError cfg first.producer payloadSize =
      reserveError (cfg.withTimeout evictTimeoutNs) second.producer payloadSize := by
  unfold reserveError
  rw [h.isProducer]
  rfl

/-- A call of `Reserve` keeps the twins alike, if what is lost makes no difference to it. -/
theorem Lookalike.reserve (h : Lookalike first second) (hidle : first.producer.pending = none)
    (hscans : requiredSpace payloadSize ≤ cfg.capacity →
      ScansAlike cfg ⟨first, second, evictTimeoutNs⟩ payloadSize) :
    Lookalike (reserveOnce cfg first payloadSize typeId tsc passTsc)
      (reserveOnce (cfg.withTimeout evictTimeoutNs) second payloadSize typeId tsc passTsc) := by
  have hrejects : reserveError cfg first.producer payloadSize =
      reserveError (cfg.withTimeout evictTimeoutNs) second.producer payloadSize :=
    h.rejects payloadSize
  have hidle' : second.producer.pending = none := h.pending ▸ hidle
  have hcursor : second.shared.header.producerCursor = first.shared.header.producerCursor := by
    rw [h.shared]
  have hclaims : second.claims payloadSize typeId tsc = first.claims payloadSize typeId tsc := by
    unfold State.claims
    rw [hcursor, h.clock]
  have haccepted : reserveError cfg first.producer payloadSize = none →
      ScansAlike cfg ⟨first, second, evictTimeoutNs⟩ payloadSize := fun hnone =>
    hscans (reserveError_eq_none_iff.mp hnone).2
  rcases reserveOnce_cases cfg hidle payloadSize typeId tsc passTsc with
      ⟨herror, hfirst⟩ | ⟨herror, hscan, hfirst⟩ | ⟨herror, hscan, hfirst⟩
  · obtain ⟨-, hsecond⟩ | ⟨herror', -⟩ | ⟨herror', -⟩ :=
      reserveOnce_cases (cfg.withTimeout evictTimeoutNs) hidle' payloadSize typeId tsc passTsc
    · rw [hfirst, hsecond]
      exact h
    · exact absurd (hrejects.trans herror') herror
    · exact absurd (hrejects.trans herror') herror
  · obtain ⟨herror', -⟩ | ⟨-, -, hsecond⟩ | ⟨-, hscan', hsecond⟩ :=
      reserveOnce_cases (cfg.withTimeout evictTimeoutNs) hidle' payloadSize typeId tsc passTsc
    · exact absurd (hrejects.symm.trans herror) herror'
    · rw [hfirst, hsecond, hcursor]
      exact h.toSameWorld.finish evictTimeoutNs _ _ _ _
    · -- only the attached producer scans
      have hroom := (haccepted herror).attached hscan hscan'
      rw [show first.slots = second.slots from congrArg (·.header.readers) h.shared, h.clock,
        ← hcursor] at hroom
      obtain ⟨scanned, hworld, hpass⟩ := reserveOnce_of_room hroom
      rw [hfirst, hsecond, hpass, hcursor]
      exact (h.toSameWorld.trans hworld.symm).finish evictTimeoutNs _ _ _ _
  · obtain ⟨herror', -⟩ | ⟨-, hscan', hsecond⟩ | ⟨-, hscan', hsecond⟩ :=
      reserveOnce_cases (cfg.withTimeout evictTimeoutNs) hidle' payloadSize typeId tsc passTsc
    · exact absurd (hrejects.symm.trans herror) herror'
    · -- only the original producer scans
      obtain ⟨scanned, hworld, hpass⟩ :=
        reserveOnce_of_room ((haccepted herror).original hscan hscan')
      rw [hfirst, hsecond, hpass, hcursor]
      exact (hworld.trans h.toSameWorld).finish evictTimeoutNs _ _ _ _
    · have hexpired := (haccepted herror).both hscan hscan'
      rw [hfirst, hsecond, hclaims]
      have hwaiting : Lookalike (first.wait (first.claims payloadSize typeId tsc))
          (second.wait (first.claims payloadSize typeId tsc)) :=
        ⟨⟨h.shared, h.readers, h.clock, h.isProducer⟩, rfl, h.grant, h.reservation⟩
      refine hwaiting.pass _ passTsc ?_
      show SameExpired first.slots
        ((first.claims payloadSize typeId tsc).refresh passTsc first.clock).now _ _
      rw [refresh_claims]
      exact hexpired

/-- A consumer's call keeps the twins alike. -/
theorem Lookalike.setReader (h : Lookalike first second) (reader : ReaderId)
    (result : Shared × BroadcastReader) :
    Lookalike (first.setReader reader result) (second.setReader reader result) where
  shared := rfl
  readers := by simp only [State.setReader, h.readers]
  clock := h.clock
  isProducer := h.isProducer
  pending := h.pending
  grant := h.grant
  reservation := h.reservation

/-- Every step keeps the twins alike and is possible for both or for none, if what is lost makes no
difference to it. -/
theorem callStep_lookalike (h : Lookalike first second) {event : TwinEvent}
    (hallow : LosesNothing cfg ⟨first, second, evictTimeoutNs⟩ event) :
    Option.Rel Lookalike (callStep cfg first event)
      (callStep (cfg.withTimeout evictTimeoutNs) second event) := by
  have hshared := h.shared
  have hreaders := h.readers
  have hclock := h.clock
  have hpending := h.pending
  have hgrant := h.grant
  cases event with
  | reserve payloadSize typeId tsc passTsc =>
      simp only [callStep, ← hpending]
      split
      · exact .none
      · next hidle => exact .some (h.reserve (by simpa using hidle) hallow)
  | other event =>
      cases event with
      | reserve => exact .none
      | scan tsc =>
          simp only [callStep, step, ← hpending]
          cases hat : first.producer.pending with
          | none => exact .none
          | some pending => exact .some (h.pass pending tsc (hallow pending hat))
      | writePayload payload =>
          simp only [callStep, step, ← hpending, ← hgrant]
          split
          · split
            · refine .some ⟨⟨?_, hreaders, hclock, h.isProducer⟩, hpending, hgrant, h.reservation⟩
              simp only [writePayload, hshared, Config.withTimeout_capacity]
            · exact .none
          · exact .none
      | commit =>
          simp only [callStep, step, ← hpending, ← h.reservation hallow]
          split
          · refine .some ⟨⟨?_, hreaders, hclock, h.isProducer⟩, hpending, rfl, ?_⟩
            · simp only [commit, hshared, Config.withTimeout_capacity]
            · exact fun hopen => absurd rfl hopen
          · exact .none
      | setCursor reader cursor =>
          simp only [callStep, step, hshared, hreaders]
          exact .some (h.setReader _ _)
      | registerReader reader =>
          simp only [callStep, step, hshared, hreaders, hclock]
          split
          · exact .some (h.setReader _ _)
          · exact .some h
      | unregisterReader reader =>
          simp only [callStep, step, hshared, hreaders]
          exact .some (h.setReader _ _)
      | pollZeroCopy reader => exact .some h
      | pollCopy reader =>
          simp only [callStep, step, hshared, hreaders, Config.withTimeout_capacity]
          cases pollCopy cfg.capacity second.shared (second.readers reader) with
          | none => exact .none
          | some result => exact .some h
      | pollCopyBatch reader maxMessages =>
          simp only [callStep, step, hshared, hreaders, hclock, Config.withTimeout_capacity]
          exact .some (h.setReader _ _)
      | advance reader totalFrameLength =>
          simp only [callStep, step, hshared, hreaders, hclock]
          exact .some (h.setReader _ _)
      | tick elapsed =>
          refine .some ⟨⟨hshared, hreaders, ?_, h.isProducer⟩, hpending, hgrant, h.reservation⟩
          rw [hclock]

/-- A step of both twins keeps them alike. -/
theorem twinStep_lookalike {twin next : Twin} {event : TwinEvent}
    (h : Lookalike twin.original twin.attached) (hallow : LosesNothing cfg twin event)
    (hstep : twinStep cfg twin event = some next) : Lookalike next.original next.attached := by
  obtain ⟨original, horiginal, hrest⟩ := Option.bind_eq_some_iff.mp hstep
  obtain ⟨attached, hattached, hnext⟩ := Option.bind_eq_some_iff.mp hrest
  obtain rfl := Option.some.inj hnext
  have hsteps := callStep_lookalike h hallow
  rw [horiginal, hattached] at hsteps
  cases hsteps with
  | some halike => exact halike

/-- Nobody makes a producer of the ring read-only. -/
theorem step_isProducer {state next : State} {event : Event}
    (h : step cfg state event = some next) :
    next.producer.isProducer = state.producer.isProducer := by
  cases event with
  | reserve payloadSize typeId tsc =>
      simp only [step] at h
      split at h
      · simp at h
      · obtain rfl := Option.some.inj h
        rcases reserve_cases cfg state payloadSize typeId tsc with
            ⟨-, hreserve⟩ | ⟨-, -, hreserve⟩ | ⟨-, -, hreserve⟩
        · rw [hreserve]
        · rw [hreserve]
          rfl
        · rw [hreserve]
          rfl
  | scan tsc =>
      obtain ⟨pending, -, rfl⟩ := Option.map_eq_some_iff.mp h
      rcases scanPass_cases cfg state pending tsc with ⟨-, hpass⟩ | ⟨-, hpass⟩
      · rw [hpass]
        rfl
      · rw [hpass]
        rfl
  | writePayload payload =>
      simp only [step] at h
      split at h
      · split at h
        · obtain rfl := Option.some.inj h
          rfl
        · simp at h
      · simp at h
  | commit =>
      simp only [step] at h
      split at h
      · obtain rfl := Option.some.inj h
        rfl
      · simp at h
  | registerReader reader =>
      simp only [step] at h
      split at h
      · obtain rfl := Option.some.inj h
        rfl
      · obtain rfl := Option.some.inj h
        rfl
  | pollCopy reader =>
      obtain ⟨-, -, rfl⟩ := Option.map_eq_some_iff.mp h
      rfl
  | _ =>
      obtain rfl := Option.some.inj h
      rfl

/-- Every object that `Create` makes can write. -/
theorem reachable_isProducer {allow : State → Event → Prop} {state : State}
    (h : (ring cfg).Reachable allow state) : state.producer.isProducer = true := by
  refine h.invariant (fun state => state.producer.isProducer = true) ?_ ?_
  · intro state ⟨clock, hcreated⟩
    rw [hcreated]
    rfl
  · intro state event next hproducer _ hstep
    exact (step_isProducer hstep).trans hproducer

/-- The twins look alike in every run in which nothing is lost. -/
theorem reachable_lookalike {twin : Twin} (h : (twins cfg).Reachable (LosesNothing cfg) twin) :
    Lookalike twin.original twin.attached := by
  refine h.invariant (fun twin => Lookalike twin.original twin.attached) ?_ ?_
  · intro twin ⟨name, process, hattach, hstopped, hattached, _⟩
    obtain rfl := Access.eq_of_attach hattach
    rw [hattached]
    exact ⟨⟨rfl, rfl, rfl, reachable_isProducer hstopped.reachable⟩, hstopped.returned,
      hstopped.closed, fun hopen => absurd hstopped.closed hopen⟩
  · intro twin event next hlookalike hallow hstep
    exact twinStep_lookalike hlookalike hallow hstep

end Steps

/-- Twins that look alike behave alike in the next step, if nothing is lost in it. -/
theorem Lookalike.behaves {cfg : Config} {twin : Twin} {event : TwinEvent}
    (h : Lookalike twin.original twin.attached) (hallow : LosesNothing cfg twin event) :
    ((callStep cfg twin.original event).isSome ↔
      (callStep (cfg.withTimeout twin.evictTimeoutNs) twin.attached event).isSome) ∧
    ∀ next, twinStep cfg twin event = some next → EvictsLess twin next := by
  constructor
  · have hsteps := callStep_lookalike h hallow
    generalize callStep cfg twin.original event = original at hsteps ⊢
    generalize callStep _ twin.attached event = attached at hsteps ⊢
    cases hsteps with
    | none => exact Iff.rfl
    | some => exact Iff.rfl
  · intro next hstep index _ hclear
    have hnext := twinStep_lookalike h hallow hstep
    show (next.original.shared.header.readers index).active = false
    rw [hnext.shared]
    exact hclear

/-- Twins that look alike cannot be told apart. -/
theorem Lookalike.alike {cfg : Config} {twin : Twin} (h : Lookalike twin.original twin.attached) :
    Alike cfg twin := by
  have hshared := h.shared
  exact ⟨h.rejects, by rw [h.pending], h.grant, by rw [hshared], by rw [hshared], by rw [hshared]⟩

/-! ## Fresh heartbeats -/

/-- At a clock reading, no active reader's heartbeat is older than either timeout. -/
def Twin.Fresh (cfg : Config) (twin : Twin) (now : Int) : Prop :=
  ∀ index, (twin.original.slots index).active = true →
    now - (twin.original.slots index).heartbeatTs ≤ cfg.evictTimeoutNs ∧
      now - (twin.original.slots index).heartbeatTs ≤ twin.evictTimeoutNs

/-- Every active reader leaves room for a frame. -/
def Twin.LeavesRoom (cfg : Config) (twin : Twin) (payloadSize : UInt32) : Prop :=
  let target := twin.original.shared.header.producerCursor + requiredSpace payloadSize
  ∀ index, (twin.original.slots index).active = true →
    (twin.original.slots index).cursor < target →
      target - (twin.original.slots index).cursor ≤ cfg.capacity

/-- The heartbeats are fresh whenever the clock is read for a scan, every frame that fits the
buffer finds room, and a `Commit` closes a reservation. -/
def StaysFresh (cfg : Config) (twin : Twin) : TwinEvent → Prop
  | .reserve payloadSize _ _ _ => requiredSpace payloadSize ≤ cfg.capacity →
      twin.Fresh cfg twin.original.clock ∧ twin.LeavesRoom cfg payloadSize
  | .other (.scan tsc) => ∀ pending, twin.original.producer.pending = some pending →
      twin.Fresh cfg (pending.refresh tsc twin.original.clock).now
  | .other .commit => twin.original.producer.grant ≠ none
  | .other _ => True

/-- Fresh heartbeats have expired for neither timeout. -/
theorem Twin.Fresh.sameExpired {cfg : Config} {twin : Twin} {now : Int}
    (h : twin.Fresh cfg now) :
    SameExpired twin.original.slots now cfg.evictTimeoutNs twin.evictTimeoutNs := by
  intro index hactive
  obtain ⟨hfirst, hsecond⟩ := h index hactive
  exact iff_of_false (not_lt.mpr hfirst) (not_lt.mpr hsecond)

/-- What the attached producer has lost makes no difference while the heartbeats are fresh. -/
theorem StaysFresh.losesNothing {cfg : Config} {twin : Twin} {event : TwinEvent}
    (h : StaysFresh cfg twin event) : LosesNothing cfg twin event := by
  cases event with
  | reserve payloadSize typeId tsc passTsc =>
      intro hfits
      obtain ⟨hfresh, hroom⟩ := h hfits
      exact {
        both := fun _ _ => hfresh.sameExpired
        original := fun _ _ index hactive =>
          ⟨not_lt.mpr (hfresh index hactive).1, hroom index hactive⟩
        attached := fun _ _ index hactive =>
          ⟨not_lt.mpr (hfresh index hactive).2, hroom index hactive⟩ }
  | other event =>
      cases event with
      | scan tsc => exact fun pending hpending => (h pending hpending).sameExpired
      | _ => exact h

/-- An attached producer behaves like the original while every reader keeps its heartbeat fresh and
leaves room. -/
theorem attached_alike_fresh (cfg : Config) : BehavesAlike cfg (StaysFresh cfg) := by
  intro twin hreach
  have h := reachable_lookalike (hreach.mono fun _ _ hfresh => hfresh.losesNothing)
  exact ⟨h.alike, fun event hfresh => h.behaves hfresh.losesNothing⟩

/-- An attached producer behaves like the original as long as the fields that `Attach` does not
restore make no difference to a scan. -/
theorem attached_alike (cfg : Config) : BehavesAlike cfg (LosesNothing cfg) := by
  intro twin hreach
  have h := reachable_lookalike hreach
  exact ⟨h.alike, fun event hallow => h.behaves hallow⟩

/-! ## A live reader -/

/-- A `Commit` has a reservation to close. -/
def closesOpen (twin : Twin) : TwinEvent → Bool
  | .other .commit => twin.original.producer.grant.isSome
  | _ => true

/-- A reader registers, the producer fills the buffer, and a nanosecond later it asks for more
room. -/
def asksForRoom : List TwinEvent := [
  .other (.registerReader 0), .reserve 4072 0 0 0, .other .commit, .other (.tick 1),
  .reserve 40 0 0 0]

/-- The original waits for the reader. The attached producer has evicted it, and hands out space
over the frame that it has not read. -/
def attachedOvertakes (twin : Twin) : Bool :=
  twin.original.producer.pending.isSome && (twin.original.slots 0).active &&
    twin.attached.producer.pending.isNone && !(twin.attached.slots 0).active

/-- `Attach` makes a producer that does not wait for a live reader. -/
theorem attached_overtakes : ¬ BehavesAlike onePage fun twin event => closesOpen twin event := by
  intro halike
  have hstopped : Stopped onePage (created 0) := ⟨.init ⟨0, rfl⟩, rfl, rfl⟩
  obtain ⟨twin, hreach, htwin⟩ := System.exists_reachable_of_replay (twins onePage)
    (fun twin event => closesOpen twin event = true)
    ⟨created 0, (created 0).attached { isProducer := true, evictTimeoutNs := 0 }, 0⟩ asksForRoom
    attachedOvertakes (.init ⟨"ring", _, rfl, hstopped, rfl, rfl⟩) (by decide +kernel)
  simp only [attachedOvertakes, Bool.and_eq_true] at htwin
  obtain ⟨⟨⟨hwaits, -⟩, hreturned⟩, -⟩ := htwin
  have hsame := (halike twin hreach).1.waits
  rw [hwaits, Option.isNone_iff_eq_none.mp hreturned] at hsame
  simp at hsame

end HotPath.SharedMemory
