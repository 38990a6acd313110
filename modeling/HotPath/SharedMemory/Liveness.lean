import HotPath.SharedMemory.SlotOwnership

/-!
# Live readers and eviction

A reader looks alive to the producer as long as its heartbeat is young enough, and a heartbeat is
written by a registration and by an advance only. `Attention` records, for one reader, when it
last polled and when it last wrote a heartbeat.

A poll that finds no data writes no heartbeat, so a reader that has consumed everything and polls
all the time is evicted by the first scan after a quiet period (`idle_reader_is_evicted`).
`live_reader_kept` shows that a reader is kept in every run in which each scan pass that finds it
in its slot reads the clock at most one timeout after the reader's last heartbeat.
-/

namespace HotPath.SharedMemory

open HotPath.Foundation

/-! ## What a reader does -/

/-- A successful registration is about to bind the handle. -/
def Event.registers (state : State) (reader : ReaderId) : Event → Bool
  | .registerReader caller => caller == reader && (state.readers reader).slotIndex == none
  | _ => false

/-- The reader calls one of its poll functions. -/
def Event.polls (reader : ReaderId) : Event → Bool
  | .pollZeroCopy caller | .pollCopy caller | .pollCopyBatch caller _ => caller == reader
  | _ => false

/-- The reader calls a poll function that leaves the advance to it, and the poll succeeds. -/
def Event.finds (cfg : Config) (state : State) (reader : ReaderId) : Event → Bool
  | .pollZeroCopy caller => caller == reader &&
      (SharedMemory.pollZeroCopy cfg.capacity state.shared (state.readers reader)).isOk
  | .pollCopy caller => caller == reader &&
      (SharedMemory.pollCopy cfg.capacity state.shared (state.readers reader)).any Except.isOk
  | _ => false

/-- The reader advances. -/
def Event.advances (cfg : Config) (state : State) (reader : ReaderId) (event : Event) : Bool :=
  event.reader == some reader && (event.advancesBy cfg state).isSome

/-- What is remembered of one reader: the owners of the slots, the time of its last poll, whether
it still has to advance over a frame that a poll found, and the time of its last heartbeat. -/
structure Attention where
  owners : Owners
  lastPoll : Int
  owes : Bool
  lastBeat : Int

/-- The history of one reader. -/
def attention (cfg : Config) (reader : ReaderId) : Recorder State Event Attention where
  start state := ⟨fun _ => none, state.clock, false, state.clock⟩
  observe state event next history :=
    { owners := ownersAfter state event next.slots next.readers history.owners
      lastPoll :=
        if event.registers state reader || event.polls reader then state.clock
        else history.lastPoll
      owes :=
        if event.registers state reader || event.advances cfg state reader then false
        else event.finds cfg state reader || history.owes
      lastBeat :=
        if event.registers state reader || event.advances cfg state reader then state.clock
        else history.lastBeat }

/-- The reader holds a slot. -/
def Attention.registered (history : Attention) (reader : ReaderId) : Prop :=
  ∃ index, history.owners index = some reader

/-- `registered` is decidable by a look at all the slots. -/
instance (history : Attention) (reader : ReaderId) : Decidable (history.registered reader) :=
  inferInstanceAs (Decidable (∃ index, history.owners index = some reader))

/-- Time passes only as long as the reader, if it is registered, has polled within the timeout
and has advanced over what its last poll found. -/
def attentive (cfg : Config) (reader : ReaderId) (pair : State × Attention) : Event → Bool
  | .tick elapsed => !decide (pair.2.registered reader) ||
      (pair.1.clock + elapsed - pair.2.lastPoll ≤ cfg.evictTimeoutNs && !pair.2.owes)
  | _ => true

/-- A scan pass that finds the reader in its slot uses a clock reading at most one timeout after
the reader's last heartbeat. -/
def BeatFresh (cfg : Config) (reader : ReaderId) (pair : State × Attention) : Event → Prop
  | .scan tsc => pair.2.registered reader → ∀ pending, pair.1.producer.pending = some pending →
      (pending.refresh tsc pair.1.clock).now - pair.2.lastBeat ≤ cfg.evictTimeoutNs
  | _ => True

/-- In every run whose calls meet `allow`, no call of the producer deactivates the reader's
slot. -/
def LiveReaderKept (cfg : Config) (reader : ReaderId)
    (allow : State × Attention → Event → Prop) : Prop :=
  ∀ pair, ((ring cfg).withHistory (attention cfg reader)).Reachable allow pair →
    ∀ event next, allow pair event → step cfg pair.1 event = some next → event.reader = none →
      ∀ index, pair.2.owners index = some reader → (pair.1.slots index).active = true →
        (next.slots index).active = true

/-! ## Heartbeats -/

/-- The handle of a registered reader names its slot and carries its generation. -/
def HandleBound (reader : ReaderId) (slots : Fin kMaxReaders → ReaderSlot)
    (readers : ReaderId → BroadcastReader) (owners : Owners) : Prop :=
  ∀ index, owners index = some reader → (readers reader).slotIndex = some index ∧
    (slots index).generationId = (readers reader).generationId

section Beats

variable {cfg : Config} {state : State} {event : Event} {slots : Fin kMaxReaders → ReaderSlot}
  {readers : ReaderId → BroadcastReader} {owners : Owners} {reader : ReaderId}

/-- An advance is not a registration. -/
theorem Event.not_registers {length : UInt64} (h : event.advancesBy cfg state = some length) :
    event.registers state reader = false := by
  cases event <;> simp_all [Event.advancesBy, Event.registers]

/-- A call that advances a handle is the advance of that handle and of no other. -/
theorem Event.advances_eq {caller : ReaderId} {length : UInt64}
    (hcaller : event.reader = some caller) (h : event.advancesBy cfg state = some length) :
    event.advances cfg state reader = decide (caller = reader) := by
  simp [Event.advances, hcaller, h, beq_eq_decide]

/-- What becomes of the slot of a registered reader. Either the reader has just claimed it, or the
reader held it before, its handle was bound to it and still is, and the slot keeps its generation.
In the second case the heartbeat is the old one or the present time, and the reader neither
registers nor advances unless it is the present time. -/
theorem RosterStep.held_slot (hstep : RosterStep cfg state event slots readers)
    (h : HandleBound reader state.slots state.readers owners) {index : Fin kMaxReaders}
    (howner : ownersAfter state event slots readers owners index = some reader) :
    ((readers reader).slotIndex = some index ∧
        (slots index).generationId = (readers reader).generationId) ∧
      ((slots index).heartbeatTs = state.clock ∨
        owners index = some reader ∧
          (slots index).heartbeatTs = (state.slots index).heartbeatTs ∧
          event.registers state reader = false ∧ event.advances cfg state reader = false) := by
  cases hstep with
  | same _ hstay =>
      have howner := owner_before howner fun _ _ hnone => hnone
      have hbound := h index howner
      refine ⟨hbound, .inr ⟨howner, rfl, ?_, by simp [Event.advances, hstay]⟩⟩
      cases event <;> simp_all [Event.registers]
  | scan =>
      have howner := owner_before howner (by simp)
      exact ⟨by simpa using h index howner, .inr ⟨howner, by simp, rfl, rfl⟩⟩
  | setCursor caller cursor =>
      have howner := owner_before howner (by simp)
      have hbinding := update_cursor_binding state.readers caller reader cursor
      rw [hbinding.1, hbinding.2]
      exact ⟨h index howner, .inr ⟨howner, rfl, rfl, by simp [Event.advances, Event.advancesBy]⟩⟩
  | register caller claimed hnone hfree =>
      simp only [ownersAfter, hnone, Function.update_self] at howner
      by_cases hindex : index = claimed
      · subst hindex
        obtain rfl : caller = reader := by simpa using howner
        simp
      · rw [Function.update_of_ne hindex] at howner
        have hbound := h index howner
        have hne : caller ≠ reader := by
          rintro rfl
          simp [hnone] at hbound
        refine ⟨by simpa [hindex, hne.symm] using hbound, .inr ⟨howner, by simp [hindex], ?_, ?_⟩⟩
        · simp [Event.registers, hne]
        · simp [Event.advances, Event.advancesBy]
  | unregister caller cleared hcleared =>
      have hne : caller ≠ reader := by
        rintro rfl
        simp [ownersAfter] at howner
      have hbefore := owner_before howner (by simp)
      have hbound := h index hbefore
      by_cases hindex : index = cleared
      · subst hindex
        exact ⟨by simpa [hne.symm] using hbound, .inr ⟨hbefore, by simp, rfl,
          by simp [Event.advances, Event.advancesBy]⟩⟩
      · exact ⟨by simpa [hindex, hne.symm] using hbound, .inr ⟨hbefore, by simp [hindex], rfl,
          by simp [Event.advances, Event.advancesBy]⟩⟩
  | publish _ caller published length hcaller hlength hpublished hmatch =>
      rw [ownersAfter_advance hlength] at howner
      have hbinding := update_cursor_binding state.readers caller reader
        ((state.readers caller).cursor + length)
      have hbound := h index howner
      rw [hbinding.1, hbinding.2]
      by_cases hindex : index = published
      · subst hindex
        simpa using hbound
      · have hne : caller ≠ reader := by
          rintro rfl
          exact hindex (Option.some.inj (hbound.1.symm.trans hpublished))
        refine ⟨by simpa [hindex] using hbound, .inr ⟨howner, by simp [hindex],
          Event.not_registers hlength, ?_⟩⟩
        simp [Event.advances_eq hcaller hlength, hne]
  | unbind _ caller published length hcaller hlength hpublished hmatch =>
      rw [ownersAfter_advance hlength] at howner
      have hbound := h index howner
      -- The generations differ, so it is not this reader that advances.
      have hne : caller ≠ reader := by
        rintro rfl
        obtain rfl : index = published := Option.some.inj (hbound.1.symm.trans hpublished)
        exact hmatch hbound.2
      refine ⟨by simpa [hne.symm] using hbound, .inr ⟨howner, rfl, Event.not_registers hlength, ?_⟩⟩
      simp [Event.advances_eq hcaller hlength, hne]
  | move _ caller length hcaller hlength hunbound =>
      rw [ownersAfter_advance hlength] at howner
      have hbound := h index howner
      have hne : caller ≠ reader := by
        rintro rfl
        simp [hunbound] at hbound
      refine ⟨by simpa [hne.symm] using hbound, .inr ⟨howner, rfl, Event.not_registers hlength, ?_⟩⟩
      simp [Event.advances_eq hcaller hlength, hne]

end Beats

/-! ## Live readers -/

/-- What holds of the slot of a registered reader: the reader's handle names it, and its heartbeat
is at least as young as the last one that the reader wrote. -/
structure BeatsSeen (reader : ReaderId) (state : State) (history : Attention) : Prop where
  bound : HandleBound reader state.slots state.readers history.owners
  past : history.lastBeat ≤ state.clock
  seen : ∀ index, history.owners index = some reader →
    history.lastBeat ≤ (state.slots index).heartbeatTs

/-- Time never runs backwards. -/
theorem clock_le_of_step {cfg : Config} {state next : State} {event : Event}
    (h : step cfg state event = some next) : state.clock ≤ next.clock := by
  cases event with
  | reserve payloadSize typeId tsc =>
      simp only [step] at h
      split at h
      · simp at h
      · obtain rfl := Option.some.inj h
        rcases reserve_cases cfg state payloadSize typeId tsc with hstay | hwait | hfinish
        · exact Int.le_of_eq (by rw [hstay.2])
        · exact Int.le_of_eq (by rw [hwait.2.2]; rfl)
        · exact Int.le_of_eq (by rw [hfinish.2.2]; rfl)
  | scan tsc =>
      simp only [step, Option.map_eq_some_iff] at h
      obtain ⟨pending, -, rfl⟩ := h
      rcases scanPass_cases cfg state pending tsc with hfinish | hwait
      · exact Int.le_of_eq (by rw [hfinish.2]; rfl)
      · exact Int.le_of_eq (by rw [hwait.2]; rfl)
  | tick elapsed =>
      obtain rfl := Option.some.inj h
      exact Int.le_add_of_nonneg_right (Int.natCast_nonneg elapsed)
  | pollCopy reader =>
      simp only [step, Option.map_eq_some_iff] at h
      obtain ⟨_, _, rfl⟩ := h
      exact Int.le_refl _
  | writePayload | commit | registerReader =>
      simp only [step] at h
      grind [writePayload, commit, State.setReader]
  | _ =>
      obtain rfl := Option.some.inj h
      exact Int.le_refl _

/-- The heartbeats of registered readers reach their slots in every run. -/
theorem reachable_beats {cfg : Config} {reader : ReaderId}
    {allow : State × Attention → Event → Prop} {pair : State × Attention}
    (h : ((ring cfg).withHistory (attention cfg reader)).Reachable allow pair) :
    BeatsSeen reader pair.1 pair.2 := by
  refine h.invariant (fun pair => BeatsSeen reader pair.1 pair.2) ?_ ?_
  · rintro ⟨state, history⟩ ⟨-, hstart⟩
    obtain rfl : history = (attention cfg reader).start state := hstart
    exact ⟨nofun, Int.le_refl _, nofun⟩
  · rintro ⟨state, history⟩ event ⟨next, history'⟩ ⟨hbound, hpast, hseen⟩ - hstep
    obtain ⟨hnext, hrecord⟩ := System.withHistory_step.mp hstep
    obtain rfl : history' = (attention cfg reader).observe state event next history := hrecord
    have hclock : state.clock ≤ next.clock := clock_le_of_step hnext
    have hbeat : ((attention cfg reader).observe state event next history).lastBeat ≤
        state.clock := by
      simp only [attention]
      split
      · exact Int.le_refl _
      · exact hpast
    refine ⟨fun index howner => ((step_roster hnext).held_slot hbound howner).1,
      Int.le_trans hbeat hclock,
      fun index howner => ?_⟩
    rcases ((step_roster hnext).held_slot hbound howner).2 with
        hnow | ⟨hbefore, hold, hregister, hadvance⟩
    · exact hnow ▸ hbeat
    · rw [hold]
      simpa [attention, hregister, hadvance] using hseen index hbefore

/-- A reader stays in its slot in every run whose scan passes find its heartbeat fresh. -/
theorem live_reader_kept (cfg : Config) (reader : ReaderId) :
    LiveReaderKept cfg reader (BeatFresh cfg reader) := by
  intro pair hreach event next hallow hstep hproducer index howner hactive
  have hinv := reachable_beats hreach
  have hroster := step_roster hstep
  generalize next.slots = slots at hroster ⊢
  generalize next.readers = readers at hroster
  cases hroster with
  | same => exact hactive
  | scan tsc pending hpending =>
      have hfresh := hallow ⟨index, howner⟩ pending hpending
      have hseen := hinv.seen index howner
      have hyoung : ¬ (pending.refresh tsc pair.1.clock).now -
          (pair.1.slots index).heartbeatTs > cfg.evictTimeoutNs := by omega
      simpa [evictExpired, hyoung] using hactive
  | publish => simp_all
  | unbind => exact hactive
  | move => exact hactive
  | _ => simp [Event.reader] at hproducer

/-- The reader registers, and polls an empty ring after 0.4, 0.8 and 1 second. The producer then
writes a frame that fills the ring and asks for more space. -/
def quietPeriod : List Event :=
  [.registerReader 0, .tick 400000000, .pollZeroCopy 0, .tick 400000000, .pollZeroCopy 0,
    .tick 200000000, .pollZeroCopy 0, .reserve 4072 1 0, .commit, .reserve 8 1 0]

/-- A reader that polls well within the timeout is evicted after a quiet period. -/
theorem idle_reader_is_evicted :
    ¬ LiveReaderKept onePage 0 fun pair event => attentive onePage 0 pair event = true := by
  intro hkept
  obtain ⟨pair, hreach, hpair⟩ := System.exists_reachable_of_replay
    ((ring onePage).withHistory (attention onePage 0))
    (fun pair event => attentive onePage 0 pair event = true)
    (created 0, (attention onePage 0).start (created 0)) quietPeriod
    (fun pair => pair.2.owners 0 == some 0 && (pair.1.slots 0).active &&
      (step onePage pair.1 (.scan 0)).any fun next => !(next.slots 0).active)
    (.init ⟨⟨0, rfl⟩, rfl⟩) (by decide +kernel)
  simp only [Bool.and_eq_true, beq_iff_eq] at hpair
  obtain ⟨⟨howner, hactive⟩, hscan⟩ := hpair
  cases hnext : step onePage pair.1 (.scan 0) with
  | none => simp [hnext] at hscan
  | some next =>
      have hstill := hkept pair hreach (.scan 0) next rfl hnext rfl 0 howner hactive
      simp [hnext, hstill] at hscan

end HotPath.SharedMemory
