import HotPath.SharedMemory.SlotOwnership

/-!
# What a reader learns of its eviction

An eviction clears the activity flag of a slot and `Advance` compares generation numbers, which
change only when the slot is claimed again. A reader that advances between the two stays bound to
a slot that the producer does not wait for.

`detects_eviction_iff` says that this is the only gap: in any set of runs, every advance leaves
its handle unbound or in a slot that the producer waits for exactly when no handle advances in a
slot that has been cleared and not been claimed again.
-/

namespace HotPath.SharedMemory

open HotPath.Foundation

/-- The slot that the handle names is active with the handle's generation. The producer waits for
such a handle. -/
def WaitsFor (slots : Fin kMaxReaders → ReaderSlot) (handle : BroadcastReader) : Prop :=
  ∃ index, handle.slotIndex = some index ∧ (slots index).active = true ∧
    (slots index).generationId = handle.generationId

/-- The slot that the handle names has been cleared and still carries the handle's generation. -/
def ClearedOnly (slots : Fin kMaxReaders → ReaderSlot) (handle : BroadcastReader) : Prop :=
  ∃ index, handle.slotIndex = some index ∧ (slots index).active = false ∧
    (slots index).generationId = handle.generationId

/-- No call advances a handle whose slot has been cleared and not been claimed again. -/
def AdvancesClaimed (cfg : Config) (state : State) (event : Event) : Prop :=
  ∀ reader length, event.reader = some reader → event.advancesBy cfg state = some length →
    ¬ ClearedOnly state.slots (state.readers reader)

/-- In every run whose calls meet `allow`, a call that advances a handle leaves it unbound or in a
slot that the producer waits for, and unbinds a handle that the producer no longer waits for. -/
def DetectsEviction (cfg : Config) (allow : State → Event → Prop) : Prop :=
  ∀ state, (ring cfg).Reachable allow state → ∀ event next, allow state event →
    step cfg state event = some next → ∀ reader length, event.reader = some reader →
    event.advancesBy cfg state = some length →
    ((next.readers reader).slotIndex = none ∨ WaitsFor next.slots (next.readers reader)) ∧
      (¬ WaitsFor state.slots (state.readers reader) → (next.readers reader).slotIndex = none)

/-- An unbound handle is not waited for and has no cleared slot. -/
theorem unbound_handle {slots : Fin kMaxReaders → ReaderSlot} {handle : BroadcastReader}
    (h : handle.slotIndex = none) : ¬ WaitsFor slots handle ∧ ¬ ClearedOnly slots handle := by
  refine ⟨?_, ?_⟩
  · rintro ⟨index, hindex, -⟩
    simp [h] at hindex
  · rintro ⟨index, hindex, -⟩
    simp [h] at hindex

/-- An advance unbinds its handle, or the generations agree and the slot keeps its activity. -/
theorem RosterStep.advanced {cfg : Config} {state : State} {event : Event}
    {slots : Fin kMaxReaders → ReaderSlot} {readers : ReaderId → BroadcastReader}
    (hstep : RosterStep cfg state event slots readers) {reader : ReaderId} {length : UInt64}
    (hreader : event.reader = some reader) (hlength : event.advancesBy cfg state = some length) :
    ((readers reader).slotIndex = none ∧ ¬ WaitsFor state.slots (state.readers reader) ∧
        ¬ ClearedOnly state.slots (state.readers reader)) ∨
      ∃ index, (readers reader).slotIndex = some index ∧
        (state.readers reader).slotIndex = some index ∧
        (state.slots index).generationId = (state.readers reader).generationId ∧
        (readers reader).generationId = (state.readers reader).generationId ∧
        (slots index).active = (state.slots index).active ∧
        (slots index).generationId = (state.slots index).generationId := by
  cases hstep with
  | same _ hnone => simp [hnone] at hlength
  | scan => simp [Event.reader] at hreader
  | setCursor | register | unregister => simp [Event.advancesBy] at hlength
  | publish _ caller index _ hcaller _ hindex hgen =>
      obtain rfl : caller = reader := Option.some.inj (hcaller.symm.trans hreader)
      exact .inr ⟨index, by simpa using hindex, hindex, hgen, by simp, by simp, by simp⟩
  | unbind _ caller index _ hcaller _ hindex hgen =>
      obtain rfl : caller = reader := Option.some.inj (hcaller.symm.trans hreader)
      refine .inl ⟨by simp, ?_, ?_⟩
      · rintro ⟨named, hnamed, -, hsame⟩
        obtain rfl : index = named := Option.some.inj (hindex.symm.trans hnamed)
        exact hgen hsame
      · rintro ⟨named, hnamed, -, hsame⟩
        obtain rfl : index = named := Option.some.inj (hindex.symm.trans hnamed)
        exact hgen hsame
  | move _ caller _ hcaller _ hindex =>
      obtain rfl : caller = reader := Option.some.inj (hcaller.symm.trans hreader)
      exact .inl ⟨by simpa using hindex, unbound_handle hindex⟩

/-- An advance in a slot that has only been cleared leaves its handle bound. -/
theorem RosterStep.cleared_stays_bound {cfg : Config} {state : State} {event : Event}
    {slots : Fin kMaxReaders → ReaderSlot} {readers : ReaderId → BroadcastReader}
    (hstep : RosterStep cfg state event slots readers) {reader : ReaderId} {length : UInt64}
    (hreader : event.reader = some reader) (hlength : event.advancesBy cfg state = some length)
    (hcleared : ClearedOnly state.slots (state.readers reader)) :
    ¬ WaitsFor state.slots (state.readers reader) ∧ (readers reader).slotIndex ≠ none := by
  constructor
  · obtain ⟨index, hindex, hinactive, -⟩ := hcleared
    rintro ⟨named, hnamed, hactive, -⟩
    obtain rfl : index = named := Option.some.inj (hindex.symm.trans hnamed)
    simp [hinactive] at hactive
  · rcases hstep.advanced hreader hlength with ⟨-, -, hclaimed⟩ | ⟨index, hbound, -⟩
    · exact absurd hcleared hclaimed
    · simp [hbound]

/-- Evictions are detected in exactly the runs in which no call advances a handle whose slot has
been cleared and not been claimed again. -/
theorem detects_eviction_iff (cfg : Config) (allow : State → Event → Prop) :
    DetectsEviction cfg allow ↔
      ∀ state, (ring cfg).Reachable allow state → ∀ event next, allow state event →
        step cfg state event = some next → AdvancesClaimed cfg state event := by
  constructor
  · intro hdetects state hreach event next hallow hstep reader length hreader hlength hcleared
    obtain ⟨hnot, hbound⟩ := (step_roster hstep).cleared_stays_bound hreader hlength hcleared
    exact hbound ((hdetects state hreach event next hallow hstep reader length hreader hlength).2
      hnot)
  · intro hclaimed state hreach event next hallow hstep reader length hreader hlength
    rcases (step_roster hstep).advanced hreader hlength with
      ⟨hunbound, -⟩ | ⟨index, hbound, hindex, hgen, hkeep, hactive, hsame⟩
    · exact ⟨.inl hunbound, fun _ => hunbound⟩
    · -- The generations agree, so the slot would be cleared only if it were not active.
      have hheld : (state.slots index).active = true := by
        by_contra hinactive
        exact hclaimed state hreach event next hallow hstep reader length hreader hlength
          ⟨index, hindex, by simpa using hinactive, hgen⟩
      refine ⟨.inr ⟨index, hbound, hactive.trans hheld, ?_⟩, fun hnot => ?_⟩
      · rw [hsame, hgen, hkeep]
      · exact absurd ⟨index, hindex, hheld, hgen⟩ hnot

/-- Reader 0 is quiet for longer than the timeout and a reservation evicts it. -/
def quietReaderEvicted : List Event :=
  [.registerReader 0, .reserve 4072 1 0, .tick 600000000, .reserve 8 1 0, .scan 0]

/-- An evicted reader that acknowledges its first frame stays bound to the cleared slot. -/
theorem eviction_undetected :
    ¬ DetectsEviction onePage fun _ event => rosterCall event = true := by
  intro hdetects
  obtain ⟨state, hreach, hstate⟩ := System.exists_reachable_of_replay (ring onePage)
    (fun _ event => rosterCall event = true) (created 0) quietReaderEvicted
    (fun state => (state.readers 0).slotIndex == some 0 && !(state.slots 0).active &&
      (state.slots 0).generationId == (state.readers 0).generationId)
    (.init ⟨0, rfl⟩) (by decide +kernel)
  simp only [Bool.and_eq_true, beq_iff_eq, Bool.not_eq_true'] at hstate
  obtain ⟨⟨hindex, hinactive⟩, hgen⟩ := hstate
  have hnext : step onePage state (.advance 0 4096) = some _ := rfl
  obtain ⟨hnot, hbound⟩ := (step_roster hnext).cleared_stays_bound rfl rfl
    ⟨0, hindex, hinactive, hgen⟩
  exact hbound ((hdetects state hreach (.advance 0 4096) _ rfl hnext 0 4096 rfl rfl).2 hnot)

end HotPath.SharedMemory
