import HotPath.SharedMemory.Roster

/-!
# Who owns a reader slot

`Owners` records, for each slot, the handle that registered in it last and has since neither
unregistered nor been evicted by the producer. `SlotsExclusive` says that such a slot is active,
carries the owner's generation and is not touched by a call made with another handle.

`UnregisterReader` identifies its slot by index alone. A handle that was evicted and still
remembers the index can therefore clear a slot that has been given to somebody else
(`stale_unregister_clears_slot`). `slots_exclusive` shows that nothing else goes wrong: the
property holds of every run in which no stale handle is unregistered and no generation number is
handed out again while an old handle still carries it.
-/

namespace HotPath.SharedMemory

open HotPath.Foundation

/-- The handle that holds each slot. -/
abbrev Owners := Fin kMaxReaders → Option ReaderId

/-- The owners after a call that leads to the given slots and handles. -/
def ownersAfter (state : State) (event : Event) (slots : Fin kMaxReaders → ReaderSlot)
    (readers : ReaderId → BroadcastReader) (owners : Owners) : Owners :=
  match event with
  | .registerReader reader =>
      match (state.readers reader).slotIndex, (readers reader).slotIndex with
      | none, some index => Function.update owners index (some reader)
      | _, _ => owners
  | .unregisterReader reader => fun index =>
      if owners index = some reader then none else owners index
  | .scan _ => fun index =>
      if (state.slots index).active ∧ (slots index).active = false then none else owners index
  | _ => owners

/-- Registrations, releases and evictions determine the owners. -/
def ownership : Recorder State Event Owners where
  start _ := fun _ => none
  observe state event next := ownersAfter state event next.slots next.readers

/-- A call that advances its handle does not change the owners. -/
theorem ownersAfter_advance {cfg : Config} {state : State} {event : Event} {length : UInt64}
    (h : event.advancesBy cfg state = some length) (slots : Fin kMaxReaders → ReaderSlot)
    (readers : ReaderId → BroadcastReader) (owners : Owners) :
    ownersAfter state event slots readers owners = owners := by
  cases event <;> simp_all [Event.advancesBy, ownersAfter]

/-- Only a registration gives a slot to a reader. -/
theorem owner_before {state : State} {event : Event} {slots : Fin kMaxReaders → ReaderSlot}
    {readers : ReaderId → BroadcastReader} {owners : Owners} {reader : ReaderId}
    {index : Fin kMaxReaders}
    (h : ownersAfter state event slots readers owners index = some reader)
    (hbound : ∀ caller, event = .registerReader caller →
      (state.readers caller).slotIndex = none → (readers caller).slotIndex = none) :
    owners index = some reader := by
  cases event with
  | registerReader caller =>
      cases hbefore : (state.readers caller).slotIndex with
      | none => simpa [ownersAfter, hbefore, hbound caller rfl hbefore] using h
      | some claimed => simpa [ownersAfter, hbefore] using h
  | unregisterReader caller =>
      simp only [ownersAfter] at h
      split at h
      · simp at h
      · exact h
  | scan tsc =>
      simp only [ownersAfter] at h
      split at h
      · simp at h
      · exact h
  | _ => exact h

/-! ## The calls that keep ownership exclusive -/

/-- The generation number that a registration is about to hand out is not carried by another
handle bound to the same slot. It can only fail after `2 ^ 32` registrations in one slot. -/
def FreshGeneration (state : State) (reader : ReaderId) : Prop :=
  ∀ index, freeSlot state.slots = some index → ∀ other, other ≠ reader →
    (state.readers other).slotIndex = some index →
    (state.readers other).generationId ≠ (state.slots index).generationId + 1

/-- The slot that the handle names is inactive or still carries its generation. -/
def NotStale (state : State) (reader : ReaderId) : Prop :=
  ∀ index, (state.readers reader).slotIndex = some index → (state.slots index).active = true →
    (state.slots index).generationId = (state.readers reader).generationId

/-- Registrations hand out fresh generations and stale handles are not unregistered. -/
def KeepsOwnership (state : State) : Event → Prop
  | .registerReader reader => FreshGeneration state reader
  | .unregisterReader reader => NotStale state reader
  | _ => True

/-- Slots, handles and owners agree: an owned slot is active and names its owner's generation, and
every active slot is owned. -/
structure SlotsHeld (slots : Fin kMaxReaders → ReaderSlot) (readers : ReaderId → BroadcastReader)
    (owners : Owners) : Prop where
  bound : ∀ index reader, owners index = some reader →
    (readers reader).slotIndex = some index ∧ (slots index).active = true ∧
      (slots index).generationId = (readers reader).generationId
  held : ∀ index, (slots index).active = true → ∃ reader, owners index = some reader

/-- Two handles bound to one slot carry different generations. -/
def DistinctGenerations (readers : ReaderId → BroadcastReader) : Prop :=
  ∀ index reader other, reader ≠ other → (readers reader).slotIndex = some index →
    (readers other).slotIndex = some index →
    (readers reader).generationId ≠ (readers other).generationId

/-- Moving the cursor of one handle changes no binding. -/
theorem update_cursor_binding (readers : ReaderId → BroadcastReader) (reader other : ReaderId)
    (cursor : UInt64) :
    (Function.update readers reader { readers reader with cursor } other).slotIndex =
        (readers other).slotIndex ∧
      (Function.update readers reader { readers reader with cursor } other).generationId =
        (readers other).generationId := by
  by_cases hother : other = reader
  · subst hother
    simp
  · simp [hother]

section Held

variable {slots : Fin kMaxReaders → ReaderSlot} {readers : ReaderId → BroadcastReader}
  {owners : Owners}

/-- A handle without a slot owns nothing. -/
theorem SlotsHeld.not_owner (h : SlotsHeld slots readers owners) {reader : ReaderId}
    (hnone : (readers reader).slotIndex = none) (index : Fin kMaxReaders) :
    owners index ≠ some reader := by
  intro howner
  have hbound := (h.bound index reader howner).1
  simp [hnone] at hbound

/-- A bound handle whose generation matches an active slot owns the slot. -/
theorem SlotsHeld.owner (h : SlotsHeld slots readers owners)
    (hdistinct : DistinctGenerations readers)
    {index : Fin kMaxReaders} {reader : ReaderId} (hindex : (readers reader).slotIndex = some index)
    (hactive : (slots index).active = true)
    (hgen : (slots index).generationId = (readers reader).generationId) :
    owners index = some reader := by
  obtain ⟨owner, howner⟩ := h.held index hactive
  obtain ⟨hbound, -, hown⟩ := h.bound index owner howner
  by_cases heq : owner = reader
  · exact heq ▸ howner
  · exact absurd (hown.symm.trans hgen) (hdistinct index owner reader heq hbound hindex)

/-- Only the activity and generation of slots and the binding of handles matter. -/
theorem SlotsHeld.congr (h : SlotsHeld slots readers owners)
    {slots' : Fin kMaxReaders → ReaderSlot} {readers' : ReaderId → BroadcastReader}
    (hslots : ∀ index, (slots' index).active = (slots index).active ∧
      (slots' index).generationId = (slots index).generationId)
    (hreaders : ∀ reader, (readers' reader).slotIndex = (readers reader).slotIndex ∧
      (readers' reader).generationId = (readers reader).generationId) :
    SlotsHeld slots' readers' owners := by
  refine ⟨fun index reader howner => ?_, fun index hactive => ?_⟩
  · rw [(hreaders reader).1, (hreaders reader).2, (hslots index).1, (hslots index).2]
    exact h.bound index reader howner
  · exact h.held index ((hslots index).1 ▸ hactive)

/-- A scan takes the evicted slots away from their owners. -/
theorem SlotsHeld.evict (h : SlotsHeld slots readers owners) (now evictTimeoutNs : Int) :
    SlotsHeld (fun index => evictExpired now evictTimeoutNs (slots index)) readers
      (fun index => if (slots index).active ∧
        (evictExpired now evictTimeoutNs (slots index)).active = false then none
        else owners index) := by
  refine ⟨fun index reader howner => ?_, fun index hactive => ?_⟩
  · split at howner
    · simp at howner
    · next hkept =>
        obtain ⟨hindex, hactive, hgen⟩ := h.bound index reader howner
        exact ⟨hindex, by simpa [hactive] using hkept, by simpa using hgen⟩
  · obtain ⟨reader, howner⟩ := h.held index (evictExpired_of_active hactive ▸ hactive)
    exact ⟨reader, by simp [hactive, howner]⟩

/-- A registration gives the claimed slot to its handle. -/
theorem SlotsHeld.register (h : SlotsHeld slots readers owners) {reader : ReaderId}
    (hnone : (readers reader).slotIndex = none) (index : Fin kMaxReaders) (cursor : UInt64)
    (heartbeatTs : Int) :
    SlotsHeld
      (Function.update slots index {
        active := true, cursor, heartbeatTs, generationId := (slots index).generationId + 1 })
      (Function.update readers reader { readers reader with
        slotIndex := some index, generationId := (slots index).generationId + 1 })
      (Function.update owners index (some reader)) := by
  refine ⟨fun slot owner howner => ?_, fun slot hactive => ?_⟩
  · by_cases hslot : slot = index
    · subst hslot
      obtain rfl : reader = owner := by simpa using howner
      simp
    · simp only [Function.update_of_ne hslot] at howner ⊢
      have hne : owner ≠ reader := fun heq => h.not_owner hnone slot (heq ▸ howner)
      simpa [hne] using h.bound slot owner howner
  · by_cases hslot : slot = index
    · exact ⟨reader, by simp [hslot]⟩
    · simpa [hslot] using h.held slot (by simpa [hslot] using hactive)

/-- A handle that owns nothing can be unbound. -/
theorem SlotsHeld.unbind (h : SlotsHeld slots readers owners) {reader : ReaderId}
    (hnone : ∀ index, owners index ≠ some reader) (handle : BroadcastReader) :
    SlotsHeld slots (Function.update readers reader handle) owners := by
  refine ⟨fun index owner howner => ?_, h.held⟩
  have hne : owner ≠ reader := fun heq => hnone index (heq ▸ howner)
  simpa [hne] using h.bound index owner howner

/-- The owner of a slot can release it. -/
theorem SlotsHeld.release (h : SlotsHeld slots readers owners)
    {reader : ReaderId} {index : Fin kMaxReaders}
    (hindex : (readers reader).slotIndex = some index)
    (howns : (slots index).active = true → owners index = some reader) :
    SlotsHeld (Function.update slots index { slots index with active := false })
      (Function.update readers reader { readers reader with slotIndex := none })
      (fun slot => if owners slot = some reader then none else owners slot) := by
  have hrelease : SlotsHeld (Function.update slots index { slots index with active := false })
      readers (fun slot => if owners slot = some reader then none else owners slot) := by
    refine ⟨fun slot owner howner => ?_, fun slot hactive => ?_⟩
    · split at howner
      · simp at howner
      · next hother =>
          obtain ⟨hbound, hactive, hgen⟩ := h.bound slot owner howner
          have hslot : slot ≠ index := by
            rintro rfl
            exact hother (howns hactive)
          simp [hslot, hbound, hactive, hgen]
    · have hslot : slot ≠ index := by
        rintro rfl
        simp at hactive
      obtain ⟨owner, howner⟩ := h.held slot (by simpa [hslot] using hactive)
      have hother : owner ≠ reader := by
        rintro rfl
        exact hslot (Option.some.inj ((h.bound slot owner howner).1.symm.trans hindex))
      exact ⟨owner, by simp [howner, hother]⟩
  refine hrelease.unbind (fun slot => ?_) _
  split <;> simp_all

/-- Only the binding of handles matters to their generations. -/
theorem DistinctGenerations.congr (h : DistinctGenerations readers)
    {readers' : ReaderId → BroadcastReader}
    (hreaders : ∀ reader, (readers' reader).slotIndex = (readers reader).slotIndex ∧
      (readers' reader).generationId = (readers reader).generationId) :
    DistinctGenerations readers' := by
  intro index reader other hne h1 h2
  rw [(hreaders reader).2, (hreaders other).2]
  exact h index reader other hne ((hreaders reader).1 ▸ h1) ((hreaders other).1 ▸ h2)

/-- A handle bound with a fresh generation is told apart from the others. -/
theorem DistinctGenerations.bind (h : DistinctGenerations readers) {reader : ReaderId}
    {index : Fin kMaxReaders} (handle : BroadcastReader) (hindex : handle.slotIndex = some index)
    (hfresh : ∀ other, other ≠ reader → (readers other).slotIndex = some index →
      (readers other).generationId ≠ handle.generationId) :
    DistinctGenerations (Function.update readers reader handle) := by
  intro slot owner other hne h1 h2
  by_cases howner : owner = reader
  · subst howner
    obtain rfl : index = slot := by simpa [hindex] using h1
    simpa [hne.symm] using (hfresh other hne.symm (by simpa [hne.symm] using h2)).symm
  · by_cases hother : other = reader
    · subst hother
      obtain rfl : index = slot := by simpa [hindex] using h2
      simpa [hne] using hfresh owner hne (by simpa [hne] using h1)
    · simp only [ne_eq, howner, hother, not_false_eq_true, Function.update_of_ne] at h1 h2 ⊢
      exact h slot owner other hne h1 h2

/-- Unbinding a handle keeps the generations of the others distinct. -/
theorem DistinctGenerations.unbind (h : DistinctGenerations readers) (reader : ReaderId)
    (handle : BroadcastReader) (hhandle : handle.slotIndex = none) :
    DistinctGenerations (Function.update readers reader handle) := by
  intro index owner other hne h1 h2
  have howner : owner ≠ reader := by
    rintro rfl
    simp [hhandle] at h1
  have hother : other ≠ reader := by
    rintro rfl
    simp [hhandle] at h2
  simp only [ne_eq, howner, hother, not_false_eq_true, Function.update_of_ne] at h1 h2 ⊢
  exact h index owner other hne h1 h2

end Held

/-- A call that changes neither slots nor handles changes no owner. -/
theorem ownersAfter_same {state : State} {event : Event} {owners : Owners}
    (h : SlotsHeld state.slots state.readers owners)
    (hunbound : ∀ reader, event = .unregisterReader reader →
      (state.readers reader).slotIndex = none) :
    ownersAfter state event state.slots state.readers owners = owners := by
  cases event with
  | registerReader reader =>
      simp only [ownersAfter]
      split
      · next hnone hsome => simp [hnone] at hsome
      · rfl
  | unregisterReader reader =>
      funext index
      simp [ownersAfter, h.not_owner (hunbound reader rfl) index]
  | scan tsc =>
      funext index
      simp only [ownersAfter]
      split
      · next hevicted => simp [hevicted.1] at hevicted
      · rfl
  | _ => rfl

/-- What holds of slots and handles when ownership is exclusive. -/
structure SlotsOwned (slots : Fin kMaxReaders → ReaderSlot) (readers : ReaderId → BroadcastReader)
    (owners : Owners) : Prop extends SlotsHeld slots readers owners where
  distinct : DistinctGenerations readers

/-- Slots, handles and owners keep agreeing as long as only owners release their slots. -/
theorem RosterStep.held {cfg : Config} {state : State} {event : Event}
    {slots : Fin kMaxReaders → ReaderSlot} {readers : ReaderId → BroadcastReader} {owners : Owners}
    (hstep : RosterStep cfg state event slots readers)
    (h : SlotsHeld state.slots state.readers owners)
    (howns : ∀ reader index, event = .unregisterReader reader →
      (state.readers reader).slotIndex = some index → (state.slots index).active = true →
      owners index = some reader) :
    SlotsHeld slots readers (ownersAfter state event slots readers owners) := by
  cases hstep with
  | same _ _ hunbound => rwa [ownersAfter_same h hunbound]
  | scan tsc pending hpending => exact h.evict _ _
  | setCursor reader cursor =>
      exact h.congr (fun _ => ⟨rfl, rfl⟩) fun other =>
        update_cursor_binding state.readers reader other cursor
  | register reader index hnone hfree =>
      have hheld := h.register hnone index (state.readers reader).cursor state.clock
      simpa [ownersAfter, hnone] using hheld
  | unregister reader index hindex => exact h.release hindex (howns reader index rfl hindex)
  | publish _ reader index length hreader hlength hindex hgen =>
      rw [ownersAfter_advance hlength]
      refine h.congr (fun slot => ?_) fun other =>
        update_cursor_binding state.readers reader other _
      by_cases hslot : slot = index
      · subst hslot
        simp
      · simp [hslot]
  | unbind _ reader index length hreader hlength hindex hgen =>
      rw [ownersAfter_advance hlength]
      refine h.unbind (fun slot howner => ?_) _
      obtain ⟨hbound, -, hown⟩ := h.bound slot reader howner
      obtain rfl : slot = index := Option.some.inj (hbound.symm.trans hindex)
      exact hgen hown
  | move _ reader length hreader hlength hindex =>
      rw [ownersAfter_advance hlength]
      exact h.congr (fun _ => ⟨rfl, rfl⟩) fun other =>
        update_cursor_binding state.readers reader other _

/-- Generations stay distinct as long as registrations hand out fresh ones. -/
theorem RosterStep.distinct {cfg : Config} {state : State} {event : Event}
    {slots : Fin kMaxReaders → ReaderSlot} {readers : ReaderId → BroadcastReader}
    (hstep : RosterStep cfg state event slots readers) (h : DistinctGenerations state.readers)
    (hfresh : ∀ reader, event = .registerReader reader → FreshGeneration state reader) :
    DistinctGenerations readers := by
  cases hstep with
  | same => exact h
  | scan => exact h
  | setCursor reader cursor =>
      exact h.congr fun other => update_cursor_binding state.readers reader other cursor
  | register reader index hnone hfree => exact h.bind _ rfl (hfresh reader rfl index hfree)
  | unregister => exact h.unbind _ _ rfl
  | publish _ reader =>
      exact h.congr fun other => update_cursor_binding state.readers reader other _
  | unbind => exact h.unbind _ _ rfl
  | move _ reader =>
      exact h.congr fun other => update_cursor_binding state.readers reader other _

/-- Exclusive ownership is kept by every allowed call. -/
theorem RosterStep.owned {cfg : Config} {state : State} {event : Event}
    {slots : Fin kMaxReaders → ReaderSlot} {readers : ReaderId → BroadcastReader} {owners : Owners}
    (hstep : RosterStep cfg state event slots readers)
    (h : SlotsOwned state.slots state.readers owners) (hallow : KeepsOwnership state event) :
    SlotsOwned slots readers (ownersAfter state event slots readers owners) := by
  refine ⟨hstep.held h.toSlotsHeld ?_, hstep.distinct h.distinct ?_⟩
  · rintro reader index rfl hindex hactive
    exact h.owner h.distinct hindex hactive (hallow index hindex hactive)
  · rintro reader rfl
    exact hallow

/-- Exclusive ownership holds of every run whose calls keep it. -/
theorem reachable_owned {cfg : Config} {allow : State → Event → Prop}
    (hallow : ∀ state event, allow state event → KeepsOwnership state event)
    {pair : State × Owners}
    (h : ((ring cfg).withHistory ownership).Reachable (fun pair => allow pair.1) pair) :
    SlotsOwned pair.1.slots pair.1.readers pair.2 := by
  refine h.invariant (fun pair => SlotsOwned pair.1.slots pair.1.readers pair.2) ?_ ?_
  · rintro ⟨state, owners⟩ ⟨⟨clock, rfl⟩, hstart⟩
    obtain rfl : owners = fun _ => none := hstart
    exact ⟨⟨nofun, nofun⟩, nofun⟩
  · rintro ⟨state, owners⟩ event ⟨next, owners'⟩ hinv hevent hstep
    obtain ⟨hnext, hrecord⟩ := System.withHistory_step.mp hstep
    obtain rfl : owners' = ownersAfter state event next.slots next.readers owners := hrecord
    exact (step_roster hnext).owned hinv (hallow _ _ hevent)

/-! ## Local and published cursors -/

/-- The owner of a slot has the cursor that the slot publishes. -/
def CursorsAgree (slots : Fin kMaxReaders → ReaderSlot) (readers : ReaderId → BroadcastReader)
    (owners : Owners) : Prop :=
  ∀ index reader, owners index = some reader → (slots index).cursor = (readers reader).cursor

/-- A handle that advances and whose generation matches an active slot owns the slot. -/
def MatchesOwner (cfg : Config) (state : State) (event : Event) (owners : Owners) : Prop :=
  ∀ index reader length, event.reader = some reader → event.advancesBy cfg state = some length →
    (state.readers reader).slotIndex = some index → (state.slots index).active = true →
    (state.slots index).generationId = (state.readers reader).generationId →
    owners index = some reader

/-- Distinct generations tell the owner from the other handles. -/
theorem SlotsOwned.matchesOwner {cfg : Config} {state : State} {owners : Owners}
    (h : SlotsOwned state.slots state.readers owners) (event : Event) :
    MatchesOwner cfg state event owners :=
  fun _ _ _ _ _ hindex hactive hgen => h.owner h.distinct hindex hactive hgen

/-- Published cursors follow the local ones as long as no bound handle sets its cursor and every
match of generations is with the owner. -/
theorem RosterStep.cursors_agree {cfg : Config} {state : State} {event : Event}
    {slots : Fin kMaxReaders → ReaderSlot} {readers : ReaderId → BroadcastReader} {owners : Owners}
    (hstep : RosterStep cfg state event slots readers)
    (h : CursorsAgree state.slots state.readers owners)
    (hheld : SlotsHeld state.slots state.readers owners)
    (hset : ∀ reader cursor, event = .setCursor reader cursor →
      (state.readers reader).slotIndex = none)
    (howns : MatchesOwner cfg state event owners) :
    CursorsAgree slots readers (ownersAfter state event slots readers owners) := by
  cases hstep with
  | same _ _ hunbound => rwa [ownersAfter_same hheld hunbound]
  | scan tsc pending hpending =>
      intro index reader howner
      simp only [ownersAfter] at howner
      split at howner
      · simp at howner
      · next hkept =>
          have hactive := (hheld.bound index reader howner).2.1
          have hslot := evictExpired_of_active
            (show (evictExpired (pending.refresh tsc state.clock).now cfg.evictTimeoutNs
              (state.slots index)).active = true by simpa [hactive] using hkept)
          simpa only [hslot] using h index reader howner
  | setCursor reader cursor =>
      intro index owner howner
      have hne : owner ≠ reader := by
        rintro rfl
        exact hheld.not_owner (hset owner cursor rfl) index howner
      simpa [hne] using h index owner howner
  | register reader index hnone hfree =>
      intro slot owner howner
      simp only [ownersAfter, hnone, Function.update_self] at howner
      by_cases hslot : slot = index
      · subst hslot
        obtain rfl : reader = owner := by simpa using howner
        simp
      · rw [Function.update_of_ne hslot] at howner
        have hne : owner ≠ reader := fun heq => hheld.not_owner hnone slot (heq ▸ howner)
        simpa [hslot, hne] using h slot owner howner
  | unregister reader index hindex =>
      intro slot owner howner
      simp only [ownersAfter] at howner
      split at howner
      · simp at howner
      · next hother =>
          have hne : owner ≠ reader := fun heq => hother (heq ▸ howner)
          have hcursor := h slot owner howner
          by_cases hslot : slot = index
          · subst hslot
            simpa [hne] using hcursor
          · simpa [hslot, hne] using hcursor
  | publish _ reader index length hreader hlength hindex hgen =>
      rw [ownersAfter_advance hlength]
      intro slot owner howner
      obtain ⟨hbound, hactive, -⟩ := hheld.bound slot owner howner
      by_cases hslot : slot = index
      · subst hslot
        -- The caller owns the slot in which it publishes.
        have hcaller := howns slot reader length hreader hlength hindex hactive hgen
        obtain rfl : owner = reader := Option.some.inj (howner.symm.trans hcaller)
        simp
      · have hne : owner ≠ reader := by
          rintro rfl
          exact hslot (Option.some.inj (hbound.symm.trans hindex))
        simpa [hslot, hne] using h slot owner howner
  | unbind _ reader index length hreader hlength hindex hgen =>
      rw [ownersAfter_advance hlength]
      intro slot owner howner
      obtain ⟨hbound, -, hown⟩ := hheld.bound slot owner howner
      have hne : owner ≠ reader := by
        rintro rfl
        obtain rfl : slot = index := Option.some.inj (hbound.symm.trans hindex)
        exact hgen hown
      simpa [hne] using h slot owner howner
  | move _ reader length hreader hlength hindex =>
      rw [ownersAfter_advance hlength]
      intro slot owner howner
      have hne : owner ≠ reader := fun heq => hheld.not_owner hindex slot (heq ▸ howner)
      simpa [hne] using h slot owner howner

/-! ## Exclusive ownership -/

/-- In every run whose calls meet `allow`, an owned slot is active and carries the generation of
its owner, and a call made with another handle leaves the slot as it is. -/
def SlotsExclusive (cfg : Config) (allow : State → Event → Prop) : Prop :=
  ∀ pair, ((ring cfg).withHistory ownership).Reachable (fun pair => allow pair.1) pair →
    ∀ index reader, pair.2 index = some reader →
      ((pair.1.slots index).active = true ∧
        (pair.1.slots index).generationId = (pair.1.readers reader).generationId) ∧
      ∀ event other next, allow pair.1 event → event.reader = some other → other ≠ reader →
        step cfg pair.1 event = some next → next.slots index = pair.1.slots index

/-- A call made with another handle leaves an owned slot as it is. -/
theorem RosterStep.slot_eq {cfg : Config} {state : State} {event : Event}
    {slots : Fin kMaxReaders → ReaderSlot} {readers : ReaderId → BroadcastReader} {owners : Owners}
    (hstep : RosterStep cfg state event slots readers)
    (h : SlotsOwned state.slots state.readers owners) (hallow : KeepsOwnership state event)
    {index : Fin kMaxReaders} {reader other : ReaderId} (howner : owners index = some reader)
    (hother : event.reader = some other) (hne : other ≠ reader) :
    slots index = state.slots index := by
  obtain ⟨hbound, hactive, hgen⟩ := h.bound index reader howner
  cases hstep with
  | same => rfl
  | scan => simp [Event.reader] at hother
  | setCursor => rfl
  | register caller claimed hnone hfree =>
      have hslot : index ≠ claimed := by
        rintro rfl
        simp [freeSlot_inactive hfree] at hactive
      simp [hslot]
  | unregister caller cleared hindex =>
      obtain rfl : caller = other := Option.some.inj hother
      have hslot : index ≠ cleared := by
        rintro rfl
        have hcaller := h.owner h.distinct hindex hactive (hallow index hindex hactive)
        exact hne (Option.some.inj (hcaller.symm.trans howner))
      simp [hslot]
  | publish _ caller published length hcaller hlength hindex hmatch =>
      obtain rfl : caller = other := Option.some.inj (hcaller.symm.trans hother)
      have hslot : index ≠ published := by
        rintro rfl
        exact hne (Option.some.inj ((h.owner h.distinct hindex hactive hmatch).symm.trans howner))
      simp [hslot]
  | unbind => rfl
  | move => rfl

/-- Slots are owned exclusively in every run in which generations are fresh and no stale handle is
unregistered. -/
theorem slots_exclusive (cfg : Config) : SlotsExclusive cfg KeepsOwnership := by
  intro pair hreach index reader howner
  have hinv := reachable_owned (fun _ _ h => h) hreach
  refine ⟨(hinv.bound index reader howner).2, fun event other next hallow hother hne hstep => ?_⟩
  exact (step_roster hstep).slot_eq hinv hallow howner hother hne

/-- The calls of registrations, releases, acknowledgements and reservations, in any order. -/
def rosterCall : Event → Bool
  | .registerReader _ | .unregisterReader _ | .advance .. | .reserve .. | .scan _ | .tick _ => true
  | _ => false

/-- One page with the default timeout of 500 ms. -/
def onePage : Config where
  capacity := 4096
  evictTimeoutNs := 500000000
  pageAligned := by decide
  nonempty := by decide

/-- Reader 0 is evicted while it is quiet and reader 1 takes over its slot. Reader 0 then
unregisters. -/
def staleUnregister : List Event :=
  [.registerReader 0, .reserve 4072 1 0, .tick 600000000, .reserve 8 1 0, .scan 0,
    .registerReader 1, .unregisterReader 0]

/-- An evicted handle that unregisters clears the slot of the next owner. -/
theorem stale_unregister_clears_slot :
    ¬ SlotsExclusive onePage fun _ event => rosterCall event = true := by
  intro hexclusive
  obtain ⟨pair, hreach, hpair⟩ := System.exists_reachable_of_replay
    ((ring onePage).withHistory ownership) (fun _ event => rosterCall event = true)
    (created 0, fun _ => none) staleUnregister
    (fun pair => pair.2 0 == some 1 && !(pair.1.slots 0).active)
    (.init ⟨⟨0, rfl⟩, rfl⟩) (by decide +kernel)
  simp only [Bool.and_eq_true, beq_iff_eq, Bool.not_eq_true'] at hpair
  have hactive := (hexclusive pair hreach 0 1 hpair.1).1.1
  simp [hpair.2] at hactive

end HotPath.SharedMemory
