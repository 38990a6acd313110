import HotPath.SharedMemory.RosterSteps
import HotPath.SharedMemory.SlotOwnership

/-!
# Eviction by a concurrent scan

`Reserve` evicts a reader in three accesses: it loads `active`, loads `heartbeat_ts`, and stores
`active = false`. `Tenancy` records who holds a slot and which heartbeat that registration has
stored last, and `EvictsExpired` says that the store only hits a registration whose own heartbeat
has expired.

A registration is visible from the moment it claims a slot, before it has stored its first
heartbeat, so the scan may judge it by the heartbeat of the slot's previous owner or by the zero
that `Create` left (`scan_evicts_newcomer`). The check can also be out of date by the time of the
store. `evicts_expired` shows what is needed: the registration has stored a heartbeat when the scan
loads its flag, nobody claims the slot or stores a heartbeat in it until the flag is cleared, and
heartbeats are only stored in a slot by its holder.
-/

namespace HotPath.SharedMemory.Access

open HotPath.Foundation

/-! ## Who holds a slot -/

/-- The reader that holds each slot, the heartbeat that its registration has stored last, and
whether it has claimed the slot after the producer last loaded the slot's heartbeat. A slot is
disturbed when its registration had not stored a heartbeat by the time the scan last loaded its
flag, or a consumer has claimed it or stored a heartbeat in it since. -/
structure Tenancy where
  holder : Fin kMaxReaders → Option ReaderId := fun _ => none
  lastBeat : Fin kMaxReaders → Option Int := fun _ => none
  claimedSince : Fin kMaxReaders → Bool := fun _ => false
  disturbed : Fin kMaxReaders → Bool := fun _ => false

/-- A reader claims a slot. -/
def Tenancy.claim (tenancy : Tenancy) (reader : ReaderId) (index : Fin kMaxReaders) : Tenancy where
  holder := Function.update tenancy.holder index (some reader)
  lastBeat := Function.update tenancy.lastBeat index none
  claimedSince := Function.update tenancy.claimedSince index true
  disturbed := Function.update tenancy.disturbed index true

/-- A reader stores a heartbeat in a slot. -/
def Tenancy.beat (tenancy : Tenancy) (reader : ReaderId) (index : Fin kMaxReaders) (now : Int) :
    Tenancy :=
  { tenancy with
    lastBeat :=
      if tenancy.holder index = some reader then
        Function.update tenancy.lastBeat index (some now)
      else tenancy.lastBeat
    disturbed := Function.update tenancy.disturbed index true }

/-- The flag of a slot is cleared. -/
def Tenancy.clear (tenancy : Tenancy) (index : Fin kMaxReaders) : Tenancy :=
  { tenancy with holder := Function.update tenancy.holder index none }

/-- The effect of an access of the producer. -/
def Tenancy.producerAccess (tenancy : Tenancy) : Pc → Tenancy
  | .loadActive _ _ (index :: _) =>
      { tenancy with
        disturbed := Function.update tenancy.disturbed index (tenancy.lastBeat index).isNone }
  | .loadHeartbeat _ _ index _ =>
      { tenancy with claimedSince := Function.update tenancy.claimedSince index false }
  | .evict _ _ index _ => tenancy.clear index
  | _ => tenancy

/-- The effect of an access of a consumer. -/
def Tenancy.clientAccess (tenancy : Tenancy) (shared : Shared) (reader : ReaderId) :
    ClientPc → Tenancy
  | .claimSlot (index :: _) =>
      if (shared.header.readers index).active then tenancy else tenancy.claim reader index
  | .storeFirstHeartbeat index _ now | .publishHeartbeat index now =>
      tenancy.beat reader index now
  | .release index => tenancy.clear index
  | _ => tenancy

/-- The recorder of the tenancy. -/
def tenancies : Recorder Group GroupEvent Tenancy where
  start _ := {}
  observe group event _ tenancy :=
    match event with
    | .producer (.access _) =>
        match group.machine.process with
        | some process => tenancy.producerAccess process.pc
        | none => tenancy
    | .access reader =>
        tenancy.clientAccess group.machine.shared reader (group.clients reader).pc
    | _ => tenancy

/-- The registration of a reader in a slot has stored a heartbeat, its last one is more than the
timeout before the producer's `now`, and it has not claimed the slot since the producer's check. -/
def Expired (tenancy : Tenancy) (now evictTimeoutNs : Int) (index : Fin kMaxReaders) : Prop :=
  (∃ beat, tenancy.lastBeat index = some beat ∧ now - beat > evictTimeoutNs) ∧
    tenancy.claimedSince index = false

/-- In every run whose steps meet `allow`, the producer clears the flag of a slot only if the
registration that holds it has expired. -/
def EvictsExpired (cfg : Config) (allow : Group × Tenancy → GroupEvent → Prop) : Prop :=
  ∀ pair, ((group cfg).withHistory tenancies).Reachable allow pair →
    ∀ process pending minCursor index slots tsc, pair.1.machine.process = some process →
      process.pc = .evict pending minCursor index slots →
      allow pair (.producer (.access tsc)) →
      (pair.1.machine.shared.header.readers index).active = true →
      (∃ reader, pair.2.holder index = some reader) ∧
        Expired pair.2 pending.now process.evictTimeoutNs index

/-! ## The accesses -/

/-- When the flag of a slot that is held is cleared, the slot has not been disturbed since the scan
loaded the flag. -/
def ScanUndisturbed (pair : Group × Tenancy) : Prop :=
  ∀ process pending minCursor index slots, pair.1.machine.process = some process →
    process.pc = .evict pending minCursor index slots →
    ∀ reader, pair.2.holder index = some reader → pair.2.disturbed index = false

/-- A consumer that stores a heartbeat in a slot still holds it. -/
def BeatsOwn (pair : Group × Tenancy) (reader : ReaderId) : Prop :=
  match (pair.1.clients reader).pc with
  | .storeFirstHeartbeat index _ _ | .publishHeartbeat index _ =>
      pair.2.holder index = some reader
  | _ => True

/-- The accesses between which eviction is safe. -/
def EvictionSafe (pair : Group × Tenancy) : GroupEvent → Prop
  | .producer (.access _) => ScanUndisturbed pair
  | .access reader => BeatsOwn pair reader
  | _ => True

/-! ## The invariant -/

/-- A slot's holder is known, and its heartbeat is the last of its holder. -/
structure SlotInv (slots : Fin kMaxReaders → ReaderSlot) (tenancy : Tenancy) : Prop where
  held : ∀ index, (slots index).active = true ↔ ∃ reader, tenancy.holder index = some reader
  word : ∀ index reader beat, tenancy.holder index = some reader →
    tenancy.lastBeat index = some beat → (slots index).heartbeatTs = beat

/-- The heartbeat of an undisturbed slot that is about to be evicted is that of the check. -/
structure Checked (slots : Fin kMaxReaders → ReaderSlot) (tenancy : Tenancy)
    (now evictTimeoutNs : Int) (index : Fin kMaxReaders) : Prop where
  beaten : (tenancy.lastBeat index).isSome = true
  unclaimed : tenancy.claimedSince index = false
  expired : now - (slots index).heartbeatTs > evictTimeoutNs

/-- What a scan knows of the slot that it looks at, unless the slot has been disturbed since the
scan loaded its flag. -/
def ScanInv (slots : Fin kMaxReaders → ReaderSlot) (tenancy : Tenancy) (process : Process) :
    Pc → Prop
  | .loadHeartbeat _ _ index _ =>
      tenancy.disturbed index = false → (tenancy.lastBeat index).isSome = true
  | .evict pending _ index _ =>
      tenancy.disturbed index = false →
        Checked slots tenancy pending.now process.evictTimeoutNs index
  | _ => True

/-- The invariant of the group. -/
structure GroupInv (group : Group) (tenancy : Tenancy) : Prop where
  slots : SlotInv group.machine.shared.header.readers tenancy
  scan : ∀ process, group.machine.process = some process →
    ScanInv group.machine.shared.header.readers tenancy process process.pc

/-! ## What an access does to the roster -/

section Roster

variable {slots slots' : Fin kMaxReaders → ReaderSlot} {tenancy tenancy' : Tenancy}
  {reader : ReaderId} {index : Fin kMaxReaders} {process : Process} {pc : Pc}

/-- Slots that keep their flags and heartbeats keep the invariant. -/
theorem SlotInv.quiet (h : SlotInv slots tenancy)
    (hslots : ∀ i, (slots' i).active = (slots i).active ∧
      (slots' i).heartbeatTs = (slots i).heartbeatTs) : SlotInv slots' tenancy where
  held i := by
    rw [(hslots i).1]
    exact h.held i
  word i other beat hholder hbeat := by
    rw [(hslots i).2]
    exact h.word i other beat hholder hbeat

/-- Clearing a flag leaves the slot without a holder. -/
theorem SlotInv.clear (h : SlotInv slots tenancy)
    (hslots : slots' = Function.update slots index { slots index with active := false }) :
    SlotInv slots' (tenancy.clear index) where
  held i := by
    subst hslots
    by_cases hi : i = index
    · subst hi
      simp [Tenancy.clear]
    · simp only [Tenancy.clear, Function.update_of_ne hi]
      exact h.held i
  word i other beat hholder hbeat := by
    subst hslots
    by_cases hi : i = index
    · subst hi
      simp [Tenancy.clear] at hholder
    · simp only [Tenancy.clear, Function.update_of_ne hi] at hholder ⊢
      exact h.word i other beat hholder hbeat

/-- A claim makes the reader the holder, which has not stored a heartbeat yet. -/
theorem SlotInv.claim (h : SlotInv slots tenancy)
    (hslots : slots' = Function.update slots index { slots index with active := true }) :
    SlotInv slots' (tenancy.claim reader index) where
  held i := by
    subst hslots
    by_cases hi : i = index
    · subst hi
      simp [Tenancy.claim]
    · simp only [Tenancy.claim, Function.update_of_ne hi]
      exact h.held i
  word i other beat hholder hbeat := by
    subst hslots
    by_cases hi : i = index
    · subst hi
      simp [Tenancy.claim] at hbeat
    · simp only [Tenancy.claim, Function.update_of_ne hi] at hholder hbeat ⊢
      exact h.word i other beat hholder hbeat

/-- A heartbeat that the holder stores is its last. -/
theorem SlotInv.beat (h : SlotInv slots tenancy) {now : Int}
    (hslots : slots' = Function.update slots index { slots index with heartbeatTs := now })
    (hholder : tenancy.holder index = some reader) :
    SlotInv slots' (tenancy.beat reader index now) where
  held i := by
    subst hslots
    by_cases hi : i = index
    · subst hi
      simp only [Function.update_self]
      exact h.held i
    · simp only [Function.update_of_ne hi]
      exact h.held i
  word i other beat hother hbeat := by
    subst hslots
    simp only [Tenancy.beat, if_pos hholder] at hbeat
    by_cases hi : i = index
    · subst hi
      simp only [Function.update_self, Option.some.injEq] at hbeat ⊢
      exact hbeat
    · simp only [Function.update_of_ne hi] at hbeat ⊢
      exact h.word i other beat hother hbeat

/-- A slot that is not disturbed by an access was not before, and it keeps what a check has seen of
it. -/
def KeepsChecks (slots slots' : Fin kMaxReaders → ReaderSlot) (tenancy tenancy' : Tenancy) : Prop :=
  ∀ i, tenancy'.disturbed i = false → tenancy.disturbed i = false ∧
    tenancy'.lastBeat i = tenancy.lastBeat i ∧ tenancy'.claimedSince i = tenancy.claimedSince i ∧
    (slots' i).heartbeatTs = (slots i).heartbeatTs

theorem ScanInv.keep (h : ScanInv slots tenancy process pc)
    (hkeeps : KeepsChecks slots slots' tenancy tenancy') : ScanInv slots' tenancy' process pc := by
  cases pc with
  | loadHeartbeat pending minCursor index rest =>
      intro hcalm
      obtain ⟨hbefore, hbeat, -⟩ := hkeeps index hcalm
      rw [hbeat]
      exact h hbefore
  | evict pending minCursor index rest =>
      intro hcalm
      obtain ⟨hbefore, hbeat, hclaimed, hword⟩ := hkeeps index hcalm
      obtain ⟨hbeaten, hunclaimed, hexpired⟩ := h hbefore
      exact ⟨by rw [hbeat]; exact hbeaten, by rw [hclaimed]; exact hunclaimed,
        by rw [hword]; exact hexpired⟩
  | _ => trivial

/-- A claim disturbs its slot only. -/
theorem keepsChecks_claim
    (hslots : slots' = Function.update slots index { slots index with active := true }) :
    KeepsChecks slots slots' tenancy (tenancy.claim reader index) := by
  subst hslots
  intro i hcalm
  by_cases hi : i = index
  · subst hi
    simp [Tenancy.claim] at hcalm
  · simp only [Tenancy.claim, Function.update_of_ne hi] at hcalm ⊢
    exact ⟨hcalm, trivial, trivial, trivial⟩

/-- A heartbeat disturbs its slot only. -/
theorem keepsChecks_beat {now : Int}
    (hslots : slots' = Function.update slots index { slots index with heartbeatTs := now }) :
    KeepsChecks slots slots' tenancy (tenancy.beat reader index now) := by
  subst hslots
  intro i hcalm
  by_cases hi : i = index
  · subst hi
    simp [Tenancy.beat] at hcalm
  · simp only [Tenancy.beat, Function.update_of_ne hi] at hcalm ⊢
    refine ⟨hcalm, ?_, trivial, trivial⟩
    split
    · rw [Function.update_of_ne hi]
    · rfl

end Roster

/-! ## The steps -/

section Steps

variable {cfg : Config} {group next : Group} {tenancy : Tenancy}

/-- An access that leaves the flags, the heartbeats and the tenancy. -/
theorem GroupInv.quiet (h : GroupInv group tenancy) {clients : ReaderId → Client}
    {shared : Shared}
    (hslots : ∀ i, (shared.header.readers i).active =
        (group.machine.shared.header.readers i).active ∧
      (shared.header.readers i).heartbeatTs =
        (group.machine.shared.header.readers i).heartbeatTs) :
    GroupInv ⟨{ group.machine with shared }, clients⟩ tenancy where
  slots := h.slots.quiet hslots
  scan process hprocess := (h.scan process hprocess).keep fun i hcalm =>
    ⟨hcalm, rfl, rfl, (hslots i).2⟩

/-- Clear the flag of a slot. -/
def clearFlag (shared : Shared) (index : Fin kMaxReaders) : Shared :=
  shared.setSlot index { shared.header.readers index with active := false }

/-- A flag may be cleared at any time. -/
theorem GroupInv.clear (h : GroupInv group tenancy) (index : Fin kMaxReaders)
    (clients : ReaderId → Client) :
    GroupInv ⟨{ group.machine with shared := clearFlag group.machine.shared index }, clients⟩
      (tenancy.clear index) where
  slots := h.slots.clear rfl
  scan process hprocess := (h.scan process hprocess).keep fun i hcalm => by
    refine ⟨hcalm, rfl, rfl, ?_⟩
    show (Function.update group.machine.shared.header.readers index _ i).heartbeatTs = _
    by_cases hi : i = index
    · subst hi
      rw [Function.update_self]
    · rw [Function.update_of_ne hi]

/-- A store to a slot that keeps its flag and its heartbeat. -/
theorem setSlot_quiet (shared : Shared) {index : Fin kMaxReaders} {slot : ReaderSlot}
    (hactive : slot.active = (shared.header.readers index).active)
    (hbeat : slot.heartbeatTs = (shared.header.readers index).heartbeatTs) (i : Fin kMaxReaders) :
    ((shared.setSlot index slot).header.readers i).active = (shared.header.readers i).active ∧
      ((shared.setSlot index slot).header.readers i).heartbeatTs =
        (shared.header.readers i).heartbeatTs := by
  show (Function.update shared.header.readers index slot i).active = _ ∧
    (Function.update shared.header.readers index slot i).heartbeatTs = _
  by_cases hi : i = index
  · subst hi
    rw [Function.update_self]
    exact ⟨hactive, hbeat⟩
  · rw [Function.update_of_ne hi]
    exact ⟨rfl, rfl⟩

/-- The accesses of the consumers keep the invariant. -/
theorem client_access_inv (hinv : GroupInv group tenancy) {reader : ReaderId}
    (hown : BeatsOwn (group, tenancy) reader) {result : Shared × Client}
    (h : (group.clients reader).access group.machine.clock group.machine.shared = some result) :
    GroupInv ⟨{ group.machine with shared := result.1 },
        Function.update group.clients reader result.2⟩
      (tenancy.clientAccess group.machine.shared reader (group.clients reader).pc) := by
  obtain ⟨shared, client⟩ := result
  cases Client.access_cases h with
  | rosterFull hat | readRegisterClock _ _ hat | checkGeneration _ hat | unbind _ hat
  | readAdvanceClock _ hat =>
      rw [hat]
      exact hinv.quiet fun _ => ⟨rfl, rfl⟩
  | passSlot index slots hat hactive =>
      rw [hat]
      simp only [Tenancy.clientAccess, hactive, if_true]
      exact hinv.quiet fun _ => ⟨rfl, rfl⟩
  | claimSlot index slots hat hactive =>
      rw [hat]
      simp only [Tenancy.clientAccess, hactive]
      exact ⟨hinv.slots.claim rfl, fun process hprocess =>
        (hinv.scan process hprocess).keep (keepsChecks_claim rfl)⟩
  | bumpGeneration _ hat | storeSlotCursor _ _ hat | publishCursor _ hat =>
      rw [hat]
      exact hinv.quiet (setSlot_quiet _ rfl rfl)
  | storeFirstHeartbeat index _ now hat | publishHeartbeat index now hat =>
      have hholder : tenancy.holder index = some reader := by
        simpa [BeatsOwn, hat] using hown
      rw [hat]
      exact ⟨hinv.slots.beat rfl hholder, fun process hprocess =>
        (hinv.scan process hprocess).keep (keepsChecks_beat rfl)⟩
  | release index hat =>
      rw [hat]
      exact hinv.clear index _

/-- The producer goes on at another program point and leaves the roster. -/
theorem GroupInv.goesOn (h : GroupInv group tenancy) {machine : Machine}
    (hslots : machine.shared.header.readers = group.machine.shared.header.readers)
    (hscan : ∀ process, machine.process = some process →
      ScanInv group.machine.shared.header.readers tenancy process process.pc) :
    GroupInv { group with machine } tenancy where
  slots := by
    show SlotInv machine.shared.header.readers tenancy
    rw [hslots]
    exact h.slots
  scan process hprocess := by
    show ScanInv machine.shared.header.readers tenancy process process.pc
    rw [hslots]
    exact hscan process hprocess

/-- The slot that the scan looks at. -/
def Pc.scannedSlot : Pc → Option (Fin kMaxReaders)
  | .loadHeartbeat _ _ index _ | .evict _ _ index _ => some index
  | _ => none

/-- Away from a slot there is nothing to know. -/
theorem scanInv_of_none {slots : Fin kMaxReaders → ReaderSlot} {process : Process} {pc : Pc}
    (h : pc.scannedSlot = none) : ScanInv slots tenancy process pc := by
  cases pc with
  | loadHeartbeat | evict => cases h
  | _ => trivial

/-- Writing a frame and committing it have nothing to do with the roster. -/
theorem stores_apart (tenancy : Tenancy) {capacity : UInt64} {clock : Int}
    {shared : Shared} {process : Process}
    {result : Shared × Process}
    (h : process.claim capacity clock shared process.pc = some result ∨
      process.commit capacity shared process.pc = some result) :
    result.1.header.readers = shared.header.readers ∧ result.2.pc.scannedSlot = none ∧
      tenancy.producerAccess process.pc = tenancy := by
  rcases h with hclaim | hcommit
  · unfold Process.claim at hclaim
    split at hclaim <;> first
      | (next hat =>
          obtain rfl := Option.some.inj hclaim
          rw [hat]
          exact ⟨rfl, rfl, rfl⟩)
      | simp at hclaim
  · unfold Process.commit at hcommit
    split at hcommit <;> first
      | (next hat =>
          obtain rfl := Option.some.inj hcommit
          rw [hat]
          exact ⟨rfl, rfl, rfl⟩)
      | simp at hcommit

/-- The access that begins to look at a slot: whether it is undisturbed is recorded anew. -/
theorem ScanInv.begin (slots : Fin kMaxReaders → ReaderSlot) (process : Process)
    (pending : PendingReserve) (minCursor minCursor' : UInt64) (index : Fin kMaxReaders)
    (rest rest' : List (Fin kMaxReaders)) :
    ScanInv slots (tenancy.producerAccess (.loadActive pending minCursor (index :: rest))) process
      (.loadHeartbeat pending minCursor' index rest') := by
  intro hcalm
  simpa [Tenancy.producerAccess] using hcalm

/-- The accesses of the scan keep the invariant. -/
theorem scan_access_inv {process : Process} (hinv : GroupInv group tenancy)
    (hprocess : group.machine.process = some process) {capacity tsc : UInt64}
    {result : Shared × Process}
    (h : process.scan capacity group.machine.clock tsc group.machine.shared process.pc =
      some result) :
    GroupInv { group with machine := {
        shared := result.1
        process := some result.2
        clock := group.machine.clock } }
      (tenancy.producerAccess process.pc) := by
  have hscan := hinv.scan process hprocess
  -- The tenancy of a slot only changes with its flag.
  have hslots : ∀ tenancy', tenancy'.holder = tenancy.holder →
      tenancy'.lastBeat = tenancy.lastBeat →
      SlotInv group.machine.shared.header.readers tenancy' := by
    intro tenancy' hholder hbeat
    refine ⟨?_, ?_⟩
    · rw [hholder]
      exact hinv.slots.held
    · rw [hholder, hbeat]
      exact hinv.slots.word
  have hnone : ∀ tenancy', tenancy'.holder = tenancy.holder →
      tenancy'.lastBeat = tenancy.lastBeat → result.1 = group.machine.shared →
      result.2.pc.scannedSlot = none →
      GroupInv { group with machine := {
        shared := result.1
        process := some result.2
        clock := group.machine.clock } } tenancy' := by
    intro tenancy' hholder hbeat hshared hslot
    refine ⟨by rw [hshared]; exact hslots tenancy' hholder hbeat, fun other hother => ?_⟩
    obtain rfl := Option.some.inj hother
    exact scanInv_of_none hslot
  unfold Process.scan at h
  split at h
  · next hat =>
      rw [hat]
      simp only at h
      split at h <;> obtain rfl := Option.some.inj h <;> exact hnone _ rfl rfl rfl rfl
  · next hat =>
      rw [hat]
      obtain rfl := Option.some.inj h
      exact hnone _ rfl rfl rfl rfl
  · next pending minCursor index slots hat =>
      rw [hat]
      split at h
      · obtain rfl := Option.some.inj h
        refine ⟨hslots _ rfl rfl, fun other hother => ?_⟩
        obtain rfl := Option.some.inj hother
        exact .begin _ _ pending minCursor minCursor index slots slots
      · obtain rfl := Option.some.inj h
        exact hnone _ rfl rfl rfl rfl
  · next hat =>
      rw [hat]
      simp only at h
      split at h <;> obtain rfl := Option.some.inj h <;> exact hnone _ rfl rfl rfl rfl
  · next pending minCursor index slots hat =>
      rw [hat] at hscan ⊢
      split at h
      · next hexpired =>
          obtain rfl := Option.some.inj h
          refine ⟨hslots _ rfl rfl, fun other hother => ?_⟩
          obtain rfl := Option.some.inj hother
          -- Nobody has claimed the slot since the load that happens now.
          exact fun hcalm => ⟨hscan hcalm, by simp [Tenancy.producerAccess], hexpired⟩
      · obtain rfl := Option.some.inj h
        exact hnone _ rfl rfl rfl rfl
  · next pending minCursor index slots hat =>
      rw [hat]
      obtain rfl := Option.some.inj h
      have hclear := hinv.clear index group.clients
      refine ⟨hclear.slots, fun other hother => ?_⟩
      obtain rfl := Option.some.inj hother
      trivial
  · next hat =>
      rw [hat]
      obtain rfl := Option.some.inj h
      exact hnone _ rfl rfl rfl rfl
  · simp at h

/-- The accesses of the producer keep the invariant. -/
theorem producer_access_inv {process : Process} (hinv : GroupInv group tenancy)
    (hprocess : group.machine.process = some process) {capacity tsc : UInt64}
    {result : Shared × Process}
    (h : process.access capacity group.machine.clock tsc group.machine.shared = some result) :
    GroupInv { group with machine := {
        shared := result.1
        process := some result.2
        clock := group.machine.clock } }
      (tenancy.producerAccess process.pc) := by
  unfold Process.access at h
  rcases Option.or_eq_some_iff.mp h with hscan | ⟨-, hrest⟩
  · exact scan_access_inv hinv hprocess hscan
  · obtain ⟨hslots, hslot, htenancy⟩ := stores_apart tenancy
      ((Option.or_eq_some_iff.mp hrest).imp_right And.right)
    rw [htenancy]
    refine hinv.goesOn hslots fun other hother => ?_
    obtain rfl := Option.some.inj hother
    exact scanInv_of_none hslot

/-- A call of a consumer that has no call open. -/
theorem GroupInv.call (hinv : GroupInv group tenancy) {reader : ReaderId}
    {call : Client → Client} (h : group.call reader call = some next) :
    GroupInv next tenancy := by
  unfold Group.call at h
  split at h
  · obtain rfl := Option.some.inj h
    exact hinv.quiet fun _ => ⟨rfl, rfl⟩
  · simp at h

/-- A payload write leaves the roster. -/
theorem write_header {capacity : UInt64} {shared shared' : Shared} {process : Process}
    {offset : Nat} {bytes : List UInt8}
    (h : process.write capacity shared offset bytes = some shared') :
    shared'.header.readers = shared.header.readers := by
  unfold Process.write at h
  split at h
  · split at h
    · obtain rfl := Option.some.inj h
      rfl
    · simp at h
  · simp at h

/-- The producer's steps keep the invariant. -/
theorem producer_inv (hinv : GroupInv group tenancy) {event : Event} {machine : Machine}
    (hconsumer : ∀ index slot, event ≠ .consumer index slot)
    (h : step cfg group.machine event = some machine) :
    GroupInv { group with machine }
      (tenancies.observe group (.producer event) { group with machine } tenancy) := by
  cases step_cases h with
  | @reserve process payloadSize typeId hprocess hidle =>
      refine hinv.goesOn rfl fun other hother => ?_
      obtain rfl := Option.some.inj hother
      refine scanInv_of_none ?_
      unfold Process.reserve
      split
      · rw [hidle]
        rfl
      · rfl
  | commit =>
      refine hinv.goesOn rfl fun other hother => ?_
      obtain rfl := Option.some.inj hother
      trivial
  | access tsc hprocess haccess =>
      simp only [tenancies, hprocess]
      exact producer_access_inv hinv hprocess haccess
  | write offset bytes hprocess hwrite => exact hinv.goesOn (write_header hwrite) hinv.scan
  | crash => exact hinv.goesOn rfl (by simp)
  | attach name hdead =>
      refine hinv.goesOn rfl fun other hother => ?_
      obtain rfl := Option.some.inj hother
      trivial
  | refuse => exact hinv
  | consumer index slot => exact absurd rfl (hconsumer index slot)
  | tick elapsed => exact hinv.goesOn rfl hinv.scan

/-- One step keeps the invariant. -/
theorem group_step_inv {event : GroupEvent} (hinv : GroupInv group tenancy)
    (hallow : EvictionSafe (group, tenancy) event) (h : groupStep cfg group event = some next) :
    GroupInv next (tenancies.observe group event next tenancy) := by
  cases event with
  | producer event =>
      obtain ⟨machine, hmachine, hconsumer, rfl⟩ := groupStep_producer h
      exact producer_inv hinv hconsumer hmachine
  | setCursor | register | unregister | advance =>
      simp only [groupStep] at h
      exact hinv.call h
  | access reader =>
      obtain ⟨result, haccess, rfl⟩ := Option.map_eq_some_iff.mp h
      exact client_access_inv hinv hallow haccess

/-- The invariant holds in every run whose accesses are safe. -/
theorem reachable_group_inv {pair : Group × Tenancy}
    (h : ((Access.group cfg).withHistory tenancies).Reachable EvictionSafe pair) :
    GroupInv pair.1 pair.2 := by
  refine h.invariant (fun pair => GroupInv pair.1 pair.2) ?_ ?_
  · intro ⟨group, tenancy⟩ ⟨⟨clock, hgroup⟩, htenancy⟩
    obtain rfl : group = ⟨created cfg clock, fun _ => {}⟩ := hgroup
    obtain rfl : tenancy = {} := htenancy
    refine ⟨⟨?_, ?_⟩, ?_⟩
    · simp [created]
    · simp
    · intro process hprocess
      obtain rfl := Option.some.inj hprocess
      trivial
  · intro ⟨group, tenancy⟩ event ⟨next, after⟩ hinv hallow hnext
    obtain ⟨hstep, hobserve⟩ := System.withHistory_step.mp hnext
    obtain rfl : after = tenancies.observe group event next tenancy := hobserve
    exact group_step_inv hinv hallow hstep

end Steps

/-- Eviction hits expired registrations only, as long as the registration has stored a heartbeat
when the scan loads its flag, nobody claims the slot or stores a heartbeat in it until the flag is
cleared, and heartbeats are stored in a slot by its holder. -/
theorem evicts_expired (cfg : Config) : EvictsExpired cfg EvictionSafe := by
  intro pair hreach process pending minCursor index slots tsc hprocess hat hallow hactive
  have hinv := reachable_group_inv hreach
  obtain ⟨reader, hholder⟩ := (hinv.slots.held index).mp hactive
  have hcalm := hallow process pending minCursor index slots hprocess hat reader hholder
  have hscan := hinv.scan process hprocess
  rw [hat] at hscan
  obtain ⟨hbeaten, hunclaimed, hexpired⟩ := hscan hcalm
  obtain ⟨beat, hlast⟩ := Option.isSome_iff_exists.mp hbeaten
  have hword := hinv.slots.word index reader beat hholder hlast
  exact ⟨⟨reader, hholder⟩, ⟨beat, hlast, hword ▸ hexpired⟩, hunclaimed⟩

/-- The producer fills the buffer. Reader 0 claims a slot, and before it goes on, the producer
scans the roster. -/
def scanDuringClaim : List GroupEvent :=
  .producer (.reserve 4072 0) :: List.replicate 7 (.producer (.access 0)) ++
    [.register 0, .access 0, .producer (.reserve 8 0)] ++
    List.replicate 4 (.producer (.access 0))

/-- The producer is about to evict the registration in slot 0, which has no heartbeat yet. -/
def evictsFilling (pair : Group × Tenancy) : Bool :=
  match pair.1.machine.process with
  | some process =>
      match process.pc with
      | .evict _ _ index _ => index == 0 && (pair.1.machine.shared.header.readers index).active &&
          (pair.2.lastBeat index).isNone
      | _ => false
  | none => false

/-- The scan evicts a reader that is still filling its slot. -/
theorem scan_evicts_newcomer : ¬ EvictsExpired onePage fun _ _ => True := by
  intro hevicts
  obtain ⟨pair, hreach, hpair⟩ := System.exists_reachable_of_replay
    ((group onePage).withHistory tenancies) (fun _ _ => True)
    (⟨created onePage 1000000000, fun _ => {}⟩, {}) scanDuringClaim evictsFilling
    (.init ⟨⟨_, rfl⟩, rfl⟩) (by decide +kernel)
  unfold evictsFilling at hpair
  split at hpair
  · next process hprocess =>
      split at hpair
      · next pending minCursor index slots hat =>
          simp only [Bool.and_eq_true, beq_iff_eq] at hpair
          obtain ⟨⟨-, hactive⟩, hnone⟩ := hpair
          obtain ⟨-, ⟨beat, hbeat, -⟩, -⟩ := hevicts pair hreach process pending minCursor index
            slots 0 hprocess hat trivial hactive
          simp [hbeat] at hnone
      · simp at hpair
  · simp at hpair

end HotPath.SharedMemory.Access
