import HotPath.SharedMemory.Ring

/-!
# Single accesses of the producer

The producer of a `BroadcastRingBuffer` with every load and store of shared memory as one step.
`Process` is the producer's object together with the program point of its open call. Other parties
may run between two accesses, and the producer may die between them: the shared segments then stay
as they are, and `Attach(name, writable=true)` makes a new object over them.

The caller writes the payload in pieces of any size. Time stamp counter readings are arguments of
the steps, and `clock` is what `absl::Now` answers.

`scan_cases` and `step_cases` say what an access of the backpressure check and a step can do.
-/

namespace HotPath.SharedMemory.Access

open HotPath.Foundation

/-- The locals of `Reserve` that outlive its backpressure check. -/
structure Claim where
  payloadSize : UInt32
  typeId : UInt32
  currentCursor : UInt64
  targetCursor : UInt64
  deriving DecidableEq

/-- The claim of a `Reserve` that scans the roster. -/
def Claim.ofPending (pending : PendingReserve) : Claim :=
  ⟨pending.payloadSize, pending.typeId, pending.currentCursor, pending.targetCursor⟩

/-- What `Reserve` stores in `current_reservation_`. -/
def Claim.reservation (capacity : UInt64) (claim : Claim) : Reservation where
  claimedCursor := claim.targetCursor
  startOffset := claim.currentCursor % capacity
  totalFrameSize := (requiredSpace claim.payloadSize).toUInt32

/-- The address of `header_dest` in `Reserve`. -/
def Claim.frame (capacity : UInt64) (claim : Claim) : Nat :=
  frameAddress capacity claim.currentCursor

/-- The program points of `Reserve` and `Commit`, named by the access that comes next. A scan
carries `min_c` and the slots that are left; with none left, its pass ends. -/
inductive Pc where
  | idle
  | loadProducerCursor (payloadSize typeId : UInt32)
  | beginPass (pending : PendingReserve)
  | loadActive (pending : PendingReserve) (minCursor : UInt64) (slots : List (Fin kMaxReaders))
  | loadHeartbeat (pending : PendingReserve) (minCursor : UInt64) (index : Fin kMaxReaders)
      (slots : List (Fin kMaxReaders))
  | evict (pending : PendingReserve) (minCursor : UInt64) (index : Fin kMaxReaders)
      (slots : List (Fin kMaxReaders))
  | loadCursor (pending : PendingReserve) (minCursor : UInt64) (index : Fin kMaxReaders)
      (slots : List (Fin kMaxReaders))
  | loadVersion (claim : Claim)
  | storeVersion (claim : Claim) (version : UInt32)
  | storeLength (claim : Claim)
  | storeType (claim : Claim)
  | storeTimestamp (claim : Claim)
  | storeProducerCursor (claim : Claim)
  | loadCommitVersion (reservation : Reservation)
  | storeCommitVersion (reservation : Reservation) (version : UInt32)
  | storeCommitCursor (reservation : Reservation)
  deriving DecidableEq

/-- The producer's object, its program point, and the pointer its caller writes through. -/
structure Process where
  isProducer : Bool
  evictTimeoutNs : Int
  cachedMinCursor : UInt64 := 0
  currentReservation : Option Reservation := none
  pc : Pc := .idle
  grant : Option Grant := none
  deriving DecidableEq

/-- Go on to another program point. -/
def Process.goto (process : Process) (pc : Pc) : Process := { process with pc }

/-- `Attach`: the buffer capacity is checked, and the new object has an eviction timeout of 0. -/
def attach (name : String) (capacity : UInt64) (writable : Bool) : Except Status Process :=
  if capacity > 1024 * 1024 * 1024 then
    .error ⟨.dataLoss, s!"Corrupted ring buffer capacity in {name}: {capacity} bytes"⟩
  else
    .ok { isProducer := writable, evictTimeoutNs := 0 }

/-- An object that `Attach` makes has nothing open and no timeout. -/
theorem eq_of_attach {name : String} {capacity : UInt64} {writable : Bool} {process : Process}
    (h : attach name capacity writable = .ok process) :
    process = { isProducer := writable, evictTimeoutNs := 0 } := by
  unfold attach at h
  split at h
  · simp at h
  · exact (Except.ok.inj h).symm

/-- The call of `Reserve`, up to its first access. -/
def Process.reserve (cfg : Config) (process : Process) (payloadSize typeId : UInt32) : Process :=
  match reserveError cfg { isProducer := process.isProducer } payloadSize with
  | some _ => process
  | none => process.goto (.loadProducerCursor payloadSize typeId)

section Accesses

variable (capacity : UInt64) (clock : Int) (tsc : UInt64) (shared : Shared) (process : Process)

/-- The accesses of the backpressure check. -/
def Process.scan : Pc → Option (Shared × Process)
  | .loadProducerCursor payloadSize typeId =>
      let currentCursor := shared.header.producerCursor
      let targetCursor := currentCursor + requiredSpace payloadSize
      if targetCursor - process.cachedMinCursor > capacity then
        some (shared, process.goto
          (.beginPass ⟨payloadSize, typeId, currentCursor, targetCursor, clock, tsc⟩))
      else
        some (shared, process.goto
          (.loadVersion ⟨payloadSize, typeId, currentCursor, targetCursor⟩))
  | .beginPass pending =>
      let pending := pending.refresh tsc clock
      some (shared, process.goto
        (.loadActive pending pending.targetCursor (List.finRange kMaxReaders)))
  | .loadActive pending minCursor (index :: slots) =>
      if (shared.header.readers index).active then
        some (shared, process.goto (.loadHeartbeat pending minCursor index slots))
      else
        some (shared, process.goto (.loadActive pending minCursor slots))
  -- The scan has seen every slot: `cached_min_cursor_ = min_c`.
  | .loadActive pending minCursor [] =>
      let process := { process with cachedMinCursor := minCursor }
      if pending.targetCursor - minCursor ≤ capacity then
        some (shared, process.goto (.loadVersion (.ofPending pending)))
      else
        some (shared, process.goto (.beginPass pending))
  | .loadHeartbeat pending minCursor index slots =>
      if pending.now - (shared.header.readers index).heartbeatTs > process.evictTimeoutNs then
        some (shared, process.goto (.evict pending minCursor index slots))
      else
        some (shared, process.goto (.loadCursor pending minCursor index slots))
  | .evict pending minCursor index slots =>
      some (shared.setSlot index { shared.header.readers index with active := false },
        process.goto (.loadActive pending minCursor slots))
  | .loadCursor pending minCursor index slots =>
      let cursor := (shared.header.readers index).cursor
      some (shared, process.goto
        (.loadActive pending (if cursor < minCursor then cursor else minCursor) slots))
  | _ => none

/-- The accesses that write a frame and claim its space. `Reserve` returns with the last one. -/
def Process.claim : Pc → Option (Shared × Process)
  -- The reservation is filled in before the version word is loaded.
  | .loadVersion claim =>
      let version := loadVersion capacity shared.data (claim.frame capacity)
      some (shared, { process with
        currentReservation := some (claim.reservation capacity)
        pc := .storeVersion claim version })
  | .storeVersion claim version =>
      some ({ shared with
          data := storeVersion capacity shared.data (claim.frame capacity) (version ||| 1) },
        process.goto (.storeLength claim))
  | .storeLength claim =>
      some ({ shared with
          data := storeLength capacity shared.data (claim.frame capacity) claim.payloadSize },
        process.goto (.storeType claim))
  | .storeType claim =>
      some ({ shared with
          data := storeType capacity shared.data (claim.frame capacity) claim.typeId },
        process.goto (.storeTimestamp claim))
  | .storeTimestamp claim =>
      some ({ shared with
          data := storeTimestamp capacity shared.data (claim.frame capacity)
            (Int64.ofInt clock) },
        process.goto (.storeProducerCursor claim))
  -- The claim becomes visible only after the four stores to the header of the frame.
  | .storeProducerCursor claim =>
      some ({ shared with
          header := { shared.header with producerCursor := claim.targetCursor } },
        { process with
          pc := .idle
          grant := some ⟨claim.frame capacity + kFrameHeaderSize, claim.payloadSize⟩ })
  | _ => none

/-- The accesses of `Commit`. The caller gives up its pointer with the last one. -/
def Process.commit : Pc → Option (Shared × Process)
  | .loadCommitVersion reservation =>
      let version := loadVersion capacity shared.data reservation.startOffset.toNat
      some (shared, process.goto (.storeCommitVersion reservation version))
  | .storeCommitVersion reservation version =>
      some ({ shared with
          data := storeVersion capacity shared.data reservation.startOffset.toNat (version + 1) },
        process.goto (.storeCommitCursor reservation))
  | .storeCommitCursor reservation =>
      some ({ shared with
          header := { shared.header with commitCursor := reservation.claimedCursor } },
        { process with pc := .idle, grant := none })
  | _ => none

/-- The next access of the open call. -/
def Process.access : Option (Shared × Process) :=
  (process.scan capacity clock tsc shared process.pc).or
    ((process.claim capacity clock shared process.pc).or
      (process.commit capacity shared process.pc))

end Accesses

/-- The caller stores bytes at an offset of the payload that its pointer was handed out for. -/
def Process.write (capacity : UInt64) (shared : Shared) (process : Process) (offset : Nat)
    (bytes : List UInt8) : Option Shared :=
  match process.pc, process.grant with
  | .idle, some grant =>
      if offset + bytes.length ≤ grant.payloadSize.toNat then
        some { shared with
          data := storeBytes capacity.toNat shared.data (grant.address + offset) bytes }
      else none
  | _, _ => none

/-! ## The system -/

/-- The shared segments, the producer's process unless it has died, and the clock. -/
structure Machine where
  shared : Shared
  process : Option Process
  clock : Int

/-- The producer's calls, the accesses of its open call, its death and its replacement. The
consumers may store anything in the roster. -/
inductive Event where
  | reserve (payloadSize typeId : UInt32)
  | commit
  | access (tsc : UInt64)
  | write (offset : Nat) (bytes : List UInt8)
  | crash
  | attach (name : String)
  | consumer (index : Fin kMaxReaders) (slot : ReaderSlot)
  | tick (elapsed : Nat)

/-- One step. A call starts only when no other is open, and a `Commit` needs an object that has
reserved before. -/
def step (cfg : Config) (machine : Machine) : Event → Option Machine
  | .reserve payloadSize typeId =>
      match machine.process with
      | some process =>
          if process.pc = .idle then
            some { machine with process := some (process.reserve cfg payloadSize typeId) }
          else none
      | none => none
  | .commit =>
      match machine.process with
      | some process =>
          match process.pc, process.currentReservation with
          | .idle, some reservation =>
              some { machine with process := some (process.goto (.loadCommitVersion reservation)) }
          | _, _ => none
      | none => none
  | .access tsc =>
      match machine.process with
      | some process =>
          (process.access cfg.capacity machine.clock tsc machine.shared).map fun result =>
            { machine with shared := result.1, process := some result.2 }
      | none => none
  | .write offset bytes =>
      match machine.process with
      | some process =>
          (process.write cfg.capacity machine.shared offset bytes).map fun shared =>
            { machine with shared }
      | none => none
  | .crash => some { machine with process := none }
  | .attach name =>
      match machine.process, attach name cfg.capacity true with
      | none, .ok process => some { machine with process := some process }
      | none, .error _ => some machine
      | some _, _ => none
  | .consumer index slot => some { machine with shared := machine.shared.setSlot index slot }
  | .tick elapsed => some { machine with clock := machine.clock + elapsed }

/-- What `Create` leaves: zero cursors, an empty roster, zero bytes and the creator's object. -/
def created (cfg : Config) (clock : Int) : Machine where
  shared := { header := {}, data := fun _ => 0 }
  process := some { isProducer := true, evictTimeoutNs := cfg.evictTimeoutNs }
  clock := clock

/-- The producer as a transition system. -/
def producer (cfg : Config) : System Machine Event where
  init machine := ∃ clock, machine = created cfg clock
  step := step cfg

/-! ## What a step can do -/

/-- The claim that a scan works for, which its last access passes on. -/
def Pc.scannedClaim : Pc → Option Claim
  | .beginPass pending | .loadActive pending _ _ | .loadHeartbeat pending _ _ _ |
    .evict pending _ _ _ | .loadCursor pending _ _ _ => some (.ofPending pending)
  | .loadVersion claim => some claim
  | _ => none

/-- The claim at the producer cursor. -/
def claimAtCursor (shared : Shared) (payloadSize typeId : UInt32) : Claim :=
  ⟨payloadSize, typeId, shared.header.producerCursor,
    shared.header.producerCursor + requiredSpace payloadSize⟩

/-- The backpressure check works for the claim at the producer cursor. It leaves shared memory,
except that it may clear a flag of the roster. -/
structure ScanStep (shared : Shared) (process : Process) (result : Shared × Process) : Prop where
  roster : result.1 = shared ∨ ∃ pending minCursor index slots,
    process.pc = .evict pending minCursor index slots ∧
      result.1 = shared.setSlot index { shared.header.readers index with active := false }
  claim : ∃ claim, result.2.pc.scannedClaim = some claim ∧
    (process.pc.scannedClaim = some claim ∨ ∃ payloadSize typeId,
      process.pc = .loadProducerCursor payloadSize typeId ∧
        claim = claimAtCursor shared payloadSize typeId)

theorem scan_cases {capacity tsc : UInt64} {clock : Int} {shared : Shared} {process : Process}
    {result : Shared × Process}
    (h : process.scan capacity clock tsc shared process.pc = some result) :
    ScanStep shared process result := by
  unfold Process.scan at h
  split at h
  · next payloadSize typeId hat =>
      simp only at h
      split at h
      · obtain rfl := Option.some.inj h
        exact ⟨.inl rfl, _, rfl, .inr ⟨payloadSize, typeId, hat, rfl⟩⟩
      · obtain rfl := Option.some.inj h
        exact ⟨.inl rfl, _, rfl, .inr ⟨payloadSize, typeId, hat, rfl⟩⟩
  · next pending hat =>
      obtain rfl := Option.some.inj h
      -- Only the clock reading of the claim's scan can change.
      have hclaim : Claim.ofPending (pending.refresh tsc clock) = .ofPending pending := by
        unfold PendingReserve.refresh
        split <;> rfl
      exact ⟨.inl rfl, _, congrArg some hclaim, .inl (by rw [hat]; rfl)⟩
  · next hat =>
      split at h
      · obtain rfl := Option.some.inj h
        exact ⟨.inl rfl, _, rfl, .inl (by rw [hat]; rfl)⟩
      · obtain rfl := Option.some.inj h
        exact ⟨.inl rfl, _, rfl, .inl (by rw [hat]; rfl)⟩
  · next hat =>
      simp only at h
      split at h
      · obtain rfl := Option.some.inj h
        exact ⟨.inl rfl, _, rfl, .inl (by rw [hat]; rfl)⟩
      · obtain rfl := Option.some.inj h
        exact ⟨.inl rfl, _, rfl, .inl (by rw [hat]; rfl)⟩
  · next hat =>
      split at h
      · obtain rfl := Option.some.inj h
        exact ⟨.inl rfl, _, rfl, .inl (by rw [hat]; rfl)⟩
      · obtain rfl := Option.some.inj h
        exact ⟨.inl rfl, _, rfl, .inl (by rw [hat]; rfl)⟩
  · next hat =>
      obtain rfl := Option.some.inj h
      exact ⟨.inr ⟨_, _, _, _, hat, rfl⟩, _, rfl, .inl (by rw [hat]; rfl)⟩
  · next hat =>
      obtain rfl := Option.some.inj h
      exact ⟨.inl rfl, _, rfl, .inl (by rw [hat]; rfl)⟩
  · simp at h

/-- Everything that one step can do. -/
inductive MachineStep (cfg : Config) (machine : Machine) : Event → Machine → Prop where
  | reserve {process : Process} (payloadSize typeId : UInt32) :
      machine.process = some process → process.pc = .idle →
      MachineStep cfg machine (.reserve payloadSize typeId)
        { machine with process := some (process.reserve cfg payloadSize typeId) }
  | commit {process : Process} {reservation : Reservation} :
      machine.process = some process → process.pc = .idle →
      process.currentReservation = some reservation →
      MachineStep cfg machine .commit
        { machine with process := some (process.goto (.loadCommitVersion reservation)) }
  | access {process : Process} {result : Shared × Process} (tsc : UInt64) :
      machine.process = some process →
      process.access cfg.capacity machine.clock tsc machine.shared = some result →
      MachineStep cfg machine (.access tsc)
        { machine with shared := result.1, process := some result.2 }
  | write {process : Process} {shared : Shared} (offset : Nat) (bytes : List UInt8) :
      machine.process = some process →
      process.write cfg.capacity machine.shared offset bytes = some shared →
      MachineStep cfg machine (.write offset bytes) { machine with shared }
  | crash : MachineStep cfg machine .crash { machine with process := none }
  | attach (name : String) : machine.process = none →
      MachineStep cfg machine (.attach name)
        { machine with process := some { isProducer := true, evictTimeoutNs := 0 } }
  | refuse (name : String) : MachineStep cfg machine (.attach name) machine
  | consumer (index : Fin kMaxReaders) (slot : ReaderSlot) :
      MachineStep cfg machine (.consumer index slot)
        { machine with shared := machine.shared.setSlot index slot }
  | tick (elapsed : Nat) :
      MachineStep cfg machine (.tick elapsed) { machine with clock := machine.clock + elapsed }

theorem step_cases {cfg : Config} {machine next : Machine} {event : Event}
    (h : step cfg machine event = some next) : MachineStep cfg machine event next := by
  cases event with
  | reserve payloadSize typeId =>
      simp only [step] at h
      split at h
      · next process hprocess =>
          split at h
          · next hidle =>
              obtain rfl := Option.some.inj h
              exact .reserve payloadSize typeId hprocess hidle
          · simp at h
      · simp at h
  | commit =>
      simp only [step] at h
      split at h
      · next process hprocess =>
          split at h
          · next reservation hidle hreservation =>
              obtain rfl := Option.some.inj h
              exact .commit hprocess hidle hreservation
          · simp at h
      · simp at h
  | access tsc =>
      simp only [step] at h
      split at h
      · next process hprocess =>
          obtain ⟨result, haccess, rfl⟩ := Option.map_eq_some_iff.mp h
          exact .access tsc hprocess haccess
      · simp at h
  | write offset bytes =>
      simp only [step] at h
      split at h
      · next process hprocess =>
          obtain ⟨shared, hwrite, rfl⟩ := Option.map_eq_some_iff.mp h
          exact .write offset bytes hprocess hwrite
      · simp at h
  | crash =>
      obtain rfl := Option.some.inj h
      exact .crash
  | attach name =>
      simp only [step] at h
      split at h
      · next process hnone hattach =>
          obtain rfl := Option.some.inj h
          obtain rfl := eq_of_attach hattach
          exact .attach name hnone
      · obtain rfl := Option.some.inj h
        exact .refuse name
      · simp at h
  | consumer index slot =>
      obtain rfl := Option.some.inj h
      exact .consumer index slot
  | tick elapsed =>
      obtain rfl := Option.some.inj h
      exact .tick elapsed

end HotPath.SharedMemory.Access
