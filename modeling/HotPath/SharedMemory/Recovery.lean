import HotPath.SharedMemory.BroadcastLog
import HotPath.SharedMemory.ProducerSteps

/-!
# Recovery of a producer

Readers walk the stream from one frame to the next by `TotalFrameSize` and trust everything below
`commit_cursor`. `Committed` says what they trust: a walk that starts at a frame boundary, that is
at a value that `producer_cursor` has had, and whose bytes no `Reserve` has begun to overwrite,
meets only frames that a `Commit` of their own has published, and ends at `commit_cursor`.

`Commit` publishes whatever lies between `commit_cursor` and the end of the last reservation, and
counts the version of that reservation up without looking at it. A second `Commit` makes the
version of a visible frame odd, and a `Commit` after a reservation that was abandoned, or whose
producer died, makes a frame visible that nobody has finished (`dead_producer_publishes`).
`everything_committed` shows that nothing else goes wrong, wherever the producer dies and is
replaced.
-/

namespace HotPath.SharedMemory.Access

open HotPath.Foundation

/-! ## What has been published -/

/-- The open reservation, the published frames, the frame boundaries (the values that
`producer_cursor` has had), and the end of the stream positions that a `Reserve` has begun to
write. -/
structure Published where
  reserved : Option (Nat × FrameHeader) := none
  frames : List (Nat × SafeMessage) := []
  cuts : List Nat := [0]
  frontier : Nat := 0

/-- The frame that a `Commit` publishes: the header that was reserved and the payload below it. -/
def publishedFrame (capacity : UInt64) (data : Nat → UInt8) (reserved : Nat × FrameHeader) :
    Nat × SafeMessage :=
  (reserved.1, ⟨reserved.2.type, reserved.2.timestamp,
    loadPayload capacity data reserved.1 reserved.2.length.toNat⟩)

/-- What an access adds. -/
def publishedAfter (cfg : Config) (shared : Shared) (history : Published) : Pc → Published
  | .storeVersion claim _ =>
      { history with frontier := max history.frontier claim.targetCursor.toNat }
  | .storeProducerCursor claim =>
      { history with
        reserved := some (claim.currentCursor.toNat,
          ⟨claim.payloadSize, claim.typeId,
            loadTimestamp cfg.capacity shared.data claim.currentCursor.toNat⟩)
        cuts := claim.targetCursor.toNat :: history.cuts }
  | .storeCommitCursor _ =>
      { history with
        reserved := none
        frames := (history.reserved.map (publishedFrame cfg.capacity shared.data)).toList ++
          history.frames }
  | _ => history

/-- The recorder of what has been published. A reservation dies with its object. -/
def publication (cfg : Config) : Recorder Machine Event Published where
  start _ := {}
  observe machine event _ history :=
    match event, machine.process with
    | .access _, some process => publishedAfter cfg machine.shared history process.pc
    | .crash, _ => { history with reserved := none }
    | _, _ => history

/-- The positions that a walk from `start` meets, frame by frame below the commit cursor. -/
inductive Visits (capacity : UInt64) (data : Nat → UInt8) (commit start : Nat) : Nat → Prop where
  | start : Visits capacity data commit start start
  | next {position : Nat} : Visits capacity data commit start position → position < commit →
      Visits capacity data commit start
        (position + (totalFrameSize (loadLength capacity data position)).toNat)

/-- Walks from retained frame boundaries meet published frames up to the commit cursor. -/
def Committed (cfg : Config) (pair : Machine × Published) : Prop :=
  ∀ start ∈ pair.2.cuts, start ≤ pair.1.shared.header.commitCursor.toNat →
    pair.2.frontier ≤ start + cfg.capacity.toNat → ∀ position,
      Visits cfg.capacity pair.1.shared.data pair.1.shared.header.commitCursor.toNat start
        position →
      position = pair.1.shared.header.commitCursor.toNat ∨
      (position < pair.1.shared.header.commitCursor.toNat ∧
        ∃ message, (position, message) ∈ pair.2.frames ∧
          FrameStored cfg.capacity pair.1.shared.data position message)

/-- A `Reserve` that is accepted does not overflow a cursor or a frame size. -/
def SizesFit (cfg : Config) (shared : Shared) (payloadSize : UInt32) : Prop :=
  (requiredSpace payloadSize).toNat ≤ cfg.capacity.toNat →
    payloadSize.toNat ≤ 2 ^ 32 - 32 ∧
      shared.header.producerCursor.toNat + (requiredSpace payloadSize).toNat < 2 ^ 64

/-- No frame boundary from the commit cursor up to the given position is retained. When the
position is the commit cursor there is none. -/
def NoneRetained (cfg : Config) (history : Published) (commit position : Nat) : Prop :=
  ∀ cut ∈ history.cuts, commit ≤ cut → cut < position → cut + cfg.capacity.toNat < history.frontier

/-- A `Commit` closes an open reservation. It starts at the commit cursor, unless everything that
was reserved between has been overwritten since. -/
def ClosesReservation (cfg : Config) (pair : Machine × Published) : Prop :=
  ∃ reserved, pair.2.reserved = some reserved ∧
    NoneRetained cfg pair.2 pair.1.shared.header.commitCursor.toNat reserved.1

/-- The calls that keep everything committed. -/
def Closes (cfg : Config) (pair : Machine × Published) : Event → Prop
  | .reserve payloadSize _ => SizesFit cfg pair.1.shared payloadSize
  | .commit => ClosesReservation cfg pair
  | _ => True

/-! ## The invariant -/

/-- The part of the shared segments that only the producer writes. -/
structure Stream where
  producerCursor : UInt64
  commitCursor : UInt64
  data : Nat → UInt8

/-- The stream in the shared segments. -/
def stream (shared : Shared) : Stream :=
  ⟨shared.header.producerCursor, shared.header.commitCursor, shared.data⟩

/-- A claim of space at the end of the stream. -/
structure ClaimInv (cfg : Config) (producerCursor : UInt64) (claim : Claim) : Prop where
  current : claim.currentCursor = producerCursor
  target : claim.targetCursor.toNat =
    producerCursor.toNat + (requiredSpace claim.payloadSize).toNat
  space : (requiredSpace claim.payloadSize).toNat ≤ cfg.capacity.toNat
  size : claim.payloadSize.toNat ≤ 2 ^ 32 - 32

/-- A claim whose frame has an odd version word. -/
structure ClaimOpen (cfg : Config) (stream : Stream) (history : Published) (process : Process)
    (claim : Claim) : Prop where
  claimed : ClaimInv cfg stream.producerCursor claim
  reservation : process.currentReservation = some (claim.reservation cfg.capacity)
  frontier : claim.targetCursor.toNat ≤ history.frontier
  odd : ∃ version, loadVersion cfg.capacity stream.data claim.currentCursor.toNat = version ||| 1

/-- A reservation whose header is stored between the commit cursor and the producer cursor. -/
structure Reserved (cfg : Config) (stream : Stream) (reservation : Reservation)
    (reserved : Nat × FrameHeader) : Prop where
  size : reserved.2.length.toNat ≤ 2 ^ 32 - 32
  space : (requiredSpace reserved.2.length).toNat ≤ cfg.capacity.toNat
  start : stream.commitCursor.toNat ≤ reserved.1
  ends : reserved.1 + (requiredSpace reserved.2.length).toNat =
    stream.producerCursor.toNat
  claimed : reservation.claimedCursor = stream.producerCursor
  offset : reservation.startOffset.toNat = reserved.1 % cfg.capacity.toNat
  header : HeaderStored cfg.capacity stream.data reserved.1 reserved.2

/-- Between two calls the open reservation has an odd version word, and the caller's pointer is
that of its payload. -/
structure IdleInv (cfg : Config) (stream : Stream) (history : Published) (process : Process) :
    Prop where
  grant : ∀ grant, process.grant = some grant → ∃ reserved, history.reserved = some reserved ∧
    grant = ⟨reserved.1 % cfg.capacity.toNat + kFrameHeaderSize, reserved.2.length⟩
  reserved : ∀ reserved, history.reserved = some reserved →
    (∃ version, loadVersion cfg.capacity stream.data reserved.1 = version ||| 1) ∧
    ∃ reservation, process.currentReservation = some reservation ∧
      Reserved cfg stream reservation reserved

/-- A `Commit` that closes the open reservation. -/
structure Closing (cfg : Config) (stream : Stream) (history : Published)
    (reservation : Reservation) (reserved : Nat × FrameHeader) : Prop where
  found : history.reserved = some reserved
  held : Reserved cfg stream reservation reserved
  next : NoneRetained cfg history stream.commitCursor.toNat reserved.1

/-- What holds at each program point. -/
def PcInv (cfg : Config) (stream : Stream) (history : Published) (process : Process) : Pc → Prop
  | .idle => IdleInv cfg stream history process
  | .loadProducerCursor payloadSize _ =>
      (requiredSpace payloadSize).toNat ≤ cfg.capacity.toNat ∧ payloadSize.toNat ≤ 2 ^ 32 - 32 ∧
        stream.producerCursor.toNat + (requiredSpace payloadSize).toNat < 2 ^ 64
  | .beginPass pending | .loadActive pending _ _ | .loadHeartbeat pending _ _ _ |
    .evict pending _ _ _ | .loadCursor pending _ _ _ =>
      ClaimInv cfg stream.producerCursor (.ofPending pending)
  | .loadVersion claim => ClaimInv cfg stream.producerCursor claim
  | .storeVersion claim _ => ClaimInv cfg stream.producerCursor claim ∧
      process.currentReservation = some (claim.reservation cfg.capacity)
  | .storeLength claim => ClaimOpen cfg stream history process claim
  | .storeType claim => ClaimOpen cfg stream history process claim ∧
      loadLength cfg.capacity stream.data claim.currentCursor.toNat = claim.payloadSize
  | .storeTimestamp claim | .storeProducerCursor claim =>
      ClaimOpen cfg stream history process claim ∧
      loadLength cfg.capacity stream.data claim.currentCursor.toNat = claim.payloadSize ∧
      loadType cfg.capacity stream.data claim.currentCursor.toNat = claim.typeId
  | .loadCommitVersion reservation => ∃ reserved,
      Closing cfg stream history reservation reserved ∧
      ∃ version, loadVersion cfg.capacity stream.data reserved.1 = version ||| 1
  | .storeCommitVersion reservation version => ∃ reserved,
      Closing cfg stream history reservation reserved ∧ ∃ before, version = before ||| 1
  | .storeCommitCursor reservation => ∃ reserved,
      Closing cfg stream history reservation reserved ∧
      loadVersion cfg.capacity stream.data reserved.1 &&& 1 = 0

/-- A published frame is stored, and ends at another frame boundary. -/
structure FrameAt (cfg : Config) (stream : Stream) (cuts : List Nat) (start : Nat)
    (message : SafeMessage) : Prop where
  stored : FrameStored cfg.capacity stream.data start message
  admitted : Admitted cfg message
  size : message.payload.length ≤ 2 ^ 32 - 32
  below : start + frameBytes message ≤ stream.commitCursor.toNat
  ends : start + frameBytes message ∈ cuts

/-- Retained frames are stored where they were published, and one starts at every retained frame
boundary below the commit cursor. Two frames never start at one position. -/
structure FramesRetained (cfg : Config) (stream : Stream) (history : Published) : Prop where
  stored : ∀ start message, (start, message) ∈ history.frames →
    history.frontier ≤ start + cfg.capacity.toNat →
    FrameAt cfg stream history.cuts start message
  starts : ∀ cut ∈ history.cuts, cut < stream.commitCursor.toNat →
    history.frontier ≤ cut + cfg.capacity.toNat → ∃ message, (cut, message) ∈ history.frames
  below : ∀ start message, (start, message) ∈ history.frames →
    start < stream.commitCursor.toNat
  distinct : ∀ start message other, (start, message) ∈ history.frames →
    (start, other) ∈ history.frames → message = other

/-- The frame boundaries end at the producer cursor, and none is inside the open reservation. -/
structure Boundaries (stream : Stream) (history : Published) : Prop where
  le : ∀ cut ∈ history.cuts, cut ≤ stream.producerCursor.toNat
  last : stream.producerCursor.toNat ∈ history.cuts
  reserved : ∀ reserved, history.reserved = some reserved →
    ∀ cut ∈ history.cuts, cut ≤ reserved.1 ∨ cut = stream.producerCursor.toNat

/-- The invariant of the producer. -/
structure Inv (cfg : Config) (stream : Stream) (history : Published) (process : Option Process) :
    Prop where
  commit_le : stream.commitCursor ≤ stream.producerCursor
  frontier : stream.producerCursor.toNat ≤ history.frontier
  cuts : Boundaries stream history
  retained : FramesRetained cfg stream history
  alive : ∀ object, process = some object → PcInv cfg stream history object object.pc
  dead : process = none → history.reserved = none

/-! ## Stores beyond the commit cursor -/

section Walk

variable {cfg : Config} {before after : Stream} {history next : Published}
  {process : Option Process}

/-- The committed bytes that no `Reserve` has begun to overwrite stay as they are. -/
def Spares (cfg : Config) (commit frontier : Nat) (data data' : Nat → UInt8) : Prop :=
  ∀ position < commit, frontier ≤ position + cfg.capacity.toNat →
    byteAt cfg.capacity.toNat data' position = byteAt cfg.capacity.toNat data position

/-- A store between the commit cursor and the frontier spares the committed bytes. -/
theorem spares_storeBytes {commit frontier position : Nat} {data : Nat → UInt8}
    {values : List UInt8} (hlow : commit ≤ position)
    (hhigh : position + values.length ≤ frontier) :
    Spares cfg commit frontier data (storeBytes cfg.capacity.toNat data position values) := by
  intro target hbelow hretained
  exact byteAt_storeBytes_apart (Apart.of_window (by omega) (by omega))

/-- Retained frames survive stores that spare their bytes. -/
theorem FramesRetained.spared (h : FramesRetained cfg before history)
    (hcommit : after.commitCursor = before.commitCursor)
    (hcuts : ∀ cut ∈ history.cuts, cut ∈ next.cuts)
    (hlow : ∀ cut ∈ next.cuts, cut < before.commitCursor.toNat → cut ∈ history.cuts)
    (hframes : next.frames = history.frames) (hfrontier : history.frontier ≤ next.frontier)
    (hspares : Spares cfg before.commitCursor.toNat next.frontier before.data after.data) :
    FramesRetained cfg after next where
  stored start message hmem hretained := by
    rw [hframes] at hmem
    have hframe := h.stored start message hmem (by omega)
    have hbelow := hframe.below
    have hfits := hframe.admitted.payload_fits
    refine ⟨?_, hframe.admitted, hframe.size, by rw [hcommit]; exact hbelow,
      hcuts _ hframe.ends⟩
    exact hframe.stored.congr fun i hi => hspares _ (by omega) (by omega)
  starts cut hcut hbelow hretained := by
    rw [hcommit] at hbelow
    rw [hframes]
    exact h.starts cut (hlow cut hcut hbelow) hbelow (by omega)
  below := by
    rw [hcommit, hframes]
    exact h.below
  distinct := by
    rw [hframes]
    exact h.distinct

/-- A frame whose payload leaves room for the header is sized in 32 bits. -/
theorem requiredSpace_lt {length : UInt32} (h : length.toNat ≤ 2 ^ 32 - 32) :
    (requiredSpace length).toNat < 2 ^ 32 := by
  rw [requiredSpace_toNat, alignedPayloadSize_toNat (by omega)]
  unfold kFrameHeaderSize
  omega

/-- A walker at a published frame goes on at its end. -/
theorem FrameAt.walk {start : Nat} {message : SafeMessage}
    (h : FrameAt cfg before history.cuts start message) :
    (totalFrameSize (loadLength cfg.capacity before.data start)).toNat = frameBytes message := by
  have hlength := h.admitted.length_toNat
  have hsize := h.size
  rw [h.stored.header.length, totalFrameSize_toNat (requiredSpace_lt (by omega))]
  rfl

/-- A walk from a retained frame boundary meets retained frame boundaries up to the commit
cursor. -/
theorem Visits.cut (hinv : Inv cfg before history process) {start position : Nat}
    (hstart : start ∈ history.cuts) (hbelow : start ≤ before.commitCursor.toNat)
    (hretained : history.frontier ≤ start + cfg.capacity.toNat)
    (h : Visits cfg.capacity before.data before.commitCursor.toNat start position) :
    position ∈ history.cuts ∧ start ≤ position ∧ position ≤ before.commitCursor.toNat := by
  induction h with
  | start => exact ⟨hstart, Nat.le_refl _, hbelow⟩
  | @next position _ hlt ih =>
      obtain ⟨hcut, hle, -⟩ := ih
      obtain ⟨message, hmem⟩ := hinv.retained.starts position hcut hlt (by omega)
      have hframe := hinv.retained.stored position message hmem (by omega)
      rw [hframe.walk]
      exact ⟨hframe.ends, by omega, hframe.below⟩

/-- The invariant makes walks meet published frames only. -/
theorem Inv.committed {machine : Machine} (h : Inv cfg (stream machine.shared) history process) :
    Committed cfg (machine, history) := by
  intro start hstart hbelow (hretained : history.frontier ≤ _) position hvisits
  obtain ⟨hcut, hle, hlow⟩ := hvisits.cut h hstart hbelow hretained
  rcases Nat.eq_or_lt_of_le hlow with hlast | hlt
  · exact .inl hlast
  · obtain ⟨message, hmem⟩ := h.retained.starts position hcut hlt (by omega)
    have hframe := h.retained.stored position message hmem (by omega)
    exact .inr ⟨hlt, message, hmem, hframe.stored⟩

end Walk

/-! ## The accesses -/

section Accesses

variable {cfg : Config} {shared : Shared} {history : Published} {process : Process} {clock : Int}
  {tsc : UInt64} {result : Shared × Process}

/-- A step that leaves the stream only has to establish its program point. -/
theorem Inv.goto {before : Stream} {object : Option Process} (h : Inv cfg before history object)
    (hpc : PcInv cfg before history process process.pc) :
    Inv cfg before history (some process) where
  commit_le := h.commit_le
  frontier := h.frontier
  cuts := h.cuts
  retained := h.retained
  alive := by
    intro other hother
    obtain rfl := Option.some.inj hother
    exact hpc
  dead := by simp

/-- Inside a scan, and right after it, only the claim matters. -/
theorem pcInv_of_scanned {before : Stream} {pc : Pc} {claim : Claim}
    (h : pc.scannedClaim = some claim) :
    PcInv cfg before history process pc ↔ ClaimInv cfg before.producerCursor claim := by
  cases pc with
  | beginPass | loadActive | loadHeartbeat | evict | loadCursor | loadVersion =>
      obtain rfl := Option.some.inj h
      exact Iff.rfl
  | _ => simp [Pc.scannedClaim] at h

/-- A scan publishes nothing. -/
theorem publishedAfter_of_scan
    (h : process.scan cfg.capacity clock tsc shared process.pc = some result) :
    publishedAfter cfg shared history process.pc = history := by
  cases hat : process.pc with
  | storeVersion | storeProducerCursor | storeCommitCursor =>
      rw [hat] at h
      simp [Process.scan] at h
  | _ => rfl

/-- A scan leaves the stream. -/
theorem ScanStep.stream_eq (h : ScanStep shared process result) :
    stream result.1 = stream shared := by
  rcases h.roster with hsame | ⟨_, _, _, _, -, hclear⟩
  · rw [hsame]
  · rw [hclear]
    rfl

/-- The claim at a producer cursor that it does not overflow. -/
theorem claimAtCursor_target {payloadSize typeId : UInt32}
    (hcarry : shared.header.producerCursor.toNat + (requiredSpace payloadSize).toNat < 2 ^ 64) :
    (claimAtCursor shared payloadSize typeId).targetCursor.toNat =
      shared.header.producerCursor.toNat + (requiredSpace payloadSize).toNat := by
  rw [claimAtCursor, UInt64.toNat_add]
  exact Nat.mod_eq_of_lt hcarry

/-- The backpressure check leaves the stream, and ends in a claim. -/
theorem scan_inv (hinv : Inv cfg (stream shared) history (some process))
    (h : process.scan cfg.capacity clock tsc shared process.pc = some result) :
    Inv cfg (stream result.1) (publishedAfter cfg shared history process.pc) (some result.2) := by
  have hpc := hinv.alive process rfl
  have hscan := scan_cases h
  obtain ⟨claim, hnext, hbefore⟩ := hscan.claim
  have hclaim : ClaimInv cfg shared.header.producerCursor claim := by
    rcases hbefore with hsame | ⟨payloadSize, typeId, hat, rfl⟩
    · exact (pcInv_of_scanned hsame).mp hpc
    · rw [hat] at hpc
      obtain ⟨hspace, hsize, hcarry⟩ := hpc
      exact ⟨rfl, claimAtCursor_target hcarry, hspace, hsize⟩
  rw [hscan.stream_eq, publishedAfter_of_scan h]
  exact hinv.goto ((pcInv_of_scanned hnext).mpr hclaim)

/-- A store that spares the committed bytes has to establish its program point. -/
theorem Inv.store {before : Stream} (h : Inv cfg before history (some process))
    {data : Nat → UInt8} {frontier : Nat} {process' : Process}
    (hfrontier : history.frontier ≤ frontier)
    (hspares : Spares cfg before.commitCursor.toNat frontier before.data data)
    (hpc : PcInv cfg { before with data } { history with frontier } process' process'.pc) :
    Inv cfg { before with data } { history with frontier } (some process') where
  commit_le := h.commit_le
  frontier := Nat.le_trans h.frontier hfrontier
  cuts := ⟨h.cuts.le, h.cuts.last, h.cuts.reserved⟩
  retained := h.retained.spared rfl (fun _ h => h) (fun _ h _ => h) rfl hfrontier hspares
  alive := by
    intro other hother
    obtain rfl := Option.some.inj hother
    exact hpc
  dead := by simp

/-- The address of a claim is its position modulo the capacity. -/
theorem Claim.frame_eq (capacity : UInt64) (claim : Claim) :
    claim.frame capacity = claim.currentCursor.toNat % capacity.toNat :=
  frameAddress_eq capacity claim.currentCursor

/-- A field of a claimed header lies between the commit cursor and the end of the claim. -/
theorem ClaimInv.spares {before : Stream} {claim : Claim}
    (h : ClaimInv cfg before.producerCursor claim)
    (hcommit : before.commitCursor ≤ before.producerCursor) {frontier : Nat}
    (hfrontier : claim.targetCursor.toNat ≤ frontier) (offset : Nat) {width value : Nat}
    (hend : offset + width ≤ kFrameHeaderSize) :
    Spares cfg before.commitCursor.toNat frontier before.data
      (storeWord cfg.capacity.toNat before.data width (claim.currentCursor.toNat + offset)
        value) := by
  have htarget := h.target
  have hfits := header_fits claim.payloadSize
  have hle := UInt64.le_iff_toNat_le.mp hcommit
  refine spares_storeBytes ?_ ?_
  · rw [h.current]
    omega
  · rw [length_toLittleEndian, h.current]
    omega

/-- The end of a claim becomes the last frame boundary, and its start is the last one before. -/
theorem Boundaries.claim {before : Stream} {claim : Claim} {header : FrameHeader}
    {data : Nat → UInt8} (h : Boundaries before history)
    (hclaim : ClaimInv cfg before.producerCursor claim) :
    Boundaries ⟨claim.targetCursor, before.commitCursor, data⟩ { history with
      reserved := some (claim.currentCursor.toNat, header)
      cuts := claim.targetCursor.toNat :: history.cuts } where
  le := by
    have htarget := hclaim.target
    intro cut hcut
    rcases List.mem_cons.mp hcut with rfl | hold
    · exact Nat.le_refl _
    · have hle := h.le cut hold
      show cut ≤ claim.targetCursor.toNat
      omega
  last := List.mem_cons_self
  reserved := by
    intro reserved hreserved cut hcut
    obtain rfl := Option.some.inj hreserved
    rcases List.mem_cons.mp hcut with rfl | hold
    · exact .inr rfl
    · refine .inl ?_
      rw [hclaim.current]
      exact h.le cut hold

/-- A claim whose header is complete is reserved from the store of the producer cursor on. -/
theorem ClaimOpen.reserved {claim : Claim} {before : Stream}
    (h : ClaimOpen cfg before history process claim)
    (hcommit : before.commitCursor ≤ before.producerCursor)
    (hlength : loadLength cfg.capacity before.data claim.currentCursor.toNat = claim.payloadSize)
    (htype : loadType cfg.capacity before.data claim.currentCursor.toNat = claim.typeId) :
    Reserved cfg ⟨claim.targetCursor, before.commitCursor, before.data⟩
      (claim.reservation cfg.capacity) (claim.currentCursor.toNat,
        ⟨claim.payloadSize, claim.typeId,
          loadTimestamp cfg.capacity before.data claim.currentCursor.toNat⟩) := by
  obtain ⟨hcurrent, htarget, hspace, hsize⟩ := h.claimed
  refine ⟨hsize, hspace, ?_, ?_, rfl, UInt64.toNat_mod _ _, ⟨hlength, htype, rfl⟩⟩
  · rw [hcurrent]
    exact UInt64.le_iff_toNat_le.mp hcommit
  · rw [hcurrent]
    exact htarget.symm

/-- The store of the producer cursor claims the space of a frame whose header is complete. Its
version word is odd until `Commit`. -/
theorem Inv.claim {claim : Claim} (hinv : Inv cfg (stream shared) history (some process))
    (hopen : ClaimOpen cfg (stream shared) history process claim)
    (hlength : loadLength cfg.capacity shared.data claim.currentCursor.toNat = claim.payloadSize)
    (htype : loadType cfg.capacity shared.data claim.currentCursor.toNat = claim.typeId) :
    Inv cfg ⟨claim.targetCursor, shared.header.commitCursor, shared.data⟩
      (publishedAfter cfg shared history (.storeProducerCursor claim))
      (some { process with
        pc := .idle
        grant := some ⟨claim.frame cfg.capacity + kFrameHeaderSize, claim.payloadSize⟩ }) := by
  have htarget := hopen.claimed.target
  have hle := UInt64.le_iff_toNat_le.mp hinv.commit_le
  exact {
    commit_le := by
      rw [UInt64.le_iff_toNat_le]
      show shared.header.commitCursor.toNat ≤ claim.targetCursor.toNat
      exact Nat.le_trans hle (by rw [htarget]; exact Nat.le_add_right _ _)
    frontier := hopen.frontier
    cuts := hinv.cuts.claim hopen.claimed
    retained := by
      refine hinv.retained.spared rfl (fun _ h => List.mem_cons_of_mem _ h)
        (fun cut hcut hbelow => ?_) rfl (Nat.le_refl _) fun _ _ _ => rfl
      -- the new boundary is behind the commit cursor
      rcases List.mem_cons.mp hcut with rfl | hold
      · have hbelow : claim.targetCursor.toNat < shared.header.commitCursor.toNat := hbelow
        have htarget : claim.targetCursor.toNat = shared.header.producerCursor.toNat + _ := htarget
        have hle : shared.header.commitCursor.toNat ≤ shared.header.producerCursor.toNat := hle
        omega
      · exact hold
    alive := by
      intro other hother
      obtain rfl := Option.some.inj hother
      refine ⟨?_, ?_⟩
      · intro grant hgrant
        obtain rfl := Option.some.inj hgrant
        exact ⟨_, rfl, by rw [Claim.frame_eq]⟩
      · intro reserved hreserved
        obtain rfl := Option.some.inj hreserved
        exact ⟨hopen.odd, _, hopen.reservation,
          hopen.reserved hinv.commit_le hlength htype⟩
    dead := by simp }

/-- Writing a frame and claiming its space keeps the invariant. -/
theorem claim_inv (hinv : Inv cfg (stream shared) history (some process))
    (h : process.claim cfg.capacity clock shared process.pc = some result) :
    Inv cfg (stream result.1) (publishedAfter cfg shared history process.pc) (some result.2) := by
  have hpc := hinv.alive process rfl
  have hcap := cfg.header_le
  unfold Process.claim at h
  split at h
  · next claim hat =>
      rw [hat] at hpc ⊢
      obtain rfl := Option.some.inj h
      exact hinv.goto ⟨hpc, rfl⟩
  · next claim version hat =>
      rw [hat] at hpc ⊢
      obtain rfl := Option.some.inj h
      obtain ⟨hclaim, hreservation⟩ := hpc
      rw [Claim.frame_eq, storeVersion_mod]
      refine hinv.store (Nat.le_max_left _ _)
        (hclaim.spares hinv.commit_le (Nat.le_max_right _ _) 0 (by decide)) ?_
      exact ⟨hclaim, hreservation, Nat.le_max_right _ _, version,
        loadVersion_storeVersion hcap _⟩
  · next claim hat =>
      rw [hat] at hpc ⊢
      obtain rfl := Option.some.inj h
      rw [Claim.frame_eq, storeLength_mod]
      refine hinv.store (Nat.le_refl _)
        (hpc.claimed.spares hinv.commit_le hpc.frontier 4 (by decide)) ?_
      refine ⟨⟨hpc.claimed, hpc.reservation, hpc.frontier, ?_⟩, loadLength_storeLength hcap _⟩
      exact (loadVersion_storeLength hcap _).symm ▸ hpc.odd
  · next claim hat =>
      rw [hat] at hpc ⊢
      obtain rfl := Option.some.inj h
      obtain ⟨hopen, hlength⟩ := hpc
      rw [Claim.frame_eq, storeType_mod]
      refine hinv.store (Nat.le_refl _)
        (hopen.claimed.spares hinv.commit_le hopen.frontier 8 (by decide)) ?_
      refine ⟨⟨hopen.claimed, hopen.reservation, hopen.frontier, ?_⟩,
        (loadLength_storeType hcap _).trans hlength, loadType_storeType hcap _⟩
      exact (loadVersion_storeType hcap _).symm ▸ hopen.odd
  · next claim hat =>
      rw [hat] at hpc ⊢
      obtain rfl := Option.some.inj h
      obtain ⟨hopen, hlength, htype⟩ := hpc
      rw [Claim.frame_eq, storeTimestamp_mod]
      refine hinv.store (Nat.le_refl _)
        (hopen.claimed.spares hinv.commit_le hopen.frontier 16 (by decide)) ?_
      refine ⟨⟨hopen.claimed, hopen.reservation, hopen.frontier, ?_⟩,
        (loadLength_storeTimestamp hcap _).trans hlength,
        (loadType_storeTimestamp hcap _).trans htype⟩
      exact (loadVersion_storeTimestamp hcap _).symm ▸ hopen.odd
  · next claim hat =>
      rw [hat] at hpc ⊢
      obtain rfl := Option.some.inj h
      obtain ⟨hopen, hlength, htype⟩ := hpc
      exact hinv.claim hopen hlength htype
  · simp at h

/-- The frame that a `Commit` publishes is stored and ends at the new commit cursor. -/
theorem Closing.frame_at {before : Stream} {reservation : Reservation}
    {reserved : Nat × FrameHeader} (h : Closing cfg before history reservation reserved)
    (hcuts : Boundaries before history)
    (heven : loadVersion cfg.capacity before.data reserved.1 &&& 1 = 0) :
    FrameAt cfg { before with commitCursor := reservation.claimedCursor } history.cuts reserved.1
      (publishedFrame cfg.capacity before.data reserved).2 := by
  obtain ⟨-, ⟨hsize, hspace, hstart, hends, hclaimed, -, hheader⟩, -⟩ := h
  have hlength : (publishedFrame cfg.capacity before.data reserved).2.header = reserved.2 := by
    simp [publishedFrame, SafeMessage.header, loadPayload]
  have hpayload : (publishedFrame cfg.capacity before.data reserved).2.payload.length =
      reserved.2.length.toNat := by
    simp [publishedFrame, loadPayload]
  have hend : reserved.1 + frameBytes (publishedFrame cfg.capacity before.data reserved).2 =
      reservation.claimedCursor.toNat := by
    rw [frameBytes, hlength, hclaimed]
    exact hends
  refine ⟨⟨heven, by rw [hlength]; exact hheader, by rw [hpayload]; rfl⟩, ⟨?_, ?_⟩, ?_, ?_, ?_⟩
  · rw [hpayload]
    omega
  · rw [frameBytes, hlength]
    exact hspace
  · rw [hpayload]
    exact hsize
  · exact Nat.le_of_eq hend
  · rw [hend, hclaimed]
    exact hcuts.last

/-- Retained frames together with the frame that a `Commit` publishes. -/
theorem FramesRetained.publish {before : Stream} (h : FramesRetained cfg before history)
    {reservation : Reservation} {reserved : Nat × FrameHeader}
    (hclosing : Closing cfg before history reservation reserved)
    (hcuts : Boundaries before history)
    (heven : loadVersion cfg.capacity before.data reserved.1 &&& 1 = 0) :
    FramesRetained cfg { before with commitCursor := reservation.claimedCursor }
      { history with
        reserved := none
        frames := publishedFrame cfg.capacity before.data reserved :: history.frames } := by
  have hends := hclosing.held.ends
  have hstart := hclosing.held.start
  have hfits := header_fits reserved.2.length
  have hclaimed : reserved.1 < reservation.claimedCursor.toNat := by
    rw [hclosing.held.claimed]
    unfold kFrameHeaderSize at hfits
    omega
  constructor
  · intro start message hmem hretained
    rcases List.mem_cons.mp hmem with hnew | hold
    · obtain ⟨rfl, rfl⟩ := Prod.mk.inj hnew
      exact hclosing.frame_at hcuts heven
    · have hframe := h.stored start message hold hretained
      have hbelow := hframe.below
      refine ⟨hframe.stored, hframe.admitted, hframe.size, ?_, hframe.ends⟩
      show _ ≤ reservation.claimedCursor.toNat
      omega
  · intro cut hcut hbelow hretained
    have hbelow : cut < reservation.claimedCursor.toNat := hbelow
    rw [hclosing.held.claimed] at hbelow
    rcases Nat.lt_or_ge cut before.commitCursor.toNat with hlow | hhigh
    · obtain ⟨message, hmem⟩ := h.starts cut hcut hlow hretained
      exact ⟨message, List.mem_cons_of_mem _ hmem⟩
    · rcases hcuts.reserved reserved hclosing.found cut hcut with hle | hlast
      · -- a retained boundary behind the commit cursor is the start of the reservation
        rcases Nat.eq_or_lt_of_le hle with rfl | hlt
        · exact ⟨_, List.mem_cons_self⟩
        · have hlost := hclosing.next cut hcut hhigh hlt
          have hretained : history.frontier ≤ cut + cfg.capacity.toNat := hretained
          omega
      · omega
  · intro start message hmem
    rcases List.mem_cons.mp hmem with hnew | hold
    · obtain ⟨rfl, -⟩ := Prod.mk.inj hnew
      exact hclaimed
    · have hbelow := h.below start message hold
      show start < reservation.claimedCursor.toNat
      omega
  · intro start message other hmessage hother
    rcases List.mem_cons.mp hmessage with hnew | hold
    · rcases List.mem_cons.mp hother with hnew' | hold'
      · exact (Prod.mk.inj (hnew.trans hnew'.symm)).2
      · obtain ⟨rfl, -⟩ := Prod.mk.inj hnew
        have hbelow := h.below _ other hold'
        omega
    · rcases List.mem_cons.mp hother with hnew' | hold'
      · obtain ⟨rfl, -⟩ := Prod.mk.inj hnew'
        have hbelow := h.below _ message hold
        omega
      · exact h.distinct start message other hold hold'

/-- A version store to the open frame. -/
theorem Reserved.storeVersion {before : Stream} {reservation : Reservation}
    {reserved : Nat × FrameHeader} (h : Reserved cfg before reservation reserved)
    (version : UInt32) :
    Reserved cfg { before with
      data := storeVersion cfg.capacity before.data reserved.1 version } reservation reserved := by
  have hcap := cfg.page_le
  refine ⟨h.size, h.space, h.start, h.ends, h.claimed, h.offset, h.header.congr ?_⟩
  intro i hlow hhigh
  exact byteAt_storeVersion hlow (by unfold kFrameHeaderSize at hhigh; omega)

/-- Closing a reservation keeps the invariant. -/
theorem commit_inv (hinv : Inv cfg (stream shared) history (some process))
    (h : process.commit cfg.capacity shared process.pc = some result) :
    Inv cfg (stream result.1) (publishedAfter cfg shared history process.pc) (some result.2) := by
  have hpc := hinv.alive process rfl
  have hcap := cfg.header_le
  unfold Process.commit at h
  split at h
  · next reservation hat =>
      rw [hat] at hpc ⊢
      obtain rfl := Option.some.inj h
      obtain ⟨reserved, hclosing, version, hversion⟩ := hpc
      refine hinv.goto ⟨reserved, hclosing, version, ?_⟩
      rw [hclosing.held.offset, loadVersion_mod]
      exact hversion
  · next reservation version hat =>
      rw [hat] at hpc ⊢
      obtain rfl := Option.some.inj h
      obtain ⟨reserved, hclosing, odd, rfl⟩ := hpc
      have hheld := hclosing.held
      have hstart := hheld.start
      have hends := hheld.ends
      have hfits := header_fits reserved.2.length
      have hfrontier := hinv.frontier
      rw [hheld.offset, storeVersion_mod]
      refine hinv.store (Nat.le_refl _) (spares_storeBytes hstart ?_)
        ⟨reserved, ⟨hclosing.found, hheld.storeVersion _, hclosing.next⟩, ?_⟩
      · rw [length_toLittleEndian]
        unfold kFrameHeaderSize at hfits
        omega
      · show loadVersion cfg.capacity (storeVersion _ _ _ _) _ &&& 1 = 0
        rw [loadVersion_storeVersion hcap, version_even]
  · next reservation hat =>
      rw [hat] at hpc ⊢
      obtain rfl := Option.some.inj h
      obtain ⟨reserved, hclosing, heven⟩ := hpc
      have hclaimed := hclosing.held.claimed
      have hframes : publishedAfter cfg shared history (.storeCommitCursor reservation) =
          { history with
            reserved := none
            frames := publishedFrame cfg.capacity shared.data reserved :: history.frames } := by
        simp [publishedAfter, hclosing.found]
      rw [hframes]
      exact {
        commit_le := by
          show reservation.claimedCursor ≤ shared.header.producerCursor
          rw [hclaimed]
          exact UInt64.le_refl _
        frontier := hinv.frontier
        cuts := ⟨hinv.cuts.le, hinv.cuts.last, nofun⟩
        retained := hinv.retained.publish hclosing hinv.cuts heven
        alive := by
          intro other hother
          obtain rfl := Option.some.inj hother
          exact ⟨by simp, by simp⟩
        dead := by simp }
  · simp at h

/-- Writing the payload below the caller's pointer keeps the invariant. -/
theorem write_inv (hinv : Inv cfg (stream shared) history (some process)) {offset : Nat}
    {bytes : List UInt8} {shared' : Shared}
    (h : process.write cfg.capacity shared offset bytes = some shared') :
    Inv cfg (stream shared') history (some process) := by
  have hpc := hinv.alive process rfl
  unfold Process.write at h
  split at h
  · next grant hat hgrant =>
      rw [hat] at hpc
      split at h
      · next hfits =>
          obtain rfl := Option.some.inj h
          obtain ⟨reserved, hreserved, rfl⟩ := hpc.grant grant hgrant
          obtain ⟨⟨version, hodd⟩, reservation, hreservation, hheld⟩ := hpc.reserved _ hreserved
          have hsize := hheld.size
          have hspace := hheld.space
          have hstart := hheld.start
          have hends := hheld.ends
          have hroom : kFrameHeaderSize + reserved.2.length.toNat ≤
              (requiredSpace reserved.2.length).toNat := payload_fits (by omega)
          have hfrontier := hinv.frontier
          simp only at hfits
          rw [Nat.add_assoc, storeBytes_mod_add]
          have hkeep : ∀ i < kFrameHeaderSize,
              byteAt cfg.capacity.toNat (storeBytes cfg.capacity.toNat shared.data
                (reserved.1 + (kFrameHeaderSize + offset)) bytes) (reserved.1 + i) =
              byteAt cfg.capacity.toNat shared.data (reserved.1 + i) := by
            intro i hi
            exact byteAt_storeBytes_apart (Apart.of_window (by omega) (by omega))
          refine hinv.store (Nat.le_refl _) (spares_storeBytes ?_ ?_) ?_
          · show shared.header.commitCursor.toNat ≤ _
            exact Nat.le_trans hstart (Nat.le_add_right _ _)
          · omega
          · rw [hat]
            refine ⟨hpc.grant, fun other hother => ?_⟩
            obtain rfl := Option.some.inj (hreserved.symm.trans hother)
            refine ⟨⟨version, Eq.trans ?_ hodd⟩, reservation, hreservation, hsize, hspace, hstart,
              hends, hheld.claimed, hheld.offset, hheld.header.congr fun i _ hi => hkeep i hi⟩
            exact congrArg UInt32.ofNat (loadWord_congr (loadBytes_congr fun i hi =>
              hkeep i (by unfold kFrameHeaderSize; omega)))
      · simp at h
  · simp at h

end Accesses

/-! ## The system -/

section Steps

variable {cfg : Config} {machine next : Machine} {history : Published} {event : Event}

/-- Every access keeps the invariant. -/
theorem access_inv {shared : Shared} {process : Process} {clock : Int} {tsc : UInt64}
    {result : Shared × Process} (hinv : Inv cfg (stream shared) history (some process))
    (h : process.access cfg.capacity clock tsc shared = some result) :
    Inv cfg (stream result.1) (publishedAfter cfg shared history process.pc) (some result.2) := by
  unfold Process.access at h
  rcases Option.or_eq_some_iff.mp h with hscan | ⟨-, hrest⟩
  · exact scan_inv hinv hscan
  · rcases Option.or_eq_some_iff.mp hrest with hclaim | ⟨-, hcommit⟩
    · exact claim_inv hinv hclaim
    · exact commit_inv hinv hcommit

/-- A call of `Reserve` that is accepted has sizes that fit. -/
theorem reserve_inv {shared : Shared} {process : Process} {payloadSize typeId : UInt32}
    (hinv : Inv cfg (stream shared) history (some process))
    (hfits : SizesFit cfg shared payloadSize) :
    Inv cfg (stream shared) history (some (process.reserve cfg payloadSize typeId)) := by
  unfold Process.reserve
  split
  · exact hinv
  · next haccepted =>
      have hspace := requiredSpace_le_of_accepted haccepted
      obtain ⟨hsize, hcarry⟩ := hfits hspace
      exact hinv.goto ⟨hspace, hsize, hcarry⟩

/-- A call of `Commit` that closes the open reservation. -/
theorem begin_commit_inv {process : Process} {reservation : Reservation}
    (hinv : Inv cfg (stream machine.shared) history (some process)) (hidle : process.pc = .idle)
    (hreservation : process.currentReservation = some reservation)
    (hcloses : ClosesReservation cfg (machine, history)) :
    Inv cfg (stream machine.shared) history
      (some (process.goto (.loadCommitVersion reservation))) := by
  have hpc := hinv.alive process rfl
  rw [hidle] at hpc
  obtain ⟨reserved, hreserved, hnext⟩ := hcloses
  obtain ⟨hodd, other, hother, hheld⟩ := hpc.reserved reserved hreserved
  obtain rfl := Option.some.inj (hreservation.symm.trans hother)
  exact hinv.goto ⟨reserved, ⟨hreserved, hheld, hnext⟩, hodd⟩

/-- One step keeps the invariant. -/
theorem step_inv (hinv : Inv cfg (stream machine.shared) history machine.process)
    (hallow : Closes cfg (machine, history) event) (h : step cfg machine event = some next) :
    Inv cfg (stream next.shared) ((publication cfg).observe machine event next history)
      next.process := by
  cases step_cases h with
  | reserve payloadSize typeId hprocess hidle =>
      exact reserve_inv (hprocess ▸ hinv) hallow
  | commit hprocess hidle hreservation =>
      exact begin_commit_inv (hprocess ▸ hinv) hidle hreservation hallow
  | access tsc hprocess haccess =>
      simp only [publication, hprocess]
      exact access_inv (hprocess ▸ hinv) haccess
  | write offset bytes hprocess hwrite =>
      simp only [publication, hprocess]
      exact write_inv (hprocess ▸ hinv) hwrite
  | crash =>
      exact {
        commit_le := hinv.commit_le
        frontier := hinv.frontier
        cuts := ⟨hinv.cuts.le, hinv.cuts.last, nofun⟩
        retained := hinv.retained.spared rfl (fun _ h => h) (fun _ h _ => h) rfl (Nat.le_refl _)
          fun _ _ _ => rfl
        alive := by simp
        dead := fun _ => rfl }
  | attach name hdead =>
      refine hinv.goto ⟨by simp, fun reserved hfound => ?_⟩
      simp [hinv.dead hdead] at hfound
  | refuse => exact hinv
  | consumer => exact hinv
  | tick => exact hinv

/-- A new buffer meets the invariant. -/
theorem created_inv (cfg : Config) (clock : Int) :
    Inv cfg (stream (created cfg clock).shared) {} (created cfg clock).process where
  commit_le := UInt64.le_refl _
  frontier := Nat.le_refl _
  cuts := by
    refine ⟨fun cut hcut => ?_, List.mem_singleton_self 0, by simp⟩
    obtain rfl : cut = 0 := List.mem_singleton.mp hcut
    exact Nat.zero_le _
  retained := by
    refine ⟨by simp, fun cut hcut hbelow _ => ?_, by simp, by simp⟩
    obtain rfl : cut = 0 := List.mem_singleton.mp hcut
    exact absurd hbelow (Nat.lt_irrefl 0)
  alive := by
    intro process hprocess
    obtain rfl := Option.some.inj hprocess
    exact ⟨by simp, by simp⟩
  dead := fun _ => rfl

end Steps

end HotPath.SharedMemory.Access
