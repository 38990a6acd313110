import HotPath.SharedMemory.Overtaking
import HotPath.SharedMemory.ZeroCopySteps

/-!
# Zero-copy reports that race with the producer

A successful `PollZeroCopy` reports the header of the frame that was published at its cursor
(`ReportsFrame`), and the size of its span with it. The only protection of the fields is the
comparison of `producer_cursor` with the reader's cursor, and `Reserve` stores its header before
it moves `producer_cursor`. So the fields of a new frame can be in place of the old ones when the
comparison still passes (`header_replaced`), and they can also come between the comparison and the
loads.

`reports_kept_frame` shows that nothing else goes wrong: a call reports its frame unless a `Reserve`
begins to store over it between the comparison and the last load, or has begun to before the
comparison without having moved `producer_cursor`.
-/

namespace HotPath.SharedMemory.Access

open HotPath.Foundation

/-! ## What is recorded -/

/-- What has been published and whether the poll has been overtaken, and the stream position of
`current_reservation_`. -/
structure Imprint where
  watched : Watched := {}
  position : Nat := 0

/-- The position of `current_reservation_` after a step. -/
def positionAfter (machine : Machine) (event : Event) (position : Nat) : Nat :=
  match event, machine.process.map Process.pc with
  | .access _, some (.loadVersion claim) => claim.currentCursor.toNat
  | _, _ => position

/-- The recorder next to a polling consumer. -/
def viewImprint (cfg : Config) : Recorder Viewing ViewEvent Imprint where
  start _ := {}
  observe viewing event next history :=
    match event, viewing.view.pc with
    | .producer event, _ =>
        { watched := history.watched.produce cfg viewing.machine next.machine event
            viewing.view.current.toNat
          position := positionAfter viewing.machine event history.position }
    | .load, .loadProducer =>
        { history with watched :=
            history.watched.check cfg viewing.machine.shared viewing.view.current.toNat }
    | _, _ => history

/-! ## What a call reports -/

/-- The call has reported the header of the one frame that was published at its cursor, and a span
over its payload. -/
def ReportedFrame (cfg : Config) (view : View) (span : Span) (history : Published) : Prop :=
  ∃ message, (∀ other, (view.current.toNat, other) ∈ history.frames ↔ other = message) ∧
    view.headerOut = message.header ∧
    span = ⟨frameAddress cfg.capacity view.current + kFrameHeaderSize,
      message.header.length.toNat⟩

/-- In every run whose steps meet `allow`, a call that returns `Ok` has reported its frame. -/
def ReportsFrame (cfg : Config) (allow : Viewing × Imprint → ViewEvent → Prop) : Prop :=
  ∀ pair, ((viewing cfg).withHistory (viewImprint cfg)).Reachable allow pair →
    ∀ span, pair.1.view.pc = .returned (.ok span) →
      ReportedFrame cfg pair.1.view span pair.2.watched.published

/-- The claim whose header the next access stores to. -/
def headerStore : Pc → Option Claim
  | .storeVersion claim _ | .storeLength claim | .storeType claim | .storeTimestamp claim =>
      some claim
  | _ => none

/-- Where the next access of the producer stores to a header, the claim is at `good`. -/
def HeaderStoresAt (good : UInt64 → Claim → Prop) (machine : Machine) : Prop :=
  ∀ process claim, machine.process = some process → headerStore process.pc = some claim →
    good machine.shared.header.producerCursor claim

/-- In every run whose steps meet `allow`, `Reserve` stores its header below `producer_cursor`. -/
def StoresBelowCursor (cfg : Config) (allow : Viewing × Imprint → ViewEvent → Prop) : Prop :=
  ∀ pair, ((viewing cfg).withHistory (viewImprint cfg)).Reachable allow pair →
    HeaderStoresAt (fun cursor claim => claim.currentCursor.toNat + kFrameHeaderSize ≤ cursor.toNat)
      pair.1.machine

/-- In every run whose steps meet `allow`, `Reserve` stores its header from `producer_cursor`
on. -/
def StoresFromCursor (cfg : Config) (allow : Viewing × Imprint → ViewEvent → Prop) : Prop :=
  ∀ pair, ((viewing cfg).withHistory (viewImprint cfg)).Reachable allow pair →
    HeaderStoresAt (fun cursor claim => claim.currentCursor = cursor) pair.1.machine

/-- The calls of the producer whose sizes and cursors fit. -/
def CallsFit (cfg : Config) (shared : Shared) : Event → Prop
  | .reserve payloadSize _ => SizesFit cfg shared payloadSize
  | _ => True

/-- A reader that finds itself below the commit cursor stands at a published frame. -/
def StandsAtFrame (pair : Viewing × Imprint) : Prop :=
  pair.1.view.pc = .loadCommit →
    pair.1.view.current < pair.1.machine.shared.header.commitCursor →
    ∃ message, (pair.1.view.current.toNat, message) ∈ pair.2.watched.published.frames

/-- Sizes fit, the reader stands at a frame, and by the last load of a call the producer has not
overtaken it since its lap check. -/
def NotOvertaken (cfg : Config) (pair : Viewing × Imprint) : ViewEvent → Prop
  | .producer event => CallsFit cfg pair.1.machine.shared event
  | .pollZeroCopy _ => True
  | .load => StandsAtFrame pair ∧
      (pair.1.view.pc = .loadSpanLength → pair.2.watched.overtaken = false)

/-! ## The invariant -/

/-- Unless a `Reserve` has begun to store in its place, the header at a position is stored. -/
def HeaderKept (cfg : Config) (stream : Stream) (history : Published) (position : Nat)
    (header : FrameHeader) : Prop :=
  history.frontier ≤ position + cfg.capacity.toNat →
    HeaderStored cfg.capacity stream.data position header

/-- What is kept of a published frame. Its header ends before the producer cursor, and before the
current reservation unless that is its own. -/
structure FrameKept (cfg : Config) (stream : Stream) (history : Published) (position start : Nat)
    (message : SafeMessage) : Prop where
  header : HeaderKept cfg stream history start message.header
  below : start + kFrameHeaderSize ≤ stream.producerCursor.toNat
  before : start = position ∨ start + kFrameHeaderSize ≤ position

/-- The open reservation is the current one, and its header follows those of all frames. -/
structure OpenKept (cfg : Config) (stream : Stream) (history : Published) (position : Nat)
    (reserved : Nat × FrameHeader) : Prop where
  current : reserved.1 = position
  header : HeaderKept cfg stream history reserved.1 reserved.2
  below : reserved.1 + kFrameHeaderSize ≤ stream.producerCursor.toNat
  last : ∀ start message, (start, message) ∈ history.frames →
    start + kFrameHeaderSize ≤ reserved.1

/-- A process refers to the recorded position, whose header it has begun to store. -/
structure RefersTo (cfg : Config) (history : Published) (position : Nat)
    (reservation : Reservation) : Prop where
  offset : reservation.startOffset.toNat = position % cfg.capacity.toNat
  begun : position + kFrameHeaderSize ≤ history.frontier

/-- Outside of a `Reserve` the process refers to the recorded position. -/
structure Settled (cfg : Config) (stream : Stream) (history : Published) (position : Nat)
    (process : Process) : Prop where
  reservation : ∀ reservation, process.currentReservation = some reservation →
    RefersTo cfg history position reservation
  reserved : ∀ reserved, history.reserved = some reserved →
    OpenKept cfg stream history position reserved

/-- The caller's pointer is that of the payload at the recorded position. -/
structure Granted (cfg : Config) (history : Published) (position : Nat) (grant : Grant) :
    Prop where
  address : grant.address = position % cfg.capacity.toNat + kFrameHeaderSize
  fits : position + kFrameHeaderSize + grant.payloadSize.toNat ≤ history.frontier

/-- A claim that has become the current reservation. -/
structure ClaimHeld (cfg : Config) (stream : Stream) (position : Nat) (process : Process)
    (claim : Claim) : Prop where
  claimed : ClaimInv cfg stream.producerCursor claim
  position : position = claim.currentCursor.toNat
  reservation : process.currentReservation = some (claim.reservation cfg.capacity)

/-- A claim that `Reserve` has begun to store. -/
structure ClaimBegun (cfg : Config) (stream : Stream) (history : Published) (position : Nat)
    (process : Process) (claim : Claim) : Prop extends
    ClaimHeld cfg stream position process claim where
  frontier : claim.targetCursor.toNat ≤ history.frontier

/-- What holds at each program point. -/
def ImprintAt (cfg : Config) (stream : Stream) (history : Published) (position : Nat)
    (process : Process) : Pc → Prop
  | .idle => Settled cfg stream history position process ∧
      ∀ grant, process.grant = some grant → Granted cfg history position grant
  | .loadProducerCursor payloadSize _ =>
      (requiredSpace payloadSize).toNat ≤ cfg.capacity.toNat ∧ payloadSize.toNat ≤ 2 ^ 32 - 32 ∧
        stream.producerCursor.toNat + (requiredSpace payloadSize).toNat < 2 ^ 64
  | .beginPass pending | .loadActive pending _ _ | .loadHeartbeat pending _ _ _ |
    .evict pending _ _ _ | .loadCursor pending _ _ _ =>
      ClaimInv cfg stream.producerCursor (.ofPending pending)
  | .loadVersion claim => ClaimInv cfg stream.producerCursor claim
  | .storeVersion claim _ => ClaimHeld cfg stream position process claim
  | .storeLength claim => ClaimBegun cfg stream history position process claim
  | .storeType claim => ClaimBegun cfg stream history position process claim ∧
      loadLength cfg.capacity stream.data claim.currentCursor.toNat = claim.payloadSize
  | .storeTimestamp claim | .storeProducerCursor claim =>
      ClaimBegun cfg stream history position process claim ∧
      loadLength cfg.capacity stream.data claim.currentCursor.toNat = claim.payloadSize ∧
      loadType cfg.capacity stream.data claim.currentCursor.toNat = claim.typeId
  | .loadCommitVersion reservation | .storeCommitVersion reservation _ |
    .storeCommitCursor reservation => Settled cfg stream history position process ∧
      RefersTo cfg history position reservation

/-- The invariant of the published headers. -/
structure Imprinted (cfg : Config) (stream : Stream) (history : Published) (position : Nat)
    (process : Option Process) : Prop where
  frames : ∀ start message, (start, message) ∈ history.frames →
    FrameKept cfg stream history position start message
  distinct : ∀ start message other, (start, message) ∈ history.frames →
    (start, other) ∈ history.frames → message = other
  alive : ∀ object, process = some object →
    ImprintAt cfg stream history position object object.pc
  dead : process = none → history.reserved = none

/-! ## Stores -/

section Stores

variable {cfg : Config} {before : Stream} {history later : Published} {position : Nat}
  {header : FrameHeader} {process next : Process} {object : Option Process}

/-- Where a store of some bytes may begin without touching the fields of a header: at its version
word, or after it. -/
def SkipsFields (position target count : Nat) : Prop :=
  target = position ∧ count ≤ 4 ∨ position + kFrameHeaderSize ≤ target

/-- A store that skips the fields of a header keeps it. -/
theorem HeaderKept.store {target : Nat} (values : List UInt8)
    (h : HeaderKept cfg before history position header)
    (hfrontier : history.frontier ≤ later.frontier)
    (hfits : target + values.length ≤ later.frontier)
    (htarget : SkipsFields position target values.length) :
    HeaderKept cfg { before with
      data := storeBytes cfg.capacity.toNat before.data target values } later position header := by
  have hpage := cfg.page_le
  intro hretained
  refine (h (Nat.le_trans hfrontier hretained)).congr fun i hlow hhigh => ?_
  rcases htarget with ⟨rfl, hcount⟩ | hafter
  · unfold kFrameHeaderSize at hhigh
    exact byteAt_storeBytes_apart (Apart.of_window (by omega) (by omega)).symm
  · exact byteAt_storeBytes_apart (Apart.of_window (by omega) (by omega))

/-- A step that leaves the stream only has to establish its program point. -/
theorem Imprinted.goto (h : Imprinted cfg before history position object)
    (hpc : ImprintAt cfg before history position next next.pc) :
    Imprinted cfg before history position (some next) where
  frames := h.frames
  distinct := h.distinct
  alive := by
    intro other hother
    obtain rfl := Option.some.inj hother
    exact hpc
  dead := by simp

/-- A store that skips the fields of all published headers has to establish its program point. -/
theorem Imprinted.store {target : Nat} (values : List UInt8)
    (h : Imprinted cfg before history position object)
    (hframes : later.frames = history.frames) (hfrontier : history.frontier ≤ later.frontier)
    (hfits : target + values.length ≤ later.frontier)
    (htarget : ∀ start message, (start, message) ∈ history.frames →
      SkipsFields start target values.length)
    (hpc : ImprintAt cfg { before with
      data := storeBytes cfg.capacity.toNat before.data target values } later position next
        next.pc) :
    Imprinted cfg { before with
      data := storeBytes cfg.capacity.toNat before.data target values } later position
        (some next) where
  frames := by
    rw [hframes]
    intro start message hmem
    have hframe := h.frames start message hmem
    exact ⟨hframe.header.store values hfrontier hfits (htarget start message hmem), hframe.below,
      hframe.before⟩
  distinct := by
    rw [hframes]
    exact h.distinct
  alive := by
    intro other hother
    obtain rfl := Option.some.inj hother
    exact hpc
  dead := by simp

/-- Headers end before the producer cursor, so a store to a claimed header skips them. -/
theorem Imprinted.storeClaim {claim : Claim} (offset : Nat) {width value : Nat}
    (h : Imprinted cfg before history position object)
    (hclaim : ClaimInv cfg before.producerCursor claim)
    (hend : offset + width ≤ kFrameHeaderSize)
    (hframes : later.frames = history.frames) (hfrontier : history.frontier ≤ later.frontier)
    (hbegun : claim.targetCursor.toNat ≤ later.frontier)
    (hpc : ImprintAt cfg { before with
      data := storeWord cfg.capacity.toNat before.data width (claim.currentCursor.toNat + offset)
        value } later position next next.pc) :
    Imprinted cfg { before with
      data := storeWord cfg.capacity.toNat before.data width (claim.currentCursor.toNat + offset)
        value } later position (some next) := by
  have htarget := hclaim.target
  have hfits := header_fits claim.payloadSize
  refine h.store (toLittleEndian width value) hframes hfrontier ?_ (fun start message hmem => ?_)
    hpc
  · rw [length_toLittleEndian, hclaim.current]
    omega
  · have hbelow := (h.frames start message hmem).below
    refine .inr ?_
    rw [hclaim.current]
    omega

/-- A store that begins at the current reservation, or after its header, keeps the place that an
idle process refers to. -/
theorem Settled.store {target : Nat} (values : List UInt8)
    (h : Settled cfg before history position process)
    (hfits : target + values.length ≤ history.frontier)
    (htarget : SkipsFields position target values.length) :
    Settled cfg { before with
      data := storeBytes cfg.capacity.toNat before.data target values } history position
        process where
  reservation := h.reservation
  reserved := by
    intro reserved hreserved
    have hopen := h.reserved reserved hreserved
    refine ⟨hopen.current, ?_, hopen.below, hopen.last⟩
    exact hopen.header.store values (Nat.le_refl _) hfits (by rw [hopen.current]; exact htarget)

/-- A store that skips the fields at the current reservation skips those of published headers. -/
theorem Imprinted.skips {target count : Nat} (h : Imprinted cfg before history position object)
    (htarget : SkipsFields position target count) (start : Nat) (message : SafeMessage)
    (hmem : (start, message) ∈ history.frames) : SkipsFields start target count := by
  have hbefore := (h.frames start message hmem).before
  unfold SkipsFields at htarget ⊢
  omega

end Stores

/-! ## The accesses -/

section Accesses

variable {cfg : Config} {shared : Shared} {history : Published} {position : Nat}
  {process : Process} {clock : Int} {tsc : UInt64} {result : Shared × Process}

/-- The current reservation after an access from the given program point. -/
def Pc.holds (position : Nat) : Pc → Nat
  | .loadVersion claim => claim.currentCursor.toNat
  | _ => position

/-- Inside a scan, and right after it, only the claim matters. -/
theorem imprintAt_of_scanned {before : Stream} {pc : Pc} {claim : Claim}
    (h : pc.scannedClaim = some claim) :
    ImprintAt cfg before history position process pc ↔
      ClaimInv cfg before.producerCursor claim := by
  cases pc with
  | beginPass | loadActive | loadHeartbeat | evict | loadCursor | loadVersion =>
      obtain rfl := Option.some.inj h
      exact Iff.rfl
  | _ => simp [Pc.scannedClaim] at h

/-- A scan leaves the current reservation. -/
theorem holds_of_scan
    (h : process.scan cfg.capacity clock tsc shared process.pc = some result) :
    process.pc.holds position = position := by
  cases hat : process.pc with
  | loadVersion =>
      rw [hat] at h
      simp [Process.scan] at h
  | _ => rfl

/-- The backpressure check leaves the stream, and ends in a claim. -/
theorem scan_imprint (hinv : Imprinted cfg (stream shared) history position (some process))
    (h : process.scan cfg.capacity clock tsc shared process.pc = some result) :
    Imprinted cfg (stream result.1) (publishedAfter cfg shared history process.pc)
      (process.pc.holds position) (some result.2) := by
  have hpc := hinv.alive process rfl
  have hscan := scan_cases h
  obtain ⟨claim, hnext, hbefore⟩ := hscan.claim
  have hclaim : ClaimInv cfg shared.header.producerCursor claim := by
    rcases hbefore with hsame | ⟨payloadSize, typeId, hat, rfl⟩
    · exact (imprintAt_of_scanned hsame).mp hpc
    · rw [hat] at hpc
      obtain ⟨hspace, hsize, hcarry⟩ := hpc
      exact ⟨rfl, claimAtCursor_target hcarry, hspace, hsize⟩
  rw [hscan.stream_eq, publishedAfter_of_scan h, holds_of_scan h]
  exact hinv.goto ((imprintAt_of_scanned hnext).mpr hclaim)

/-- The claim becomes the current reservation. -/
theorem hold_imprint {claim : Claim} {version : UInt32} {before : Stream}
    (hinv : Imprinted cfg before history position (some process))
    (hclaim : ClaimInv cfg before.producerCursor claim) :
    Imprinted cfg before history claim.currentCursor.toNat (some { process with
      currentReservation := some (claim.reservation cfg.capacity)
      pc := .storeVersion claim version }) where
  frames := by
    intro start message hmem
    have hframe := hinv.frames start message hmem
    refine ⟨hframe.header, hframe.below, .inr ?_⟩
    rw [hclaim.current]
    exact hframe.below
  distinct := hinv.distinct
  alive := by
    intro other hother
    obtain rfl := Option.some.inj hother
    exact ⟨hclaim, rfl, rfl⟩
  dead := by simp

/-- `Reserve` returns with its header stored and the producer cursor behind it. -/
theorem return_imprint {claim : Claim}
    (hinv : Imprinted cfg (stream shared) history position (some process))
    (hat : process.pc = .storeProducerCursor claim)
    (h : process.claim cfg.capacity clock shared process.pc = some result) :
    Imprinted cfg (stream result.1) (publishedAfter cfg shared history process.pc)
      (process.pc.holds position) (some result.2) := by
  have hpc := hinv.alive process rfl
  rw [hat] at hpc h ⊢
  obtain rfl := Option.some.inj h
  obtain ⟨hbegun, hlength, htype⟩ := hpc
  have hcurrent : claim.currentCursor.toNat = shared.header.producerCursor.toNat :=
    congrArg UInt64.toNat hbegun.claimed.current
  have htarget : claim.targetCursor.toNat =
      shared.header.producerCursor.toNat + (requiredSpace claim.payloadSize).toNat :=
    hbegun.claimed.target
  have hfrontier := hbegun.frontier
  have hposition := hbegun.position
  have hsize := hbegun.claimed.size
  have hheader := header_fits claim.payloadSize
  have hpayload : kFrameHeaderSize + claim.payloadSize.toNat ≤
      (requiredSpace claim.payloadSize).toNat := payload_fits (by omega)
  exact {
    frames := by
      intro start message hmem
      have hframe := hinv.frames start message hmem
      have hbelow : start + kFrameHeaderSize ≤ shared.header.producerCursor.toNat := hframe.below
      refine ⟨hframe.header, ?_, hframe.before⟩
      show start + kFrameHeaderSize ≤ claim.targetCursor.toNat
      omega
    distinct := hinv.distinct
    alive := by
      intro other hother
      obtain rfl := Option.some.inj hother
      refine ⟨⟨?_, ?_⟩, ?_⟩
      · intro reservation hreservation
        obtain rfl := Option.some.inj (hbegun.reservation.symm.trans hreservation)
        refine ⟨?_, ?_⟩
        · show (claim.currentCursor % cfg.capacity).toNat = position % cfg.capacity.toNat
          rw [UInt64.toNat_mod, hposition]
        · show position + kFrameHeaderSize ≤ history.frontier
          omega
      · intro reserved hreserved
        obtain rfl := Option.some.inj hreserved
        refine ⟨hposition.symm, fun _ => ⟨hlength, htype, rfl⟩, ?_, ?_⟩
        · show claim.currentCursor.toNat + kFrameHeaderSize ≤ claim.targetCursor.toNat
          omega
        · intro start message hmem
          show start + kFrameHeaderSize ≤ claim.currentCursor.toNat
          rw [hcurrent]
          exact (hinv.frames start message hmem).below
      · intro grant hgrant
        obtain rfl := Option.some.inj hgrant
        refine ⟨?_, ?_⟩
        · show claim.frame cfg.capacity + kFrameHeaderSize = _
          rw [Claim.frame_eq, ← hposition]
          rfl
        · show position + kFrameHeaderSize + claim.payloadSize.toNat ≤ history.frontier
          omega
    dead := by simp }

/-- Writing a frame and claiming its space keeps the invariant. -/
theorem claim_imprint (hinv : Imprinted cfg (stream shared) history position (some process))
    (h : process.claim cfg.capacity clock shared process.pc = some result) :
    Imprinted cfg (stream result.1) (publishedAfter cfg shared history process.pc)
      (process.pc.holds position) (some result.2) := by
  have hpc := hinv.alive process rfl
  have hcap := cfg.header_le
  cases hat : process.pc with
  | loadVersion claim =>
      rw [hat] at hpc h
      obtain rfl := Option.some.inj h
      exact hold_imprint hinv hpc
  | storeVersion claim version =>
      rw [hat] at hpc h
      obtain rfl := Option.some.inj h
      rw [Claim.frame_eq, storeVersion_mod]
      exact hinv.storeClaim 0 hpc.claimed (by decide) rfl (Nat.le_max_left _ _)
        (Nat.le_max_right _ _)
        ⟨⟨hpc.claimed, hpc.position, hpc.reservation⟩, Nat.le_max_right _ _⟩
  | storeLength claim =>
      rw [hat] at hpc h
      obtain rfl := Option.some.inj h
      rw [Claim.frame_eq, storeLength_mod]
      exact hinv.storeClaim 4 hpc.claimed (by decide) rfl (Nat.le_refl _) hpc.frontier
        ⟨⟨⟨hpc.claimed, hpc.position, hpc.reservation⟩, hpc.frontier⟩,
          loadLength_storeLength hcap _⟩
  | storeType claim =>
      rw [hat] at hpc h
      obtain rfl := Option.some.inj h
      obtain ⟨hbegun, hlength⟩ := hpc
      rw [Claim.frame_eq, storeType_mod]
      exact hinv.storeClaim 8 hbegun.claimed (by decide) rfl (Nat.le_refl _) hbegun.frontier
        ⟨⟨⟨hbegun.claimed, hbegun.position, hbegun.reservation⟩, hbegun.frontier⟩,
          (loadLength_storeType hcap _).trans hlength, loadType_storeType hcap _⟩
  | storeTimestamp claim =>
      rw [hat] at hpc h
      obtain rfl := Option.some.inj h
      obtain ⟨hbegun, hlength, htype⟩ := hpc
      rw [Claim.frame_eq, storeTimestamp_mod]
      exact hinv.storeClaim 16 hbegun.claimed (by decide) rfl (Nat.le_refl _) hbegun.frontier
        ⟨⟨⟨hbegun.claimed, hbegun.position, hbegun.reservation⟩, hbegun.frontier⟩,
          (loadLength_storeTimestamp hcap _).trans hlength,
          (loadType_storeTimestamp hcap _).trans htype⟩
  | storeProducerCursor claim =>
      rw [← hat]
      exact return_imprint hinv hat h
  | _ =>
      rw [hat] at h
      simp [Process.claim] at h

/-- The header of the frame that a `Commit` publishes is the reserved one. -/
theorem publishedFrame_header (capacity : UInt64) (data : Nat → UInt8)
    (reserved : Nat × FrameHeader) :
    (publishedFrame capacity data reserved).2.header = reserved.2 := by
  simp [publishedFrame, SafeMessage.header, loadPayload]

/-- Publishing the open reservation keeps the invariant. -/
theorem publish_imprint {before : Stream} {commit : UInt64}
    (hinv : Imprinted cfg before history position (some process))
    (hsettled : Settled cfg before history position process) :
    Imprinted cfg { before with commitCursor := commit }
      { history with
        reserved := none
        frames := (history.reserved.map (publishedFrame cfg.capacity before.data)).toList ++
          history.frames }
      position (some { process with pc := .idle, grant := none }) where
  frames := by
    intro start message hmem
    rcases List.mem_append.mp hmem with hnew | hold
    · obtain ⟨reserved, hreserved, hframe⟩ := Option.map_eq_some_iff.mp (Option.mem_toList.mp hnew)
      have hopen := hsettled.reserved reserved hreserved
      have hheader := publishedFrame_header cfg.capacity before.data reserved
      rw [hframe] at hheader
      obtain rfl : reserved.1 = start := congrArg Prod.fst hframe
      exact ⟨hheader ▸ hopen.header, hopen.below, .inl hopen.current⟩
    · have hframe := hinv.frames start message hold
      exact ⟨hframe.header, hframe.below, hframe.before⟩
  distinct := by
    intro start message other hmessage hother
    have hlast : ∀ reserved frame, history.reserved = some reserved →
        publishedFrame cfg.capacity before.data reserved = (start, frame) →
        ∀ old, (start, old) ∉ history.frames := by
      intro reserved frame hreserved hframe old hold
      have hafter := (hsettled.reserved reserved hreserved).last start old hold
      obtain rfl : reserved.1 = start := congrArg Prod.fst hframe
      unfold kFrameHeaderSize at hafter
      omega
    rcases List.mem_append.mp hmessage with hnew | hold
    · obtain ⟨reserved, hreserved, hframe⟩ := Option.map_eq_some_iff.mp (Option.mem_toList.mp hnew)
      rcases List.mem_append.mp hother with hnew' | hold'
      · obtain ⟨reserved', hreserved', hframe'⟩ :=
          Option.map_eq_some_iff.mp (Option.mem_toList.mp hnew')
        obtain rfl := Option.some.inj (hreserved.symm.trans hreserved')
        exact congrArg Prod.snd (hframe.symm.trans hframe')
      · exact absurd hold' (hlast reserved message hreserved hframe other)
    · rcases List.mem_append.mp hother with hnew' | hold'
      · obtain ⟨reserved, hreserved, hframe⟩ :=
          Option.map_eq_some_iff.mp (Option.mem_toList.mp hnew')
        exact absurd hold (hlast reserved other hreserved hframe message)
      · exact hinv.distinct start message other hold hold'
  alive := by
    intro other hother
    obtain rfl := Option.some.inj hother
    exact ⟨⟨fun reservation hreservation =>
      ⟨(hsettled.reservation reservation hreservation).offset,
        (hsettled.reservation reservation hreservation).begun⟩, by simp⟩, by simp⟩
  dead := by simp

/-- Closing a reservation keeps the invariant. -/
theorem commit_imprint (hinv : Imprinted cfg (stream shared) history position (some process))
    (h : process.commit cfg.capacity shared process.pc = some result) :
    Imprinted cfg (stream result.1) (publishedAfter cfg shared history process.pc)
      (process.pc.holds position) (some result.2) := by
  have hpc := hinv.alive process rfl
  cases hat : process.pc with
  | loadCommitVersion reservation =>
      rw [hat] at hpc h
      obtain rfl := Option.some.inj h
      obtain ⟨hsettled, hrefers⟩ := hpc
      exact hinv.goto ⟨⟨hsettled.reservation, hsettled.reserved⟩, hrefers⟩
  | storeCommitVersion reservation version =>
      rw [hat] at hpc h
      obtain rfl := Option.some.inj h
      obtain ⟨hsettled, hrefers⟩ := hpc
      have hbegun := hrefers.begun
      unfold kFrameHeaderSize at hbegun
      have hskips : SkipsFields position position (toLittleEndian 4 (version + 1).toNat).length :=
        .inl ⟨rfl, by simp⟩
      have hfits : position + (toLittleEndian 4 (version + 1).toNat).length ≤ history.frontier := by
        rw [length_toLittleEndian]
        omega
      have hstore := hsettled.store _ hfits hskips
      rw [hrefers.offset, storeVersion_mod]
      exact hinv.store _ rfl (Nat.le_refl _) hfits (hinv.skips hskips)
        ⟨⟨hstore.reservation, hstore.reserved⟩, hrefers⟩
  | storeCommitCursor reservation =>
      rw [hat] at hpc h
      obtain rfl := Option.some.inj h
      exact publish_imprint hinv hpc.1
  | _ =>
      rw [hat] at h
      simp [Process.commit] at h

/-- Writing the payload below the caller's pointer keeps the invariant. -/
theorem write_imprint (hinv : Imprinted cfg (stream shared) history position (some process))
    {offset : Nat} {bytes : List UInt8} {shared' : Shared}
    (h : process.write cfg.capacity shared offset bytes = some shared') :
    Imprinted cfg (stream shared') history position (some process) := by
  have hpc := hinv.alive process rfl
  unfold Process.write at h
  split at h
  · next grant hat hgrant =>
      rw [hat] at hpc
      obtain ⟨hsettled, hgranted⟩ := hpc
      obtain ⟨haddress, hroom⟩ := hgranted grant hgrant
      split at h
      · next hbytes =>
          obtain rfl := Option.some.inj h
          have hskips : SkipsFields position (position + kFrameHeaderSize + offset) bytes.length :=
            .inr (Nat.le_add_right _ _)
          have hfits : position + kFrameHeaderSize + offset + bytes.length ≤ history.frontier := by
            omega
          rw [haddress, Nat.add_assoc, storeBytes_mod_add, ← Nat.add_assoc]
          refine hinv.store bytes rfl (Nat.le_refl _) hfits (hinv.skips hskips) ?_
          rw [hat]
          exact ⟨hsettled.store bytes hfits hskips, hgranted⟩
      · simp at h
  · simp at h

end Accesses

/-! ## The producer -/

section Producer

variable {cfg : Config} {machine next : Machine} {history : Published} {position : Nat}
  {event : Event}

/-- Every access keeps the invariant. -/
theorem access_imprint {shared : Shared} {process : Process} {clock : Int} {tsc : UInt64}
    {result : Shared × Process}
    (hinv : Imprinted cfg (stream shared) history position (some process))
    (h : process.access cfg.capacity clock tsc shared = some result) :
    Imprinted cfg (stream result.1) (publishedAfter cfg shared history process.pc)
      (process.pc.holds position) (some result.2) := by
  unfold Process.access at h
  rcases Option.or_eq_some_iff.mp h with hscan | ⟨-, hrest⟩
  · exact scan_imprint hinv hscan
  · rcases Option.or_eq_some_iff.mp hrest with hclaim | ⟨-, hcommit⟩
    · exact claim_imprint hinv hclaim
    · exact commit_imprint hinv hcommit

/-- A call of `Reserve` that is accepted has sizes that fit. -/
theorem reserve_imprint {shared : Shared} {process : Process} {payloadSize typeId : UInt32}
    (hinv : Imprinted cfg (stream shared) history position (some process))
    (hfits : SizesFit cfg shared payloadSize) :
    Imprinted cfg (stream shared) history position
      (some (process.reserve cfg payloadSize typeId)) := by
  unfold Process.reserve
  split
  · exact hinv
  · next haccepted =>
      have hspace := requiredSpace_le_of_accepted haccepted
      obtain ⟨hsize, hcarry⟩ := hfits hspace
      exact hinv.goto ⟨hspace, hsize, hcarry⟩

/-- One step of the producer keeps the invariant. -/
theorem step_imprint
    (hinv : Imprinted cfg (stream machine.shared) history position machine.process)
    (hallow : CallsFit cfg machine.shared event) (h : step cfg machine event = some next) :
    Imprinted cfg (stream next.shared) ((publication cfg).observe machine event next history)
      (positionAfter machine event position) next.process := by
  cases step_cases h with
  | reserve payloadSize typeId hprocess hidle =>
      exact reserve_imprint (hprocess ▸ hinv) hallow
  | @commit process reservation hprocess hidle hreservation =>
      have hpc := hinv.alive process hprocess
      rw [hidle] at hpc
      obtain ⟨hsettled, -⟩ := hpc
      exact hinv.goto ⟨⟨hsettled.reservation, hsettled.reserved⟩,
        hsettled.reservation reservation hreservation⟩
  | @access process result tsc hprocess haccess =>
      have hposition : positionAfter machine (.access tsc) position =
          process.pc.holds position := by
        simp only [positionAfter, hprocess, Option.map_some]
        cases process.pc <;> rfl
      rw [hposition]
      simp only [publication, hprocess]
      exact access_imprint (hprocess ▸ hinv) haccess
  | write offset bytes hprocess hwrite =>
      have hwritten := write_imprint (hprocess ▸ hinv) hwrite
      rw [← hprocess] at hwritten
      exact hwritten
  | crash =>
      refine ⟨fun start message hmem => ?_, hinv.distinct, by simp, fun _ => rfl⟩
      have hframe := hinv.frames start message hmem
      exact ⟨hframe.header, hframe.below, hframe.before⟩
  | attach name hdead =>
      refine hinv.goto ⟨⟨by simp, fun reserved hreserved => ?_⟩, by simp⟩
      rw [hinv.dead hdead] at hreserved
      cases hreserved
  | refuse => exact hinv
  | consumer => exact hinv
  | tick => exact hinv

/-- The invariant holds at first. -/
theorem created_imprint (cfg : Config) (clock : Int) :
    Imprinted cfg (stream (created cfg clock).shared) {} 0 (created cfg clock).process where
  frames := by simp
  distinct := by simp
  alive := by
    intro object hobject
    obtain rfl := Option.some.inj hobject
    exact ⟨⟨by simp, by simp⟩, by simp⟩
  dead := by simp

end Producer

/-! ## The loads -/

/-- The frame at a cursor is published. Unless a `Reserve` has begun to store in its place, it has
what has been loaded. -/
def Reports (cfg : Config) (history : Published) (cursor : UInt64) (loaded : SafeMessage → Prop) :
    Prop :=
  ∃ message, (cursor.toNat, message) ∈ history.frames ∧
    (history.frontier ≤ cursor.toNat + cfg.capacity.toNat → loaded message)

/-- What holds of a call at each program point. -/
def ViewInv (cfg : Config) (history : Published) (view : View) : ViewPc → Prop
  | .idle | .loadCommit | .returned (.error _) => True
  | .loadProducer | .loadLength | .loadType => Reports cfg history view.current fun _ => True
  | .loadTimestamp => Reports cfg history view.current fun message =>
      view.headerOut.type = message.header.type
  | .loadHeaderLength => Reports cfg history view.current fun message =>
      view.headerOut.type = message.header.type ∧
        view.headerOut.timestamp = message.header.timestamp
  | .loadSpanLength => Reports cfg history view.current fun message =>
      view.headerOut = message.header
  | .returned (.ok span) => ∃ message, (view.current.toNat, message) ∈ history.frames ∧
      view.headerOut = message.header ∧
        span = ⟨frameAddress cfg.capacity view.current + kFrameHeaderSize,
          message.header.length.toNat⟩

/-- The loads of a frame, which follow the lap check. -/
def ViewPc.checked : ViewPc → Bool
  | .loadLength | .loadType | .loadTimestamp | .loadHeaderLength | .loadSpanLength => true
  | _ => false

section Loads

variable {cfg : Config} {history later : Published} {position : Nat} {cursor : UInt64}
  {loaded stronger : SafeMessage → Prop} {view next : View}

theorem Reports.grow (h : Reports cfg history cursor loaded) (hgrows : history.Grows later) :
    Reports cfg later cursor loaded := by
  obtain ⟨message, hmem, hloaded⟩ := h
  exact ⟨message, hgrows.frames _ hmem, fun hretained =>
    hloaded (Nat.le_trans hgrows.frontier hretained)⟩

/-- A call keeps its invariant while the producer runs. -/
theorem ViewInv.grow {pc : ViewPc} (h : ViewInv cfg history view pc)
    (hgrows : history.Grows later) : ViewInv cfg later view pc := by
  cases pc with
  | idle => trivial
  | loadCommit => trivial
  | returned result =>
      cases result with
      | error => trivial
      | ok =>
          obtain ⟨message, hmem, hreported⟩ := h
          exact ⟨message, hgrows.frames _ hmem, hreported⟩
  | _ => exact Reports.grow h hgrows

/-- A load of a field of a frame that has not been overtaken extends the report. -/
theorem Reports.load {stream : Stream} {object : Option Process}
    (h : Reports cfg history cursor loaded)
    (hinv : Imprinted cfg stream history position object)
    (hload : ∀ message, loaded message →
      HeaderStored cfg.capacity stream.data cursor.toNat message.header → stronger message) :
    Reports cfg history cursor stronger := by
  obtain ⟨message, hmem, hloaded⟩ := h
  exact ⟨message, hmem, fun hretained =>
    hload message (hloaded hretained) ((hinv.frames _ message hmem).header hretained)⟩

/-- A load keeps the invariant of its call, if its frame has not been overtaken by the last one. -/
theorem load_view {current : Viewing} {imprint : Imprint}
    (hinv : Imprinted cfg (stream current.machine.shared) imprint.watched.published
      imprint.position current.machine.process)
    (hview : ViewInv cfg imprint.watched.published current.view current.view.pc)
    (hstands : StandsAtFrame (current, imprint))
    (hclear : current.view.pc = .loadSpanLength → imprint.watched.published.frontier ≤
      current.view.current.toNat + cfg.capacity.toNat)
    (h : current.view.load cfg.capacity current.machine.shared = some next) :
    ViewInv cfg imprint.watched.published next next.pc := by
  unfold View.load at h
  simp only [frameAddress_eq] at h
  split at h
  · simp at h
  · simp at h
  · next hat =>
      split at h
      · obtain rfl := Option.some.inj h
        trivial
      · next hbelow =>
          obtain rfl := Option.some.inj h
          obtain ⟨message, hmem⟩ := hstands hat (UInt64.not_le.mp hbelow)
          exact ⟨message, hmem, fun _ => trivial⟩
  · next hat =>
      rw [hat] at hview
      split at h
      · obtain rfl := Option.some.inj h
        trivial
      · obtain rfl := Option.some.inj h
        exact hview
  · next hat =>
      rw [hat] at hview
      split at h
      · obtain rfl := Option.some.inj h
        trivial
      · obtain rfl := Option.some.inj h
        exact hview
  · next hat =>
      rw [hat] at hview
      obtain rfl := Option.some.inj h
      rw [loadType_mod]
      exact hview.load hinv fun message _ hstored => hstored.type
  · next hat =>
      rw [hat] at hview
      obtain rfl := Option.some.inj h
      rw [loadTimestamp_mod]
      exact hview.load hinv fun message htype hstored => ⟨htype, hstored.timestamp⟩
  · next hat =>
      rw [hat] at hview
      obtain rfl := Option.some.inj h
      rw [loadLength_mod]
      refine hview.load hinv fun message ⟨htype, htimestamp⟩ hstored => ?_
      show (⟨_, current.view.headerOut.type, current.view.headerOut.timestamp⟩ : FrameHeader) =
        message.header
      rw [htype, htimestamp]
      exact congrArg (FrameHeader.mk · message.header.type message.header.timestamp) hstored.length
  · next hat =>
      rw [hat] at hview
      obtain rfl := Option.some.inj h
      obtain ⟨message, hmem, hheader⟩ := hview
      have hretained := hclear hat
      have hlength := ((hinv.frames _ message hmem).header hretained).length
      refine ⟨message, hmem, hheader hretained, ?_⟩
      rw [loadLength_mod, frameAddress_eq]
      exact congrArg (Span.mk _) (congrArg UInt32.toNat hlength)

/-- A load leaves the cursor, and it comes to the loads of a frame by the lap check only. -/
theorem view_checked {capacity : UInt64} {shared : Shared}
    (h : view.load capacity shared = some next) :
    next.current = view.current ∧ (next.pc.checked = true → view.pc.checked = true ∨
      view.pc = .loadProducer ∧ ¬ shared.header.producerCursor - view.current > capacity) := by
  unfold View.load at h
  cases hat : view.pc with
  | idle | returned => simp [hat] at h
  | loadCommit =>
      simp only [hat] at h
      split at h
      · cases h
        exact ⟨rfl, nofun⟩
      · cases h
        exact ⟨rfl, nofun⟩
  | loadProducer =>
      simp only [hat] at h
      split at h
      · cases h
        exact ⟨rfl, nofun⟩
      · next hpasses =>
          cases h
          exact ⟨rfl, fun _ => .inr ⟨rfl, hpasses⟩⟩
  | loadLength =>
      simp only [hat] at h
      split at h
      · cases h
        exact ⟨rfl, fun _ => .inl rfl⟩
      · cases h
        exact ⟨rfl, fun _ => .inl rfl⟩
  | loadType | loadTimestamp | loadHeaderLength | loadSpanLength =>
      simp only [hat] at h
      cases h
      exact ⟨rfl, fun _ => .inl rfl⟩

end Loads

/-! ## The system -/

/-- The invariant of the producer and a polling reader. -/
structure ViewingInv (cfg : Config) (pair : Viewing × Imprint) : Prop where
  producer : Imprinted cfg (stream pair.1.machine.shared) pair.2.watched.published
    pair.2.position pair.1.machine.process
  clear : pair.1.view.pc.checked = true →
    Clear cfg pair.2.watched pair.1.view.current.toNat
  view : ViewInv cfg pair.2.watched.published pair.1.view pair.1.view.pc

section Steps

variable {cfg : Config} {current next : Viewing} {history : Imprint} {event : ViewEvent}

/-- A load leaves what is published, and the current reservation. -/
theorem observe_load_imprint (cfg : Config) (current after : Viewing) (history : Imprint) :
    ((viewImprint cfg).observe current .load after history).watched.published =
        history.watched.published ∧
      ((viewImprint cfg).observe current .load after history).position = history.position := by
  cases hat : current.view.pc <;> simp [viewImprint, hat, Watched.check]

/-- A reader at the lap check stands before the producer cursor. -/
theorem ViewingInv.le_producer (hinv : ViewingInv cfg (current, history))
    (hat : current.view.pc = .loadProducer) :
    current.view.current.toNat ≤ current.machine.shared.header.producerCursor.toNat := by
  have hview := hinv.view
  rw [hat] at hview
  obtain ⟨message, hmem, -⟩ := hview
  exact Nat.le_trans (Nat.le_add_right _ _) (hinv.producer.frames _ message hmem).below

/-- A load keeps the reader's position clear, and the lap check makes it so. -/
theorem view_clear {view : View} (hinv : ViewingInv cfg (current, history))
    (h : current.view.load cfg.capacity current.machine.shared = some view)
    (hchecked : view.pc.checked = true) (after : Viewing) :
    Clear cfg ((viewImprint cfg).observe current .load after history).watched
      view.current.toNat := by
  obtain ⟨hcurrent, hbefore⟩ := view_checked h
  rw [hcurrent]
  rcases hbefore hchecked with hchecked | ⟨hat, hpasses⟩
  · have hkeep : (viewImprint cfg).observe current .load after history = history := by
      cases hat : current.view.pc <;> simp_all [viewImprint, ViewPc.checked]
    rw [hkeep]
    exact hinv.clear hchecked
  · have hcheck : ((viewImprint cfg).observe current .load after history).watched =
        history.watched.check cfg current.machine.shared current.view.current.toNat := by
      simp only [viewImprint, hat]
    rw [hcheck]
    exact .check (hinv.le_producer hat) hpasses

/-- One step keeps the invariant. -/
theorem view_step_inv (hinv : ViewingInv cfg (current, history))
    (hallow : NotOvertaken cfg (current, history) event)
    (h : viewStep cfg current event = some next) :
    ViewingInv cfg (next, (viewImprint cfg).observe current event next history) := by
  cases event with
  | producer event =>
      obtain ⟨machine, hstep, rfl⟩ := Option.map_eq_some_iff.mp h
      exact {
        producer := step_imprint hinv.producer hallow hstep
        clear := fun hchecked => (hinv.clear hchecked).produce
        view := hinv.view.grow (publication_grows cfg current.machine machine event _) }
  | pollZeroCopy cursor =>
      simp only [viewStep] at h
      split at h
      · obtain rfl := Option.some.inj h
        exact ⟨hinv.producer, nofun, trivial⟩
      · simp at h
  | load =>
      obtain ⟨view, hload, rfl⟩ := Option.map_eq_some_iff.mp h
      obtain ⟨hstands, hseen⟩ := hallow
      obtain ⟨hpublished, hposition⟩ :=
        observe_load_imprint cfg current { current with view } history
      have hclear : current.view.pc = .loadSpanLength → history.watched.published.frontier ≤
          current.view.current.toNat + cfg.capacity.toNat := fun hat =>
        hinv.clear (by rw [hat]; rfl) (hseen hat)
      exact {
        producer := by
          rw [hpublished, hposition]
          exact hinv.producer
        clear := fun hchecked => view_clear hinv hload hchecked _
        view := by
          rw [hpublished]
          exact load_view hinv.producer hinv.view hstands hclear hload }

/-- The invariant holds in every run that is not overtaken. -/
theorem reachable_view {pair : Viewing × Imprint}
    (h : ((viewing cfg).withHistory (viewImprint cfg)).Reachable (NotOvertaken cfg) pair) :
    ViewingInv cfg pair := by
  refine h.invariant (ViewingInv cfg) ?_ ?_
  · intro ⟨viewing, history⟩ ⟨⟨clock, hviewing⟩, hhistory⟩
    obtain rfl : viewing = ⟨created cfg clock, {}⟩ := hviewing
    obtain rfl : history = {} := hhistory
    exact ⟨created_imprint cfg clock, nofun, trivial⟩
  · intro ⟨current, history⟩ event ⟨next, after⟩ hinv hallow hnext
    obtain ⟨hstep, hobserve⟩ := System.withHistory_step.mp hnext
    obtain rfl : after = (viewImprint cfg).observe current event next history := hobserve
    exact view_step_inv hinv hallow hstep

end Steps

/-! ## Where headers are stored -/

/-- A `Reserve` works for a claim at the producer cursor until it has stored its header. -/
def ClaimsAtCursor (machine : Machine) : Prop :=
  ∀ process claim, machine.process = some process →
    process.pc.scannedClaim = some claim ∨ headerStore process.pc = some claim →
    claim.currentCursor = machine.shared.header.producerCursor

section Claims

variable {cfg : Config} {machine next : Machine} {event : Event}

/-- An access of a process whose claim is at the producer cursor. -/
theorem access_claims {shared : Shared} {process : Process} {clock : Int} {tsc : UInt64}
    {result : Shared × Process}
    (hinv : ∀ claim, process.pc.scannedClaim = some claim ∨ headerStore process.pc = some claim →
      claim.currentCursor = shared.header.producerCursor)
    (h : process.access cfg.capacity clock tsc shared = some result) (claim : Claim)
    (hclaim : result.2.pc.scannedClaim = some claim ∨ headerStore result.2.pc = some claim) :
    claim.currentCursor = result.1.header.producerCursor := by
  unfold Process.access at h
  rcases Option.or_eq_some_iff.mp h with hscan | ⟨-, hrest⟩
  · have hstep := scan_cases hscan
    have hproducer : result.1.header.producerCursor = shared.header.producerCursor :=
      congrArg Stream.producerCursor hstep.stream_eq
    obtain ⟨scanned, hnext, hbefore⟩ := hstep.claim
    have hsame : scanned = claim := by
      rcases hclaim with hclaim | hclaim
      · exact Option.some.inj (hnext.symm.trans hclaim)
      · cases hpc : result.2.pc <;> simp_all [Pc.scannedClaim, headerStore]
    rw [hproducer, ← hsame]
    rcases hbefore with hbefore | ⟨payloadSize, typeId, -, rfl⟩
    · exact hinv scanned (.inl hbefore)
    · rfl
  · rcases Option.or_eq_some_iff.mp hrest with hstore | ⟨-, hcommit⟩
    · cases hat : process.pc with
      | loadVersion =>
          rw [hat] at hstore
          cases hstore
          exact hinv claim (.inl (by simpa [hat, Pc.scannedClaim, headerStore] using hclaim))
      | storeVersion | storeLength | storeType =>
          rw [hat] at hstore
          cases hstore
          refine hinv claim (.inr ?_)
          simpa [hat, Process.goto, Pc.scannedClaim, headerStore] using hclaim
      | storeTimestamp | storeProducerCursor =>
          rw [hat] at hstore
          cases hstore
          simp [Process.goto, Pc.scannedClaim, headerStore] at hclaim
      | _ =>
          rw [hat] at hstore
          simp [Process.claim] at hstore
    · unfold Process.commit at hcommit
      split at hcommit <;> cases hcommit <;>
        simp [Process.goto, Pc.scannedClaim, headerStore] at hclaim

/-- A store to the payload leaves the producer cursor. -/
theorem write_producerCursor {capacity : UInt64} {shared shared' : Shared} {process : Process}
    {offset : Nat} {bytes : List UInt8}
    (h : process.write capacity shared offset bytes = some shared') :
    shared'.header.producerCursor = shared.header.producerCursor := by
  unfold Process.write at h
  split at h
  · split at h
    · cases h
      rfl
    · cases h
  · cases h

/-- One step keeps claims at the producer cursor. -/
theorem step_claims (hinv : ClaimsAtCursor machine) (h : step cfg machine event = some next) :
    ClaimsAtCursor next := by
  intro process claim hprocess hclaim
  cases step_cases h with
  | @reserve caller payloadSize typeId hcaller hidle =>
      obtain rfl := Option.some.inj hprocess
      unfold Process.reserve at hclaim
      split at hclaim
      · exact hinv caller claim hcaller hclaim
      · simp [Process.goto, Pc.scannedClaim, headerStore] at hclaim
  | commit =>
      obtain rfl := Option.some.inj hprocess
      simp [Process.goto, Pc.scannedClaim, headerStore] at hclaim
  | @access caller result tsc hcaller haccess =>
      obtain rfl := Option.some.inj hprocess
      exact access_claims (fun claim => hinv caller claim hcaller) haccess claim hclaim
  | write offset bytes hcaller hwrite =>
      rw [write_producerCursor hwrite]
      exact hinv process claim hprocess hclaim
  | crash => cases hprocess
  | attach =>
      obtain rfl := Option.some.inj hprocess
      simp [Pc.scannedClaim, headerStore] at hclaim
  | refuse => exact hinv process claim hprocess hclaim
  | consumer => exact hinv process claim hprocess hclaim
  | tick => exact hinv process claim hprocess hclaim

/-- A producer that has just been created has no claim. -/
theorem created_claims (cfg : Config) (clock : Int) : ClaimsAtCursor (created cfg clock) := by
  intro process claim hprocess hclaim
  obtain rfl := Option.some.inj hprocess
  simp [Pc.scannedClaim, headerStore] at hclaim

end Claims

/-- In every run `Reserve` stores its header from the producer cursor on. -/
theorem stores_from_cursor (cfg : Config) : StoresFromCursor cfg fun _ _ => True := by
  intro pair hreach
  have hclaims : ClaimsAtCursor pair.1.machine := by
    refine hreach.invariant (fun pair => ClaimsAtCursor pair.1.machine) ?_ ?_
    · intro ⟨viewing, history⟩ ⟨⟨clock, hviewing⟩, _⟩
      obtain rfl : viewing = ⟨created cfg clock, {}⟩ := hviewing
      exact created_claims cfg clock
    · intro ⟨current, history⟩ event ⟨next, after⟩ hinv _ hnext
      have hview : viewStep cfg current event = some next := (System.withHistory_step.mp hnext).1
      cases event with
      | producer event =>
          obtain ⟨machine, hstep, rfl⟩ := Option.map_eq_some_iff.mp hview
          exact step_claims hinv hstep
      | pollZeroCopy cursor =>
          simp only [viewStep] at hview
          split at hview
          · obtain rfl := Option.some.inj hview
            exact hinv
          · simp at hview
      | load =>
          obtain ⟨view, -, rfl⟩ := Option.map_eq_some_iff.mp hview
          exact hinv
  intro process claim hprocess hclaim
  exact hclaims process claim hprocess (.inr hclaim)

/-- A successful `PollZeroCopy` reports the frame at its cursor, unless the producer overtakes it
between its lap check and its last load, or had begun to by the check without a claim. `Reserve`
always stores its header from the producer cursor on. -/
theorem reports_kept_frame (cfg : Config) :
    ReportsFrame cfg (NotOvertaken cfg) ∧ StoresFromCursor cfg fun _ _ => True := by
  refine ⟨fun pair hreach span hreturned => ?_, stores_from_cursor cfg⟩
  have hinv := reachable_view hreach
  have hview := hinv.view
  rw [hreturned] at hview
  obtain ⟨message, hmem, hreported⟩ := hview
  refine ⟨message, fun other => ?_, hreported⟩
  constructor
  · intro hother
    exact hinv.producer.distinct _ other message hother hmem
  · intro hsame
    rw [hsame]
    exact hmem

/-! ## The header before the claim -/

/-- The calls of a producer that reserves and commits one frame after the other, and of a reader
at a published frame. -/
def roundCall (pair : Viewing × Imprint) : ViewEvent → Bool
  | .producer (.reserve payloadSize _) => pair.2.watched.published.reserved.isNone &&
      payloadSize.toNat ≤ 2 ^ 32 - 32 &&
      pair.1.machine.shared.header.producerCursor.toNat + (requiredSpace payloadSize).toNat <
        2 ^ 64
  | .producer .commit => pair.2.watched.published.reserved.isSome
  | .producer .crash | .producer (.attach _) => false
  | .pollZeroCopy cursor => pair.2.watched.published.frames.any fun frame => frame.1 == cursor.toNat
  | _ => true

/-- A frame fills the buffer, and a reader that has never registered passes the lap check. The
next `Reserve` then stores the length and the type of its header over the old ones, before it
moves the producer cursor, and the reader goes on. -/
def headerFirst : List ViewEvent := List.flatten [
  [.producer (.reserve 4072 1)], List.replicate 7 (.producer (.access 0)),
  [.producer .commit], List.replicate 3 (.producer (.access 0)),
  [.pollZeroCopy 0, .load, .load],
  [.producer (.reserve 40 7)], List.replicate 23 (.producer (.access 0)),
  List.replicate 5 .load]

/-- The call has returned `Ok` with the type of the frame that is being reserved, whose header is
still to be finished. -/
def reportsReplaced (pair : Viewing × Imprint) : Bool :=
  (match pair.1.view.pc with | .returned (.ok _) => true | _ => false) &&
    pair.1.view.headerOut.type == 7 &&
    (pair.2.watched.published.frames.all fun frame => frame.2.type == 1) &&
    (match pair.1.machine.process with
    | some process => match headerStore process.pc with
      | some claim => decide (pair.1.machine.shared.header.producerCursor.toNat <
          claim.currentCursor.toNat + kFrameHeaderSize)
      | none => false
    | none => false)

/-- A call returns `Ok` with fields of a frame that is not claimed yet. -/
theorem header_replaced :
    ¬ ReportsFrame onePage (fun pair event => roundCall pair event) ∧
      ¬ StoresBelowCursor onePage fun pair event => roundCall pair event := by
  obtain ⟨pair, hreach, hpair⟩ := System.exists_reachable_of_replay
    ((viewing onePage).withHistory (viewImprint onePage))
    (fun pair event => roundCall pair event = true)
    (⟨created onePage 0, {}⟩, {}) headerFirst reportsReplaced (.init ⟨⟨_, rfl⟩, rfl⟩)
    (by decide +kernel)
  simp only [reportsReplaced, Bool.and_eq_true, beq_iff_eq, List.all_eq_true] at hpair
  obtain ⟨⟨⟨hreturned, htype⟩, hframes⟩, hopen⟩ := hpair
  constructor
  · intro hreports
    split at hreturned
    · next span hok =>
        obtain ⟨message, hmessage, hheader, -⟩ := hreports pair hreach span hok
        have hpublished := hframes _ ((hmessage message).mpr rfl)
        rw [hheader] at htype
        have hone : message.header.type = 1 := hpublished
        simp [hone] at htype
    · simp at hreturned
  · intro hbelow
    split at hopen
    · next process hprocess =>
        split at hopen
        · next claim hclaim =>
            have hend := hbelow pair hreach process claim hprocess hclaim
            have hshort := of_decide_eq_true hopen
            omega
        · simp at hopen
    · simp at hopen

end HotPath.SharedMemory.Access
