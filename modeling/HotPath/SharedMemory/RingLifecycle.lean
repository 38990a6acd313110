import HotPath.SharedMemory.MemoryMap
import HotPath.SharedMemory.ProducerSteps

/-!
# Creating and attaching a ring buffer

`Create` makes the metadata segment and the data segment, and `Attach` opens them, maybe in
another process. The header is written and read through the mapping: `sizeof(BroadcastHeader)` is
2240, with the two cursors and `buffer_capacity` on cache lines of their own and a reader slot in
every 128 bytes from 192 on.

`create_all_or_nothing` says that `Create` makes both segments or neither. `attach_opens_iff` says
which of the buffers that `Create` makes `Attach` opens: it refuses those above 1 GiB
(`Access.attach`), and `Create` does not know this limit.
-/

namespace HotPath.SharedMemory

open HotPath.Foundation
open HotPath.Foundation.Posix

/-- `kHeaderSize`. -/
def kHeaderSize : UInt64 := 2240

/-- `BroadcastRingBuffer`. Its header and its data buffer are at the addresses of the two maps. -/
structure BroadcastRingBuffer where
  metadataMap : MemoryMap
  dataMap : MemoryMap
  process : Access.Process
  capacity : UInt64

/-- The constructor of `BroadcastRingBuffer`. -/
def makeRing (metadataMap dataMap : MemoryMap) (process : Access.Process) :
    BroadcastRingBuffer :=
  { metadataMap, dataMap, process, capacity := dataMap.size }

/-- The stores to the fields of a reader slot. -/
def slotStores (i : Nat) : List (Nat × List UInt8) :=
  [(192 + 128 * i, List.replicate 1 0), (192 + 128 * i + 8, List.replicate 8 0),
    (192 + 128 * i + 16, List.replicate 8 0), (192 + 128 * i + 24, List.replicate 4 0),
    (192 + 128 * i + 28, List.replicate 4 0)]

/-- The stores to the two cursors and to the reader slots. -/
def zeroStores : List (Nat × List UInt8) :=
  (0, List.replicate 8 0) :: (64, List.replicate 8 0) ::
    (List.range kMaxReaders).flatMap slotStores

/-- The stores that initialize the header: `BroadcastHeader()`, which clears it, and the fields. -/
def headerStores (capacityBytes : UInt64) : List (Nat × List UInt8) :=
  (0, List.replicate 2240 0) :: (128, toLittleEndian 8 capacityBytes.toNat) :: zeroStores

/-- `BroadcastRingBuffer::Create`. The result is `none` if an access faults. -/
def BroadcastRingBuffer.create (os : Os) (world : World String) (name : String)
    (capacityBytes : UInt64) (evictTimeoutNs : Int) :
    Option (Except Status BroadcastRingBuffer) × World String :=
  match MemoryMap.create os world (name ++ "_meta") kHeaderSize false with
  | (.error status, world) => (some (.error status), world)
  | (.ok metadata, world) =>
      match MemoryMap.create os world (name ++ "_data") capacityBytes true with
      | (.error status, world) =>
          (some (.error status),
            metadata.destroy os (MemoryMap.unlink os world (name ++ "_meta")).2)
      | (.ok data, world) =>
          match storeAll os world metadata.addr (headerStores capacityBytes) with
          | none => (none, world)
          | some world =>
              (some (.ok (makeRing metadata data { isProducer := true, evictTimeoutNs })), world)

/-- The part of `Attach` after the capacity has been read from the header. -/
def attachData (os : Os) (world : World String) (name : String) (writable : Bool)
    (metadata : MemoryMap) (capacity : UInt64) :
    Option (Except Status BroadcastRingBuffer) × World String :=
  match Access.attach name capacity writable with
  | .error status => (some (.error status), metadata.destroy os world)
  | .ok process =>
      match MemoryMap.open os world (name ++ "_data") capacity (!writable) true with
      | (.error status, world) => (some (.error status), metadata.destroy os world)
      | (.ok data, world) => (some (.ok (makeRing metadata data process)), world)

/-- `BroadcastRingBuffer::Attach`. The result is `none` if an access faults. -/
def BroadcastRingBuffer.attach (os : Os) (world : World String) (name : String) (writable : Bool) :
    Option (Except Status BroadcastRingBuffer) × World String :=
  match MemoryMap.open os world (name ++ "_meta") kHeaderSize false false with
  | (.error status, world) => (some (.error status), world)
  | (.ok metadata, world) =>
      match load os world (metadata.addr + 128) 8 with
      | none => (none, world)
      | some bytes =>
          attachData os world name writable metadata (UInt64.ofNat (ofLittleEndian bytes))

/-! ## The header -/

section Header

variable {capacityBytes : UInt64}

/-- The segment is a header with this capacity in it. -/
structure IsHeader (segment : Segment) (capacityBytes : UInt64) : Prop where
  length : segment.length = kHeaderSize.toNat
  capacity : ((List.range 8).map fun i => segment.bytes (128 + i)) =
    toLittleEndian 8 capacityBytes.toNat

/-- The cursors and the slots are on cache lines of their own inside the header. -/
theorem zeroStores_place {entry : Nat × List UInt8} (hentry : entry ∈ zeroStores) :
    0 < entry.2.length ∧ entry.1 + entry.2.length ≤ kHeaderSize.toNat ∧
      (entry.1 + entry.2.length ≤ 128 ∨ 136 ≤ entry.1) := by
  have hsize : kHeaderSize.toNat = 2240 := rfl
  simp only [zeroStores, slotStores, List.mem_cons, List.not_mem_nil, or_false, List.mem_flatMap,
    List.mem_range, kMaxReaders] at hentry
  rcases hentry with rfl | rfl | ⟨i, hi, rfl | rfl | rfl | rfl | rfl⟩ <;>
    simp only [List.length_replicate] <;> omega

/-- Every store is inside the header. -/
theorem headerStores_within (capacityBytes : UInt64) : ∀ entry ∈ headerStores capacityBytes,
    0 < entry.2.length ∧ entry.1 + entry.2.length ≤ kHeaderSize.toNat := by
  intro entry hentry
  have hsize : kHeaderSize.toNat = 2240 := rfl
  rcases List.mem_cons.mp hentry with rfl | hentry
  · simp only [List.length_replicate]
    omega
  · rcases List.mem_cons.mp hentry with rfl | hentry
    · simp only [length_toLittleEndian]
      omega
    · obtain ⟨hpos, hend, -⟩ := zeroStores_place hentry
      exact ⟨hpos, hend⟩

/-- The capacity is stored once, and nothing is stored over it. -/
theorem headerStores_isHeader {segment : Segment} (hlength : segment.length = kHeaderSize.toNat)
    (capacityBytes : UInt64) :
    IsHeader ((headerStores capacityBytes).foldl
      (fun segment entry => segment.write entry.1 entry.2) segment) capacityBytes := by
  refine ⟨(length_foldl_write _ _).trans hlength, ?_⟩
  rw [headerStores, List.foldl_cons, List.foldl_cons]
  generalize segment.write 0 _ = cleared
  have hstored := range_map_write cleared 128 (toLittleEndian 8 capacityBytes.toNat)
  rw [length_toLittleEndian] at hstored
  refine (List.map_congr_left fun i hi => ?_).trans hstored
  have hi' := List.mem_range.mp hi
  refine bytes_foldl_write fun entry hentry => ?_
  obtain ⟨-, -, hplace⟩ := zeroStores_place hentry
  omega

end Header

/-! ## Creating -/

section Creating

variable {os : Os} {world world' world'' : World String} {name : String} {capacityBytes : UInt64}

/-- Two new objects have the two names, and nothing else in the namespace has changed. -/
structure BothPresent (world world' : World String) (name : String) : Prop where
  metadata_new : world.kernel.names (name ++ "_meta") = none
  data_new : world.kernel.names (name ++ "_data") = none
  names : world'.kernel.names = Function.update
    (Function.update world.kernel.names (name ++ "_meta") (some world.kernel.objectCount))
    (name ++ "_data") (some (world.kernel.objectCount + 1))
  objects : ∀ object < world.kernel.objectCount,
    world'.kernel.objects object = world.kernel.objects object

/-- Everything that `Create` can do. -/
inductive RingCreated (os : Os) (world : World String) (name : String) (capacityBytes : UInt64)
    (world' : World String) : Option (Except Status BroadcastRingBuffer) → Prop where
  | failed (status : Status) : Restored world world' →
      RingCreated os world name capacityBytes world' (some (.error status))
  | created (ring : BroadcastRingBuffer) : BothPresent world world' name →
      capacityBytes.toNat % os.pageSize = 0 → ring.capacity = capacityBytes →
      IsHeader (world'.kernel.objects world.kernel.objectCount) capacityBytes →
      RingCreated os world name capacityBytes world' (some (.ok ring))

theorem metadata_ne_data (name : String) : name ++ "_meta" ≠ name ++ "_data" := by simp

/-- The header stays mapped while the data segment is made. -/
theorem header_within {first first' fd' : Nat} {fd : Nat}
    (hmetadata : Mapped os (sized world (name ++ "_meta") fd kHeaderSize)
      world.kernel.objectCount kHeaderSize true false first world')
    (hdata : Mapped os (sized world' (name ++ "_data") fd' capacityBytes)
      world'.kernel.objectCount capacityBytes true true first' world'') :
    (world''.kernel.objects world.kernel.objectCount).length = kHeaderSize.toNat ∧
    Within os world'' (first * os.pageSize) kHeaderSize.toNat
      ⟨world.kernel.objectCount, 0, true⟩ := by
  have hlength : (world'.kernel.objects world.kernel.objectCount).length =
      kHeaderSize.toNat := by
    rw [hmetadata.kernel, sized_length]
  have hlt : world.kernel.objectCount < world'.kernel.objectCount := by
    rw [hmetadata.kernel, sized_objectCount]
    exact Nat.lt_succ_self _
  have hsame : world''.kernel.objects world.kernel.objectCount =
      world'.kernel.objects world.kernel.objectCount := by
    rw [hdata.kernel, sized_objects hlt]
  refine ⟨hsame ▸ hlength, ?_⟩
  refine (hmetadata.within (Nat.le_of_eq (by rw [hlength]))).kept
    (fun p page hpage => hdata.page_kept hpage) (by rw [hsame])

theorem ring_create_cases (os : Os) (world : World String) (name : String)
    (capacityBytes : UInt64) (evictTimeoutNs : Int) :
    RingCreated os world name capacityBytes
      (BroadcastRingBuffer.create os world name capacityBytes evictTimeoutNs).2
      (BroadcastRingBuffer.create os world name capacityBytes evictTimeoutNs).1 := by
  unfold BroadcastRingBuffer.create
  have hmeta := create_cases os world (name ++ "_meta") kHeaderSize false
  generalize MemoryMap.create os world (name ++ "_meta") kHeaderSize false = result at hmeta ⊢
  obtain ⟨metadata, world₁⟩ := result
  dsimp only at hmeta
  cases hmeta with
  | failed status hrestored => exact .failed status hrestored
  | created fd first hmetaNew hfd hmetaAlign hmetadata =>
      dsimp only
      have hdata := create_cases os world₁ (name ++ "_data") capacityBytes true
      generalize MemoryMap.create os world₁ (name ++ "_data") capacityBytes true = result
        at hdata ⊢
      obtain ⟨data, world₂⟩ := result
      dsimp only at hdata
      cases hdata with
      | failed status hrestored =>
          exact .failed status (hmetadata.restored_destroyed hmetaAlign hmetaNew hfd hrestored)
      | created fd' first' hdataNew hfd' halign hmapped =>
          obtain ⟨hlength, hwithin⟩ := header_within hmetadata hmapped
          have hstores := storeAll_eq hwithin (headerStores_within capacityBytes)
          have hheader := headerStores_isHeader hlength capacityBytes
          dsimp only
          rw [hstores]
          refine .created _ ⟨hmetaNew, ?_, ?_, fun object hlt => ?_⟩ (halign rfl) rfl ?_
          · rw [hmetadata.kernel, sized_names] at hdataNew
            exact (Function.update_of_ne (metadata_ne_data name).symm ..).symm.trans hdataNew
          · change world₂.kernel.names = _
            rw [hmapped.kernel, sized_names, hmetadata.kernel, sized_names, sized_objectCount]
          · have hlt' : object < world₁.kernel.objectCount := by
              rw [hmetadata.kernel]
              exact Nat.lt_succ_of_lt hlt
            change Function.update world₂.kernel.objects world.kernel.objectCount _ object = _
            rw [Function.update_of_ne (Nat.ne_of_lt hlt), hmapped.kernel, sized_objects hlt',
              hmetadata.kernel, sized_objects hlt]
          · change IsHeader (Function.update world₂.kernel.objects world.kernel.objectCount _
              world.kernel.objectCount) capacityBytes
            rw [Function.update_self]
            exact hheader

/-- What `Create` may leave behind: two new segments and a ring buffer, or nothing at all. -/
def AllOrNothing (world : World String) (name : String) :
    Option (Except Status BroadcastRingBuffer) × World String → Prop
  | (some (.ok _), world') => BothPresent world world' name
  | (some (.error _), world') => Restored world world'
  | (none, _) => False

/-- Whatever calls fail, `Create` makes both segments, or it returns an error and leaves the
namespace, the descriptors and the pages as they were. -/
theorem create_all_or_nothing (os : Os) (world : World String) (name : String)
    (capacityBytes : UInt64) (evictTimeoutNs : Int) :
    AllOrNothing world name
      (BroadcastRingBuffer.create os world name capacityBytes evictTimeoutNs) := by
  have hcreate := ring_create_cases os world name capacityBytes evictTimeoutNs
  generalize BroadcastRingBuffer.create os world name capacityBytes evictTimeoutNs = result
    at hcreate ⊢
  obtain ⟨ring, world'⟩ := result
  dsimp only at hcreate
  cases hcreate with
  | failed status hrestored => exact hrestored
  | created ring hpresent => exact hpresent

/-- `Create` succeeds if it gets both segments. -/
theorem ring_create_ok {metadata data : MemoryMap} {evictTimeoutNs : Int}
    (hmeta : MemoryMap.create os world (name ++ "_meta") kHeaderSize false =
      (.ok metadata, world'))
    (hdata : MemoryMap.create os world' (name ++ "_data") capacityBytes true =
      (.ok data, world'')) :
    ∃ ring created, BroadcastRingBuffer.create os world name capacityBytes evictTimeoutNs =
      (some (.ok ring), created) := by
  have hcreate := ring_create_cases os world name capacityBytes evictTimeoutNs
  unfold BroadcastRingBuffer.create at hcreate ⊢
  rw [hmeta] at hcreate ⊢
  dsimp only at hcreate ⊢
  rw [hdata] at hcreate ⊢
  dsimp only at hcreate ⊢
  cases hstores : storeAll os world'' metadata.addr (headerStores capacityBytes) with
  | none =>
      rw [hstores] at hcreate
      cases hcreate
  | some created => exact ⟨_, _, rfl⟩

end Creating

/-! ## Attaching -/

section Attaching

variable {os os' : Os} {world created later final : World String} {name : String}
  {capacityBytes : UInt64} {evictTimeoutNs : Int} {writable : Bool} {ring : BroadcastRingBuffer}
  {result : Option (Except Status BroadcastRingBuffer)}

/-- The segments that `Create` has made are still there, and so is the capacity in the header.
The process need not be the same. -/
structure Kept (created later : World String) (name : String) : Prop where
  metadata : later.kernel.names (name ++ "_meta") = created.kernel.names (name ++ "_meta")
  data : later.kernel.names (name ++ "_data") = created.kernel.names (name ++ "_data")
  length : ∀ object, created.kernel.names (name ++ "_meta") = some object →
    (later.kernel.objects object).length = (created.kernel.objects object).length
  capacity : ∀ object, created.kernel.names (name ++ "_meta") = some object → ∀ i < 8,
    (later.kernel.objects object).bytes (128 + i) =
      (created.kernel.objects object).bytes (128 + i)

/-- The capacity that `Attach` reads from a header. -/
theorem IsHeader.load_eq {segment : Segment} (h : IsHeader segment capacityBytes) :
    UInt64.ofNat (ofLittleEndian ((List.range 8).map fun i => segment.bytes (128 + i))) =
      capacityBytes := by
  have hlt := capacityBytes.toNat_lt
  rw [h.capacity, ofLittleEndian_toLittleEndian, Nat.mod_eq_of_lt (by omega)]
  exact UInt64.ofNat_toNat

/-- `Create` has left a header, and it is still there. -/
theorem Kept.header (h : Kept created later name) (hpresent : BothPresent world created name)
    (hheader : IsHeader (created.kernel.objects world.kernel.objectCount) capacityBytes) :
    later.kernel.names (name ++ "_meta") = some world.kernel.objectCount ∧
    IsHeader (later.kernel.objects world.kernel.objectCount) capacityBytes := by
  have hname : created.kernel.names (name ++ "_meta") = some world.kernel.objectCount := by
    rw [hpresent.names, Function.update_of_ne (metadata_ne_data name), Function.update_self]
  refine ⟨h.metadata.trans hname, (h.length _ hname).trans hheader.length, ?_⟩
  refine (List.map_congr_left fun i hi => ?_).trans hheader.capacity
  exact h.capacity _ hname i (List.mem_range.mp hi)

/-- `Attach` reads the capacity that `Create` has stored. -/
theorem attach_eq {metadata : MemoryMap} {object : ObjectId}
    (hname : later.kernel.names (name ++ "_meta") = some object)
    (hheader : IsHeader (later.kernel.objects object) capacityBytes)
    (hopen : MemoryMap.open os later (name ++ "_meta") kHeaderSize false false =
      (.ok metadata, world)) :
    BroadcastRingBuffer.attach os later name writable =
      attachData os world name writable metadata capacityBytes := by
  have hopened := open_cases os later (name ++ "_meta") kHeaderSize false false
  rw [hopen] at hopened
  dsimp only at hopened
  cases hopened with
  | opened fd first object hobject _ _ hmapped =>
      obtain rfl := Option.some.inj (hname.symm.trans hobject)
      have hkernel : world.kernel = later.kernel := hmapped.kernel
      have hwithin := hmapped.within (by rw [hkernel, hheader.length])
      have hload := Posix.load_eq (hwithin.part (by decide : 128 + 8 ≤ kHeaderSize.toNat))
        (by decide)
      rw [BroadcastRingBuffer.attach, hopen]
      dsimp only
      rw [hload]
      dsimp only
      rw [Nat.zero_add, hkernel, hheader.load_eq]

/-- A successful `Open` leaves `errno` alone, and so does destroying what it has mapped. -/
theorem opened_errno {map : MemoryMap} {size : UInt64} {readonly useMagicMirror : Bool}
    (hopen : MemoryMap.open os world name size readonly useMagicMirror = (.ok map, later)) :
    later.process.errno = world.process.errno ∧
    ∀ final : World String, final.process.fds = later.process.fds →
      (map.destroy os final).process.errno = final.process.errno := by
  have hopened := open_cases os world name size readonly useMagicMirror
  rw [hopen] at hopened
  dsimp only at hopened
  cases hopened with
  | opened fd first object _ _ halign hmapped =>
      refine ⟨hmapped.errno, fun final hfds => ?_⟩
      have hfd : final.process.fds fd = some ⟨object, !readonly⟩ := by
        rw [hfds, hmapped.fds]
        exact Function.update_self ..
      rw [hmapped.destroy_eq halign hfd]
      rfl

/-- What follows the check of the capacity, if no call fails. -/
theorem attachData_opens_iff {metadata : MemoryMap} (halign : capacityBytes.toNat % os.pageSize = 0)
    (hopen : MemoryMap.open os later (name ++ "_meta") kHeaderSize false false =
      (.ok metadata, world))
    (hattach : attachData os world name writable metadata capacityBytes = (result, final))
    (hcalls : final.process.errno = none) :
    (∃ attached, result = some (.ok attached) ∧ attached.capacity = capacityBytes) ↔
      capacityBytes ≤ 1024 * 1024 * 1024 := by
  unfold attachData Access.attach at hattach
  by_cases hlimit : capacityBytes > 1024 * 1024 * 1024
  · rw [if_pos hlimit] at hattach
    obtain ⟨rfl, -⟩ := Prod.mk.inj hattach
    refine iff_of_false (fun ⟨_, hresult, _⟩ => ?_) (UInt64.not_le.mpr hlimit)
    cases Option.some.inj hresult
  · rw [if_neg hlimit] at hattach
    dsimp only at hattach
    refine iff_of_true ?_ (UInt64.not_lt.mp hlimit)
    have hdata := open_cases os world (name ++ "_data") capacityBytes (!writable) true
    generalize MemoryMap.open os world (name ++ "_data") capacityBytes (!writable) true = opened
      at hdata hattach
    obtain ⟨data, world'⟩ := opened
    dsimp only at hdata
    cases hdata with
    | failed status huntouched hfailed =>
        obtain ⟨-, rfl⟩ := Prod.mk.inj hattach
        rw [(opened_errno hopen).2 _ huntouched.fds] at hcalls
        simp [hcalls, halign] at hfailed
    | opened fd first object =>
        obtain ⟨rfl, -⟩ := Prod.mk.inj hattach
        exact ⟨_, rfl, rfl⟩

/-- `Attach` opens a buffer that `Create` has made, with the capacity that it was made with,
exactly if that is not above 1 GiB. No call of `Attach` fails here. -/
theorem attach_opens_iff
    (hcreate : BroadcastRingBuffer.create os world name capacityBytes evictTimeoutNs =
      (some (.ok ring), created))
    (hkept : Kept created later name) (hpage : os'.pageSize = os.pageSize)
    (hattach : BroadcastRingBuffer.attach os' later name writable = (result, final))
    (hcalls : final.process.errno = none) :
    (∃ attached, result = some (.ok attached) ∧ attached.capacity = ring.capacity) ↔
      capacityBytes ≤ 1024 * 1024 * 1024 := by
  have hcreated := ring_create_cases os world name capacityBytes evictTimeoutNs
  rw [hcreate] at hcreated
  dsimp only at hcreated
  cases hcreated with
  | created _ hpresent halign hcapacity hheader =>
      obtain ⟨hname, hheader⟩ := hkept.header hpresent hheader
      have hmeta := open_cases os' later (name ++ "_meta") kHeaderSize false false
      rcases hopen : MemoryMap.open os' later (name ++ "_meta") kHeaderSize false false with
        ⟨status | metadata, world₁⟩
      · rw [hopen] at hmeta
        rw [BroadcastRingBuffer.attach, hopen] at hattach
        obtain ⟨-, rfl⟩ := Prod.mk.inj hattach
        cases hmeta with
        | failed _ _ hfailed => simp [hcalls] at hfailed
      · rw [attach_eq hname hheader hopen] at hattach
        rw [hcapacity]
        exact attachData_opens_iff (hpage ▸ halign) hopen hattach hcalls

end Attaching

/-! ## Buffers of two sizes -/

/-- A kernel that grants every call of `Create`. -/
def creatorOs : Os :=
  plainOs [.grant 3, .grant 0, .grant 16, .grant 4, .grant 0, .grant 32, .grant 0, .grant 0]

/-- A kernel that grants every call of `Attach`. -/
def attachOs : Os :=
  plainOs [.grant 3, .grant 16, .grant 4, .grant 32, .grant 0, .grant 0]

/-- The metadata segment of the new buffer. -/
theorem metadata_created : ∃ metadata world,
    MemoryMap.create creatorOs noSegments ("/ring" ++ "_meta") kHeaderSize false =
      (.ok metadata, world) ∧
    world.calls = 3 ∧ world.process.fds 4 = none ∧
    world.kernel.names ("/ring" ++ "_data") = none ∧
    ∀ p, 17 ≤ p → world.process.pages p = none := by
  refine ⟨_, _, rfl, rfl, rfl, rfl, fun p hp => if_neg ?_⟩
  change ¬ (16 ≤ p ∧ p < 17)
  omega

/-- Any page-aligned capacity that the address space has room for will do. -/
theorem ring_created {capacityBytes : UInt64} (hpos : 0 < capacityBytes.toNat)
    (halign : capacityBytes.toNat % 4096 = 0) (hsize : capacityBytes.toNat ≤ 2 ^ 40) :
    ∃ ring created,
      BroadcastRingBuffer.create creatorOs noSegments "/ring" capacityBytes 500000000 =
        (some (.ok ring), created) := by
  obtain ⟨metadata, world₁, hmeta, hcalls, hfd, hname, hpages⟩ := metadata_created
  have hcount : creatorOs.pageCount capacityBytes.toNat * 4096 = capacityBytes.toNat :=
    Os.pageCount_mul halign
  have hroom : Room creatorOs world₁.process capacityBytes true 32 := by
    refine ⟨hpos, fun _ => halign, by decide, ?_, fun i _ => hpages _ (by omega)⟩
    change (32 + 2 * _) * 4096 ≤ 2 ^ 47
    omega
  obtain ⟨world₂, hdata, -⟩ := create_granted hname hfd hroom (by rw [hcalls]; rfl)
    (by rw [hcalls]; rfl) (by rw [hcalls]; rfl) (by rw [hcalls]; rfl) (by rw [hcalls]; rfl)
  exact ring_create_ok hmeta hdata

/-- Another process opens the metadata segment. -/
theorem metadata_opened {kernel : Kernel String} {object : ObjectId}
    (hname : kernel.names ("/ring" ++ "_meta") = some object) : ∃ metadata world,
    MemoryMap.open attachOs { kernel := kernel } ("/ring" ++ "_meta") kHeaderSize false false =
      (.ok metadata, world) ∧
    world.calls = 2 ∧ world.kernel = kernel ∧ world.process.fds 4 = none ∧
    ∀ p, 17 ≤ p → world.process.pages p = none := by
  have hroom : Room attachOs ({} : Posix.Process) kHeaderSize false 16 :=
    ⟨by decide, (fun h => nomatch h), by decide, by decide, fun _ _ => rfl⟩
  have hopened : ∃ world, MemoryMap.open attachOs { kernel := kernel } ("/ring" ++ "_meta")
      kHeaderSize false false = (.ok _, world) ∧ _ :=
    open_granted hname rfl hroom rfl rfl rfl rfl
  obtain ⟨world, hopen, hcalls⟩ := hopened
  refine ⟨_, world, hopen, hcalls, ?_⟩
  have hopened := open_cases attachOs { kernel := kernel } ("/ring" ++ "_meta") kHeaderSize false
    false
  rw [hopen] at hopened
  dsimp only at hopened
  generalize hmap : Except.ok _ = map at hopened
  cases hopened with
  | failed => cases hmap
  | opened fd first object _ _ _ hmapped =>
      simp only [Except.ok.injEq, MemoryMap.mk.injEq, Int.natCast_inj, true_and, and_true] at hmap
      obtain ⟨rfl, hfirst⟩ := hmap
      obtain rfl := Nat.eq_of_mul_eq_mul_right (by decide) hfirst
      refine ⟨hmapped.kernel, by rw [hmapped.fds]; rfl, fun p hp => ?_⟩
      rw [hmapped.pages, if_neg]
      · rfl
      · change ¬ (16 ≤ p ∧ p < 17)
        omega

/-- The segments of the new buffer. -/
theorem ring_segments {capacityBytes : UInt64} {ring : BroadcastRingBuffer}
    {created : World String}
    (hcreate : BroadcastRingBuffer.create creatorOs noSegments "/ring" capacityBytes 500000000 =
      (some (.ok ring), created)) :
    created.kernel.names ("/ring" ++ "_meta") = some 0 ∧
    created.kernel.names ("/ring" ++ "_data") = some 1 ∧
    IsHeader (created.kernel.objects 0) capacityBytes := by
  have hcreated := ring_create_cases creatorOs noSegments "/ring" capacityBytes 500000000
  rw [hcreate] at hcreated
  dsimp only at hcreated
  cases hcreated with
  | created _ hpresent _ _ hheader =>
      refine ⟨?_, ?_, hheader⟩
      · rw [hpresent.names, Function.update_of_ne (metadata_ne_data _), Function.update_self]
        rfl
      · rw [hpresent.names, Function.update_self]
        rfl

/-- A consumer and a recovering producer open a buffer of one page. -/
theorem page_ring_attached : ∃ ring created,
    BroadcastRingBuffer.create creatorOs noSegments "/ring" 4096 500000000 =
      (some (.ok ring), created) ∧
    ∀ writable, ∃ attached final,
      BroadcastRingBuffer.attach attachOs { kernel := created.kernel } "/ring" writable =
        (some (.ok attached), final) ∧ attached.capacity = ring.capacity := by
  have hpos : 0 < (4096 : UInt64).toNat := by decide
  obtain ⟨ring, created, hcreate⟩ := ring_created hpos (by decide) (by decide)
  refine ⟨ring, created, hcreate, fun writable => ?_⟩
  obtain ⟨hmeta, hdata, hheader⟩ := ring_segments hcreate
  obtain ⟨metadata, world, hopen, hcalls, hkernel, hfd, hpages⟩ := metadata_opened hmeta
  have hroom : Room attachOs world.process 4096 true 32 :=
    ⟨by decide, fun _ => by decide, by decide, by decide, fun i _ => hpages _ (by omega)⟩
  rw [← hkernel] at hdata
  have hopened : ∃ final, MemoryMap.open attachOs world ("/ring" ++ "_data") 4096 (!writable) true =
      (.ok _, final) ∧ _ :=
    open_granted hdata hfd hroom (by rw [hcalls]; rfl) (by rw [hcalls]; rfl) (by rw [hcalls]; rfl)
      (by rw [hcalls]; rfl)
  obtain ⟨final, hopen', -⟩ := hopened
  have hattach : BroadcastRingBuffer.attach attachOs { kernel := created.kernel } "/ring" writable =
    _ := attach_eq hmeta hheader hopen
  have hlimit : ¬ (4096 : UInt64) > 1024 * 1024 * 1024 := by decide
  rw [attachData, Access.attach, if_neg hlimit] at hattach
  dsimp only at hattach
  rw [hopen'] at hattach
  have herrno : final.process.errno = none := by
    rw [(opened_errno hopen').1, (opened_errno hopen).1]
  have hkept : Kept created { kernel := created.kernel } "/ring" :=
    ⟨rfl, rfl, fun _ _ => rfl, fun _ _ _ _ => rfl⟩
  have hpage : attachOs.pageSize = creatorOs.pageSize := rfl
  obtain ⟨attached, hresult, hcapacity⟩ :=
    (attach_opens_iff hcreate hkept hpage hattach herrno).mpr (by decide)
  exact ⟨attached, final, hattach.trans (Prod.ext hresult rfl), hcapacity⟩

/-- `Create` makes a buffer of one page more than 1 GiB, and `Attach` calls it corrupted. -/
theorem large_ring_refused : ∃ ring created,
    BroadcastRingBuffer.create creatorOs noSegments "/ring" 1073745920 500000000 =
      (some (.ok ring), created) ∧
    ∀ writable, ∃ status final,
      BroadcastRingBuffer.attach attachOs { kernel := created.kernel } "/ring" writable =
        (some (.error status), final) ∧
      status.code = .dataLoss ∧ final.process.errno = none := by
  have hpos : 0 < (1073745920 : UInt64).toNat := by decide
  obtain ⟨ring, created, hcreate⟩ := ring_created hpos (by decide) (by decide)
  refine ⟨ring, created, hcreate, fun writable => ?_⟩
  obtain ⟨hmeta, -, hheader⟩ := ring_segments hcreate
  obtain ⟨metadata, world, hopen, -⟩ := metadata_opened hmeta
  have hattach : BroadcastRingBuffer.attach attachOs { kernel := created.kernel } "/ring" writable =
    _ := attach_eq hmeta hheader hopen
  have hlimit : (1073745920 : UInt64) > 1024 * 1024 * 1024 := by decide
  rw [attachData, Access.attach, if_pos hlimit] at hattach
  refine ⟨_, _, hattach, rfl, ?_⟩
  rw [(opened_errno hopen).2 world rfl, (opened_errno hopen).1]

end HotPath.SharedMemory
