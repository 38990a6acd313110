import HotPath.Foundation.CircularBytes

/-!
# Layout of the shared segments

The two segments of a `BroadcastRingBuffer`: `BroadcastHeader` with its reader slots in the
metadata segment, and the frames in the data segment. A `FrameHeader` occupies 24 bytes: the
version word at offset 0, the length at 4, the type at 8, four bytes of padding, and the
timestamp at 16. The payload follows, padded to a multiple of 8.

The data segment is mapped twice in a row (the magic mirror), so a frame that starts near the end
of the buffer continues at its beginning. Frames are named by the address of their first byte.
Clock readings, heartbeats and timeouts are nanosecond counts and stand as integers; the code
holds them in `int64_t`, whose overflow is undefined.
-/

namespace HotPath.SharedMemory

open HotPath.Foundation

/-- The status codes that the ring buffer answers with. -/
inductive StatusCode where
  | permissionDenied
  | invalidArgument
  | alreadyExists
  | resourceExhausted
  | notFound
  | dataLoss
  | internal
  deriving DecidableEq, Repr

/-- An error status with its message. -/
structure Status where
  code : StatusCode
  message : String
  deriving DecidableEq, Repr

/-! ## The metadata segment -/

/-- `kMaxReaders`. -/
abbrev kMaxReaders : Nat := 16

/-- The roster has a first slot. -/
instance : NeZero kMaxReaders := ⟨by decide⟩

/-- A slot of the consumer roster. The process id that `RegisterReader` also stores is never
read. -/
structure ReaderSlot where
  active : Bool := false
  cursor : UInt64 := 0
  heartbeatTs : Int := 0
  generationId : UInt32 := 0
  deriving DecidableEq, Repr

/-- The shared cursors and the consumer roster. -/
structure BroadcastHeader where
  producerCursor : UInt64 := 0
  commitCursor : UInt64 := 0
  readers : Fin kMaxReaders → ReaderSlot := fun _ => {}

/-- A consumer's local handle. A `slotIndex` of `none` is the `-1` of an unregistered reader. -/
structure BroadcastReader where
  cursor : UInt64 := 0
  slotIndex : Option (Fin kMaxReaders) := none
  generationId : UInt32 := 0
  deriving DecidableEq, Repr

/-! ## Frame sizes -/

/-- `sizeof(FrameHeader)`. -/
def kFrameHeaderSize : Nat := 24

/-- `FrameHeader::AlignedPayloadSize` of a payload length, in 32-bit arithmetic. -/
def alignedPayloadSize (length : UInt32) : UInt32 :=
  (length + 7) &&& ~~~7

/-- `FrameHeader::TotalFrameSize`: the sum is taken in `size_t` and truncated to 32 bits. -/
def totalFrameSize (length : UInt32) : UInt32 :=
  UInt32.ofNat (kFrameHeaderSize + (alignedPayloadSize length).toNat)

/-- The `required_space` of `Reserve`, in 64-bit arithmetic. -/
def requiredSpace (payloadSize : UInt32) : UInt64 :=
  UInt64.ofNat kFrameHeaderSize + (alignedPayloadSize payloadSize).toUInt64

/-- Clearing the three low bits rounds down to a multiple of 8. -/
theorem and_not_seven_toNat (word : UInt32) : (word &&& ~~~7).toNat = word.toNat / 8 * 8 := by
  have hmask : (~~~(7 : UInt32)).toNat = (2 ^ 29 - 1) <<< 3 := by decide
  have hshift : word.toNat &&& (2 ^ 29 - 1) <<< 3 =
      (word.toNat / 2 ^ 3 &&& 2 ^ 29 - 1) <<< 3 := by
    apply Nat.eq_of_testBit_eq
    intro i
    rw [Nat.testBit_and, Nat.testBit_shiftLeft, Nat.testBit_shiftLeft, Nat.testBit_and,
      Nat.testBit_div_two_pow]
    by_cases hi : 3 ≤ i <;> simp [hi]
  have hword := word.toNat_lt
  rw [UInt32.toNat_and, hmask, hshift, Nat.and_two_pow_sub_one_eq_mod, Nat.mod_eq_of_lt (by omega)]
  exact Nat.shiftLeft_eq _ 3

/-- The aligned size of a payload that leaves room for the rounding. -/
theorem alignedPayloadSize_toNat {length : UInt32} (h : length.toNat ≤ 2 ^ 32 - 8) :
    (alignedPayloadSize length).toNat = (length.toNat + 7) / 8 * 8 := by
  rw [alignedPayloadSize, and_not_seven_toNat, UInt32.toNat_add]
  simp only [UInt32.reduceToNat]
  rw [Nat.mod_eq_of_lt (by omega)]

/-- The space that `Reserve` asks for never overflows 64 bits. -/
theorem requiredSpace_toNat (payloadSize : UInt32) :
    (requiredSpace payloadSize).toNat =
      kFrameHeaderSize + (alignedPayloadSize payloadSize).toNat := by
  have h := (alignedPayloadSize payloadSize).toNat_lt
  simp only [requiredSpace, kFrameHeaderSize, UInt64.toNat_add, UInt32.toNat_toUInt64,
    UInt64.reduceOfNat, UInt64.reduceToNat]
  omega

/-- The size a reader computes is the size the producer reserved, when it fits in 32 bits. -/
theorem totalFrameSize_toNat {length : UInt32} (h : (requiredSpace length).toNat < 2 ^ 32) :
    (totalFrameSize length).toNat = (requiredSpace length).toNat := by
  rw [requiredSpace_toNat] at h ⊢
  rw [totalFrameSize, UInt32.toNat_ofNat']
  exact Nat.mod_eq_of_lt h

/-- A frame holds its header and its payload. -/
theorem payload_fits {length : UInt32} (h : length.toNat ≤ 2 ^ 32 - 8) :
    kFrameHeaderSize + length.toNat ≤ (requiredSpace length).toNat := by
  rw [requiredSpace_toNat, alignedPayloadSize_toNat h]
  omega

/-- Every frame is larger than its header's last field. -/
theorem header_fits (length : UInt32) : kFrameHeaderSize ≤ (requiredSpace length).toNat := by
  rw [requiredSpace_toNat]
  omega

/-! ## The data segment -/

/-- The fields that a poll fills in `header_out`, and that `Reserve` writes after the version
word. -/
structure FrameHeader where
  length : UInt32
  type : UInt32
  timestamp : Int64
  deriving DecidableEq, Repr

/-- A self-contained copy of a message. -/
structure SafeMessage where
  type : UInt32
  timestamp : Int64
  payload : List UInt8
  deriving DecidableEq

variable (capacity : UInt64) (data : Nat → UInt8) (frame : Nat)

/-- Load the version word of a frame. -/
def loadVersion : UInt32 := UInt32.ofNat (loadWord capacity.toNat data 4 frame)

/-- Load the length field of a frame. -/
def loadLength : UInt32 := UInt32.ofNat (loadWord capacity.toNat data 4 (frame + 4))

/-- Load the type field of a frame. -/
def loadType : UInt32 := UInt32.ofNat (loadWord capacity.toNat data 4 (frame + 8))

/-- Load the timestamp field of a frame. -/
def loadTimestamp : Int64 :=
  (UInt64.ofNat (loadWord capacity.toNat data 8 (frame + 16))).toInt64

/-- Load the payload bytes of a frame. -/
def loadPayload (length : Nat) : List UInt8 :=
  loadBytes capacity.toNat data length (frame + kFrameHeaderSize)

/-- Store the version word of a frame. -/
def storeVersion (value : UInt32) : Nat → UInt8 :=
  storeWord capacity.toNat data 4 frame value.toNat

/-- Store the length field of a frame. -/
def storeLength (value : UInt32) : Nat → UInt8 :=
  storeWord capacity.toNat data 4 (frame + 4) value.toNat

/-- Store the type field of a frame. -/
def storeType (value : UInt32) : Nat → UInt8 :=
  storeWord capacity.toNat data 4 (frame + 8) value.toNat

/-- Store the timestamp field of a frame. -/
def storeTimestamp (value : Int64) : Nat → UInt8 :=
  storeWord capacity.toNat data 8 (frame + 16) value.toUInt64.toNat

/-- The header stores of `Reserve`: the version word is made odd, then the fields follow. -/
def writeHeader (payloadSize typeId : UInt32) (timestamp : Int64) : Nat → UInt8 :=
  let data := storeVersion capacity data frame (loadVersion capacity data frame ||| 1)
  let data := storeLength capacity data frame payloadSize
  let data := storeType capacity data frame typeId
  storeTimestamp capacity data frame timestamp

/-- The address of the frame at a stream position: `data_buffer_ + cursor % capacity_`. -/
def frameAddress (cursor : UInt64) : Nat := (cursor % capacity).toNat

variable {capacity data frame}

/-- A load outside a header does not see the header stores. -/
theorem loadBytes_writeHeader_apart {payloadSize typeId : UInt32} {timestamp : Int64}
    {count target : Nat} (h : Apart capacity.toNat target count frame kFrameHeaderSize) :
    loadBytes capacity.toNat (writeHeader capacity data frame payloadSize typeId timestamp) count
        target =
      loadBytes capacity.toNat data count target := by
  have hfield : ∀ offset width, offset + width ≤ kFrameHeaderSize →
      Apart capacity.toNat target count (frame + offset) width := fun offset width hle =>
    h.mono (by omega) (by omega) (by omega) (by omega)
  simp only [writeHeader, storeVersion, storeLength, storeType, storeTimestamp]
  rw [loadBytes_storeWord_apart (hfield 16 8 (by decide)),
    loadBytes_storeWord_apart (hfield 8 4 (by decide)),
    loadBytes_storeWord_apart (hfield 4 4 (by decide)),
    loadBytes_storeWord_apart (by simpa using hfield 0 4 (by decide))]

/-- The address of a frame is its stream position modulo the capacity. -/
theorem frameAddress_eq (capacity cursor : UInt64) :
    frameAddress capacity cursor = cursor.toNat % capacity.toNat := by
  simp [frameAddress]

/-! ## Stored frames -/

variable (capacity data) in
/-- The fields of a header are stored at a position. -/
structure HeaderStored (position : Nat) (header : FrameHeader) : Prop where
  length : loadLength capacity data position = header.length
  type : loadType capacity data position = header.type
  timestamp : loadTimestamp capacity data position = header.timestamp

/-- The header that announces a message. -/
def SafeMessage.header (message : SafeMessage) : FrameHeader :=
  ⟨UInt32.ofNat message.payload.length, message.type, message.timestamp⟩

variable (capacity data) in
/-- A finished frame with the message is stored at a position: its version word is even. -/
structure FrameStored (position : Nat) (message : SafeMessage) : Prop where
  even : loadVersion capacity data position &&& 1 = 0
  header : HeaderStored capacity data position message.header
  payload : loadPayload capacity data position message.payload.length = message.payload

/-- A position and its address hold the same version word. -/
theorem loadVersion_mod (position : Nat) :
    loadVersion capacity data (position % capacity.toNat) = loadVersion capacity data position :=
  congrArg UInt32.ofNat (loadWord_mod_add 4 position 0)

theorem loadLength_mod (position : Nat) :
    loadLength capacity data (position % capacity.toNat) = loadLength capacity data position :=
  congrArg UInt32.ofNat (loadWord_mod_add 4 position 4)

theorem loadType_mod (position : Nat) :
    loadType capacity data (position % capacity.toNat) = loadType capacity data position :=
  congrArg UInt32.ofNat (loadWord_mod_add 4 position 8)

theorem loadTimestamp_mod (position : Nat) :
    loadTimestamp capacity data (position % capacity.toNat) =
      loadTimestamp capacity data position :=
  congrArg (fun word => (UInt64.ofNat word).toInt64) (loadWord_mod_add 8 position 16)

theorem storeVersion_mod (position : Nat) (value : UInt32) :
    storeVersion capacity data (position % capacity.toNat) value =
      storeVersion capacity data position value :=
  storeWord_mod_add 4 position 0 value.toNat

theorem storeLength_mod (position : Nat) (value : UInt32) :
    storeLength capacity data (position % capacity.toNat) value =
      storeLength capacity data position value :=
  storeWord_mod_add 4 position 4 value.toNat

theorem storeType_mod (position : Nat) (value : UInt32) :
    storeType capacity data (position % capacity.toNat) value =
      storeType capacity data position value :=
  storeWord_mod_add 4 position 8 value.toNat

theorem storeTimestamp_mod (position : Nat) (value : Int64) :
    storeTimestamp capacity data (position % capacity.toNat) value =
      storeTimestamp capacity data position value :=
  storeWord_mod_add 8 position 16 value.toUInt64.toNat

theorem loadPayload_mod (position length : Nat) :
    loadPayload capacity data (position % capacity.toNat) length =
      loadPayload capacity data position length :=
  loadBytes_mod_add length position kFrameHeaderSize

/-- A position and its address hold the same header. -/
theorem headerStored_mod {position : Nat} {header : FrameHeader} :
    HeaderStored capacity data (position % capacity.toNat) header ↔
      HeaderStored capacity data position header := by
  constructor
  · rintro ⟨hlength, htype, htimestamp⟩
    exact ⟨loadLength_mod position ▸ hlength, loadType_mod position ▸ htype,
      loadTimestamp_mod position ▸ htimestamp⟩
  · rintro ⟨hlength, htype, htimestamp⟩
    exact ⟨(loadLength_mod position).trans hlength, (loadType_mod position).trans htype,
      (loadTimestamp_mod position).trans htimestamp⟩

/-- Header fields depend on their bytes only. -/
theorem HeaderStored.congr {position : Nat} {header : FrameHeader} {other : Nat → UInt8}
    (h : HeaderStored capacity data position header)
    (hbytes : ∀ i, 4 ≤ i → i < kFrameHeaderSize →
      byteAt capacity.toNat other (position + i) = byteAt capacity.toNat data (position + i)) :
    HeaderStored capacity other position header := by
  have hfield : ∀ offset width, 4 ≤ offset → offset + width ≤ kFrameHeaderSize →
      loadWord capacity.toNat other width (position + offset) =
        loadWord capacity.toNat data width (position + offset) := by
    intro offset width hlow hhigh
    refine loadWord_congr (loadBytes_congr fun i hi => ?_)
    simpa [Nat.add_assoc] using hbytes (offset + i) (by omega) (by omega)
  refine ⟨?_, ?_, ?_⟩
  · rw [← h.length, loadLength, loadLength, hfield 4 4 (by decide) (by decide)]
  · rw [← h.type, loadType, loadType, hfield 8 4 (by decide) (by decide)]
  · rw [← h.timestamp, loadTimestamp, loadTimestamp, hfield 16 8 (by decide) (by decide)]

/-- A stored frame depends on its bytes only. -/
theorem FrameStored.congr {position : Nat} {message : SafeMessage} {other : Nat → UInt8}
    (h : FrameStored capacity data position message)
    (hbytes : ∀ i < kFrameHeaderSize + message.payload.length,
      byteAt capacity.toNat other (position + i) = byteAt capacity.toNat data (position + i)) :
    FrameStored capacity other position message := by
  have hheader : ∀ i < kFrameHeaderSize,
      byteAt capacity.toNat other (position + i) = byteAt capacity.toNat data (position + i) :=
    fun i hi => hbytes i (by omega)
  refine ⟨?_, h.header.congr fun i _ hi => hheader i hi, ?_⟩
  · rw [← h.even, loadVersion, loadVersion,
      loadWord_congr (loadBytes_congr fun i hi =>
        hheader i (by simp only [kFrameHeaderSize]; omega))]
  · refine Eq.trans (loadBytes_congr fun i hi => ?_) h.payload
    simpa [Nat.add_assoc] using hbytes (kFrameHeaderSize + i) (by omega)

/-! ## What the producer's stores leave -/

/-- One more than `version | 1` is even. -/
theorem version_even (version : UInt32) : ((version ||| 1) + 1) &&& 1 = 0 := by
  have hodd : (version.toNat ||| 1) % 2 = 1 := by simp
  apply UInt32.toNat_inj.mp
  simp [UInt32.toNat_or, UInt32.toNat_add]
  omega

/-- A word of four bytes holds a 32-bit value. -/
theorem ofNat_mod_word (value : UInt32) : UInt32.ofNat (value.toNat % 256 ^ 4) = value := by
  have hlt : value.toNat < 256 ^ 4 := value.toNat_lt
  rw [Nat.mod_eq_of_lt hlt, UInt32.ofNat_toNat]

/-- A word of eight bytes holds a 64-bit value. -/
theorem ofNat_mod_long (value : UInt64) : UInt64.ofNat (value.toNat % 256 ^ 8) = value := by
  have hlt : value.toNat < 256 ^ 8 := value.toNat_lt
  rw [Nat.mod_eq_of_lt hlt, UInt64.ofNat_toNat]

section Stores

variable {position : Nat}

/-- Storing the version word leaves the rest of the frame. -/
theorem byteAt_storeVersion {value : UInt32} {i : Nat} (hlow : 4 ≤ i) (hhigh : i < capacity.toNat) :
    byteAt capacity.toNat (storeVersion capacity data position value) (position + i) =
      byteAt capacity.toNat data (position + i) :=
  byteAt_storeBytes_apart (Apart.of_window (by simpa using hlow) (by omega)).symm

/-- Writing the payload leaves the header of its frame. -/
theorem byteAt_storePayload {payload : List UInt8} {i : Nat} (hi : i < kFrameHeaderSize)
    (hfits : kFrameHeaderSize + payload.length ≤ capacity.toNat) :
    byteAt capacity.toNat (storeBytes capacity.toNat data (position + kFrameHeaderSize) payload)
        (position + i) = byteAt capacity.toNat data (position + i) :=
  byteAt_storeBytes_apart (Apart.of_window (by omega) (by omega))

variable (hcap : kFrameHeaderSize ≤ capacity.toNat)
include hcap

/-- A stored version word reads back. -/
theorem loadVersion_storeVersion (value : UInt32) :
    loadVersion capacity (storeVersion capacity data position value) position = value := by
  rw [loadVersion, storeVersion,
    loadWord_storeWord_same (by unfold kFrameHeaderSize at hcap; omega),
    ofNat_mod_word]

/-- Storing a field of a header leaves the fields before it. -/
theorem loadWord_storeWord_field (offset : Nat) {width offset' width' value : Nat}
    (hbefore : offset + width ≤ offset') (hend : offset' + width' ≤ kFrameHeaderSize) :
    loadWord capacity.toNat (storeWord capacity.toNat data width' (position + offset') value) width
        (position + offset) =
      loadWord capacity.toNat data width (position + offset) :=
  loadWord_storeWord_apart (Apart.of_window (by omega) (by omega))

/-- The fields that follow the version word leave it alone. -/
theorem loadVersion_storeLength (value : UInt32) :
    loadVersion capacity (storeLength capacity data position value) position =
      loadVersion capacity data position :=
  congrArg UInt32.ofNat (loadWord_storeWord_field hcap 0 (by decide) (by decide))

theorem loadVersion_storeType (value : UInt32) :
    loadVersion capacity (storeType capacity data position value) position =
      loadVersion capacity data position :=
  congrArg UInt32.ofNat (loadWord_storeWord_field hcap 0 (by decide) (by decide))

theorem loadVersion_storeTimestamp (value : Int64) :
    loadVersion capacity (storeTimestamp capacity data position value) position =
      loadVersion capacity data position :=
  congrArg UInt32.ofNat (loadWord_storeWord_field hcap 0 (by decide) (by decide))

/-- A stored length reads back, also after the fields that follow it. -/
theorem loadLength_storeLength (value : UInt32) :
    loadLength capacity (storeLength capacity data position value) position = value := by
  unfold kFrameHeaderSize at hcap
  rw [loadLength, storeLength, loadWord_storeWord_same (by omega), ofNat_mod_word]

theorem loadLength_storeType (value : UInt32) :
    loadLength capacity (storeType capacity data position value) position =
      loadLength capacity data position :=
  congrArg UInt32.ofNat (loadWord_storeWord_field hcap _ (by decide) (by decide))

theorem loadLength_storeTimestamp (value : Int64) :
    loadLength capacity (storeTimestamp capacity data position value) position =
      loadLength capacity data position :=
  congrArg UInt32.ofNat (loadWord_storeWord_field hcap _ (by decide) (by decide))

/-- A stored type reads back, also after the timestamp. -/
theorem loadType_storeType (value : UInt32) :
    loadType capacity (storeType capacity data position value) position = value := by
  unfold kFrameHeaderSize at hcap
  rw [loadType, storeType, loadWord_storeWord_same (by omega), ofNat_mod_word]

theorem loadType_storeTimestamp (value : Int64) :
    loadType capacity (storeTimestamp capacity data position value) position =
      loadType capacity data position :=
  congrArg UInt32.ofNat (loadWord_storeWord_field hcap _ (by decide) (by decide))

/-- A stored timestamp reads back. -/
theorem loadTimestamp_storeTimestamp (value : Int64) :
    loadTimestamp capacity (storeTimestamp capacity data position value) position = value := by
  unfold kFrameHeaderSize at hcap
  rw [loadTimestamp, storeTimestamp, loadWord_storeWord_same (by omega), ofNat_mod_long,
    Int64.toInt64_toUInt64]

/-- The header stores of `Reserve` leave an odd version word and the fields of the header. -/
theorem writeHeader_stored (data : Nat → UInt8) (position : Nat) (payloadSize typeId : UInt32)
    (timestamp : Int64) :
    loadVersion capacity (writeHeader capacity data position payloadSize typeId timestamp)
        position = loadVersion capacity data position ||| 1 ∧
      HeaderStored capacity (writeHeader capacity data position payloadSize typeId timestamp)
        position ⟨payloadSize, typeId, timestamp⟩ := by
  simp only [writeHeader]
  refine ⟨?_, ?_, ?_, ?_⟩
  · rw [loadVersion_storeTimestamp hcap, loadVersion_storeType hcap, loadVersion_storeLength hcap,
      loadVersion_storeVersion hcap]
  · rw [loadLength_storeTimestamp hcap, loadLength_storeType hcap, loadLength_storeLength hcap]
  · rw [loadType_storeTimestamp hcap, loadType_storeType hcap]
  · rw [loadTimestamp_storeTimestamp hcap]

end Stores

end HotPath.SharedMemory
