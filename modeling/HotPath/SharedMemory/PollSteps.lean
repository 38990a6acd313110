import HotPath.SharedMemory.ProducerSteps

/-!
# Single loads of `PollCopy`

`PollCopy` with every load of shared memory as one step, next to the producer of `ProducerSteps`.
The payload is copied byte by byte. The retry counter of the source is left out: both branches of
its comparison with `kMaxRetries` go on with the loop.
-/

namespace HotPath.SharedMemory.Access

open HotPath.Foundation

/-- The program points of `PollCopy`, named by the load that comes next. -/
inductive PollPc where
  | idle
  | loadCommit
  | loadProducer
  | loadVersionBefore
  | loadLength (version : UInt32)
  | loadHeaderType (version length : UInt32)
  | loadHeaderTimestamp (version length : UInt32)
  | loadMessageType (version length : UInt32)
  | loadMessageTimestamp (version length : UInt32)
  | copyPayload (version length : UInt32)
  | loadVersionAfter (version : UInt32)
  | returned (result : Except Status Unit)

/-- A call of `PollCopy`: the cursor of its reader, its output parameters and its program
point. -/
structure Poll where
  current : UInt64 := 0
  headerOut : FrameHeader := ⟨0, 0, 0⟩
  msgOut : SafeMessage := ⟨0, 0, []⟩
  pc : PollPc := .idle

/-- Go on to another program point. -/
def Poll.goto (poll : Poll) (pc : PollPc) : Poll := { poll with pc }

/-- The next load of the call. -/
def Poll.load (capacity : UInt64) (shared : Shared) (poll : Poll) : Option Poll :=
  let frame := frameAddress capacity poll.current
  match poll.pc with
  | .idle | .returned _ => none
  | .loadCommit =>
      if poll.current ≥ shared.header.commitCursor then
        some (poll.goto (.returned (.error ⟨.notFound, "No data"⟩)))
      else
        some (poll.goto .loadProducer)
  | .loadProducer =>
      if shared.header.producerCursor - poll.current > capacity then
        some (poll.goto (.returned
          (.error ⟨.resourceExhausted, "Consumer was evicted and lapped"⟩)))
      else
        some (poll.goto .loadVersionBefore)
  | .loadVersionBefore =>
      let version := loadVersion capacity shared.data frame
      if version &&& 1 ≠ 0 then some (poll.goto .loadProducer)
      else some (poll.goto (.loadLength version))
  | .loadLength version =>
      let length := loadLength capacity shared.data frame
      if length.toUInt64 > capacity then
        some (poll.goto (.returned (.error ⟨.dataLoss, "Corrupt frame length detected"⟩)))
      else
        some (poll.goto (.loadHeaderType version length))
  | .loadHeaderType version length =>
      some { poll with
        headerOut := { poll.headerOut with type := loadType capacity shared.data frame }
        pc := .loadHeaderTimestamp version length }
  | .loadHeaderTimestamp version length =>
      some { poll with
        headerOut := { poll.headerOut with
          timestamp := loadTimestamp capacity shared.data frame
          length := length }
        pc := .loadMessageType version length }
  | .loadMessageType version length =>
      some { poll with
        msgOut := { poll.msgOut with type := loadType capacity shared.data frame }
        pc := .loadMessageTimestamp version length }
  | .loadMessageTimestamp version length =>
      some { poll with
        msgOut := { poll.msgOut with
          timestamp := loadTimestamp capacity shared.data frame
          payload := [] }
        pc := .copyPayload version length }
  | .copyPayload version length =>
      let copied := poll.msgOut.payload.length
      if copied < length.toNat then
        some { poll with msgOut := { poll.msgOut with
          payload := poll.msgOut.payload ++
            [byteAt capacity.toNat shared.data (frame + kFrameHeaderSize + copied)] } }
      else
        some (poll.goto (.loadVersionAfter version))
  | .loadVersionAfter version =>
      if version = loadVersion capacity shared.data frame then
        some (poll.goto (.returned (.ok ())))
      else
        some (poll.goto .loadProducer)

/-! ## The system -/

/-- The producer with one consumer that polls. -/
structure Reading where
  machine : Machine
  poll : Poll

/-- The producer's steps, the calls of `PollCopy` and their loads. -/
inductive ReadEvent where
  | producer (event : Event)
  | pollCopy (cursor : UInt64)
  | load

/-- The consumer has no call open. -/
def Poll.ready (poll : Poll) : Bool :=
  match poll.pc with
  | .idle | .returned _ => true
  | _ => false

/-- One step. A call starts with the cursor of its reader. -/
def readStep (cfg : Config) (reading : Reading) : ReadEvent → Option Reading
  | .producer event => (step cfg reading.machine event).map fun machine => { reading with machine }
  | .pollCopy cursor =>
      if reading.poll.ready then
        some { reading with poll := { reading.poll with current := cursor, pc := .loadCommit } }
      else none
  | .load => (reading.poll.load cfg.capacity reading.machine.shared).map fun poll =>
      { reading with poll }

/-- The producer and a polling consumer as a transition system. -/
def reading (cfg : Config) : System Reading ReadEvent where
  init reading := ∃ clock, reading = ⟨created cfg clock, {}⟩
  step := readStep cfg

end HotPath.SharedMemory.Access
