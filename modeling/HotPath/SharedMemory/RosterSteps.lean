import HotPath.SharedMemory.ProducerSteps

/-!
# Single accesses of the consumers to the roster

`RegisterReader`, `UnregisterReader` and `Advance` with every access to a reader slot as one step,
next to the producer of `ProducerSteps`. Reading the clock is a step of its own, since the value
is stored later. A `Client` is a consumer's handle together with the program point of its open
call; there are any number of them. `Client.access_cases` says what an access can do.
-/

namespace HotPath.SharedMemory.Access

open HotPath.Foundation

/-- The program points of the roster calls, named by the access that comes next. -/
inductive ClientPc where
  | idle
  | claimSlot (slots : List (Fin kMaxReaders))
  | bumpGeneration (index : Fin kMaxReaders)
  | storeSlotCursor (index : Fin kMaxReaders) (generationId : UInt32)
  | readRegisterClock (index : Fin kMaxReaders) (generationId : UInt32)
  | storeFirstHeartbeat (index : Fin kMaxReaders) (generationId : UInt32) (now : Int)
  | release (index : Fin kMaxReaders)
  | checkGeneration (index : Fin kMaxReaders)
  | publishCursor (index : Fin kMaxReaders)
  | readAdvanceClock (index : Fin kMaxReaders)
  | publishHeartbeat (index : Fin kMaxReaders) (now : Int)
  deriving DecidableEq

/-- A consumer's handle, its program point, and what its last `RegisterReader` returned. -/
structure Client where
  reader : BroadcastReader := {}
  pc : ClientPc := .idle
  registered : Except Status Unit := .ok ()

/-- Go on to another program point. -/
def Client.goto (client : Client) (pc : ClientPc) : Client := { client with pc }

/-- The call of `RegisterReader`, up to its first access. -/
def Client.register (client : Client) : Client :=
  if client.reader.slotIndex ≠ none then
    { client with registered := .error ⟨.alreadyExists, "Reader is already registered"⟩ }
  else
    client.goto (.claimSlot (List.finRange kMaxReaders))

/-- The call of `UnregisterReader`, up to its only access. -/
def Client.unregister (client : Client) : Client :=
  match client.reader.slotIndex with
  | some index => client.goto (.release index)
  | none => client

/-- The call of `Advance`, up to its first access. -/
def Client.advance (client : Client) (totalFrameLength : UInt64) : Client :=
  let newCursor := client.reader.cursor + totalFrameLength
  let client := { client with reader := { client.reader with cursor := newCursor } }
  match client.reader.slotIndex with
  | some index => client.goto (.checkGeneration index)
  | none => client

/-- The next access of the open call. -/
def Client.access (clock : Int) (shared : Shared) (client : Client) : Option (Shared × Client) :=
  match client.pc with
  | .idle => none
  | .claimSlot [] =>
      some (shared, { client with
        pc := .idle
        registered := .error ⟨.resourceExhausted, "Maximum number of readers reached"⟩ })
  | .claimSlot (index :: slots) =>
      let slot := shared.header.readers index
      -- The compare-exchange of `active`.
      if slot.active then
        some (shared, client.goto (.claimSlot slots))
      else
        some (shared.setSlot index { slot with active := true },
          client.goto (.bumpGeneration index))
  | .bumpGeneration index =>
      let slot := shared.header.readers index
      let generationId := slot.generationId + 1
      some (shared.setSlot index { slot with generationId },
        client.goto (.storeSlotCursor index generationId))
  | .storeSlotCursor index generationId =>
      let slot := shared.header.readers index
      some (shared.setSlot index { slot with cursor := client.reader.cursor },
        client.goto (.readRegisterClock index generationId))
  | .readRegisterClock index generationId =>
      some (shared, client.goto (.storeFirstHeartbeat index generationId clock))
  | .storeFirstHeartbeat index generationId now =>
      let slot := shared.header.readers index
      some (shared.setSlot index { slot with heartbeatTs := now }, {
        reader := { client.reader with slotIndex := some index, generationId }
        pc := .idle
        registered := .ok () })
  | .release index =>
      let slot := shared.header.readers index
      some (shared.setSlot index { slot with active := false },
        { client with reader := { client.reader with slotIndex := none }, pc := .idle })
  | .checkGeneration index =>
      -- The compare-exchange stores what it has compared with.
      if (shared.header.readers index).generationId = client.reader.generationId then
        some (shared, client.goto (.publishCursor index))
      else
        some (shared,
          { client with reader := { client.reader with slotIndex := none }, pc := .idle })
  | .publishCursor index =>
      let slot := shared.header.readers index
      some (shared.setSlot index { slot with cursor := client.reader.cursor },
        client.goto (.readAdvanceClock index))
  | .readAdvanceClock index => some (shared, client.goto (.publishHeartbeat index clock))
  | .publishHeartbeat index now =>
      let slot := shared.header.readers index
      some (shared.setSlot index { slot with heartbeatTs := now }, client.goto .idle)

/-- Everything that an access of a consumer can do. -/
inductive ClientStep (clock : Int) (shared : Shared) (client : Client) :
    Shared → Client → Prop where
  | rosterFull : client.pc = .claimSlot [] →
      ClientStep clock shared client shared { client with
        pc := .idle
        registered := .error ⟨.resourceExhausted, "Maximum number of readers reached"⟩ }
  | passSlot (index : Fin kMaxReaders) (slots : List (Fin kMaxReaders)) :
      client.pc = .claimSlot (index :: slots) → (shared.header.readers index).active = true →
      ClientStep clock shared client shared (client.goto (.claimSlot slots))
  | claimSlot (index : Fin kMaxReaders) (slots : List (Fin kMaxReaders)) :
      client.pc = .claimSlot (index :: slots) → ¬ (shared.header.readers index).active = true →
      ClientStep clock shared client
        (shared.setSlot index { shared.header.readers index with active := true })
        (client.goto (.bumpGeneration index))
  | bumpGeneration (index : Fin kMaxReaders) : client.pc = .bumpGeneration index →
      ClientStep clock shared client
        (shared.setSlot index { shared.header.readers index with
          generationId := (shared.header.readers index).generationId + 1 })
        (client.goto (.storeSlotCursor index ((shared.header.readers index).generationId + 1)))
  | storeSlotCursor (index : Fin kMaxReaders) (generationId : UInt32) :
      client.pc = .storeSlotCursor index generationId →
      ClientStep clock shared client
        (shared.setSlot index { shared.header.readers index with cursor := client.reader.cursor })
        (client.goto (.readRegisterClock index generationId))
  | readRegisterClock (index : Fin kMaxReaders) (generationId : UInt32) :
      client.pc = .readRegisterClock index generationId →
      ClientStep clock shared client shared
        (client.goto (.storeFirstHeartbeat index generationId clock))
  | storeFirstHeartbeat (index : Fin kMaxReaders) (generationId : UInt32) (now : Int) :
      client.pc = .storeFirstHeartbeat index generationId now →
      ClientStep clock shared client
        (shared.setSlot index { shared.header.readers index with heartbeatTs := now })
        { reader := { client.reader with slotIndex := some index, generationId }
          pc := .idle
          registered := .ok () }
  | release (index : Fin kMaxReaders) : client.pc = .release index →
      ClientStep clock shared client
        (shared.setSlot index { shared.header.readers index with active := false })
        { client with reader := { client.reader with slotIndex := none }, pc := .idle }
  | checkGeneration (index : Fin kMaxReaders) : client.pc = .checkGeneration index →
      (shared.header.readers index).generationId = client.reader.generationId →
      ClientStep clock shared client shared (client.goto (.publishCursor index))
  | unbind (index : Fin kMaxReaders) : client.pc = .checkGeneration index →
      (shared.header.readers index).generationId ≠ client.reader.generationId →
      ClientStep clock shared client shared
        { client with reader := { client.reader with slotIndex := none }, pc := .idle }
  | publishCursor (index : Fin kMaxReaders) : client.pc = .publishCursor index →
      ClientStep clock shared client
        (shared.setSlot index { shared.header.readers index with cursor := client.reader.cursor })
        (client.goto (.readAdvanceClock index))
  | readAdvanceClock (index : Fin kMaxReaders) : client.pc = .readAdvanceClock index →
      ClientStep clock shared client shared (client.goto (.publishHeartbeat index clock))
  | publishHeartbeat (index : Fin kMaxReaders) (now : Int) :
      client.pc = .publishHeartbeat index now →
      ClientStep clock shared client
        (shared.setSlot index { shared.header.readers index with heartbeatTs := now })
        (client.goto .idle)

theorem Client.access_cases {clock : Int} {shared : Shared} {client : Client}
    {result : Shared × Client} (h : client.access clock shared = some result) :
    ClientStep clock shared client result.1 result.2 := by
  unfold Client.access at h
  split at h
  · simp at h
  · next hat =>
      obtain rfl := Option.some.inj h
      exact .rosterFull hat
  · next index slots hat =>
      simp only at h
      split at h
      · next hactive =>
          obtain rfl := Option.some.inj h
          exact .passSlot index slots hat hactive
      · next hactive =>
          obtain rfl := Option.some.inj h
          exact .claimSlot index slots hat hactive
  · next index hat =>
      obtain rfl := Option.some.inj h
      exact .bumpGeneration index hat
  · next index generationId hat =>
      obtain rfl := Option.some.inj h
      exact .storeSlotCursor index generationId hat
  · next index generationId hat =>
      obtain rfl := Option.some.inj h
      exact .readRegisterClock index generationId hat
  · next index generationId now hat =>
      obtain rfl := Option.some.inj h
      exact .storeFirstHeartbeat index generationId now hat
  · next index hat =>
      obtain rfl := Option.some.inj h
      exact .release index hat
  · next index hat =>
      split at h
      · next hsame =>
          obtain rfl := Option.some.inj h
          exact .checkGeneration index hat hsame
      · next hother =>
          obtain rfl := Option.some.inj h
          exact .unbind index hat hother
  · next index hat =>
      obtain rfl := Option.some.inj h
      exact .publishCursor index hat
  · next index hat =>
      obtain rfl := Option.some.inj h
      exact .readAdvanceClock index hat
  · next index now hat =>
      obtain rfl := Option.some.inj h
      exact .publishHeartbeat index now hat

/-! ## The system -/

/-- The producer with its consumers. -/
structure Group where
  machine : Machine
  clients : ReaderId → Client

/-- The producer's steps, and the calls and accesses of each consumer. -/
inductive GroupEvent where
  | producer (event : Event)
  | setCursor (reader : ReaderId) (cursor : UInt64)
  | register (reader : ReaderId)
  | unregister (reader : ReaderId)
  | advance (reader : ReaderId) (totalFrameLength : UInt64)
  | access (reader : ReaderId)

/-- Replace a consumer that has no call open. -/
def Group.call (group : Group) (reader : ReaderId) (call : Client → Client) : Option Group :=
  if (group.clients reader).pc = .idle then
    some { group with
      clients := Function.update group.clients reader (call (group.clients reader)) }
  else none

/-- One step. Only the consumers of the group store in the roster. -/
def groupStep (cfg : Config) (group : Group) : GroupEvent → Option Group
  | .producer (.consumer _ _) => none
  | .producer event => (step cfg group.machine event).map fun machine => { group with machine }
  | .setCursor reader cursor =>
      group.call reader fun client => { client with reader := { client.reader with cursor } }
  | .register reader => group.call reader Client.register
  | .unregister reader => group.call reader Client.unregister
  | .advance reader totalFrameLength =>
      group.call reader fun client => client.advance totalFrameLength
  | .access reader =>
      ((group.clients reader).access group.machine.clock group.machine.shared).map fun result => {
        machine := { group.machine with shared := result.1 }
        clients := Function.update group.clients reader result.2 }

/-- A producer's step in the group is one of its own that stores in no slot. -/
theorem groupStep_producer {cfg : Config} {group next : Group} {event : Event}
    (h : groupStep cfg group (.producer event) = some next) :
    ∃ machine, step cfg group.machine event = some machine ∧
      (∀ index slot, event ≠ .consumer index slot) ∧ { group with machine } = next := by
  cases event with
  | consumer index slot => simp [groupStep] at h
  | _ => simpa [groupStep] using h

/-- The producer and its consumers as a transition system. -/
def group (cfg : Config) : System Group GroupEvent where
  init group := ∃ clock, group = ⟨created cfg clock, fun _ => {}⟩
  step := groupStep cfg

end HotPath.SharedMemory.Access
