import HotPath.SharedMemory.Overtaking
import HotPath.SharedMemory.PollSteps
import HotPath.SharedMemory.SlotOwnership

/-!
# A copy that races with the producer

`PollCopy` loads a frame field by field and byte by byte while the producer goes on, and the
producer may overtake it. `CopiesFrame` says that a successful call has copied the frame that was
published at the reader's cursor.

The producer cursor is compared with the reader's cursor before the copy only. After it, the call
trusts that the version word at the reader's address has changed if the frame was overwritten.
Frames of a later lap need not begin at the same addresses, though, so that word can be payload
of another frame, with any value (`overtaken_copy`). `copies_frame` shows that a call copies its
frame unless a `Reserve` overtakes it after its lap check, or has begun to by then without a claim,
and the version word has its old value nevertheless.
-/

namespace HotPath.SharedMemory.Access

open HotPath.Foundation

/-- The recorder of what the producer has published, and of its overtaking of the call. -/
def readPublication (cfg : Config) : Recorder Reading ReadEvent Watched where
  start _ := {}
  observe reading event next watched :=
    match event, reading.poll.pc with
    | .producer event, _ =>
        watched.produce cfg reading.machine next.machine event reading.poll.current.toNat
    | .load, .loadProducer =>
        watched.check cfg reading.machine.shared reading.poll.current.toNat
    | _, _ => watched

/-- The call has copied the one frame that was published at its cursor. -/
def CopiedFrame (poll : Poll) (history : Published) : Prop :=
  ∃ message, (∀ other, (poll.current.toNat, other) ∈ history.frames ↔ other = message) ∧
    poll.headerOut = message.header ∧ poll.msgOut = message

/-- In every run whose steps meet `allow`, a call that returns `Ok` has copied its frame. -/
def CopiesFrame (cfg : Config) (allow : Reading × Watched → ReadEvent → Prop) : Prop :=
  ∀ pair, ((reading cfg).withHistory (readPublication cfg)).Reachable allow pair →
    pair.1.poll.pc = .returned (.ok ()) → CopiedFrame pair.1.poll pair.2.published

/-- When the closing load finds the version word of the opening load, the call has not been
overtaken since its last lap check. -/
def OvertakingSeen (cfg : Config) (pair : Reading × Watched) : Prop :=
  ∀ version, pair.1.poll.pc = .loadVersionAfter version →
    version = loadVersion cfg.capacity pair.1.machine.shared.data
      (frameAddress cfg.capacity pair.1.poll.current) →
    pair.2.overtaken = false

/-- The producer closes its reservations, the reader's cursor is a frame boundary, and no
overtaking escapes the closing load. -/
def SeesOvertaking (cfg : Config) (pair : Reading × Watched) : ReadEvent → Prop
  | .producer event => Closes cfg (pair.1.machine, pair.2.published) event
  | .pollCopy cursor => cursor.toNat ∈ pair.2.published.cuts
  | .load => OvertakingSeen cfg pair

/-! ## The invariant -/

/-- What holds of a call at each program point. -/
def PollInv (cfg : Config) (history : Published) (poll : Poll) : PollPc → Prop
  | .idle | .loadCommit | .returned (.error _) => True
  | .loadProducer | .loadVersionBefore | .loadLength _ =>
      Agrees cfg history poll.current fun _ => True
  | .loadHeaderType _ length =>
      Agrees cfg history poll.current fun message => message.header.length = length
  | .loadHeaderTimestamp _ length => Agrees cfg history poll.current fun message =>
      message.header.length = length ∧ poll.headerOut.type = message.type
  | .loadMessageType _ length => Agrees cfg history poll.current fun message =>
      message.header.length = length ∧ poll.headerOut = message.header
  | .loadMessageTimestamp _ length => Agrees cfg history poll.current fun message =>
      message.header.length = length ∧ poll.headerOut = message.header ∧
        poll.msgOut.type = message.type
  | .copyPayload _ length => Agrees cfg history poll.current fun message =>
      poll.headerOut = message.header ∧ PartCopied poll.msgOut length message
  | .loadVersionAfter _ => Agrees cfg history poll.current fun message =>
      poll.headerOut = message.header ∧ poll.msgOut = message
  | .returned (.ok _) => ∃ message, (poll.current.toNat, message) ∈ history.frames ∧
      poll.headerOut = message.header ∧ poll.msgOut = message

/-- A call keeps its invariant while the producer runs. -/
theorem PollInv.grow {cfg : Config} {history later : Published} {poll : Poll} {pc : PollPc}
    (h : PollInv cfg history poll pc) (hgrows : history.Grows later) :
    PollInv cfg later poll pc := by
  cases pc with
  | idle => trivial
  | loadCommit => trivial
  | returned result =>
      cases result with
      | error => trivial
      | ok =>
          obtain ⟨message, hmem, hloaded⟩ := h
          exact ⟨message, hgrows.frames _ hmem, hloaded⟩
  | _ => exact Agrees.grow h hgrows

/-! ## The loads -/

section Loads

variable {cfg : Config} {shared : Shared} {history : Published} {process : Option Process}
  {poll next : Poll}

/-- A load keeps the invariant of its call, if overtaking does not escape the closing load. -/
theorem load_inv (hinv : Inv cfg (stream shared) history process)
    (hboundary : poll.current.toNat ∈ history.cuts) (hpoll : PollInv cfg history poll poll.pc)
    (hseen : ∀ version, poll.pc = .loadVersionAfter version →
      version = loadVersion cfg.capacity shared.data (frameAddress cfg.capacity poll.current) →
      history.frontier ≤ poll.current.toNat + cfg.capacity.toNat)
    (h : poll.load cfg.capacity shared = some next) : PollInv cfg history next next.pc := by
  unfold Poll.load at h
  simp only [frameAddress_eq] at h hseen
  split at h
  · simp at h
  · simp at h
  · next hat =>
      split at h
      · obtain rfl := Option.some.inj h
        trivial
      · next hbelow =>
          obtain rfl := Option.some.inj h
          exact hinv.agrees hboundary (UInt64.not_le.mp hbelow)
  · next hat =>
      rw [hat] at hpoll
      split at h
      · obtain rfl := Option.some.inj h
        trivial
      · obtain rfl := Option.some.inj h
        exact hpoll
  · next hat =>
      rw [hat] at hpoll
      split at h
      · obtain rfl := Option.some.inj h
        exact hpoll
      · obtain rfl := Option.some.inj h
        exact hpoll
  · next version hat =>
      rw [hat] at hpoll
      split at h
      · obtain rfl := Option.some.inj h
        trivial
      · obtain rfl := Option.some.inj h
        rw [loadLength_mod]
        exact hpoll.load hinv fun message _ hstored _ => hstored.header.length.symm
  · next version length hat =>
      rw [hat] at hpoll
      obtain rfl := Option.some.inj h
      rw [loadType_mod]
      exact hpoll.load hinv fun message hlength hstored _ => ⟨hlength, hstored.header.type⟩
  · next version length hat =>
      rw [hat] at hpoll
      obtain rfl := Option.some.inj h
      rw [loadTimestamp_mod]
      refine hpoll.load hinv fun message ⟨hlength, htype⟩ hstored _ => ⟨hlength, ?_⟩
      show (⟨length, poll.headerOut.type, _⟩ : FrameHeader) = message.header
      rw [← hlength, htype]
      exact congrArg (FrameHeader.mk message.header.length message.type) hstored.header.timestamp
  · next version length hat =>
      rw [hat] at hpoll
      obtain rfl := Option.some.inj h
      rw [loadType_mod]
      exact hpoll.load hinv fun message ⟨hlength, hheader⟩ hstored _ =>
        ⟨hlength, hheader, hstored.header.type⟩
  · next version length hat =>
      rw [hat] at hpoll
      obtain rfl := Option.some.inj h
      rw [loadTimestamp_mod]
      exact hpoll.load hinv fun message ⟨hlength, hheader, htype⟩ hstored _ =>
        ⟨hheader, hlength, htype, hstored.header.timestamp, message.payload, rfl⟩
  · next version length hat =>
      rw [hat] at hpoll
      split at h
      · next hmore =>
          obtain rfl := Option.some.inj h
          rw [hat, Nat.add_assoc, byteAt_mod_add, ← Nat.add_assoc]
          exact hpoll.load hinv fun message ⟨hheader, hcopied⟩ hstored hadmitted =>
            ⟨hheader, hcopied.append hadmitted hstored hmore⟩
      · next hall =>
          obtain rfl := Option.some.inj h
          exact hpoll.load hinv fun message ⟨hheader, hcopied⟩ _ hadmitted =>
            ⟨hheader, hcopied.complete hadmitted hall⟩
  · next version hat =>
      rw [hat] at hpoll
      split at h
      · next hsame =>
          obtain rfl := Option.some.inj h
          -- The version word is unchanged, so the position has not been lapped.
          exact hpoll (hseen version hat hsame)
      · obtain rfl := Option.some.inj h
        exact hpoll.load hinv fun _ _ _ _ => trivial

end Loads

/-- The loads of a frame, which follow the lap check. -/
def PollPc.checked : PollPc → Bool
  | .idle | .loadCommit | .loadProducer | .returned _ => false
  | _ => true

section Checks

variable {cfg : Config} {watched : Watched} {current after : Reading} {next : Poll}

/-- A load leaves the cursor, and it comes to the loads of a frame by the lap check only. -/
theorem load_checked {capacity : UInt64} {shared : Shared} {poll : Poll}
    (h : poll.load capacity shared = some next) :
    next.current = poll.current ∧ (next.pc.checked = true → poll.pc.checked = true ∨
      poll.pc = .loadProducer ∧ ¬ shared.header.producerCursor - poll.current > capacity) := by
  unfold Poll.load at h
  cases hat : poll.pc with
  | idle | returned => simp [hat] at h
  | loadCommit =>
      simp only [hat] at h
      split at h
      · cases h
        exact ⟨rfl, nofun⟩
      · cases h
        exact ⟨rfl, nofun⟩
  | loadProducer =>
      simp only [hat] at h
      split at h
      · cases h
        exact ⟨rfl, nofun⟩
      · next hpasses =>
          cases h
          exact ⟨rfl, fun _ => .inr ⟨rfl, hpasses⟩⟩
  | _ =>
      refine ⟨?_, fun _ => .inl rfl⟩
      simp only [hat] at h
      first
        | cases h; rfl
        | split at h <;> cases h <;> rfl

/-- A load keeps the reader's position clear, and the lap check makes it so. -/
theorem load_clear (hle : current.poll.current.toNat ≤
      current.machine.shared.header.producerCursor.toNat)
    (hclear : current.poll.pc.checked = true → Clear cfg watched current.poll.current.toNat)
    (h : current.poll.load cfg.capacity current.machine.shared = some next)
    (hchecked : next.pc.checked = true) :
    Clear cfg ((readPublication cfg).observe current .load after watched)
      next.current.toNat := by
  obtain ⟨hcurrent, hbefore⟩ := load_checked h
  rw [hcurrent]
  rcases hbefore hchecked with hchecked | ⟨hat, hpasses⟩
  · have hkeep : (readPublication cfg).observe current .load after watched = watched := by
      cases hat : current.poll.pc <;> simp_all [readPublication, PollPc.checked]
    rw [hkeep]
    exact hclear hchecked
  · have hcheck : (readPublication cfg).observe current .load after watched =
        watched.check cfg current.machine.shared current.poll.current.toNat := by
      simp only [readPublication, hat]
    rw [hcheck]
    exact .check hle hpasses

end Checks

/-! ## The system -/

/-- The invariant of the producer and a polling reader at a frame boundary. -/
structure ReadInv (cfg : Config) (pair : Reading × Watched) : Prop where
  producer : Inv cfg (stream pair.1.machine.shared) pair.2.published pair.1.machine.process
  boundary : pair.1.poll.current.toNat ∈ pair.2.published.cuts
  clear : pair.1.poll.pc.checked = true → Clear cfg pair.2 pair.1.poll.current.toNat
  poll : PollInv cfg pair.2.published pair.1.poll pair.1.poll.pc

section Steps

variable {cfg : Config} {current next : Reading} {watched : Watched} {event : ReadEvent}

/-- A load leaves what is published. -/
theorem observe_load_published (cfg : Config) (current after : Reading) (watched : Watched) :
    ((readPublication cfg).observe current .load after watched).published = watched.published := by
  cases hat : current.poll.pc <;> simp [readPublication, hat, Watched.check]

/-- One step keeps the invariant. -/
theorem read_step_inv (hinv : ReadInv cfg (current, watched))
    (hallow : SeesOvertaking cfg (current, watched) event)
    (h : readStep cfg current event = some next) :
    ReadInv cfg (next, (readPublication cfg).observe current event next watched) := by
  cases event with
  | producer event =>
      obtain ⟨machine, hstep, rfl⟩ := Option.map_eq_some_iff.mp h
      have hgrows := publication_grows cfg current.machine machine event watched.published
      exact {
        producer := step_inv hinv.producer hallow hstep
        boundary := hgrows.cuts _ hinv.boundary
        clear := fun hchecked => (hinv.clear hchecked).produce
        poll := hinv.poll.grow hgrows }
  | pollCopy cursor =>
      simp only [readStep] at h
      split at h
      · obtain rfl := Option.some.inj h
        exact ⟨hinv.producer, hallow, nofun, trivial⟩
      · simp at h
  | load =>
      obtain ⟨poll, hload, rfl⟩ := Option.map_eq_some_iff.mp h
      have hsame := observe_load_published cfg current { current with poll } watched
      have hseen : ∀ version, current.poll.pc = .loadVersionAfter version → version =
          loadVersion cfg.capacity current.machine.shared.data
            (frameAddress cfg.capacity current.poll.current) →
          watched.published.frontier ≤ current.poll.current.toNat + cfg.capacity.toNat := by
        intro version hat hword
        exact hinv.clear (by rw [hat]; rfl) (hallow version hat hword)
      exact {
        producer := hsame ▸ hinv.producer
        boundary := by
          rw [(load_checked hload).1, hsame]
          exact hinv.boundary
        clear := load_clear (hinv.producer.cuts.le _ hinv.boundary) hinv.clear hload
        poll := hsame ▸ load_inv hinv.producer hinv.boundary hinv.poll hseen hload }

/-- The invariant holds in every run in which overtaking is seen. -/
theorem reachable_read_inv {pair : Reading × Watched}
    (h : ((reading cfg).withHistory (readPublication cfg)).Reachable (SeesOvertaking cfg) pair) :
    ReadInv cfg pair := by
  refine h.invariant (ReadInv cfg) ?_ ?_
  · intro ⟨reading, watched⟩ ⟨⟨clock, hreading⟩, hwatched⟩
    obtain rfl : reading = ⟨created cfg clock, {}⟩ := hreading
    obtain rfl : watched = {} := hwatched
    exact ⟨created_inv cfg clock, List.mem_singleton_self 0, nofun, trivial⟩
  · intro ⟨current, watched⟩ event ⟨next, after⟩ hinv hallow hnext
    obtain ⟨hstep, hobserve⟩ := System.withHistory_step.mp hnext
    obtain rfl : after = (readPublication cfg).observe current event next watched := hobserve
    exact read_step_inv hinv hallow hstep

end Steps

/-- A successful `PollCopy` has copied the frame at its cursor, as long as no overtaking after its
lap check escapes its closing load. -/
theorem copies_frame (cfg : Config) : CopiesFrame cfg (SeesOvertaking cfg) := by
  intro pair hreach hreturned
  have hinv := reachable_read_inv hreach
  have hpoll := hinv.poll
  rw [hreturned] at hpoll
  obtain ⟨message, hmem, hcopied⟩ := hpoll
  refine ⟨message, fun other => ?_, hcopied⟩
  constructor
  · intro hother
    exact hinv.producer.retained.distinct _ other message hother hmem
  · intro hsame
    rw [hsame]
    exact hmem

/-! ## The overtaken copy -/

/-- The calls of a producer that reserves, writes and commits one frame after the other, and of a
reader at a frame boundary. -/
def cycleCall (pair : Reading × Watched) : ReadEvent → Bool
  | .producer (.reserve payloadSize _) => pair.2.published.reserved.isNone &&
      payloadSize.toNat ≤ 2 ^ 32 - 32 &&
      pair.1.machine.shared.header.producerCursor.toNat + (requiredSpace payloadSize).toNat <
        2 ^ 64
  | .producer .commit => pair.2.published.reserved.isSome
  | .producer .crash | .producer (.attach _) => false
  | .pollCopy cursor => pair.2.published.cuts.contains cursor.toNat
  | _ => true

/-- The reader passes the lap check and loads the version of its frame. The producer then fills
the buffer with a frame whose payload reaches around to the reader's address, and stores the words
2, 8 and 7 there before the reader goes on. -/
def overtaking : List ReadEvent :=
  .producer (.reserve 40 1) :: List.replicate 7 (.producer (.access 0)) ++
    [.producer .commit] ++ List.replicate 3 (.producer (.access 0)) ++
    .pollCopy 0 :: List.replicate 3 .load ++
    .producer (.reserve 4040 1) :: List.replicate 25 (.producer (.access 0)) ++
    .producer (.write 4008 [2, 0, 0, 0, 8, 0, 0, 0, 7, 0, 0, 0]) :: List.replicate 15 .load

/-- The call has returned `Ok`. -/
def returnedOk : PollPc → Bool
  | .returned (.ok _) => true
  | _ => false

theorem returned_of_returnedOk {pc : PollPc} (h : returnedOk pc = true) :
    pc = .returned (.ok ()) := by
  unfold returnedOk at h
  split at h
  · rfl
  · cases h

/-- An overtaken call returns `Ok` with bytes of a later frame. -/
theorem overtaken_copy : ¬ CopiesFrame onePage fun pair event => cycleCall pair event := by
  intro hcopies
  obtain ⟨pair, hreach, hpair⟩ := System.exists_reachable_of_replay
    ((reading onePage).withHistory (readPublication onePage))
    (fun pair event => cycleCall pair event = true)
    (⟨created onePage 0, {}⟩, {}) overtaking
    (fun pair => returnedOk pair.1.poll.pc && pair.1.poll.msgOut.type == 7 &&
      pair.2.published.frames.all fun frame => frame.2.type == 1)
    (.init ⟨⟨_, rfl⟩, rfl⟩) (by decide +kernel)
  simp only [Bool.and_eq_true, beq_iff_eq, List.all_eq_true] at hpair
  obtain ⟨⟨hreturned, htype⟩, hframes⟩ := hpair
  obtain ⟨message, hmessage, -, hcopied⟩ :=
    hcopies pair hreach (returned_of_returnedOk hreturned)
  have hpublished := hframes _ ((hmessage message).mpr rfl)
  rw [hcopied] at htype
  simp [htype] at hpublished

end HotPath.SharedMemory.Access
