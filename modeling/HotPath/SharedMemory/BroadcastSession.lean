import HotPath.Foundation.Completion
import HotPath.Foundation.Fairness
import HotPath.SharedMemory.LogRefinement
import Mathlib.Data.Fintype.Card

/-!
# A session of one producer and its consumers

The threads of the test `DataIntegrityStress`, for any capacity, any number of consumers and any
messages. Every consumer registers at cursor 0, waits for the others, and then polls and advances
until it has received as many messages as the producer sends. The producer starts when all
consumers have registered, and reserves, writes and commits one message after the other. Its
`Reserve` waits for space in a loop, in which the clock and the time stamp counter go on.

`session_delivers` says that every consumer receives the messages in order, that no poll fails for
another reason than that there is no message yet, and that every fair run ends with all messages
received. The one assumption is that no heartbeat grows older than the eviction timeout.
-/

namespace HotPath.SharedMemory

open HotPath.Foundation

/-- The type and the payload of a message. -/
abbrev Content := UInt32 × List UInt8

/-- What a message carries apart from its timestamp. -/
def SafeMessage.content (message : SafeMessage) : Content := (message.type, message.payload)

/-- The bytes that the frame of a message with the given content occupies. -/
def contentBytes (content : Content) : Nat :=
  (requiredSpace (UInt32.ofNat content.2.length)).toNat

/-- The ring buffer, the number of consumers and the messages. The consumers find a slot, every
message fits the buffer, and the cursors do not overflow. -/
structure Session where
  cfg : Config
  readers : Nat
  messages : List Content
  attachable : cfg.capacity.toNat ≤ 2 ^ 30
  patient : 0 ≤ cfg.evictTimeoutNs
  roster : readers ≤ kMaxReaders
  sizes : ∀ message ∈ messages, message.2.length ≤ 2 ^ 32 - 8
  spaces : ∀ message ∈ messages, contentBytes message ≤ cfg.capacity.toNat
  total : (messages.map contentBytes).sum < 2 ^ 64

/-- The threads. -/
inductive Party where
  | producer
  | reader (reader : ReaderId)
  deriving DecidableEq

/-- The thread that makes a call. Nobody makes the clock go on. -/
def Event.party : Event → Option Party
  | .reserve .. | .scan _ | .writePayload _ | .commit => some .producer
  | .tick _ => none
  | event => event.reader.map Party.reader

/-- All consumers have registered. -/
def Session.started (session : Session) (journal : Journal) : Prop :=
  ∀ reader < session.readers, journal.holds reader

/-- The message that the producer sends next. -/
def Session.upNext (session : Session) (journal : Journal) : Option Content :=
  session.messages[journal.log.entries.length]?

/-- The next call of each thread. The stage and the last polls say where the threads are. Time goes
on as long as no heartbeat grows older than the timeout. -/
def Session.call (session : Session) (pair : State × Journal) : Event → Prop
  | .registerReader reader => reader < session.readers ∧ ¬ pair.2.holds reader
  | .reserve payloadSize typeId _ => session.started pair.2 ∧ pair.2.stage = .idle ∧
      ∃ payload, session.upNext pair.2 = some (typeId, payload) ∧
        payloadSize = UInt32.ofNat payload.length
  | .scan _ => True
  | .writePayload payload => (∃ header, pair.2.stage = .reserved header) ∧
      ∃ typeId, session.upNext pair.2 = some (typeId, payload)
  | .commit => ∃ message, pair.2.stage = .written message
  | .pollZeroCopy reader | .pollCopy reader => reader < session.readers ∧
      session.started pair.2 ∧ pair.2.polled reader = none ∧
      (pair.2.received reader).length < session.messages.length
  | .advance reader length => reader < session.readers ∧ session.started pair.2 ∧
      ∃ polled, pair.2.polled reader = some polled ∧
        length = (totalFrameSize polled.header.length).toUInt64
  | .tick elapsed => ∀ index, (pair.1.slots index).active = true →
      pair.1.clock + elapsed - (pair.1.slots index).heartbeatTs ≤ session.cfg.evictTimeoutNs
  | .setCursor .. | .unregisterReader _ | .pollCopyBatch .. => False

/-- The session as a transition system. -/
def Session.system (session : Session) : System (State × Journal) Event :=
  (ring session.cfg).withHistory (journal session.cfg)

/-- The content of what a reader has received. -/
def Journal.contents (journal : Journal) (reader : ReaderId) : List Content :=
  (journal.received reader).map SafeMessage.content

/-- All messages have been committed and received. -/
def Session.finished (session : Session) (pair : State × Journal) : Prop :=
  pair.2.log.entries.map SafeMessage.content = session.messages ∧
    ∀ reader < session.readers, pair.2.contents reader = session.messages

/-- What the session guarantees. -/
structure Delivers (session : Session) : Prop where
  inOrder : ∀ pair, session.system.Reachable session.call pair →
    ∀ reader < session.readers, pair.2.contents reader <+: session.messages
  healthy : ∀ pair, session.system.Reachable session.call pair →
    ∀ reader, pair.2.holds reader → ∀ status,
      pollZeroCopy session.cfg.capacity pair.1.shared (pair.1.readers reader) = .error status ∨
      pollCopy session.cfg.capacity pair.1.shared (pair.1.readers reader) =
        some (.error status) →
      status = ⟨.notFound, "No data"⟩
  arrives : session.system.FairlyReaches session.call Event.party session.finished

/-! ## The invariant -/

/-- The producer's frame carries the message that is sent next. -/
def StageSends (upNext : Option Content) : Stage → Prop
  | .idle => True
  | .reserved header => ∃ payload, upNext = some (header.type, payload) ∧
      header.length = UInt32.ofNat payload.length
  | .written message => upNext = some message.content

/-- The consumers and their slots. -/
structure RosterInv (session : Session) (state : State) (journal : Journal) : Prop where
  bound : ∀ reader index, (state.readers reader).slotIndex = some index →
    journal.owners index = some reader
  member : ∀ index reader, journal.owners index = some reader → reader < session.readers
  fresh : ∀ index, (state.slots index).active = true →
    state.clock - (state.slots index).heartbeatTs ≤ session.cfg.evictTimeoutNs
  zero : ∀ reader, ¬ journal.holds reader → (state.readers reader).cursor = 0
  first : ∀ reader, journal.holds reader → journal.log.start reader = 0
  unread : ∀ reader, ¬ journal.holds reader → journal.received reader = []

/-- The producer and what it has sent. -/
structure SenderInv (session : Session) (state : State) (journal : Journal) : Prop where
  writable : state.producer.isProducer = true
  sent : journal.log.entries.map SafeMessage.content =
    session.messages.take journal.log.entries.length
  stage : StageSends (session.upNext journal) journal.stage
  pending : ∀ pending, state.producer.pending = some pending → pending.now ≤ state.clock ∧
    ∃ payload, session.upNext journal = some (pending.typeId, payload) ∧
      pending.payloadSize = UInt32.ofNat payload.length
  quiet : ¬ session.started journal → journal.stage = .idle ∧ journal.log.entries = [] ∧
    state.producer.pending = none

/-- The invariant of the session. -/
structure SessionInv (session : Session) (pair : State × Journal) : Prop where
  log : LogInv session.cfg pair.1 pair.2
  roster : RosterInv session pair.1 pair.2
  sender : SenderInv session pair.1 pair.2

section Calls

variable {session : Session} {state next : State} {journal : Journal} {reader : ReaderId}
  {content : Content}

/-- The messages so far and the next one fit the cursors. -/
theorem SenderInv.room (h : SenderInv session state journal)
    (hnext : session.upNext journal = some content) :
    streamEnd journal.log.entries + contentBytes content < 2 ^ 64 := by
  obtain ⟨hlt, hget⟩ := List.getElem?_eq_some_iff.mp hnext
  have hbytes : streamEnd journal.log.entries =
      ((session.messages.take journal.log.entries.length).map contentBytes).sum := by
    rw [← h.sent, List.map_map]
    rfl
  have hsplit : session.messages = session.messages.take journal.log.entries.length ++
      content :: session.messages.drop (journal.log.entries.length + 1) := by
    rw [← hget, ← List.drop_eq_getElem_cons hlt, List.take_append_drop]
  have htotal := session.total
  rw [hsplit, List.map_append, List.sum_append, List.map_cons, List.sum_cons, ← hbytes] at htotal
  omega

theorem upNext_mem (hnext : session.upNext journal = some content) :
    content ∈ session.messages :=
  List.mem_of_getElem? hnext

/-- The size that the producer asks for is the length of the payload. -/
theorem length_toNat (hnext : session.upNext journal = some content) :
    (UInt32.ofNat content.2.length).toNat = content.2.length := by
  have hsize := session.sizes content (upNext_mem hnext)
  rw [UInt32.toNat_ofNat']
  omega

/-- The producer's requests are accepted. -/
theorem SenderInv.accepted (h : SenderInv session state journal)
    (hnext : session.upNext journal = some content) :
    reserveError session.cfg state.producer (UInt32.ofNat content.2.length) = none := by
  have hspace : (requiredSpace (UInt32.ofNat content.2.length)).toNat ≤
    session.cfg.capacity.toNat := session.spaces content (upNext_mem hnext)
  have hfits : ¬ requiredSpace (UInt32.ofNat content.2.length) > session.cfg.capacity := by
    rw [gt_iff_lt, UInt64.lt_iff_toNat_lt]
    omega
  simp [reserveError, h.writable, hfits]

/-- Before the first registration is complete nothing has been sent. -/
theorem SessionInv.untouched (h : SessionInv session (state, journal))
    (hnot : ¬ session.started journal) :
    state.shared.header.producerCursor = 0 ∧ state.shared.header.commitCursor = 0 := by
  obtain ⟨hidle, hnone, -⟩ := h.sender.quiet hnot
  have hcommitted : state.shared.header.commitCursor.toNat = streamEnd journal.log.entries :=
    h.log.stream.committed
  have hstage : StageInv session.cfg state journal.stage := h.log.stream.stage
  rw [hnone, streamEnd_nil] at hcommitted
  rw [hidle] at hstage
  have hzero : state.shared.header.commitCursor = 0 := UInt64.toNat_inj.mp hcommitted
  exact ⟨Eq.trans hstage hzero, hzero⟩

/-- The calls of the session are calls on the log. -/
theorem SessionInv.logCall (h : SessionInv session (state, journal)) {event : Event}
    (hcall : session.call (state, journal) event) :
    SharedMemory.logCall session.cfg (state, journal) event = true ∧ CursorFits state event := by
  cases event with
  | reserve payloadSize typeId tsc =>
      obtain ⟨-, hidle, payload, hnext, rfl⟩ := hcall
      have hidle : journal.stage = .idle := hidle
      have hsize := session.sizes _ (upNext_mem hnext)
      have hlength := length_toNat hnext
      have haccept := h.sender.accepted hnext
      have hroom := h.sender.room hnext
      have hcommitted : state.shared.header.commitCursor.toNat = streamEnd journal.log.entries :=
        h.log.stream.committed
      have hstage : StageInv session.cfg state journal.stage := h.log.stream.stage
      rw [hidle] at hstage
      have hcursor : state.shared.header.producerCursor = state.shared.header.commitCursor := hstage
      refine ⟨?_, ?_⟩
      · dsimp only at hsize hlength haccept
        simpa [SharedMemory.logCall, hidle, haccept, hlength] using hsize
      · show _ + _ < _
        rw [hcursor, hcommitted]
        exact hroom
  | scan | tick => exact ⟨rfl, trivial⟩
  | writePayload payload =>
      obtain ⟨⟨header, hreserved⟩, typeId, hnext⟩ := hcall
      have hreserved : journal.stage = .reserved header := hreserved
      have hstage := h.sender.stage
      rw [hreserved] at hstage
      obtain ⟨payload', hnext', hlength⟩ := hstage
      obtain ⟨-, rfl⟩ := Prod.mk.inj (Option.some.inj (hnext'.symm.trans hnext))
      have htoNat := length_toNat hnext
      refine ⟨?_, trivial⟩
      dsimp only at htoNat
      simp [SharedMemory.logCall, hreserved, hlength, htoNat]
  | commit =>
      obtain ⟨message, hwritten⟩ := hcall
      have hwritten : journal.stage = .written message := hwritten
      exact ⟨by simp [SharedMemory.logCall, hwritten], trivial⟩
  | registerReader reader =>
      obtain ⟨hlt, hfree⟩ := hcall
      obtain ⟨hproducer, hcommit⟩ := h.untouched fun hstarted => hfree (hstarted reader hlt)
      have hcursor := h.roster.zero reader hfree
      dsimp only at hcursor
      exact ⟨by simp [SharedMemory.logCall, hproducer, hcommit, hcursor], trivial⟩
  | pollZeroCopy reader | pollCopy reader =>
      obtain ⟨hlt, hstarted, -⟩ := hcall
      exact ⟨decide_eq_true (hstarted reader hlt), trivial⟩
  | advance reader length =>
      obtain ⟨hlt, hstarted, polled, hpolled, rfl⟩ := hcall
      have hpolled : journal.polled reader = some polled := hpolled
      refine ⟨?_, trivial⟩
      simp [SharedMemory.logCall, hpolled, hstarted reader hlt]
  | setCursor | unregisterReader | pollCopyBatch => exact hcall.elim

/-- The ring buffer keeps carrying the log. -/
theorem SessionInv.log_step (h : SessionInv session (state, journal)) {event : Event}
    (hcall : session.call (state, journal) event)
    (hstep : step session.cfg state event = some next) :
    LogInv session.cfg next
      ((SharedMemory.journal session.cfg).observe state event next journal) := by
  obtain ⟨hlogCall, hfits⟩ := h.logCall hcall
  exact h.log.step session.attachable hlogCall hfits hstep

end Calls

/-! ## The consumers -/

section Roster

variable {session : Session} {state next : State} {journal : Journal}

/-- A scan finds every heartbeat fresh. -/
theorem SessionInv.scan_keeps (h : SessionInv session (state, journal)) {pending : PendingReserve}
    (hpending : state.producer.pending = some pending) (tsc : UInt64) (index : Fin kMaxReaders) :
    evictExpired (pending.refresh tsc state.clock).now session.cfg.evictTimeoutNs
      (state.slots index) = state.slots index := by
  have hnow : (pending.refresh tsc state.clock).now ≤ state.clock := by
    have hold : pending.now ≤ state.clock := (h.sender.pending pending hpending).1
    unfold PendingReserve.refresh
    split
    · exact Int.le_refl _
    · exact hold
  refine if_neg fun hexpired => ?_
  have hfresh : state.clock - (state.slots index).heartbeatTs ≤ session.cfg.evictTimeoutNs :=
    h.roster.fresh index hexpired.1
  have hlate := hexpired.2
  omega

/-- A scan takes no slot away. -/
theorem SessionInv.scan_owners (h : SessionInv session (state, journal)) {tsc : UInt64}
    (hstep : step session.cfg state (.scan tsc) = some next) :
    ownersAfter state (.scan tsc) next.slots next.readers journal.owners = journal.owners := by
  have hroster := step_roster hstep
  generalize next.slots = slots at hroster ⊢
  generalize next.readers = readers at hroster ⊢
  cases hroster with
  | same => exact ownersAfter_same h.log.held (by simp)
  | scan _ pending hpending =>
      rw [funext (h.scan_keeps hpending tsc)]
      exact ownersAfter_same h.log.held (by simp)
  | publish _ _ _ _ hreader => cases hreader
  | unbind _ _ _ _ hreader => cases hreader
  | move _ _ _ hreader => cases hreader

theorem holds_congr {journal' : Journal} (h : journal'.owners = journal.owners)
    (reader : ReaderId) : journal'.holds reader ↔ journal.holds reader := by
  unfold Journal.holds
  rw [h]

/-- A call that touches neither slots nor handles keeps the consumers as they are. -/
theorem RosterInv.same {journal' : Journal} (h : RosterInv session state journal)
    (hslots : next.slots = state.slots) (hreaders : next.readers = state.readers)
    (howners : journal'.owners = journal.owners) (hstart : journal'.log.start = journal.log.start)
    (hreceived : journal'.received = journal.received)
    (hfresh : ∀ index, (state.slots index).active = true →
      next.clock - (state.slots index).heartbeatTs ≤ session.cfg.evictTimeoutNs) :
    RosterInv session next journal' := by
  have hholds := holds_congr howners
  refine ⟨?_, ?_, ?_, ?_, ?_, ?_⟩
  · rw [hreaders, howners]
    exact h.bound
  · rw [howners]
    exact h.member
  · rw [hslots]
    exact hfresh
  · intro reader hnot
    rw [hreaders]
    exact h.zero reader fun hold => hnot ((hholds reader).mpr hold)
  · intro reader hnow
    rw [hstart]
    exact h.first reader ((hholds reader).mp hnow)
  · intro reader hnot
    rw [hreceived]
    exact h.unread reader fun hold => hnot ((hholds reader).mpr hold)

/-- A consumer registers before anything has been sent. -/
theorem SessionInv.registers (h : SessionInv session (state, journal)) {reader : ReaderId}
    (hcall : session.call (state, journal) (.registerReader reader))
    {index : Fin kMaxReaders} (hnone : (state.readers reader).slotIndex = none)
    (hfree : freeSlot state.slots = some index)
    (hslots : next.slots = Function.update state.slots index {
      active := true
      cursor := (state.readers reader).cursor
      heartbeatTs := state.clock
      generationId := (state.slots index).generationId + 1 })
    (hreaders : next.readers = Function.update state.readers reader { state.readers reader with
      slotIndex := some index
      generationId := (state.slots index).generationId + 1 })
    (hclock : next.clock = state.clock) :
    RosterInv session next
      ((SharedMemory.journal session.cfg).observe state (.registerReader reader) next journal) := by
  obtain ⟨hlt, hnew⟩ := hcall
  have hnew : ¬ journal.holds reader := hnew
  have hempty : journal.log.entries = [] :=
    (h.sender.quiet fun hstarted => hnew (hstarted reader hlt)).2.1
  have hindex : (next.readers reader).slotIndex = some index := by simp [hreaders]
  have hjoined : joined state next reader = true := by simp [joined, hnone, hindex]
  have howners : ((SharedMemory.journal session.cfg).observe state (.registerReader reader) next
      journal).owners = Function.update journal.owners index (some reader) := by
    simp [SharedMemory.journal, ownersAfter, hnone, hindex]
  -- Nobody owned the slot.
  have hunowned : ∀ other, journal.owners index ≠ some other := by
    intro other howner
    have hactive : (state.slots index).active = true := (h.log.held.bound index other howner).2.1
    rw [freeSlot_inactive hfree] at hactive
    cases hactive
  have hkeeps : ∀ other, journal.holds other → ((SharedMemory.journal session.cfg).observe state
      (.registerReader reader) next journal).holds other := by
    intro other hold
    obtain ⟨slot, howner⟩ := hold
    refine ⟨slot, ?_⟩
    have hne : slot ≠ index := fun heq => hunowned other (heq ▸ howner)
    rw [howners, Function.update_of_ne hne, howner]
  have hregistered : ((SharedMemory.journal session.cfg).observe state
      (.registerReader reader) next journal).holds reader := by
    refine ⟨index, ?_⟩
    rw [howners, Function.update_self]
  have hother : ∀ other, other ≠ reader → ((SharedMemory.journal session.cfg).observe state
      (.registerReader reader) next journal).holds other → journal.holds other := by
    intro other hne hold
    exact holds_other hold fun heq => hne (Option.some.inj heq).symm
  refine ⟨fun other slot hbound => ?_, fun slot other howner => ?_, fun slot hactive => ?_,
    fun other hnot => ?_, fun other hold => ?_, fun other hnot => ?_⟩
  · rw [howners]
    by_cases heq : other = reader
    · subst heq
      obtain rfl := Option.some.inj (hindex.symm.trans hbound)
      exact Function.update_self ..
    · rw [hreaders, Function.update_of_ne heq] at hbound
      have howner := h.roster.bound other slot hbound
      have hne : slot ≠ index := fun hslot => hunowned other (hslot ▸ howner)
      rw [Function.update_of_ne hne]
      exact howner
  · rw [howners] at howner
    by_cases hslot : slot = index
    · subst hslot
      rw [Function.update_self] at howner
      exact Option.some.inj howner ▸ hlt
    · rw [Function.update_of_ne hslot] at howner
      exact h.roster.member slot other howner
  · rw [hslots] at hactive ⊢
    rw [hclock]
    by_cases hslot : slot = index
    · subst hslot
      simpa using session.patient
    · rw [Function.update_of_ne hslot] at hactive ⊢
      exact h.roster.fresh slot hactive
  · have hne : other ≠ reader := fun heq => hnot (heq ▸ hregistered)
    rw [hreaders, Function.update_of_ne hne]
    exact h.roster.zero other fun hold => hnot (hkeeps other hold)
  · simp only [SharedMemory.journal, logAfter, hjoined, if_true, AppendLog.join, hempty,
      List.length_nil]
    by_cases heq : other = reader
    · rw [heq, Function.update_self]
    · rw [Function.update_of_ne heq]
      exact h.roster.first other (hother other heq hold)
  · have hne : other ≠ reader := fun heq => hnot (heq ▸ hregistered)
    simp only [SharedMemory.journal, receivedAfter, hjoined, if_true, Function.update_of_ne hne]
    exact h.roster.unread other fun hold => hnot (hkeeps other hold)

/-- A consumer advances. -/
theorem SessionInv.advances (h : SessionInv session (state, journal)) {reader : ReaderId}
    {length : UInt64} {index : Fin kMaxReaders} (hholds : journal.holds reader)
    (hslots : next.slots = Function.update state.slots index { state.slots index with
      cursor := (state.readers reader).cursor + length
      heartbeatTs := state.clock })
    (hreaders : next.readers = Function.update state.readers reader { state.readers reader with
      cursor := (state.readers reader).cursor + length })
    (hclock : next.clock = state.clock) :
    RosterInv session next
      ((SharedMemory.journal session.cfg).observe state (.advance reader length) next journal) := by
  have hsame : ∀ other, ((SharedMemory.journal session.cfg).observe state (.advance reader length)
      next journal).holds other ↔ journal.holds other := holds_congr rfl
  refine ⟨fun other slot hbound => ?_, h.roster.member, fun slot hactive => ?_,
    fun other hnot => ?_, fun other hold => ?_, fun other hnot => ?_⟩
  · refine h.roster.bound other slot ?_
    rw [hreaders] at hbound
    by_cases heq : other = reader
    · subst heq
      simpa using hbound
    · rwa [Function.update_of_ne heq] at hbound
  · rw [hslots] at hactive ⊢
    rw [hclock]
    by_cases hslot : slot = index
    · subst hslot
      simpa using session.patient
    · rw [Function.update_of_ne hslot] at hactive ⊢
      exact h.roster.fresh slot hactive
  · have hne : other ≠ reader := fun heq => hnot ((hsame other).mpr (heq ▸ hholds))
    rw [hreaders, Function.update_of_ne hne]
    exact h.roster.zero other fun hold => hnot ((hsame other).mpr hold)
  · have hfirst := h.roster.first other ((hsame other).mp hold)
    simp only [SharedMemory.journal, logAfter]
    split
    · exact hfirst
    · exact hfirst
  · have hne : other ≠ reader := fun heq => hnot ((hsame other).mpr (heq ▸ hholds))
    have hother : (Event.advance reader length).reader ≠ some other := fun heq =>
      hne (Option.some.inj heq).symm
    have hreceived := (received_other session.cfg state next journal hother).1
    exact hreceived.trans (h.roster.unread other fun hold => hnot ((hsame other).mpr hold))

/-- Only the passage of time changes the clock. -/
theorem clock_eq_of_step {cfg : Config} {event : Event} (h : step cfg state event = some next)
    (htick : ∀ elapsed, event ≠ .tick elapsed) : next.clock = state.clock := by
  cases event with
  | reserve payloadSize typeId tsc =>
      simp only [step] at h
      split at h
      · cases h
      · obtain rfl := Option.some.inj h
        rcases reserve_cases cfg state payloadSize typeId tsc with hstay | hwait | hfinish
        · rw [hstay.2]
        · rw [hwait.2.2]
          rfl
        · rw [hfinish.2.2]
          rfl
  | scan tsc =>
      simp only [step, Option.map_eq_some_iff] at h
      obtain ⟨pending, -, rfl⟩ := h
      rcases scanPass_cases cfg state pending tsc with hfinish | hwait
      · rw [hfinish.2]
        rfl
      · rw [hwait.2]
        rfl
  | writePayload payload =>
      obtain ⟨_, -, -, rfl⟩ := writePayload_outcome h
      rfl
  | commit =>
      obtain ⟨_, -, rfl⟩ := commit_outcome h
      rfl
  | registerReader reader =>
      simp only [step] at h
      split at h
      · obtain rfl := Option.some.inj h
        rfl
      · obtain rfl := Option.some.inj h
        rfl
  | pollCopy reader =>
      simp only [step, Option.map_eq_some_iff] at h
      obtain ⟨_, -, rfl⟩ := h
      rfl
  | tick elapsed => exact absurd rfl (htick elapsed)
  | setCursor | unregisterReader | pollZeroCopy | pollCopyBatch | advance =>
      obtain rfl := Option.some.inj h
      rfl

/-- Every call keeps the consumers' part of the invariant. -/
theorem SessionInv.roster_step (h : SessionInv session (state, journal)) {event : Event}
    (hcall : session.call (state, journal) event)
    (hstep : step session.cfg state event = some next) :
    RosterInv session next
      ((SharedMemory.journal session.cfg).observe state event next journal) := by
  have hroster := step_roster hstep
  generalize hslots : next.slots = slots at hroster
  generalize hreaders : next.readers = readers at hroster
  cases hroster with
  | same _ hstay =>
      have hfresh : ∀ index, (state.slots index).active = true →
          next.clock - (state.slots index).heartbeatTs ≤ session.cfg.evictTimeoutNs := by
        cases event with
        | tick elapsed =>
            obtain rfl := Option.some.inj hstep
            exact hcall
        | _ =>
            rw [clock_eq_of_step hstep (by simp)]
            exact h.roster.fresh
      have howners : ((SharedMemory.journal session.cfg).observe state event next
          journal).owners = journal.owners := by
        show ownersAfter state event next.slots next.readers journal.owners = journal.owners
        rw [hslots, hreaders]
        refine ownersAfter_same h.log.held fun reader heq => ?_
        rw [heq] at hcall
        exact hcall.elim
      cases event with
      | registerReader reader =>
          have hnot : joined state next reader = false := by simp [joined, hreaders]
          refine h.roster.same hslots hreaders howners ?_ ?_ hfresh
          · simp [SharedMemory.journal, logAfter, hnot]
          · simp [SharedMemory.journal, receivedAfter, hnot]
      | advance => simp [Event.advancesBy] at hstay
      | commit =>
          refine h.roster.same hslots hreaders howners ?_ rfl hfresh
          simp only [SharedMemory.journal, logAfter]
          split <;> rfl
      | _ => exact h.roster.same hslots hreaders howners rfl rfl hfresh
  | scan tsc pending hpending =>
      have hkept : next.slots = state.slots := by
        rw [hslots]
        exact funext (h.scan_keeps hpending tsc)
      refine h.roster.same hkept hreaders (h.scan_owners hstep) rfl rfl ?_
      rw [clock_eq_of_step hstep (by simp)]
      exact h.roster.fresh
  | setCursor | unregister => exact hcall.elim
  | register reader index hnone hfree =>
      exact h.registers hcall hnone hfree hslots hreaders (clock_eq_of_step hstep (by simp))
  | publish _ reader index length hreader hlength hindex hgen =>
      cases event with
      | advance caller total =>
          obtain rfl : caller = reader := Option.some.inj hreader
          obtain rfl : total = length := Option.some.inj hlength
          exact h.advances (hcall.2.1 caller hcall.1) hslots hreaders
            (clock_eq_of_step hstep (by simp))
      | pollCopyBatch => exact hcall.elim
      | _ => simp [Event.advancesBy] at hlength
  | unbind _ reader index length hreader hlength hindex hgen =>
      cases event with
      | advance caller total =>
          obtain rfl : caller = reader := Option.some.inj hreader
          have hgeneration := (h.log.held.bound index caller
            (h.roster.bound caller index hindex)).2.2
          exact absurd hgeneration hgen
      | pollCopyBatch => exact hcall.elim
      | _ => simp [Event.advancesBy] at hlength
  | move _ reader length hreader hlength hnone =>
      cases event with
      | advance caller total =>
          obtain rfl : caller = reader := Option.some.inj hreader
          obtain ⟨index, howner⟩ := hcall.2.1 caller hcall.1
          exact absurd howner (h.log.held.not_owner hnone index)
      | pollCopyBatch => exact hcall.elim
      | _ => simp [Event.advancesBy] at hlength

end Roster

/-! ## The producer -/

section Sender

variable {session : Session} {state next : State} {journal : Journal}

/-- What is sent next depends on the number of messages committed. -/
theorem upNext_congr {journal' : Journal} (h : journal'.log.entries = journal.log.entries) :
    session.upNext journal' = session.upNext journal := by
  rw [Session.upNext, h, Session.upNext]

/-- The journal after a call that neither commits nor registers. -/
structure SameRun (journal journal' : Journal) : Prop where
  entries : journal'.log.entries = journal.log.entries
  owners : journal'.owners = journal.owners

theorem SameRun.started {journal' : Journal} (h : SameRun journal journal') :
    session.started journal' ↔ session.started journal := by
  unfold Session.started
  simp only [holds_congr h.owners]

/-- The producer waits, or has been handed out space. -/
theorem SenderInv.move {journal' : Journal} (h : SenderInv session state journal)
    (hsame : SameRun journal journal') (hwritable : next.producer.isProducer = true)
    (hstage : StageSends (session.upNext journal) journal'.stage)
    (hpending : ∀ pending, next.producer.pending = some pending → pending.now ≤ next.clock ∧
      ∃ payload, session.upNext journal = some (pending.typeId, payload) ∧
        pending.payloadSize = UInt32.ofNat payload.length)
    (hquiet : ¬ session.started journal → journal'.stage = .idle ∧
      next.producer.pending = none) : SenderInv session next journal' := by
  have hnext : session.upNext journal' = session.upNext journal := upNext_congr hsame.entries
  refine ⟨hwritable, ?_, ?_, ?_, fun hnot => ?_⟩
  · rw [hsame.entries]
    exact h.sent
  · rwa [hnext]
  · rwa [hnext]
  · have hbefore : ¬ session.started journal := fun hstarted => hnot (hsame.started.mpr hstarted)
    rw [hsame.entries]
    exact ⟨(hquiet hbefore).1, (h.quiet hbefore).2.1, (hquiet hbefore).2⟩

/-- `Reserve` waits, or opens the frame of the next message. -/
theorem SessionInv.reserve_sender (h : SessionInv session (state, journal))
    {payloadSize typeId : UInt32} {tsc : UInt64}
    (hcall : session.call (state, journal) (.reserve payloadSize typeId tsc))
    (hstep : step session.cfg state (.reserve payloadSize typeId tsc) = some next) :
    SenderInv session next ((SharedMemory.journal session.cfg).observe state
      (.reserve payloadSize typeId tsc) next journal) := by
  obtain ⟨hstarted, hidle, payload, hnext, rfl⟩ := hcall
  have hstarted : session.started journal := hstarted
  have hidle : journal.stage = .idle := hidle
  have hnext : session.upNext journal = some (typeId, payload) := hnext
  have haccept := h.sender.accepted hnext
  dsimp only at haccept
  simp only [step] at hstep
  split at hstep
  · cases hstep
  · obtain rfl := Option.some.inj hstep
    rcases reserve_cases session.cfg state (UInt32.ofNat payload.length) typeId tsc with
        ⟨hreject, -⟩ | ⟨-, -, hwait⟩ | ⟨-, -, hfinish⟩
    · rw [haccept] at hreject
      cases hreject
    · rw [hwait]
      refine h.sender.move ⟨rfl, rfl⟩ h.sender.writable ?_ ?_ fun hnot => absurd hstarted hnot
      · simp [SharedMemory.journal, stageAfter, State.wait, hidle, StageSends]
      · intro pending hpending
        obtain rfl := Option.some.inj hpending
        exact ⟨Int.le_refl _, payload, hnext, rfl⟩
    · rw [hfinish]
      refine h.sender.move ⟨rfl, rfl⟩ h.sender.writable ?_ (by simp)
        fun hnot => absurd hstarted hnot
      simp [SharedMemory.journal, stageAfter, haccept, StageSends, hnext]

/-- A scan pass keeps waiting, or opens the frame of the next message. -/
theorem SessionInv.scan_sender (h : SessionInv session (state, journal)) {tsc : UInt64}
    (hstep : step session.cfg state (.scan tsc) = some next) :
    SenderInv session next ((SharedMemory.journal session.cfg).observe state (.scan tsc) next
      journal) := by
  have howners : ((SharedMemory.journal session.cfg).observe state (.scan tsc) next
      journal).owners = journal.owners := h.scan_owners hstep
  simp only [step, Option.map_eq_some_iff] at hstep
  obtain ⟨pending, hpending, rfl⟩ := hstep
  obtain ⟨hnow, payload, hnext, hsize⟩ := h.sender.pending pending hpending
  obtain ⟨hpayload, htype, -, -⟩ := refresh_fields pending tsc state.clock
  have hstarted : session.started journal := by
    by_contra hnot
    have hnone := (h.sender.quiet hnot).2.2
    dsimp only at hnone
    rw [hpending] at hnone
    cases hnone
  have hstage := h.log.stream.stage_idle hpending
  rcases scanPass_cases session.cfg state pending tsc with ⟨-, hfinish⟩ | ⟨-, hwait⟩
  · rw [hfinish] at howners ⊢
    refine h.sender.move ⟨rfl, howners⟩ h.sender.writable ?_ (by simp)
      fun hnot => absurd hstarted hnot
    simp only [SharedMemory.journal, stageAfter, hpending, finishReserve_producer]
    exact ⟨payload, hnext, hsize⟩
  · rw [hwait] at howners ⊢
    refine h.sender.move ⟨rfl, howners⟩ h.sender.writable ?_ ?_ fun hnot => absurd hstarted hnot
    · have hidle : journal.stage = .idle := hstage
      simp [SharedMemory.journal, stageAfter, hpending, rescan, hidle, StageSends]
    · intro refreshed hrefreshed
      obtain rfl := Option.some.inj hrefreshed
      refine ⟨?_, payload, htype ▸ hnext, hpayload ▸ hsize⟩
      unfold PendingReserve.refresh
      split
      · exact Int.le_refl _
      · exact hnow

/-- The payload write completes the frame. -/
theorem SessionInv.write_sender (h : SessionInv session (state, journal)) {payload : List UInt8}
    (hcall : session.call (state, journal) (.writePayload payload))
    (hstep : step session.cfg state (.writePayload payload) = some next) :
    SenderInv session next ((SharedMemory.journal session.cfg).observe state
      (.writePayload payload) next journal) := by
  obtain ⟨⟨header, hreserved⟩, typeId, hnext⟩ := hcall
  have hreserved : journal.stage = .reserved header := hreserved
  have hnext : session.upNext journal = some (typeId, payload) := hnext
  obtain ⟨grant, -, -, rfl⟩ := writePayload_outcome hstep
  have hstage : StageSends (session.upNext journal) journal.stage := h.sender.stage
  rw [hreserved] at hstage
  obtain ⟨payload', hnext', -⟩ := hstage
  obtain ⟨htype, -⟩ := Prod.mk.inj (Option.some.inj (hnext.symm.trans hnext'))
  refine h.sender.move ⟨rfl, rfl⟩ h.sender.writable ?_ h.sender.pending fun hnot => ?_
  · simp only [SharedMemory.journal, stageAfter, hreserved]
    show session.upNext journal = some (header.type, payload)
    rw [hnext, htype]
  · have hidle : journal.stage = .idle := (h.sender.quiet hnot).1
    rw [hreserved] at hidle
    cases hidle

/-- The commit sends the message. -/
theorem SessionInv.commit_sender (h : SessionInv session (state, journal))
    (hcall : session.call (state, journal) .commit)
    (hstep : step session.cfg state .commit = some next) :
    SenderInv session next ((SharedMemory.journal session.cfg).observe state .commit next
      journal) := by
  obtain ⟨message, hwritten⟩ := hcall
  have hwritten : journal.stage = .written message := hwritten
  obtain ⟨reservation, -, rfl⟩ := commit_outcome hstep
  have hlogStage : StageInv session.cfg state journal.stage := h.log.stream.stage
  have hstage : StageSends (session.upNext journal) journal.stage := h.sender.stage
  rw [hwritten] at hstage hlogStage
  have hnone : state.producer.pending = none := hlogStage.1.idle
  have hentries : (logAfter state .commit (commit session.cfg state reservation)
      journal).entries = journal.log.entries ++ [message] := by
    simp only [logAfter, hwritten]
    rfl
  have hget : session.messages[journal.log.entries.length]? = some message.content := hstage
  refine ⟨h.sender.writable, ?_, trivial, fun pending hpending => ?_, fun hnot => ?_⟩
  · show (logAfter _ _ _ _).entries.map _ = session.messages.take (logAfter _ _ _ _).entries.length
    rw [hentries, List.map_append, List.length_append]
    show _ = session.messages.take (journal.log.entries.length + 1)
    rw [List.take_add_one, hget]
    exact congrArg (· ++ _) h.sender.sent
  · have hpending : state.producer.pending = some pending := hpending
    rw [hnone] at hpending
    cases hpending
  · have hidle : journal.stage = .idle := (h.sender.quiet hnot).1
    rw [hwritten] at hidle
    cases hidle

/-- A registration finds the producer waiting for the start. -/
theorem SessionInv.register_sender (h : SessionInv session (state, journal)) {reader : ReaderId}
    (hcall : session.call (state, journal) (.registerReader reader))
    (hstep : step session.cfg state (.registerReader reader) = some next) :
    SenderInv session next ((SharedMemory.journal session.cfg).observe state
      (.registerReader reader) next journal) := by
  obtain ⟨hlt, hnew⟩ := hcall
  have hquiet := h.sender.quiet fun hstarted => hnew (hstarted reader hlt)
  have hclock := clock_eq_of_step hstep (by simp)
  have hproducer := (step_frame hstep rfl nofun).2.2.2
  have hentries : ((SharedMemory.journal session.cfg).observe state (.registerReader reader) next
      journal).log.entries = journal.log.entries := logAfter_entries nofun
  have hnext : session.upNext ((SharedMemory.journal session.cfg).observe state
      (.registerReader reader) next journal) = session.upNext journal := upNext_congr hentries
  refine ⟨?_, ?_, ?_, ?_, fun _ => ?_⟩
  · rw [hproducer]
    exact h.sender.writable
  · rw [hentries]
    exact h.sender.sent
  · rw [hnext]
    exact h.sender.stage
  · rw [hproducer, hnext, hclock]
    exact h.sender.pending
  · rw [hentries, hproducer]
    exact hquiet

/-- Every call keeps the producer's part of the invariant. -/
theorem SessionInv.sender_step (h : SessionInv session (state, journal)) {event : Event}
    (hcall : session.call (state, journal) event)
    (hstep : step session.cfg state event = some next) :
    SenderInv session next
      ((SharedMemory.journal session.cfg).observe state event next journal) := by
  have hother : event.stores = false → event ≠ .commit →
      stageAfter session.cfg state event next journal.stage = journal.stage →
      ((SharedMemory.journal session.cfg).observe state event next journal).owners =
        journal.owners → state.clock ≤ next.clock →
      SenderInv session next
        ((SharedMemory.journal session.cfg).observe state event next journal) := by
    intro hstores hcommit hstage howners hclock
    have hproducer := (step_frame hstep hstores hcommit).2.2.2
    refine h.sender.move ⟨logAfter_entries hcommit, howners⟩ ?_ ?_ ?_ fun hnot => ?_
    · rw [hproducer]
      exact h.sender.writable
    · show StageSends _ (stageAfter _ _ _ _ _)
      rw [hstage]
      exact h.sender.stage
    · intro pending hpending
      rw [hproducer] at hpending
      obtain ⟨hnow, hsends⟩ := h.sender.pending pending hpending
      exact ⟨Int.le_trans hnow hclock, hsends⟩
    · obtain ⟨hidle, -, hnone⟩ := h.sender.quiet hnot
      rw [hproducer]
      exact ⟨hstage.trans hidle, hnone⟩
  cases event with
  | reserve => exact h.reserve_sender hcall hstep
  | scan => exact h.scan_sender hstep
  | writePayload => exact h.write_sender hcall hstep
  | commit => exact h.commit_sender hcall hstep
  | registerReader => exact h.register_sender hcall hstep
  | setCursor | unregisterReader | pollCopyBatch => exact hcall.elim
  | pollZeroCopy | pollCopy | advance =>
      exact hother rfl nofun rfl rfl (Int.le_of_eq (clock_eq_of_step hstep (by simp)).symm)
  | tick elapsed =>
      refine hother rfl nofun rfl rfl ?_
      obtain rfl := Option.some.inj hstep
      exact Int.le_add_of_nonneg_right (Int.natCast_nonneg elapsed)

end Sender

/-- Every call keeps the invariant. -/
theorem SessionInv.step {session : Session} {pair next : State × Journal} {event : Event}
    (h : SessionInv session pair) (hcall : session.call pair event)
    (hstep : session.system.step pair event = some next) : SessionInv session next := by
  obtain ⟨state, journal⟩ := pair
  obtain ⟨after, journal'⟩ := next
  obtain ⟨hnext, hrecord⟩ := System.withHistory_step.mp hstep
  obtain rfl : journal' = (SharedMemory.journal session.cfg).observe state event after journal :=
    hrecord
  exact ⟨h.log_step hcall hnext, h.roster_step hcall hnext, h.sender_step hcall hnext⟩

theorem sessionInv_of_reachable {session : Session} {pair : State × Journal}
    (h : session.system.Reachable session.call pair) : SessionInv session pair := by
  refine h.invariant (SessionInv session) ?_ fun _ _ _ hinv hcall hstep => hinv.step hcall hstep
  intro pair hinit
  obtain ⟨state, history⟩ := pair
  obtain ⟨⟨clock, hcreated⟩, hstart⟩ := hinit
  obtain rfl : state = created clock := hcreated
  obtain rfl : history = (journal session.cfg).start (created clock) := hstart
  have hlog := reachable_log session.attachable (.init ⟨⟨clock, rfl⟩, rfl⟩ :
    ((ring session.cfg).withHistory (journal session.cfg)).Reachable _
      (created clock, (journal session.cfg).start (created clock)))
  refine ⟨hlog, ⟨nofun, nofun, nofun, fun _ _ => rfl, fun _ _ => rfl, fun _ _ => rfl⟩,
    ⟨rfl, ?_, trivial, nofun, fun _ => ⟨rfl, rfl, rfl⟩⟩⟩
  simp [journal, AppendLog.empty]

/-! ## What the consumers have received -/

section Received

variable {session : Session} {state : State} {journal : Journal} {reader : ReaderId}

/-- A consumer has received the first messages that were sent. -/
theorem SessionInv.received_eq (h : SessionInv session (state, journal))
    (hholds : journal.holds reader) :
    journal.received reader = journal.log.entries.take (journal.log.position reader) := by
  have hreceived : journal.received reader = journal.log.delivered reader :=
    (h.log.readers reader hholds).received
  have hfirst : journal.log.start reader = 0 := h.roster.first reader hholds
  rw [hreceived, AppendLog.delivered, AppendLog.position, hfirst, List.drop_zero, Nat.zero_add]

theorem SessionInv.received_length (h : SessionInv session (state, journal))
    (hholds : journal.holds reader) :
    (journal.received reader).length = journal.log.position reader := by
  rw [h.received_eq hholds, List.length_take, Nat.min_eq_left (h.log.wellFormed reader)]

/-- No more messages are sent than there are. -/
theorem SessionInv.sent_le (h : SessionInv session (state, journal)) :
    journal.log.entries.length ≤ session.messages.length := by
  have hlength := congrArg List.length h.sender.sent
  dsimp only at hlength
  rw [List.length_map, List.length_take] at hlength
  omega

/-- A consumer with a message to take has not received them all. -/
theorem SessionInv.received_lt (h : SessionInv session (state, journal))
    (hholds : journal.holds reader) (hnext : journal.log.upcoming reader ≠ none) :
    (journal.received reader).length < session.messages.length := by
  obtain ⟨message, hmessage⟩ := Option.ne_none_iff_exists'.mp hnext
  have hlt := (List.getElem?_eq_some_iff.mp hmessage).1
  have hle := h.sent_le
  rw [h.received_length hholds]
  omega

/-- A consumer that is about to advance has a message to take. -/
theorem SessionInv.upcoming_of_polled (h : SessionInv session (state, journal))
    (hholds : journal.holds reader) {polled : Polled}
    (hpolled : journal.polled reader = some polled) : journal.log.upcoming reader ≠ none := by
  obtain ⟨message, hnext, -⟩ := (h.log.readers reader hholds).polled polled hpolled
  have hnext : journal.log.upcoming reader = some message := hnext
  rw [hnext]
  exact nofun

/-- What a consumer has received is the beginning of the messages. -/
theorem SessionInv.contents_in_order (h : SessionInv session (state, journal)) (reader : ReaderId) :
    journal.contents reader <+: session.messages := by
  have hsent : journal.log.entries.map SafeMessage.content <+: session.messages := by
    have hcut := List.take_prefix journal.log.entries.length session.messages
    rwa [← h.sender.sent] at hcut
  by_cases hholds : journal.holds reader
  · rw [Journal.contents, h.received_eq hholds]
    exact ((List.take_prefix _ _).map _).trans hsent
  · have hnone : journal.received reader = [] := h.roster.unread reader hholds
    rw [Journal.contents, hnone]
    exact List.nil_prefix

/-- A consumer that has caught up after the last message has received them all. -/
theorem SessionInv.contents_eq (h : SessionInv session (state, journal))
    (hholds : journal.holds reader) (hnext : journal.log.upcoming reader = none)
    (hlast : session.upNext journal = none) :
    journal.log.entries.map SafeMessage.content = session.messages ∧
      journal.contents reader = session.messages := by
  have hall : journal.log.entries.map SafeMessage.content = session.messages := by
    have hsent : journal.log.entries.map SafeMessage.content =
      session.messages.take journal.log.entries.length := h.sender.sent
    rw [hsent, List.take_of_length_le (List.getElem?_eq_none_iff.mp hlast)]
  refine ⟨hall, ?_⟩
  rw [Journal.contents, h.received_eq hholds]
  rw [List.take_of_length_le (List.getElem?_eq_none_iff.mp hnext), hall]

/-- A poll of a consumer fails only because there is no message yet. -/
theorem SessionInv.polls_healthy (h : SessionInv session (state, journal))
    (hholds : journal.holds reader) {status : Status}
    (herror : pollZeroCopy session.cfg.capacity state.shared (state.readers reader) =
        .error status ∨
      pollCopy session.cfg.capacity state.shared (state.readers reader) = some (.error status)) :
    status = ⟨.notFound, "No data"⟩ := by
  cases hnext : journal.log.upcoming reader with
  | none =>
      obtain ⟨hview, hcopy⟩ := h.log.polls_caught_up hholds hnext
      dsimp only at hview hcopy
      rw [hview, hcopy] at herror
      cases herror with
      | inl heq => exact (Except.error.inj heq).symm
      | inr heq => exact (Except.error.inj (Option.some.inj heq)).symm
  | some message =>
      obtain ⟨hview, hcopy⟩ := h.log.polls_unread hholds hnext
      dsimp only at hview hcopy
      rw [hview, hcopy] at herror
      cases herror with
      | inl heq => cases heq
      | inr heq => cases heq

end Received

/-! ## The work that is left -/

/-- The work of the producer. -/
def Session.producerWork (session : Session) (pair : State × Journal) : Nat :=
  4 * (session.messages.length - pair.2.log.entries.length) +
    match pair.2.stage with
    | .idle => if pair.1.producer.pending = none then 4 else 3
    | .reserved _ => 2
    | .written _ => 1

/-- The work of a consumer. -/
def Session.readerWork (session : Session) (journal : Journal) (reader : ReaderId) : Nat :=
  3 * (session.messages.length - (journal.received reader).length) +
    (if journal.polled reader = none then 1 else 0) + (if journal.holds reader then 0 else 2)

/-- The work that is left. -/
def Session.work (session : Session) (pair : State × Journal) : Nat :=
  session.producerWork pair + ∑ reader : Fin session.readers, session.readerWork pair.2 reader

/-- A thread whose next call is progress: a consumer that has not registered or has a message to
take, and the producer once all consumers have caught up. -/
def Session.helpful (session : Session) (journal : Journal) : Party → Prop
  | .reader reader => reader < session.readers ∧ (¬ journal.holds reader ∨
      session.started journal ∧ journal.log.upcoming reader ≠ none)
  | .producer => session.started journal ∧ session.upNext journal ≠ none ∧
      ∀ reader < session.readers, journal.log.upcoming reader = none

section Helpful

variable {session : Session} {state next : State} {journal : Journal} {reader : ReaderId}

/-- As long as something is missing, some thread can make progress. -/
theorem SessionInv.exists_helpful (h : SessionInv session (state, journal))
    (hnot : ¬ session.finished (state, journal)) : ∃ who, session.helpful journal who := by
  by_cases hstarted : session.started journal
  · by_cases hbehind : ∃ reader < session.readers, journal.log.upcoming reader ≠ none
    · obtain ⟨reader, hlt, hnext⟩ := hbehind
      exact ⟨.reader reader, hlt, .inr ⟨hstarted, hnext⟩⟩
    · have hcaught : ∀ reader < session.readers, journal.log.upcoming reader = none := by
        intro reader hlt
        by_contra hnext
        exact hbehind ⟨reader, hlt, hnext⟩
      refine ⟨.producer, hstarted, fun hlast => hnot ⟨?_, fun reader hlt => ?_⟩, hcaught⟩
      · have hsent : journal.log.entries.map SafeMessage.content =
          session.messages.take journal.log.entries.length := h.sender.sent
        show journal.log.entries.map SafeMessage.content = session.messages
        rw [hsent, List.take_of_length_le (List.getElem?_eq_none_iff.mp hlast)]
      · exact (h.contents_eq (hstarted reader hlt) (hcaught reader hlt) hlast).2
  · obtain ⟨reader, hmissing⟩ := not_forall.mp hstarted
    obtain ⟨hlt, hnew⟩ := Classical.not_imp.mp hmissing
    exact ⟨.reader reader, hlt, .inl hnew⟩

end Helpful

/-! ## The threads that make progress can move -/

section Moves

variable {session : Session} {state : State} {journal : Journal} {reader : ReaderId}

/-- A call of the session is a step of the system. -/
theorem canMove_of_step {event : Event} {who : Party} {next : State}
    (hparty : event.party = some who) (hcall : session.call (state, journal) event)
    (hstep : step session.cfg state event = some next) :
    session.system.CanMove session.call Event.party (state, journal) who :=
  ⟨event, (next, (SharedMemory.journal session.cfg).observe state event next journal), hparty,
    hcall, System.withHistory_step.mpr ⟨hstep, rfl⟩⟩

/-- A consumer that has not registered registers. -/
theorem register_moves (hlt : reader < session.readers) (hnew : ¬ journal.holds reader) :
    session.system.CanMove session.call Event.party (state, journal) (.reader reader) := by
  have hcall : session.call (state, journal) (.registerReader reader) := ⟨hlt, hnew⟩
  have hstep : ∃ next, step session.cfg state (.registerReader reader) = some next := by
    simp only [step]
    split
    · exact ⟨_, rfl⟩
    · exact ⟨_, rfl⟩
  obtain ⟨next, hstep⟩ := hstep
  exact canMove_of_step rfl hcall hstep

/-- A consumer with a message to take polls it, or advances over it. -/
theorem SessionInv.take_moves (h : SessionInv session (state, journal))
    (hlt : reader < session.readers) (hstarted : session.started journal)
    (hnext : journal.log.upcoming reader ≠ none) :
    session.system.CanMove session.call Event.party (state, journal) (.reader reader) := by
  cases hpolled : journal.polled reader with
  | none =>
      have hmissing := h.received_lt (hstarted reader hlt) hnext
      have hcall : session.call (state, journal) (.pollZeroCopy reader) :=
        ⟨hlt, hstarted, hpolled, hmissing⟩
      exact canMove_of_step rfl hcall rfl
  | some polled =>
      have hcall : session.call (state, journal)
          (.advance reader (totalFrameSize polled.header.length).toUInt64) :=
        ⟨hlt, hstarted, polled, hpolled, rfl⟩
      exact canMove_of_step rfl hcall rfl

/-- The producer goes on with the message that is sent next. -/
theorem SessionInv.producer_moves (h : SessionInv session (state, journal))
    (hstarted : session.started journal) (hnext : session.upNext journal ≠ none) :
    session.system.CanMove session.call Event.party (state, journal) .producer := by
  obtain ⟨⟨typeId, payload⟩, hnext⟩ := Option.ne_none_iff_exists'.mp hnext
  have hlogStage : StageInv session.cfg state journal.stage := h.log.stream.stage
  have hstage : StageSends (session.upNext journal) journal.stage := h.sender.stage
  cases hat : journal.stage with
  | idle =>
      cases hpending : state.producer.pending with
      | none =>
          have hcall : session.call (state, journal)
              (.reserve (UInt32.ofNat payload.length) typeId 0) :=
            ⟨hstarted, hat, payload, hnext, rfl⟩
          have hstep : SharedMemory.step session.cfg state
              (.reserve (UInt32.ofNat payload.length) typeId 0) =
                some (reserve session.cfg state (UInt32.ofNat payload.length) typeId 0) := by
            simp [SharedMemory.step, hpending]
          exact canMove_of_step rfl hcall hstep
      | some pending =>
          have hcall : session.call (state, journal) (.scan 0) := trivial
          have hstep : SharedMemory.step session.cfg state (.scan 0) =
              some (scanPass session.cfg state pending 0) := by
            simp [SharedMemory.step, hpending]
          exact canMove_of_step rfl hcall hstep
  | reserved header =>
      rw [hat] at hlogStage hstage
      obtain ⟨hclaims, -, hgrant⟩ := hlogStage
      obtain ⟨payload', hnext', hlength⟩ := hstage
      obtain ⟨htype, rfl⟩ := Prod.mk.inj (Option.some.inj (hnext.symm.trans hnext'))
      have hcall : session.call (state, journal) (.writePayload payload) :=
        ⟨⟨header, hat⟩, typeId, hnext⟩
      have hfits : payload.length ≤ header.length.toNat := by
        rw [hlength]
        exact Nat.le_of_eq (length_toNat hnext).symm
      have hstep : ∃ next,
          SharedMemory.step session.cfg state (.writePayload payload) = some next := by
        simp [SharedMemory.step, hclaims.idle, hgrant, hfits]
      obtain ⟨next, hstep⟩ := hstep
      exact canMove_of_step rfl hcall hstep
  | written message =>
      rw [hat] at hlogStage
      obtain ⟨reservation, hreservation, -⟩ := hlogStage.1.reservation
      have hcall : session.call (state, journal) .commit := ⟨message, hat⟩
      have hstep : SharedMemory.step session.cfg state .commit =
          some (commit session.cfg state reservation) := by
        simp [SharedMemory.step, hlogStage.1.idle, hreservation]
      exact canMove_of_step rfl hcall hstep

/-- A thread that can make progress can move. -/
theorem SessionInv.helpful_moves (h : SessionInv session (state, journal)) {who : Party}
    (hhelpful : session.helpful journal who) :
    session.system.CanMove session.call Event.party (state, journal) who := by
  cases who with
  | producer => exact h.producer_moves hhelpful.1 hhelpful.2.1
  | reader reader =>
      obtain ⟨hlt, hhelp⟩ := hhelpful
      cases hhelp with
      | inl hnew => exact register_moves hlt hnew
      | inr hbehind => exact h.take_moves hlt hbehind.1 hbehind.2

end Moves

/-! ## Every call does some of the work -/

section Work

variable {session : Session} {state next : State} {journal : Journal} {event : Event}
  {reader : ReaderId}

/-- A consumer keeps its slot during the calls of others. -/
theorem SessionInv.holds_after (h : SessionInv session (state, journal))
    (hcall : session.call (state, journal) event)
    (hstep : SharedMemory.step session.cfg state event = some next)
    (hother : event.reader ≠ some reader) (hholds : journal.holds reader) :
    ((SharedMemory.journal session.cfg).observe state event next journal).holds reader := by
  obtain ⟨index, howner⟩ := hholds
  have hbound : (state.readers reader).slotIndex = some index :=
    (h.log.held.bound index reader howner).1
  refine ⟨index, (h.roster_step hcall hstep).bound reader index ?_⟩
  rw [handle_other hstep hother]
  exact hbound

/-- The calls of others do none of a consumer's work. -/
theorem SessionInv.readerWork_other (h : SessionInv session (state, journal))
    (hcall : session.call (state, journal) event)
    (hstep : SharedMemory.step session.cfg state event = some next)
    (hother : event.reader ≠ some reader) :
    session.readerWork ((SharedMemory.journal session.cfg).observe state event next journal)
      reader = session.readerWork journal reader := by
  obtain ⟨hreceived, hpolled⟩ := received_other session.cfg state next journal hother
  have hholds : ((SharedMemory.journal session.cfg).observe state event next journal).holds reader ↔
      journal.holds reader :=
    ⟨fun hafter => holds_other hafter hother, h.holds_after hcall hstep hother⟩
  simp only [Session.readerWork, hholds]
  show 3 * (_ - (receivedAfter _ _ _ _ _ reader).length) +
    (if polledAfter _ _ _ _ _ reader = none then 1 else 0) + _ = _
  rw [hreceived, hpolled]

/-- A call of the producer that does some of its work does some of the whole. -/
theorem SessionInv.work_of_producer (h : SessionInv session (state, journal))
    (hcall : session.call (state, journal) event)
    (hstep : SharedMemory.step session.cfg state event = some next) (hreader : event.reader = none)
    (hless : session.producerWork
        (next, (SharedMemory.journal session.cfg).observe state event next journal) <
      session.producerWork (state, journal)) :
    session.work (next, (SharedMemory.journal session.cfg).observe state event next journal) <
      session.work (state, journal) := by
  refine Nat.add_lt_add_of_lt_of_le hless (Nat.le_of_eq ?_)
  refine Finset.sum_congr rfl fun other _ => h.readerWork_other hcall hstep ?_
  rw [hreader]
  exact nofun

/-- A consumer's call does none of the producer's work. -/
theorem producerWork_other (hstep : SharedMemory.step session.cfg state event = some next)
    (hstores : event.stores = false) (hcommit : event ≠ .commit)
    (hstage : stageAfter session.cfg state event next journal.stage = journal.stage) :
    session.producerWork
        (next, (SharedMemory.journal session.cfg).observe state event next journal) =
      session.producerWork (state, journal) := by
  have hentries : ((SharedMemory.journal session.cfg).observe state event next
    journal).log.entries = journal.log.entries := logAfter_entries hcommit
  have hproducer := (step_frame hstep hstores hcommit).2.2.2
  simp only [Session.producerWork, hentries, hproducer]
  show _ + (match stageAfter session.cfg state event next journal.stage with
    | .idle => _
    | .reserved _ => _
    | .written _ => _) = _
  rw [hstage]

/-- A call of a consumer that does some of its work does some of the whole. -/
theorem SessionInv.work_of_reader (h : SessionInv session (state, journal))
    (hcall : session.call (state, journal) event)
    (hstep : SharedMemory.step session.cfg state event = some next)
    (hreader : event.reader = some reader) (hlt : reader < session.readers)
    (hkept : session.producerWork
        (next, (SharedMemory.journal session.cfg).observe state event next journal) =
      session.producerWork (state, journal))
    (hless : session.readerWork
        ((SharedMemory.journal session.cfg).observe state event next journal) reader <
      session.readerWork journal reader) :
    session.work (next, (SharedMemory.journal session.cfg).observe state event next journal) <
      session.work (state, journal) := by
  refine Nat.add_lt_add_of_le_of_lt (Nat.le_of_eq hkept) ?_
  refine Finset.sum_lt_sum (fun other _ => ?_) ⟨⟨reader, hlt⟩, Finset.mem_univ _, hless⟩
  by_cases heq : reader = other.val
  · rw [← heq]
    exact Nat.le_of_lt hless
  · refine Nat.le_of_eq (h.readerWork_other hcall hstep ?_)
    rw [hreader]
    exact fun hsome => heq (Option.some.inj hsome)

/-! ## The calls of the producer -/

/-- `Reserve` does some of the producer's work, also when it starts to wait. -/
theorem SessionInv.reserve_work (h : SessionInv session (state, journal))
    {payloadSize typeId : UInt32} {tsc : UInt64}
    (hcall : session.call (state, journal) (.reserve payloadSize typeId tsc))
    (hstep : SharedMemory.step session.cfg state (.reserve payloadSize typeId tsc) = some next) :
    session.work (next, (SharedMemory.journal session.cfg).observe state
      (.reserve payloadSize typeId tsc) next journal) < session.work (state, journal) := by
  refine h.work_of_producer hcall hstep rfl ?_
  obtain ⟨-, hidle, payload, hnext, rfl⟩ := hcall
  have hidle : journal.stage = .idle := hidle
  have haccept := h.sender.accepted hnext
  dsimp only at haccept
  simp only [SharedMemory.step] at hstep
  split at hstep
  · cases hstep
  · next hnone =>
    have hnone : state.producer.pending = none := by
      simpa using hnone
    obtain rfl := Option.some.inj hstep
    rcases reserve_cases session.cfg state (UInt32.ofNat payload.length) typeId tsc with
        ⟨hreject, -⟩ | ⟨-, -, hwait⟩ | ⟨-, -, hfinish⟩
    · rw [haccept] at hreject
      cases hreject
    · rw [hwait]
      simp [Session.producerWork, SharedMemory.journal, stageAfter, logAfter, State.wait, hidle,
        hnone]
    · rw [hfinish]
      simp [Session.producerWork, SharedMemory.journal, stageAfter, logAfter, haccept, hidle,
        hnone]

/-- The write of the payload does some of the producer's work. -/
theorem SessionInv.write_work (h : SessionInv session (state, journal)) {payload : List UInt8}
    (hcall : session.call (state, journal) (.writePayload payload))
    (hstep : SharedMemory.step session.cfg state (.writePayload payload) = some next) :
    session.work (next, (SharedMemory.journal session.cfg).observe state
      (.writePayload payload) next journal) < session.work (state, journal) := by
  refine h.work_of_producer hcall hstep rfl ?_
  obtain ⟨⟨header, hreserved⟩, -⟩ := hcall
  have hreserved : journal.stage = .reserved header := hreserved
  simp [Session.producerWork, SharedMemory.journal, stageAfter, logAfter, hreserved]

/-- The commit finishes the work for one message. -/
theorem SessionInv.commit_work (h : SessionInv session (state, journal))
    (hcall : session.call (state, journal) .commit)
    (hstep : SharedMemory.step session.cfg state .commit = some next) :
    session.work (next, (SharedMemory.journal session.cfg).observe state .commit next journal) <
      session.work (state, journal) := by
  refine h.work_of_producer hcall hstep rfl ?_
  obtain ⟨message, hwritten⟩ := hcall
  have hwritten : journal.stage = .written message := hwritten
  have hstage : StageSends (session.upNext journal) journal.stage := h.sender.stage
  rw [hwritten] at hstage
  have hlt : journal.log.entries.length < session.messages.length :=
    (List.getElem?_eq_some_iff.mp hstage).1
  have hwork : ∀ pending : Option PendingReserve, (if pending = none then 4 else 3) ≤ 4 := by
    intro pending
    split <;> omega
  have hafter := hwork next.producer.pending
  simp only [Session.producerWork, SharedMemory.journal, stageAfter, logAfter, hwritten,
    AppendLog.append, List.length_append, List.length_singleton]
  omega

/-- When all consumers have caught up, a scan pass finds space. -/
theorem SessionInv.scan_finds (h : SessionInv session (state, journal)) {pending : PendingReserve}
    (hpending : state.producer.pending = some pending)
    (hcaught : ∀ reader < session.readers, journal.log.upcoming reader = none) (tsc : UInt64) :
    (pending.refresh tsc state.clock).targetCursor -
      (rescan session.cfg state (pending.refresh tsc state.clock)).producer.cachedMinCursor ≤
        session.cfg.capacity := by
  obtain ⟨-, htarget, hspace, -⟩ := h.log.stream.producer.pending pending hpending
  obtain ⟨-, -, -, htargeted⟩ := refresh_fields pending tsc state.clock
  have hidle : journal.stage = .idle := h.log.stream.stage_idle hpending
  have hstage : StageInv session.cfg state journal.stage := h.log.stream.stage
  rw [hidle] at hstage
  have hcursor : state.shared.header.producerCursor = state.shared.header.commitCursor := hstage
  generalize pending.refresh tsc state.clock = refreshed at htargeted ⊢
  have hle : (scanReaders refreshed.now session.cfg.evictTimeoutNs state.slots
    refreshed.targetCursor).2 ≤ refreshed.targetCursor := scanReaders_le_target
  have hmember : (scanReaders refreshed.now session.cfg.evictTimeoutNs state.slots
      refreshed.targetCursor).2 = refreshed.targetCursor ∨
    ∃ index, (state.slots index).active = true ∧ (scanReaders refreshed.now
      session.cfg.evictTimeoutNs state.slots refreshed.targetCursor).2 =
        (state.slots index).cursor := scanReaders_min_mem
  show refreshed.targetCursor - (scanReaders refreshed.now session.cfg.evictTimeoutNs state.slots
    refreshed.targetCursor).2 ≤ _
  rw [UInt64.le_iff_toNat_le, UInt64.toNat_sub_of_le _ _ hle]
  cases hmember with
  | inl htop =>
      rw [htop]
      omega
  | inr hslot =>
      obtain ⟨index, hactive, hmin⟩ := hslot
      obtain ⟨reader, howner⟩ := h.log.held.held index hactive
      have hlt : reader < session.readers := h.roster.member index reader howner
      have hpublished : (state.slots index).cursor = (state.readers reader).cursor :=
        h.log.agree index reader howner
      have hbehind : (state.readers reader).cursor.toNat =
          streamEnd (journal.log.behind reader) := (h.log.readers reader ⟨index, howner⟩).cursor
      have hcommitted : state.shared.header.commitCursor.toNat =
        streamEnd journal.log.entries := h.log.stream.committed
      dsimp only at htarget
      rw [AppendLog.behind_eq_entries (hcaught reader hlt), ← hcommitted, ← hcursor] at hbehind
      rw [hmin, hpublished, hbehind, htargeted, htarget]
      omega

/-- A scan pass does some of the producer's work, or leaves it waiting for a consumer. -/
theorem SessionInv.scan_work (h : SessionInv session (state, journal)) {tsc : UInt64}
    (hcall : session.call (state, journal) (.scan tsc))
    (hstep : SharedMemory.step session.cfg state (.scan tsc) = some next) :
    session.work (next, (SharedMemory.journal session.cfg).observe state (.scan tsc) next
        journal) < session.work (state, journal) ∨
      (SharedMemory.journal session.cfg).observe state (.scan tsc) next journal = journal ∧
        next.producer.pending.isSome ∧ state.producer.pending.isSome ∧
        ¬ session.helpful journal .producer := by
  have howners : ownersAfter state (.scan tsc) next.slots next.readers journal.owners =
    journal.owners := h.scan_owners hstep
  have hscan := hstep
  simp only [SharedMemory.step, Option.map_eq_some_iff] at hstep
  obtain ⟨pending, hpending, rfl⟩ := hstep
  have hidle : journal.stage = .idle := h.log.stream.stage_idle hpending
  rcases scanPass_cases session.cfg state pending tsc with ⟨-, hfinish⟩ | ⟨hfull, hwait⟩
  · refine .inl (h.work_of_producer hcall hscan rfl ?_)
    rw [hfinish]
    simp [Session.producerWork, SharedMemory.journal, stageAfter, logAfter, hidle, hpending]
  · refine .inr ⟨?_, ?_, ?_, fun hhelpful => ?_⟩
    · rw [hwait] at howners ⊢
      simp only [SharedMemory.journal, howners]
      simp [stageAfter, logAfter, receivedAfter, polledAfter, rescan, hpending]
    · rw [hwait]
      rfl
    · rw [hpending]
      rfl
    · exact UInt64.not_lt.mpr (h.scan_finds hpending hhelpful.2.2 tsc) hfull

/-! ## The calls of the consumers -/

/-- There is a free slot for every consumer. -/
theorem SessionInv.slot_free (h : SessionInv session (state, journal))
    (hlt : reader < session.readers) (hnew : ¬ journal.holds reader) :
    ∃ index, freeSlot state.slots = some index := by
  refine Option.isSome_iff_exists.mp ?_
  by_contra hnone
  have hactive : ∀ index, (state.slots index).active = true := by
    intro index
    have hfull := List.find?_eq_none.mp (Option.not_isSome_iff_eq_none.mp hnone) index
      (List.mem_finRange index)
    simpa using hfull
  choose owner howner using fun index => h.log.held.held index (hactive index)
  have hmaps : ∀ index, owner index ∈ (Finset.range session.readers).erase reader := by
    intro index
    have hmember : owner index < session.readers := h.roster.member index _ (howner index)
    refine Finset.mem_erase.mpr ⟨fun heq => hnew ⟨index, ?_⟩, Finset.mem_range.mpr hmember⟩
    rw [← heq]
    exact howner index
  -- A handle is bound to one slot.
  have hinjective : Function.Injective owner := by
    intro first second heq
    have hfirst := (h.log.held.bound first _ (howner first)).1
    have hsecond := (h.log.held.bound second _ (howner second)).1
    rw [heq, hsecond] at hfirst
    exact (Option.some.inj hfirst).symm
  have hcard : Fintype.card (Fin kMaxReaders) ≤
    ((Finset.range session.readers).erase reader).card :=
    Finset.card_le_card_of_injOn owner (fun index _ => hmaps index) hinjective.injOn
  rw [Finset.card_erase_of_mem (Finset.mem_range.mpr hlt), Finset.card_range,
    Fintype.card_fin] at hcard
  have hroster := session.roster
  have hcard : session.readers < session.readers := by
    calc
      session.readers ≤ kMaxReaders := hroster
      _ ≤ session.readers - 1 := hcard
      _ < session.readers := Nat.sub_one_lt_of_lt hlt
  exact absurd hcard (Nat.lt_irrefl _)

/-- A registration succeeds. -/
theorem SessionInv.register_binds (h : SessionInv session (state, journal))
    (hlt : reader < session.readers) (hnew : ¬ journal.holds reader)
    (hstep : SharedMemory.step session.cfg state (.registerReader reader) = some next) :
    (state.readers reader).slotIndex = none ∧
      ∃ index, (next.readers reader).slotIndex = some index := by
  have hnone : (state.readers reader).slotIndex = none := by
    refine Option.eq_none_iff_forall_ne_some.mpr fun index hbound => ?_
    exact hnew ⟨index, h.roster.bound reader index hbound⟩
  obtain ⟨index, hfree⟩ := h.slot_free hlt hnew
  unfold freeSlot at hfree
  refine ⟨hnone, index, ?_⟩
  simp only [SharedMemory.step, registerReader, hnone, ne_eq, not_true_eq_false, if_false, hfree,
    Option.some.injEq] at hstep
  subst hstep
  simp [State.setReader]

/-- A registration does some of the consumer's work. -/
theorem SessionInv.register_work (h : SessionInv session (state, journal))
    (hcall : session.call (state, journal) (.registerReader reader))
    (hstep : SharedMemory.step session.cfg state (.registerReader reader) = some next) :
    session.work (next, (SharedMemory.journal session.cfg).observe state
      (.registerReader reader) next journal) < session.work (state, journal) := by
  have hlt : reader < session.readers := hcall.1
  have hnew : ¬ journal.holds reader := hcall.2
  obtain ⟨hnone, index, hindex⟩ := h.register_binds hlt hnew hstep
  have hunread : journal.received reader = [] := h.roster.unread reader hnew
  have hjoined : joined state next reader = true := by simp [joined, hnone, hindex]
  have hholds : ((SharedMemory.journal session.cfg).observe state (.registerReader reader) next
      journal).holds reader :=
    ⟨index, (h.roster_step hcall hstep).bound reader index hindex⟩
  refine h.work_of_reader hcall hstep rfl hlt (producerWork_other hstep rfl (by simp) rfl) ?_
  have hreceived : ((SharedMemory.journal session.cfg).observe state (.registerReader reader) next
      journal).received reader = [] := by
    simp [SharedMemory.journal, receivedAfter, hjoined]
  have hpolled : ((SharedMemory.journal session.cfg).observe state (.registerReader reader) next
      journal).polled reader = none := by
    simp [SharedMemory.journal, polledAfter, hjoined]
  simp only [Session.readerWork, hreceived, hpolled, hholds, hunread, hnew, if_true, if_false]
  split
  · omega
  · omega

/-- A consumer that advances has received one more message. -/
theorem SessionInv.advance_work (h : SessionInv session (state, journal)) {length : UInt64}
    (hcall : session.call (state, journal) (.advance reader length))
    (hstep : SharedMemory.step session.cfg state (.advance reader length) = some next) :
    session.work (next, (SharedMemory.journal session.cfg).observe state
      (.advance reader length) next journal) < session.work (state, journal) := by
  have hadvance := hcall
  obtain ⟨hlt, hstarted, polled, hpolled, -⟩ := hadvance
  have hholds : journal.holds reader := hstarted reader hlt
  have hpolled : journal.polled reader = some polled := hpolled
  have hmissing : (journal.received reader).length < session.messages.length :=
    h.received_lt hholds (h.upcoming_of_polled hholds hpolled)
  refine h.work_of_reader hcall hstep rfl hlt (producerWork_other hstep rfl (by simp) rfl) ?_
  have hsame : ((SharedMemory.journal session.cfg).observe state (.advance reader length) next
      journal).holds reader := hholds
  simp only [Session.readerWork, hsame, hholds, hpolled, if_true]
  simp only [SharedMemory.journal, receivedAfter, polledAfter, hpolled, Function.update_self,
    List.length_append, List.length_singleton, if_true]
  omega

/-- A poll that finds a message does some of the consumer's work. A poll that finds none changes
nothing. -/
theorem SessionInv.poll_work (h : SessionInv session (state, journal))
    (hevent : event = .pollZeroCopy reader ∨ event = .pollCopy reader)
    (hcall : session.call (state, journal) event)
    (hstep : SharedMemory.step session.cfg state event = some next) :
    session.work (next, (SharedMemory.journal session.cfg).observe state event next journal) <
        session.work (state, journal) ∨
      (SharedMemory.journal session.cfg).observe state event next journal = journal ∧
        next = state ∧ ¬ session.helpful journal (.reader reader) := by
  have hpoll : reader < session.readers ∧ session.started journal ∧
      journal.polled reader = none := by
    rcases hevent with rfl | rfl
    · exact ⟨hcall.1, hcall.2.1, hcall.2.2.1⟩
    · exact ⟨hcall.1, hcall.2.1, hcall.2.2.1⟩
  obtain ⟨hlt, hstarted, hnone⟩ := hpoll
  have hholds : journal.holds reader := hstarted reader hlt
  have hsame : next = state := by
    rcases hevent with rfl | rfl
    · exact (Option.some.inj hstep).symm
    · simp only [SharedMemory.step, Option.map_eq_some_iff] at hstep
      obtain ⟨-, -, rfl⟩ := hstep
      rfl
  subst hsame
  cases hnext : journal.log.upcoming reader with
  | none =>
      obtain ⟨hview, hcopy⟩ := h.log.polls_caught_up hholds hnext
      dsimp only at hview hcopy
      refine .inr ⟨?_, rfl, fun hhelpful => ?_⟩
      · rcases hevent with rfl | rfl
        · simp [SharedMemory.journal, ownersAfter, stageAfter, logAfter, receivedAfter,
            polledAfter, hview]
        · simp [SharedMemory.journal, ownersAfter, stageAfter, logAfter, receivedAfter,
            polledAfter, hcopy]
      · obtain ⟨-, hhelp⟩ := hhelpful
        cases hhelp with
        | inl hnew => exact hnew hholds
        | inr hbehind => exact hbehind.2 hnext
  | some message =>
      obtain ⟨hview, hcopy⟩ := h.log.polls_unread hholds hnext
      dsimp only at hview hcopy
      have hfound : ∃ polled, ((SharedMemory.journal session.cfg).observe next event next
          journal).polled reader = some polled := by
        rcases hevent with rfl | rfl
        · simp [SharedMemory.journal, polledAfter, hview]
        · simp [SharedMemory.journal, polledAfter, hcopy]
      obtain ⟨polled, hfound⟩ := hfound
      refine .inl ?_
      have hkept : ((SharedMemory.journal session.cfg).observe next event next
            journal).received = journal.received ∧
          (((SharedMemory.journal session.cfg).observe next event next journal).holds reader ↔
            journal.holds reader) := by
        rcases hevent with rfl | rfl
        · exact ⟨rfl, Iff.rfl⟩
        · exact ⟨rfl, Iff.rfl⟩
      have hless : session.readerWork ((SharedMemory.journal session.cfg).observe next event next
          journal) reader < session.readerWork journal reader := by
        simp only [Session.readerWork, hkept.1, hkept.2, hfound, hnone, if_true]
        simp
      rcases hevent with rfl | rfl
      · exact h.work_of_reader hcall hstep rfl hlt (producerWork_other hstep rfl (by simp) rfl)
          hless
      · exact h.work_of_reader hcall hstep rfl hlt (producerWork_other hstep rfl (by simp) rfl)
          hless

end Work

/-! ## The session ends -/

/-- Every call does some of the work, or leaves the threads that can make progress as they are. -/
theorem SessionInv.work_step {session : Session} {state next : State} {journal : Journal}
    {event : Event} (h : SessionInv session (state, journal))
    (hcall : session.call (state, journal) event)
    (hstep : SharedMemory.step session.cfg state event = some next) :
    session.work (next, (SharedMemory.journal session.cfg).observe state event next journal) <
        session.work (state, journal) ∨
      session.work (next, (SharedMemory.journal session.cfg).observe state event next journal) =
          session.work (state, journal) ∧
        (SharedMemory.journal session.cfg).observe state event next journal = journal ∧
        ∀ who, session.helpful journal who → event.party ≠ some who := by
  cases event with
  | reserve => exact .inl (h.reserve_work hcall hstep)
  | writePayload => exact .inl (h.write_work hcall hstep)
  | commit => exact .inl (h.commit_work hcall hstep)
  | registerReader => exact .inl (h.register_work hcall hstep)
  | advance => exact .inl (h.advance_work hcall hstep)
  | scan tsc =>
      refine (h.scan_work hcall hstep).imp_right fun hwait => ?_
      obtain ⟨hsame, hafter, hbefore, hhelpless⟩ := hwait
      refine ⟨?_, hsame, fun who hhelpful hparty => ?_⟩
      · simp only [hsame, Session.work, Session.producerWork]
        rw [if_neg (Option.isSome_iff_ne_none.mp hafter),
          if_neg (Option.isSome_iff_ne_none.mp hbefore)]
      · obtain rfl := Option.some.inj hparty
        exact hhelpless hhelpful
  | pollZeroCopy reader =>
      refine (h.poll_work (.inl rfl) hcall hstep).imp_right fun hmissed => ?_
      obtain ⟨hsame, rfl, hhelpless⟩ := hmissed
      refine ⟨by rw [hsame], hsame, fun who hhelpful hparty => ?_⟩
      obtain rfl := Option.some.inj hparty
      exact hhelpless hhelpful
  | pollCopy reader =>
      refine (h.poll_work (.inr rfl) hcall hstep).imp_right fun hmissed => ?_
      obtain ⟨hsame, rfl, hhelpless⟩ := hmissed
      refine ⟨by rw [hsame], hsame, fun who hhelpful hparty => ?_⟩
      obtain rfl := Option.some.inj hparty
      exact hhelpless hhelpful
  | tick elapsed =>
      obtain rfl := Option.some.inj hstep
      exact .inr ⟨rfl, rfl, fun _ _ => nofun⟩
  | setCursor | unregisterReader | pollCopyBatch => exact hcall.elim

/-- The session makes progress. -/
theorem session_progress (session : Session) :
    session.system.Progress session.call Event.party session.finished session.work
      fun pair => session.helpful pair.2 := by
  refine ⟨fun pair event next hreach hcall hstep => ?_, fun pair who hreach hhelpful => ?_,
    fun pair hreach hnot => ?_⟩
  · obtain ⟨state, journal⟩ := pair
    obtain ⟨after, journal'⟩ := next
    obtain ⟨hnext, hrecord⟩ := System.withHistory_step.mp hstep
    obtain rfl : journal' = (SharedMemory.journal session.cfg).observe state event after journal :=
      hrecord
    refine ((sessionInv_of_reachable hreach).work_step hcall hnext).imp_right fun hstay => ?_
    obtain ⟨hwork, hsame, hparty⟩ := hstay
    refine ⟨hwork, fun who hhelpful => ⟨hparty who hhelpful, ?_⟩⟩
    show session.helpful ((SharedMemory.journal session.cfg).observe state event after journal) who
    rw [hsame]
    exact hhelpful
  · exact (sessionInv_of_reachable hreach).helpful_moves hhelpful
  · exact (sessionInv_of_reachable hreach).exists_helpful hnot

/-- Every consumer receives all messages in order, no poll fails except for lack of a message, and
every fair run comes to its end. -/
theorem session_delivers (session : Session) : Delivers session := by
  refine ⟨fun pair hreach reader _ => ?_, fun pair hreach reader hholds status herror => ?_,
    .of_progress (session_progress session)⟩
  · exact (sessionInv_of_reachable hreach).contents_in_order reader
  · exact (sessionInv_of_reachable hreach).polls_healthy hholds herror

/-! ## The session of the test -/

/-- The message that carries a number, as a `uint32_t` of four bytes. -/
def numbered (value : Nat) : Content :=
  (1, (List.range 4).map fun index => UInt8.ofNat (value / 256 ^ index))

theorem contentBytes_numbered (value : Nat) : contentBytes (numbered value) = 32 := by
  simp only [contentBytes, numbered, List.length_map, List.length_range]
  decide

/-- The numbers from 1 to `kNumMessages`. -/
def stressMessages : List Content := (List.range 5000).map fun index => numbered (index + 1)

theorem stressMessages_numbered {message : Content} (h : message ∈ stressMessages) :
    ∃ value, message = numbered value := by
  obtain ⟨index, -, rfl⟩ := List.mem_map.mp h
  exact ⟨index + 1, rfl⟩

/-- 16 pages of 4096 bytes, and a producer that evicts after 30 seconds. -/
def stressConfig : Config where
  capacity := 65536
  evictTimeoutNs := 30000000000
  pageAligned := by decide
  nonempty := by decide

theorem stressMessages_sizes (message : Content) (h : message ∈ stressMessages) :
    message.2.length ≤ 2 ^ 32 - 8 := by
  obtain ⟨value, rfl⟩ := stressMessages_numbered h
  simp [numbered]

theorem stressMessages_spaces (message : Content) (h : message ∈ stressMessages) :
    contentBytes message ≤ stressConfig.capacity.toNat := by
  obtain ⟨value, rfl⟩ := stressMessages_numbered h
  rw [contentBytes_numbered]
  decide

theorem stressMessages_total : (stressMessages.map contentBytes).sum < 2 ^ 64 := by
  have hsizes : stressMessages.map contentBytes = List.replicate 5000 32 := by
    simp [stressMessages, Function.comp_def, contentBytes_numbered]
  rw [hsizes, List.sum_replicate]
  decide

/-- `DataIntegrityStress`: four consumers and 5000 messages. -/
def stressSession : Session where
  cfg := stressConfig
  readers := 4
  messages := stressMessages
  attachable := by decide
  patient := by decide
  roster := by decide
  sizes := stressMessages_sizes
  spaces := stressMessages_spaces
  total := stressMessages_total

/-- Every consumer of the test receives the numbers from 1 to 5000. -/
theorem session_delivers_stress : Delivers stressSession := session_delivers stressSession

end HotPath.SharedMemory
