import HotPath.SharedMemory.BroadcastLog

/-!
# The ring buffer refines the append-only log

`LogInv` joins the stream invariant with the place of every registered reader in the abstract log:
its cursor is the stream position behind the entries that it has taken, and a successful poll
belongs to its next entry. `refines_log` follows in every run in which the total size of all
frames stays below `2 ^ 64`.

At that size the cursors wrap, and a reader is told `NotFound` with a frame unread
(`wrapped_frame_is_missed`). The run that shows this repeats one round per page until the cursors
are one page short of `2 ^ 64`.
-/

namespace HotPath.SharedMemory

open HotPath.Foundation

/-! ## The readers -/

/-- A poll result that belongs to the message at the reader's cursor. -/
def Polled.Of (cfg : Config) (cursor : UInt64) (message : SafeMessage) (polled : Polled) : Prop :=
  polled = .view message.header
      ⟨frameAddress cfg.capacity cursor + kFrameHeaderSize, message.payload.length⟩ ∨
    polled = .copy message.header message

/-- Where a registered reader is in the log. -/
structure ReaderInv (cfg : Config) (state : State) (journal : Journal) (reader : ReaderId) :
    Prop where
  cursor : (state.readers reader).cursor.toNat = streamEnd (journal.log.behind reader)
  received : journal.received reader = journal.log.delivered reader
  polled : ∀ polled, journal.polled reader = some polled → ∃ message,
    journal.log.upcoming reader = some message ∧
      polled.Of cfg (state.readers reader).cursor message

/-- The ring buffer carries the log to all registered readers. -/
structure LogInv (cfg : Config) (state : State) (journal : Journal) : Prop where
  stream : StreamInv cfg state journal.stage journal.log.entries
  held : SlotsHeld state.slots state.readers journal.owners
  agree : CursorsAgree state.slots state.readers journal.owners
  within : WithinCapacity cfg state
  cached : ActiveCursors (state.producer.cachedMinCursor.toNat ≤ ·) state.slots
  wellFormed : journal.log.WellFormed
  readers : ∀ reader, journal.holds reader → ReaderInv cfg state journal reader

/-- A frame at a cursor that the producer has not overtaken answers both polls. -/
theorem polls_stored {cfg : Config} {state : State} {handle : BroadcastReader}
    {message : SafeMessage}
    (hmessage : Admitted cfg message)
    (hstored : FrameStored cfg.capacity state.shared.data handle.cursor.toNat message)
    (hcommit : handle.cursor < state.shared.header.commitCursor)
    (hlap : ¬ state.shared.header.producerCursor - handle.cursor > cfg.capacity) :
    pollZeroCopy cfg.capacity state.shared handle = .ok (message.header,
        ⟨frameAddress cfg.capacity handle.cursor + kFrameHeaderSize, message.payload.length⟩) ∧
      pollCopy cfg.capacity state.shared handle = some (.ok (message.header, message)) := by
  have hfits := hmessage.payload_fits
  have hspace := hmessage.space
  have hlength := hmessage.length_toNat
  have hbehind : ¬ handle.cursor ≥ state.shared.header.commitCursor := UInt64.not_le.mpr hcommit
  have hsmall : ¬ message.header.length.toUInt64 > cfg.capacity := by
    rw [gt_iff_lt, UInt64.lt_iff_toNat_lt, UInt32.toNat_toUInt64, hlength]
    omega
  have haddress := frameAddress_eq cfg.capacity handle.cursor
  obtain ⟨hl, ht, hts⟩ := headerStored_mod.mpr hstored.header
  have hpayload := (loadPayload_mod handle.cursor.toNat message.payload.length).trans
    hstored.payload
  have heven := (congrArg (· &&& 1) (loadVersion_mod handle.cursor.toNat)).trans hstored.even
  rw [← haddress] at hl ht hts hpayload heven
  constructor
  · simp [pollZeroCopy, hbehind, hlap, hl, ht, hts, hsmall, hlength]
  · simp only [pollCopy, pollCopyPass, hbehind, hlap, hl, ht, hts, hsmall, hlength, hpayload, heven,
      if_false, if_true, ne_eq, not_true_eq_false]
    rfl

namespace LogInv

variable {cfg : Config} {state next : State} {journal : Journal} {event : Event}
  {reader : ReaderId} {message : SafeMessage}

/-- The slot of a registered reader publishes its cursor and keeps the producer within the
capacity of it. -/
theorem reader_within (h : LogInv cfg state journal) (hholds : journal.holds reader) :
    state.shared.header.producerCursor.toNat ≤
      (state.readers reader).cursor.toNat + cfg.capacity.toNat := by
  obtain ⟨index, howner⟩ := hholds
  rw [← h.agree index reader howner]
  exact h.within index (h.held.bound index reader howner).2.1

/-- The next entry of a registered reader is stored at its cursor. -/
theorem upcoming_stored (h : LogInv cfg state journal) (hholds : journal.holds reader)
    (hnext : journal.log.upcoming reader = some message) :
    Admitted cfg message ∧
      FrameStored cfg.capacity state.shared.data (state.readers reader).cursor.toNat message ∧
      (state.readers reader).cursor.toNat + frameBytes message ≤
        state.shared.header.commitCursor.toNat := by
  obtain ⟨rest, hentries⟩ := AppendLog.entries_eq_behind hnext
  have hwithin := h.reader_within hholds
  have hend := h.stream.entry_end hentries
  rw [(h.readers reader hholds).cursor] at hwithin ⊢
  exact ⟨h.stream.admitted message (by simp [hentries]), h.stream.stored _ _ _ hentries hwithin,
    hend⟩

/-- A registered reader that has caught up is told so. -/
theorem polls_caught_up (h : LogInv cfg state journal) (hholds : journal.holds reader)
    (hnext : journal.log.upcoming reader = none) :
    pollZeroCopy cfg.capacity state.shared (state.readers reader) =
        .error ⟨.notFound, "No data"⟩ ∧
      pollCopy cfg.capacity state.shared (state.readers reader) =
        some (.error ⟨.notFound, "No data"⟩) := by
  have hend : (state.readers reader).cursor.toNat =
      state.shared.header.commitCursor.toNat := by
    rw [(h.readers reader hholds).cursor, AppendLog.behind_eq_entries hnext, h.stream.committed]
  have hge : (state.readers reader).cursor ≥ state.shared.header.commitCursor :=
    UInt64.le_iff_toNat_le.mpr (by omega)
  exact ⟨by simp [pollZeroCopy, hge], by simp [pollCopy, hge]⟩

/-- A registered reader that has not caught up polls its next entry. -/
theorem polls_unread (h : LogInv cfg state journal) (hholds : journal.holds reader)
    (hnext : journal.log.upcoming reader = some message) :
    pollZeroCopy cfg.capacity state.shared (state.readers reader) = .ok (message.header,
        ⟨frameAddress cfg.capacity (state.readers reader).cursor + kFrameHeaderSize,
          message.payload.length⟩) ∧
      pollCopy cfg.capacity state.shared (state.readers reader) =
        some (.ok (message.header, message)) := by
  have hcommit := UInt64.le_iff_toNat_le.mp h.stream.producer.commit_le
  obtain ⟨hmessage, hstored, hend⟩ := h.upcoming_stored hholds hnext
  have hwithin := h.reader_within hholds
  have hfits := hmessage.payload_fits
  unfold kFrameHeaderSize at hfits
  have hbehind : (state.readers reader).cursor < state.shared.header.commitCursor :=
    UInt64.lt_iff_toNat_lt.mpr (by omega)
  refine polls_stored hmessage hstored hbehind ?_
  rw [gt_iff_lt, UInt64.lt_iff_toNat_lt,
    UInt64.toNat_sub_of_le _ _ (UInt64.le_iff_toNat_le.mpr (by omega))]
  omega

/-- The payload of the next entry lies behind its header. -/
theorem view_payload (h : LogInv cfg state journal) (hholds : journal.holds reader)
    (hnext : journal.log.upcoming reader = some message) :
    loadBytes cfg.capacity.toNat state.shared.data message.payload.length
      (frameAddress cfg.capacity (state.readers reader).cursor + kFrameHeaderSize) =
        message.payload := by
  rw [frameAddress_eq]
  exact (loadPayload_mod _ _).trans (h.upcoming_stored hholds hnext).2.1.payload

/-- A registered reader sees the log. -/
theorem readsLog (h : LogInv cfg state journal) (hholds : journal.holds reader) :
    ReadsLog cfg state journal reader := by
  refine ⟨(h.readers reader hholds).received, h.polls_caught_up hholds, fun message hnext => ?_⟩
  obtain ⟨hview, hcopy⟩ := h.polls_unread hholds hnext
  exact ⟨⟨_, hview, h.view_payload hholds hnext⟩, hcopy⟩

/-- The length that a reader advances by is the size of the frame that it polled. -/
theorem advance_frame (h : LogInv cfg state journal) (hcap : cfg.capacity.toNat ≤ 2 ^ 30)
    {length : UInt64} (hcall : logCall cfg (state, journal) (.advance reader length) = true) :
    ∃ polled message, journal.polled reader = some polled ∧
      journal.log.upcoming reader = some message ∧
      polled.Of cfg (state.readers reader).cursor message ∧ length.toNat = frameBytes message := by
  simp only [logCall, Bool.and_eq_true, decide_eq_true_eq] at hcall
  obtain ⟨hholds, hlength⟩ := hcall
  cases hpolled : journal.polled reader with
  | none => simp [hpolled] at hlength
  | some polled =>
      simp only [hpolled, beq_iff_eq] at hlength
      obtain ⟨message, hnext, hof⟩ := (h.readers reader hholds).polled polled hpolled
      have hspace := (h.upcoming_stored hholds hnext).1.space
      have hheader : polled.header = message.header := by
        rcases hof with rfl | rfl <;> rfl
      refine ⟨polled, message, rfl, hnext, hof, ?_⟩
      rw [hlength, hheader, UInt32.toNat_toUInt64, totalFrameSize_toNat, frameBytes]
      rw [frameBytes] at hspace
      omega

/-- A registered reader does not move past the commit cursor. -/
theorem noCarry (h : LogInv cfg state journal) (hcap : cfg.capacity.toNat ≤ 2 ^ 30)
    (hcall : logCall cfg (state, journal) event = true) : NoCarry cfg state event := by
  intro caller length hcaller hlength
  cases event with
  | advance reader total =>
      obtain rfl : reader = caller := Option.some.inj hcaller
      obtain rfl : total = length := Option.some.inj hlength
      obtain ⟨polled, message, -, hnext, -, htotal⟩ := h.advance_frame hcap hcall
      have hholds : journal.holds reader := by
        simp only [logCall, Bool.and_eq_true, decide_eq_true_eq] at hcall
        exact hcall.1
      have hend := (h.upcoming_stored hholds hnext).2.2
      have hcommit := state.shared.header.commitCursor.toNat_lt
      omega
  | pollCopyBatch => simp [logCall] at hcall
  | _ => simp [Event.advancesBy] at hlength

/-- Only registered readers advance. -/
theorem matchesOwner (h : LogInv cfg state journal)
    (hcall : logCall cfg (state, journal) event = true) :
    MatchesOwner cfg state event journal.owners := by
  intro index caller length hcaller hlength hindex _ _
  cases event with
  | advance reader total =>
      obtain rfl : reader = caller := Option.some.inj hcaller
      simp only [logCall, Bool.and_eq_true, decide_eq_true_eq] at hcall
      obtain ⟨slot, howner⟩ := hcall.1
      have hbound := (h.held.bound slot reader howner).1
      rwa [Option.some.inj (hbound.symm.trans hindex)] at howner
  | pollCopyBatch => simp [logCall] at hcall
  | _ => simp [Event.advancesBy] at hlength

/-- Reservations are sound. -/
theorem reserveSound (h : LogInv cfg state journal)
    (hcall : logCall cfg (state, journal) event = true) (hfits : CursorFits state event) :
    ReserveSound cfg state event := by
  rintro payloadSize typeId tsc rfl
  simp only [logCall, Bool.and_eq_true, decide_eq_true_eq] at hcall
  exact ⟨⟨hcall.1.2, hfits⟩, fun _ index hactive =>
    UInt64.le_iff_toNat_le.mpr (h.cached index hactive)⟩

/-- What a call does to the slots, with the producer cursor and the cached minimum of before. -/
theorem roster (h : LogInv cfg state journal) (hcap : cfg.capacity.toNat ≤ 2 ^ 30)
    (hcall : logCall cfg (state, journal) event = true)
    (hstep : SharedMemory.step cfg state event = some next) :
    let owners := ownersAfter state event next.slots next.readers journal.owners
    SlotsHeld next.slots next.readers owners ∧ CursorsAgree next.slots next.readers owners ∧
      SlotsWithin cfg state.shared.header.producerCursor.toNat next.slots ∧
      ActiveCursors (state.producer.cachedMinCursor.toNat ≤ ·) next.slots := by
  have hroster := step_roster hstep
  have hjoin : ∀ reader, event = .registerReader reader →
      (state.readers reader).cursor = state.shared.header.producerCursor := by
    rintro reader rfl
    simp only [logCall, Bool.and_eq_true, beq_iff_eq] at hcall
    exact hcall.1
  have howns := h.matchesOwner hcall
  have hcarry := h.noCarry hcap hcall
  refine ⟨hroster.held h.held ?_, hroster.cursors_agree h.agree h.held ?_ howns,
    hroster.active_cursors (fun _ _ hle hlow => by omega) h.within h.agree howns ?_ hcarry,
    hroster.active_cursors (fun _ _ hle hlow => by omega) h.cached h.agree howns ?_ hcarry⟩
  · rintro reader index rfl
    simp [logCall] at hcall
  · rintro reader cursor rfl
    simpa [logCall] using hcall
  · intro reader hevent
    rw [hjoin reader hevent]
    omega
  · intro reader hevent
    rw [hjoin reader hevent]
    exact UInt64.le_iff_toNat_le.mp h.stream.producer.cached_le

end LogInv

/-! ## Readers that a call is not made with -/

section Others

variable {cfg : Config} {state next : State} {journal : Journal} {event : Event}
  {reader : ReaderId}

/-- A call changes only the handle that it is made with. -/
theorem handle_other (hstep : step cfg state event = some next)
    (hother : event.reader ≠ some reader) : next.readers reader = state.readers reader := by
  have hroster := step_roster hstep
  generalize next.slots = slots at hroster
  generalize next.readers = readers at hroster ⊢
  have hne : ∀ caller, event.reader = some caller → reader ≠ caller := by
    rintro caller hcaller rfl
    exact hother hcaller
  cases hroster with
  | same | scan => rfl
  | setCursor caller | register caller | unregister caller =>
      exact Function.update_of_ne (hne caller rfl) _ _
  | publish _ caller _ _ hcaller | unbind _ caller _ _ hcaller | move _ caller _ hcaller =>
      exact Function.update_of_ne (hne caller hcaller) _ _

/-- A reader holds its slot after somebody else's call only if it held the slot before. -/
theorem holds_other (hholds : ((SharedMemory.journal cfg).observe state event next journal).holds
    reader) (hother : event.reader ≠ some reader) : journal.holds reader := by
  obtain ⟨index, howner⟩ := hholds
  have howner : ownersAfter state event next.slots next.readers journal.owners index =
    some reader := howner
  refine ⟨index, ?_⟩
  cases event with
  | registerReader caller =>
      have hne : reader ≠ caller := by
        rintro rfl
        exact hother rfl
      cases hbefore : (state.readers caller).slotIndex <;>
        cases hafter : (next.readers caller).slotIndex <;>
        simp only [ownersAfter, hbefore, hafter] at howner
      · exact howner
      · next claimed =>
          by_cases hindex : index = claimed
          · subst hindex
            simp [hne.symm] at howner
          · rwa [Function.update_of_ne hindex] at howner
      · exact howner
      · exact howner
  | _ => exact owner_before howner (by simp)

/-- Only a commit appends to the log. -/
theorem logAfter_entries (hcommit : event ≠ .commit) :
    (logAfter state event next journal).entries = journal.log.entries := by
  cases event with
  | commit => exact absurd rfl hcommit
  | registerReader | advance =>
      simp only [logAfter]
      split <;> rfl
  | _ => rfl

/-- Somebody else's call does not move a reader in the log. -/
theorem logAfter_other (state next : State) (hwf : journal.log.WellFormed)
    (hother : event.reader ≠ some reader) :
    (logAfter state event next journal).behind reader = journal.log.behind reader ∧
      (logAfter state event next journal).delivered reader = journal.log.delivered reader ∧
      ∀ message, journal.log.upcoming reader = some message →
        (logAfter state event next journal).upcoming reader = some message := by
  cases event with
  | commit =>
      simp only [logAfter]
      split
      · exact ⟨AppendLog.behind_append hwf, AppendLog.delivered_append hwf,
          fun _ hnext => AppendLog.upcoming_append hnext _⟩
      · exact ⟨rfl, rfl, fun _ hnext => hnext⟩
  | registerReader caller =>
      have hne : reader ≠ caller := by
        rintro rfl
        exact hother rfl
      simp only [logAfter]
      split
      · refine ⟨?_, AppendLog.delivered_join_of_ne hne, fun _ hnext => ?_⟩
        · rw [AppendLog.behind, AppendLog.position_join hne]
          rfl
        · rwa [AppendLog.upcoming, AppendLog.position_join hne]
      · exact ⟨rfl, rfl, fun _ hnext => hnext⟩
  | advance caller length =>
      have hne : reader ≠ caller := by
        rintro rfl
        exact hother rfl
      simp only [logAfter]
      split
      · refine ⟨?_, AppendLog.delivered_take_of_ne hne, fun _ hnext => ?_⟩
        · rw [AppendLog.behind, AppendLog.position_take hne]
          rfl
        · rwa [AppendLog.upcoming, AppendLog.position_take hne]
      · exact ⟨rfl, rfl, fun _ hnext => hnext⟩
  | _ => exact ⟨rfl, rfl, fun _ hnext => hnext⟩

/-- Somebody else's call changes neither what a reader has received nor what it has polled. -/
theorem received_other (cfg : Config) (state next : State) (journal : Journal)
    (hother : event.reader ≠ some reader) :
    receivedAfter cfg state event next journal reader = journal.received reader ∧
      polledAfter cfg state event next journal reader = journal.polled reader := by
  have hne : ∀ caller, event.reader = some caller → reader ≠ caller := by
    rintro caller hcaller rfl
    exact hother hcaller
  cases event with
  | registerReader caller =>
      have hne := hne caller rfl
      simp only [receivedAfter, polledAfter]
      split <;> simp [hne]
  | advance caller length =>
      have hne := hne caller rfl
      refine ⟨?_, by simp [polledAfter, hne]⟩
      cases hpolled : journal.polled caller <;> simp [receivedAfter, hpolled, hne]
  | pollZeroCopy caller =>
      have hne := hne caller rfl
      refine ⟨rfl, ?_⟩
      rcases hpoll : pollZeroCopy cfg.capacity state.shared (state.readers caller) with
        status | ⟨header, span⟩ <;> simp [polledAfter, hpoll, hne]
  | pollCopy caller =>
      have hne := hne caller rfl
      refine ⟨rfl, ?_⟩
      rcases hpoll : pollCopy cfg.capacity state.shared (state.readers caller) with
        _ | (status | ⟨header, message⟩) <;> simp [polledAfter, hpoll, hne]
  | _ => exact ⟨rfl, rfl⟩

/-- Somebody else's call keeps a registered reader where it is in the log. -/
theorem LogInv.reader_other (h : LogInv cfg state journal)
    (hstep : step cfg state event = some next)
    (hother : event.reader ≠ some reader)
    (hholds : ((SharedMemory.journal cfg).observe state event next journal).holds reader) :
    ReaderInv cfg next ((SharedMemory.journal cfg).observe state event next journal) reader := by
  obtain ⟨hcursor, hreceived, hpolled⟩ := h.readers reader (holds_other hholds hother)
  obtain ⟨hbehind, hdelivered, hupcoming⟩ :=
    logAfter_other state next h.wellFormed hother
  obtain ⟨hreceived', hpolled'⟩ := received_other cfg state next journal hother
  have hhandle := handle_other hstep hother
  refine ⟨?_, ?_, fun polled hsome => ?_⟩
  · rw [hhandle, hcursor, ← hbehind]
    rfl
  · exact hreceived'.trans (hreceived.trans hdelivered.symm)
  · obtain ⟨message, hnext, hof⟩ := hpolled polled (hpolled'.symm.trans hsome)
    exact ⟨message, hupcoming message hnext, by rwa [hhandle]⟩

end Others

/-! ## The reader that a call is made with -/

namespace LogInv

variable {cfg : Config} {state next : State} {journal : Journal} {reader : ReaderId}

/-- A reader that registers at the end of the stream joins the log. -/
theorem reader_registers (h : LogInv cfg state journal)
    (hcall : logCall cfg (state, journal) (.registerReader reader) = true)
    (hstep : SharedMemory.step cfg state (.registerReader reader) = some next)
    (hholds : ((SharedMemory.journal cfg).observe state (.registerReader reader) next
      journal).holds reader) :
    ReaderInv cfg next ((SharedMemory.journal cfg).observe state (.registerReader reader) next
      journal) reader := by
  have hcommit : (state.readers reader).cursor = state.shared.header.commitCursor := by
    simp only [logCall, Bool.and_eq_true, beq_iff_eq] at hcall
    exact hcall.2
  have hcursor : (next.readers reader).cursor = (state.readers reader).cursor := by
    have hroster := step_roster hstep
    generalize next.slots = slots at hroster
    generalize next.readers = readers at hroster ⊢
    cases hroster with
    | same => rfl
    | register => simp
    | publish => simp_all [Event.advancesBy]
    | unbind => simp_all [Event.advancesBy]
    | move => simp_all [Event.advancesBy]
  by_cases hjoined : joined state next reader = true
  · refine ⟨?_, ?_, fun polled hsome => ?_⟩
    · simp only [SharedMemory.journal, logAfter, hjoined, if_true, AppendLog.behind_join]
      rw [hcursor, hcommit, h.stream.committed]
    · simp [SharedMemory.journal, logAfter, receivedAfter, hjoined, AppendLog.delivered_join]
    · simp [SharedMemory.journal, polledAfter, hjoined] at hsome
  · obtain ⟨index, howner⟩ := hholds
    have howner : ownersAfter state (.registerReader reader) next.slots next.readers
      journal.owners index = some reader := howner
    have hbefore : journal.owners index = some reader := by
      refine owner_before howner fun caller hcaller hnone => ?_
      obtain rfl : reader = caller := Event.registerReader.inj hcaller
      simpa [joined, hnone] using hjoined
    obtain ⟨hposition, hreceived, hpolled⟩ := h.readers reader ⟨index, hbefore⟩
    refine ⟨?_, ?_, ?_⟩
    · simpa [SharedMemory.journal, logAfter, hjoined, hcursor] using hposition
    · simpa [SharedMemory.journal, logAfter, receivedAfter, hjoined] using hreceived
    · simpa [SharedMemory.journal, logAfter, polledAfter, hjoined, hcursor] using hpolled

/-- A poll that succeeds leaves the next entry to be advanced over. -/
theorem reader_polls (h : LogInv cfg state journal) {event : Event}
    (hevent : event = .pollZeroCopy reader ∨ event = .pollCopy reader)
    (hholds : journal.holds reader) :
    ReaderInv cfg state ((SharedMemory.journal cfg).observe state event state journal) reader := by
  obtain ⟨hcursor, hreceived, hpolled⟩ := h.readers reader hholds
  have hlog : logAfter state event state journal = journal.log ∧
      receivedAfter cfg state event state journal = journal.received := by
    rcases hevent with rfl | rfl <;> exact ⟨rfl, rfl⟩
  refine ⟨?_, ?_, fun polled hsome => ?_⟩
  · simpa [SharedMemory.journal, hlog.1] using hcursor
  · simpa [SharedMemory.journal, hlog] using hreceived
  · simp only [SharedMemory.journal, hlog.1] at hsome ⊢
    cases hnext : journal.log.upcoming reader with
    | none =>
        obtain ⟨hview, hcopy⟩ := h.polls_caught_up hholds hnext
        have hkeep : journal.polled reader = some polled := by
          rcases hevent with rfl | rfl
          · simpa [polledAfter, hview] using hsome
          · simpa [polledAfter, hcopy] using hsome
        simpa [hnext] using hpolled polled hkeep
    | some message =>
        obtain ⟨hview, hcopy⟩ := h.polls_unread hholds hnext
        refine ⟨message, rfl, ?_⟩
        rcases hevent with rfl | rfl
        · exact .inl (by simpa [polledAfter, hview] using hsome.symm)
        · exact .inr (by simpa [polledAfter, hcopy] using hsome.symm)

/-- A reader that advances takes its next entry. -/
theorem reader_advances (h : LogInv cfg state journal) (hcap : cfg.capacity.toNat ≤ 2 ^ 30)
    {length : UInt64} (hcall : logCall cfg (state, journal) (.advance reader length) = true)
    (hstep : SharedMemory.step cfg state (.advance reader length) = some next) :
    ReaderInv cfg next ((SharedMemory.journal cfg).observe state (.advance reader length) next
      journal) reader := by
  obtain ⟨polled, message, hpolled, hnext, hof, hlength⟩ := h.advance_frame hcap hcall
  have hcarry := h.noCarry hcap hcall reader length rfl rfl
  have hholds : journal.holds reader := by
    simp only [logCall, Bool.and_eq_true, decide_eq_true_eq] at hcall
    exact hcall.1
  obtain ⟨hcursor, hreceived, -⟩ := h.readers reader hholds
  have hmoved : (next.readers reader).cursor = (state.readers reader).cursor + length := by
    obtain rfl := Option.some.inj hstep
    cases hindex : (state.readers reader).slotIndex with
    | none => simp [State.setReader, advance, hindex]
    | some index =>
        simp only [State.setReader, advance, hindex, Function.update_self]
        split <;> rfl
  have hmessage : polled.message cfg.capacity state.shared.data = message := by
    rcases hof with rfl | rfl
    · simp only [Polled.message, h.view_payload hholds hnext]
      rfl
    · rfl
  refine ⟨?_, ?_, fun polled hsome => ?_⟩
  · simp only [SharedMemory.journal, logAfter, hpolled, Option.isSome_some, if_true,
      AppendLog.behind_take hnext, streamEnd_append, streamEnd_cons, streamEnd_nil]
    rw [hmoved, UInt64.toNat_add, Nat.mod_eq_of_lt hcarry, hcursor, hlength, Nat.add_zero]
  · simp only [SharedMemory.journal, logAfter, receivedAfter, hpolled, Option.isSome_some, if_true,
      AppendLog.delivered_take hnext, Function.update_self, hreceived, hmessage]
  · simp [SharedMemory.journal, polledAfter] at hsome

/-- The stream keeps carrying the log. -/
theorem stream_step (h : LogInv cfg state journal) {event : Event}
    (hcall : logCall cfg (state, journal) event = true) (hfits : CursorFits state event)
    (hstep : SharedMemory.step cfg state event = some next) :
    StreamInv cfg next (stageAfter cfg state event next journal.stage)
      (logAfter state event next journal).entries := by
  have hsound := h.reserveSound hcall hfits
  have hinv := h.stream.producer.step hstep fun _ _ _ heq => (hsound _ _ _ heq).1
  have hbytes : event.stores = true → ∀ position,
      position < state.shared.header.commitCursor.toNat →
      next.shared.header.producerCursor.toNat ≤ position + cfg.capacity.toNat →
      byteAt cfg.capacity.toNat next.shared.data position =
        byteAt cfg.capacity.toNat state.shared.data position :=
    fun hstores position hupper hlap =>
      byteAt_stores h.stream.producer hsound hstep hstores hlap hupper
  have hentries : event ≠ .commit →
      (logAfter state event next journal).entries = journal.log.entries := logAfter_entries
  cases event with
  | reserve payloadSize typeId tsc =>
      simp only [logCall, Bool.and_eq_true, beq_iff_eq] at hcall
      obtain ⟨⟨hidle, -⟩, haccept⟩ := hcall
      have hstream := hidle ▸ h.stream
      obtain ⟨hfits, hcache⟩ := hsound payloadSize typeId tsc rfl
      rcases reserve_outcome h.stream.producer hfits hcache hstep with
          ⟨hreject, -⟩ | ⟨hstay, pending, hpending, -⟩ | hgrant
      · simp [haccept] at hreject
      · simpa [stageAfter, logAfter, hpending, hidle] using hstream.stay hstay hinv
      · simpa [stageAfter, logAfter, hgrant.idle, haccept] using
          hstream.grant hinv hgrant (hbytes rfl)
  | scan tsc =>
      cases hpending : state.producer.pending with
      | none => simp [SharedMemory.step, hpending] at hstep
      | some pending =>
          have hidle := h.stream.stage_idle hpending
          have hstream := hidle ▸ h.stream
          rcases scan_outcome h.stream.producer hpending hstep with
              ⟨hstay, waiting, hwaiting, -⟩ | hgrant
          · simpa [stageAfter, logAfter, hpending, hwaiting, hidle] using hstream.stay hstay hinv
          · simpa [stageAfter, logAfter, hpending, hgrant.idle] using
              hstream.grant hinv hgrant (hbytes rfl)
  | writePayload payload =>
      obtain ⟨grant, hgrant, -, rfl⟩ := writePayload_outcome hstep
      cases hstage : journal.stage with
      | reserved header =>
          have hstream := hstage ▸ h.stream
          have hlength : payload.length = header.length.toNat := by
            simpa [logCall, hstage] using hcall
          exact hstream.write hgrant hlength (hbytes rfl)
      | _ => simp [logCall, hstage] at hcall
  | commit =>
      obtain ⟨reservation, hreservation, rfl⟩ := commit_outcome hstep
      cases hstage : journal.stage with
      | written message =>
          have hstream := hstage ▸ h.stream
          simpa [stageAfter, logAfter, hstage, AppendLog.append] using
            hstream.commit hreservation hinv
      | _ => simp [logCall, hstage] at hcall
  | _ =>
      obtain ⟨hproducer, hcommit, hdata, hobject⟩ := step_frame hstep rfl (by simp)
      rw [hentries (by simp)]
      exact h.stream.congr hproducer hcommit hdata hobject hinv

/-- The log stays well formed. -/
theorem wellFormed_step (h : LogInv cfg state journal) (hcap : cfg.capacity.toNat ≤ 2 ^ 30)
    {event : Event} (hcall : logCall cfg (state, journal) event = true) :
    (logAfter state event next journal).WellFormed := by
  cases event with
  | commit =>
      simp only [logAfter]
      split
      · exact h.wellFormed.append
      · exact h.wellFormed
  | registerReader reader =>
      simp only [logAfter]
      split
      · exact h.wellFormed.join
      · exact h.wellFormed
  | advance reader length =>
      obtain ⟨polled, message, hpolled, hnext, -⟩ := h.advance_frame hcap hcall
      simpa [logAfter, hpolled] using h.wellFormed.take hnext
  | _ => exact h.wellFormed

/-- Every registered reader keeps its place in the log. -/
theorem readers_step (h : LogInv cfg state journal) (hcap : cfg.capacity.toNat ≤ 2 ^ 30)
    {event : Event} (hcall : logCall cfg (state, journal) event = true)
    (hstep : SharedMemory.step cfg state event = some next)
    (hholds : ((SharedMemory.journal cfg).observe state event next journal).holds reader) :
    ReaderInv cfg next ((SharedMemory.journal cfg).observe state event next journal) reader := by
  by_cases hreader : event.reader = some reader
  · cases event with
    | setCursor caller cursor =>
        obtain rfl : caller = reader := Option.some.inj hreader
        obtain ⟨index, howner⟩ := hholds
        exact absurd howner (h.held.not_owner (by simpa [logCall] using hcall) index)
    | registerReader caller =>
        obtain rfl : caller = reader := Option.some.inj hreader
        exact h.reader_registers hcall hstep hholds
    | pollZeroCopy caller =>
        obtain rfl : caller = reader := Option.some.inj hreader
        obtain rfl := Option.some.inj hstep
        exact h.reader_polls (.inl rfl) hholds
    | pollCopy caller =>
        obtain rfl : caller = reader := Option.some.inj hreader
        simp only [SharedMemory.step, Option.map_eq_some_iff] at hstep
        obtain ⟨_, -, rfl⟩ := hstep
        exact h.reader_polls (.inr rfl) hholds
    | advance caller length =>
        obtain rfl : caller = reader := Option.some.inj hreader
        exact h.reader_advances hcap hcall hstep
    | unregisterReader | pollCopyBatch => simp [logCall] at hcall
    | _ => simp [Event.reader] at hreader
  · exact h.reader_other hstep hreader hholds

/-- The ring buffer keeps carrying the log. -/
theorem step (h : LogInv cfg state journal) (hcap : cfg.capacity.toNat ≤ 2 ^ 30) {event : Event}
    (hcall : logCall cfg (state, journal) event = true) (hfits : CursorFits state event)
    (hstep : SharedMemory.step cfg state event = some next) :
    LogInv cfg next ((SharedMemory.journal cfg).observe state event next journal) := by
  obtain ⟨hheld, hagree, hwithin, hcached⟩ := h.roster hcap hcall hstep
  have hsound := h.reserveSound hcall hfits
  refine ⟨h.stream_step hcall hfits hstep, hheld, hagree, ?_, cached_step hstep hcached,
    h.wellFormed_step hcap hcall, fun reader => h.readers_step hcap hcall hstep⟩
  exact within_step h.stream.producer hsound hwithin hstep

end LogInv

/-! ## The refinement -/

/-- The ring buffer carries the log in every run of log calls without overflow. -/
theorem reachable_log {cfg : Config} (hcap : cfg.capacity.toNat ≤ 2 ^ 30) {pair : State × Journal}
    (h : ((ring cfg).withHistory (journal cfg)).Reachable
      (fun pair event => logCall cfg pair event = true ∧ CursorFits pair.1 event) pair) :
    LogInv cfg pair.1 pair.2 := by
  refine h.invariant (fun pair => LogInv cfg pair.1 pair.2) ?_ ?_
  · rintro ⟨state, history⟩ ⟨⟨clock, rfl⟩, hstart⟩
    obtain rfl : history = (journal cfg).start (created clock) := hstart
    refine ⟨⟨⟨UInt64.le_refl _, UInt64.le_refl _, nofun, nofun, nofun⟩, rfl, rfl, nofun, ?_⟩,
      ⟨nofun, nofun⟩, nofun, nofun, nofun, AppendLog.wellFormed_empty, ?_⟩
    · rintro before message after hentries
      simp [journal, AppendLog.empty] at hentries
    · rintro reader ⟨index, howner⟩
      simp [journal] at howner
  · rintro ⟨state, history⟩ event ⟨next, history'⟩ hinv ⟨hcall, hfits⟩ hstep
    obtain ⟨hnext, hrecord⟩ := System.withHistory_step.mp hstep
    obtain rfl : history' = (journal cfg).observe state event next history := hrecord
    exact hinv.step hcap hcall hfits hnext

/-- The ring buffer refines the append-only log as long as the cursors do not overflow. -/
theorem refines_log (cfg : Config) (hcap : cfg.capacity.toNat ≤ 2 ^ 30) :
    RefinesLog cfg fun pair event => logCall cfg pair event = true ∧ CursorFits pair.1 event :=
  fun _ hreach _ hholds => (reachable_log hcap hreach).readsLog hholds

/-- A buffer of one page refines the log. -/
theorem refines_log_onePage : onePage.capacity.toNat ≤ 2 ^ 30 ∧
    RefinesLog onePage fun pair event =>
      logCall onePage pair event = true ∧ CursorFits pair.1 event :=
  ⟨by decide, refines_log onePage (by decide)⟩

/-! ## The end of the cursors -/

/-- One reader in slot 0 has caught up with a producer that is between two frames. -/
structure CaughtUp (cursor : UInt64) (pair : State × Journal) : Prop where
  producer : pair.1.shared.header.producerCursor = cursor
  committed : pair.1.shared.header.commitCursor = cursor
  writable : pair.1.producer.isProducer = true
  free : pair.1.producer.pending = none
  clock : pair.1.clock = 0
  slots : ∀ index, (pair.1.slots index).active = true →
    (pair.1.slots index).cursor = cursor ∧ (pair.1.slots index).heartbeatTs = 0
  owner : ∀ index, (pair.1.slots index).active = true → pair.2.owners index = some 0
  holds : pair.2.holds 0
  reader : (pair.1.readers 0).cursor = cursor
  stage : pair.2.stage = .idle
  position : pair.2.log.position 0 = pair.2.log.entries.length

/-- The message of every round: it fills the page. -/
def fullPage : SafeMessage := ⟨7, 0, List.replicate 4072 0⟩

theorem fullPage_header : fullPage.header = ⟨4072, 7, 0⟩ := by
  simp only [SafeMessage.header, fullPage, List.length_replicate]
  rfl

/-- The pair after a frame that fills the page has been handed out. -/
structure PageOpen (cursor : UInt64) (pair next : State × Journal) : Prop where
  producer : next.1.shared.header.producerCursor = cursor + 4096
  committed : next.1.shared.header.commitCursor = pair.1.shared.header.commitCursor
  writable : next.1.producer.isProducer = true
  free : next.1.producer.pending = none
  clock : next.1.clock = 0
  slots : next.1.slots = pair.1.slots
  readers : next.1.readers = pair.1.readers
  grant : ∃ address, next.1.producer.grant = some ⟨address, 4072⟩
  reservation : ∃ reservation, next.1.producer.currentReservation = some reservation ∧
    reservation.claimedCursor = cursor + 4096
  recorded : next.2 = { pair.2 with stage := .reserved ⟨4072, 7, 0⟩ }

section Rounds

variable {allow : State × Journal → Event → Prop} {cursor : UInt64} {pair : State × Journal}

/-- A scan finds every active slot at the cursor and leaves it. -/
theorem CaughtUp.scan (h : CaughtUp cursor pair) :
    (∀ target, (scanReaders 0 onePage.evictTimeoutNs pair.1.slots target).1 = pair.1.slots) ∧
      ∀ target, (scanReaders 0 onePage.evictTimeoutNs pair.1.slots target).2 = target ∨
        (scanReaders 0 onePage.evictTimeoutNs pair.1.slots target).2 = cursor := by
  refine ⟨fun target => ?_, fun target => ?_⟩
  · rw [scanReaders_slots]
    funext index
    refine if_neg fun hexpired => ?_
    rw [(h.slots index hexpired.1).2] at hexpired
    exact absurd hexpired.2 (by decide)
  · have hmember : (scanReaders 0 onePage.evictTimeoutNs pair.1.slots target).2 = target ∨
        ∃ index, (pair.1.slots index).active = true ∧
          (scanReaders 0 onePage.evictTimeoutNs pair.1.slots target).2 =
            (pair.1.slots index).cursor := scanReaders_min_mem
    rcases hmember with htarget | ⟨index, hactive, hmin⟩
    · exact .inl htarget
    · exact .inr (hmin.trans (h.slots index hactive).1)

/-- Handing out the page opens the frame. -/
theorem pageOpen_of_finish {before state : State} {event : Event}
    (hcommit : state.shared.header.commitCursor = pair.1.shared.header.commitCursor)
    (hwritable : state.producer.isProducer = true) (hclock : state.clock = 0)
    (hslots : state.slots = pair.1.slots) (hreaders : state.readers = pair.1.readers)
    (hjournal : (journal onePage).observe before event
      (finishReserve onePage state 4072 7 cursor (cursor + 4096)) pair.2 =
        { pair.2 with stage := .reserved ⟨4072, 7, 0⟩ }) :
    PageOpen cursor pair (finishReserve onePage state 4072 7 cursor (cursor + 4096),
      (journal onePage).observe before event
        (finishReserve onePage state 4072 7 cursor (cursor + 4096)) pair.2) := by
  constructor
  all_goals simp [hcommit, hwritable, hclock, hslots, hreaders, hjournal]

/-- The next page is accepted. -/
theorem CaughtUp.accepts (h : CaughtUp cursor pair) :
    logCall onePage pair (.reserve 4072 7 0) = true := by
  simp [logCall, h.stage, reserveError, h.writable]
  decide

/-- A round opens a frame that fills the page. -/
theorem CaughtUp.reserve_page (h : CaughtUp cursor pair)
    (hreach : ((ring onePage).withHistory (journal onePage)).Reachable allow pair)
    (hreserve : allow pair (.reserve 4072 7 0)) (hscan : ∀ pair, allow pair (.scan 0)) :
    ∃ next, ((ring onePage).withHistory (journal onePage)).Reachable allow next ∧
      PageOpen cursor pair next := by
  have haccept : reserveError onePage pair.1.producer 4072 = none := by
    simp [reserveError, h.writable]
    decide
  have hspace : requiredSpace 4072 = 4096 := by decide
  have hstep : (ring onePage).step pair.1 (.reserve 4072 7 0) =
      some (reserve onePage pair.1 4072 7 0) := by
    simp [ring, step, h.free]
  have hrun := hreach.recorded_step hreserve hstep
  rcases reserve_cases onePage pair.1 4072 7 0 with ⟨hreject, -⟩ | ⟨-, -, hwait⟩ | ⟨-, -, hfinish⟩
  · simp [haccept] at hreject
  · rw [h.producer, hspace, h.clock] at hwait
    rw [hwait] at hrun
    have hjournal : (journal onePage).observe pair.1 (.reserve 4072 7 0)
        (pair.1.wait ⟨4072, 7, cursor, cursor + 4096, 0, 0⟩) pair.2 = pair.2 := by
      simp [journal, ownersAfter, stageAfter, logAfter, receivedAfter, polledAfter, State.wait]
    rw [hjournal] at hrun
    generalize hstate : pair.1.wait ⟨4072, 7, cursor, cursor + 4096, 0, 0⟩ = state at hrun
    have hpass : (ring onePage).step state (.scan 0) = some (scanPass onePage state
        ⟨4072, 7, cursor, cursor + 4096, 0, 0⟩ 0) := by
      simp [ring, step, ← hstate, State.wait]
    have hrun := hrun.recorded_step (hscan _) hpass
    have hslots : state.slots = pair.1.slots := by simp [← hstate, State.wait]
    have hreaders : state.readers = pair.1.readers := by simp [← hstate, State.wait]
    have hclock : state.clock = 0 := by simp [← hstate, State.wait, h.clock]
    obtain ⟨hkeep, hmin⟩ := h.scan
    have hrefresh : PendingReserve.refresh ⟨4072, 7, cursor, cursor + 4096, 0, 0⟩ 0 state.clock =
        ⟨4072, 7, cursor, cursor + 4096, 0, 0⟩ := by
      simp [PendingReserve.refresh]
    rcases scanPass_cases onePage state
      ⟨4072, 7, cursor, cursor + 4096, 0, 0⟩ 0 with ⟨-, hfinish⟩ | ⟨hroom, -⟩
    · rw [hrefresh] at hfinish
      rw [hfinish] at hrun
      have hscanned : (rescan onePage state ⟨4072, 7, cursor, cursor + 4096, 0, 0⟩).slots =
          pair.1.slots := by
        simp only [State.slots, rescan] at hslots ⊢
        rw [hslots]
        exact hkeep _
      refine ⟨_, hrun, pageOpen_of_finish ?_ ?_ hclock hscanned hreaders ?_⟩
      · simp [rescan, ← hstate, State.wait]
      · simp [rescan, ← hstate, State.wait, h.writable]
      · simp only [journal, ownersAfter, stageAfter, logAfter, receivedAfter, polledAfter,
          finishReserve_slots, hscanned, hslots, finishReserve_producer, hclock]
        simp [← hstate, State.wait]
    · exfalso
      have hmin := hmin (cursor + 4096)
      rw [hrefresh] at hroom
      simp only [rescan] at hroom
      rw [show state.shared.header.readers = pair.1.slots from hslots] at hroom
      rcases hmin with hmin | hmin
      · rw [hmin] at hroom
        simp [onePage] at hroom
      · have hpage : cursor + 4096 - cursor = 4096 := by grind
        rw [hmin, hpage] at hroom
        simp [onePage] at hroom
  · rw [h.producer, hspace] at hfinish
    rw [hfinish] at hrun
    refine ⟨_, hrun, pageOpen_of_finish rfl h.writable h.clock rfl rfl ?_⟩
    simp [journal, ownersAfter, stageAfter, logAfter, receivedAfter, polledAfter, haccept, h.clock]

/-- The pair after the page has been committed and before the reader has polled it. -/
structure PageUnread (cursor : UInt64) (pair next : State × Journal) : Prop where
  producer : next.1.shared.header.producerCursor = cursor + 4096
  committed : next.1.shared.header.commitCursor = cursor + 4096
  writable : next.1.producer.isProducer = true
  free : next.1.producer.pending = none
  clock : next.1.clock = 0
  slots : next.1.slots = pair.1.slots
  readers : next.1.readers = pair.1.readers
  recorded : next.2 = { pair.2 with stage := .idle, log := pair.2.log.append fullPage }

/-- A round writes and commits the page. -/
theorem PageOpen.commit_page {opened : State × Journal} (h : PageOpen cursor pair opened)
    (hreach : ((ring onePage).withHistory (journal onePage)).Reachable allow opened)
    (hallow : ∀ pair event, logCall onePage pair event = true → CursorFits pair.1 event →
      allow pair event) :
    ∃ next, ((ring onePage).withHistory (journal onePage)).Reachable allow next ∧
      PageUnread cursor pair next := by
  obtain ⟨address, hgrant⟩ := h.grant
  obtain ⟨reservation, hreservation, hclaimed⟩ := h.reservation
  have hlength : (List.replicate 4072 (0 : UInt8)).length = 4072 := List.length_replicate
  have hwrite : (ring onePage).step opened.1 (.writePayload (List.replicate 4072 0)) =
      some (writePayload onePage opened.1 ⟨address, 4072⟩ (List.replicate 4072 0)) := by
    simp only [ring, step, h.free, hgrant, hlength]
    rfl
  have hrun := hreach.recorded_step (hallow _ (.writePayload (List.replicate 4072 0)) (by
    simp only [logCall, h.recorded, hlength]; rfl) trivial) hwrite
  have hwritten : (journal onePage).observe opened.1 (.writePayload (List.replicate 4072 0))
      (writePayload onePage opened.1 ⟨address, 4072⟩ (List.replicate 4072 0)) opened.2 =
        { pair.2 with stage := .written fullPage } := by
    simp only [journal, ownersAfter, stageAfter, logAfter, receivedAfter, polledAfter, h.recorded]
    rfl
  rw [hwritten] at hrun
  generalize hstate : writePayload onePage opened.1 ⟨address, 4072⟩ (List.replicate 4072 0) = state
    at hrun
  have hcommit : (ring onePage).step state .commit = some (commit onePage state reservation) := by
    simp only [ring, step, ← hstate, writePayload, h.free, hreservation]
  have hrun := hrun.recorded_step (hallow _ .commit rfl trivial) hcommit
  refine ⟨_, hrun, ?_⟩
  constructor
  · simp only [commit, ← hstate, writePayload, h.producer]
  · simp only [commit, hclaimed]
  · simp only [commit, ← hstate, writePayload, h.writable]
  · simp only [commit, ← hstate, writePayload, h.free]
  · simp only [commit, ← hstate, writePayload, h.clock]
  · simp only [State.slots, commit, ← hstate, writePayload]
    exact h.slots
  · simp only [commit, ← hstate, writePayload, h.readers]
  · simp only [journal, ownersAfter, stageAfter, logAfter, receivedAfter, polledAfter]

/-- The committed page is the next entry of the reader. -/
theorem PageUnread.upcoming {unread : State × Journal} (h : PageUnread cursor pair unread)
    (hpair : CaughtUp cursor pair) : unread.2.log.upcoming 0 = some fullPage := by
  rw [h.recorded, AppendLog.upcoming]
  show (pair.2.log.entries ++ [fullPage])[pair.2.log.position 0]? = some fullPage
  rw [hpair.position]
  exact List.getElem?_concat_length

/-- The reader polls the page and advances over it. -/
theorem PageUnread.advance {unread : State × Journal} (h : PageUnread cursor pair unread)
    (hpair : CaughtUp cursor pair) (hinv : LogInv onePage unread.1 unread.2)
    (hreach : ((ring onePage).withHistory (journal onePage)).Reachable allow unread)
    (hallow : ∀ pair event, logCall onePage pair event = true → CursorFits pair.1 event →
      allow pair event) :
    ∃ next, ((ring onePage).withHistory (journal onePage)).Reachable allow next ∧
      CaughtUp (cursor + 4096) next := by
  have hholds : unread.2.holds 0 := by
    rw [h.recorded]
    exact hpair.holds
  obtain ⟨-, hcopy⟩ := hinv.polls_unread hholds (h.upcoming hpair)
  -- The reader polls the page, and then it advances over what it has polled.
  have hpoll : (ring onePage).step unread.1 (.pollCopy 0) = some unread.1 := by
    simp only [ring, step, hcopy, Option.map_some]
  have hpolled : (journal onePage).observe unread.1 (.pollCopy 0) unread.1 unread.2 =
      { unread.2 with
        polled := Function.update unread.2.polled 0 (some (.copy fullPage.header fullPage)) } := by
    simp only [journal, ownersAfter, stageAfter, logAfter, receivedAfter, polledAfter, hcopy]
  have hrun := hreach.recorded_step (hallow _ (.pollCopy 0) (decide_eq_true hholds) trivial) hpoll
  rw [hpolled] at hrun
  have hsize : (totalFrameSize fullPage.header.length).toUInt64 = 4096 := by
    rw [fullPage_header]
    decide
  have hcall : logCall onePage (unread.1, { unread.2 with
      polled := Function.update unread.2.polled 0 (some (.copy fullPage.header fullPage)) })
      (.advance 0 4096) = true := by
    simp only [logCall, Function.update_self, Polled.header, hsize, Bool.and_eq_true,
      decide_eq_true_eq, beq_iff_eq, and_true]
    exact hholds
  have hadvance : (ring onePage).step unread.1 (.advance 0 4096) =
      some (unread.1.setReader 0 (SharedMemory.advance unread.1.shared (unread.1.readers 0) 4096
        unread.1.clock)) := rfl
  have hrun := hrun.recorded_step (hallow _ _ hcall trivial) hadvance
  obtain ⟨index, howner⟩ := hholds
  obtain ⟨hindex, hactive, hgen⟩ := hinv.held.bound index 0 howner
  have hcursor : (unread.1.readers 0).cursor = cursor := by rw [h.readers, hpair.reader]
  have hmoved : SharedMemory.advance unread.1.shared (unread.1.readers 0) 4096 unread.1.clock =
      (unread.1.shared.setSlot index { unread.1.slots index with
        cursor := cursor + 4096, heartbeatTs := 0 },
        { unread.1.readers 0 with cursor := cursor + 4096 }) := by
    simp [SharedMemory.advance, hindex, hgen, hcursor, h.clock, State.slots]
  rw [hmoved] at hrun
  have halone : ∀ slot, slot ≠ index → (unread.1.slots slot).active ≠ true := by
    intro slot hne hother
    rw [h.slots] at hother
    have hslot := hpair.owner slot hother
    have hbound := (hinv.held.bound slot 0 (by rw [h.recorded]; exact hslot)).1
    exact hne (Option.some.inj (hbound.symm.trans hindex))
  refine ⟨_, hrun, ?_⟩
  constructor
  · exact h.producer
  · exact h.committed
  · exact h.writable
  · exact h.free
  · exact h.clock
  · intro slot hslot
    by_cases hne : slot = index
    · subst hne
      simp [State.setReader, Shared.setSlot, State.slots]
    · refine absurd ?_ (halone slot hne)
      simpa [State.setReader, Shared.setSlot, State.slots, hne] using hslot
  · intro slot hslot
    by_cases hne : slot = index
    · subst hne
      exact howner
    · refine absurd ?_ (halone slot hne)
      simpa [State.setReader, Shared.setSlot, State.slots, hne] using hslot
  · exact ⟨index, howner⟩
  · simp [State.setReader]
  · simp [journal, stageAfter, h.recorded]
  · have hposition : pair.2.log.start 0 + pair.2.log.taken 0 = pair.2.log.entries.length :=
      hpair.position
    simp only [journal, logAfter, h.recorded, AppendLog.take, AppendLog.append, AppendLog.position,
      Function.update_self, Option.isSome_some, if_true, List.length_append, List.length_singleton]
    omega

/-- A round ends with a reader that has caught up again, one page later. -/
theorem CaughtUp.round (h : CaughtUp cursor pair)
    (hreach : ((ring onePage).withHistory (journal onePage)).Reachable
      (fun pair event => logCall onePage pair event = true ∧ CursorFits pair.1 event) pair)
    (hfits : cursor.toNat + 4096 < 2 ^ 64) :
    ∃ next, ((ring onePage).withHistory (journal onePage)).Reachable
      (fun pair event => logCall onePage pair event = true ∧ CursorFits pair.1 event) next ∧
        CaughtUp (cursor + 4096) next := by
  have hreserve : logCall onePage pair (.reserve 4072 7 0) = true ∧
      CursorFits pair.1 (.reserve 4072 7 0) := by
    refine ⟨h.accepts, ?_⟩
    rw [CursorFits, h.producer]
    exact hfits
  obtain ⟨opened, hopened, hopen⟩ := h.reserve_page hreach hreserve fun _ => ⟨rfl, trivial⟩
  obtain ⟨unread, hunread, hpage⟩ := hopen.commit_page hopened fun _ _ hcall hfits => ⟨hcall, hfits⟩
  exact hpage.advance h (reachable_log (by decide) hunread) hunread
    fun _ _ hcall hfits => ⟨hcall, hfits⟩

end Rounds

/-- Rounds lead to every page boundary below `2 ^ 64`. -/
theorem exists_caughtUp (rounds : Nat) (hfits : rounds * 4096 < 2 ^ 64) :
    ∃ pair, ((ring onePage).withHistory (journal onePage)).Reachable
      (fun pair event => logCall onePage pair event = true ∧ CursorFits pair.1 event) pair ∧
        CaughtUp (UInt64.ofNat (rounds * 4096)) pair := by
  induction rounds with
  | zero =>
      have hinit : ((ring onePage).withHistory (journal onePage)).Reachable
          (fun pair event => logCall onePage pair event = true ∧ CursorFits pair.1 event)
          (created 0, (journal onePage).start (created 0)) := .init ⟨⟨0, rfl⟩, rfl⟩
      have hstep : (ring onePage).step (created 0) (.registerReader 0) = some
          ((created 0).setReader 0 ((created 0).shared.setSlot 0 ⟨true, 0, 0, 1⟩,
            ⟨0, some 0, 1⟩)) :=
        rfl
      have hcall : logCall onePage (created 0, (journal onePage).start (created 0))
          (.registerReader 0) = true ∧ CursorFits (created 0) (.registerReader 0) := ⟨rfl, trivial⟩
      refine ⟨_, hinit.recorded_step hcall hstep, ?_⟩
      have hactive : ∀ index : Fin kMaxReaders,
          (Function.update (fun _ => ({} : ReaderSlot)) 0 ⟨true, 0, 0, 1⟩ index).active = true →
          index = 0 := by decide
      constructor
      · rfl
      · rfl
      · rfl
      · rfl
      · rfl
      · intro index hindex
        obtain rfl := hactive index hindex
        exact ⟨rfl, rfl⟩
      · intro index hindex
        obtain rfl := hactive index hindex
        rfl
      · exact ⟨0, rfl⟩
      · rfl
      · rfl
      · rfl
  | succ rounds ih =>
      rw [Nat.succ_mul] at hfits
      obtain ⟨pair, hreach, hpair⟩ := ih (Nat.lt_of_le_of_lt (Nat.le_add_right _ _) hfits)
      have hcursor : (UInt64.ofNat (rounds * 4096)).toNat = rounds * 4096 :=
        UInt64.toNat_ofNat_of_lt' (Nat.lt_of_le_of_lt (Nat.le_add_right _ _) hfits)
      obtain ⟨next, hnext, hround⟩ := hpair.round hreach (by omega)
      refine ⟨next, hnext, ?_⟩
      rwa [Nat.succ_mul, UInt64.ofNat_add]

/-- When the cursors wrap, a reader is told that there is no data with a frame unread. -/
theorem wrapped_frame_is_missed :
    ¬ RefinesLog onePage fun pair event => logCall onePage pair event = true := by
  intro hrefines
  obtain ⟨pair, hreach, hpair⟩ := exists_caughtUp 4503599627370495 (by omega)
  have hreach : ((ring onePage).withHistory (journal onePage)).Reachable
      (fun pair event => logCall onePage pair event = true) pair :=
    hreach.mono fun _ _ hallow => hallow.1
  obtain ⟨opened, hopened, hopen⟩ := hpair.reserve_page hreach hpair.accepts fun _ => rfl
  obtain ⟨unread, hunread, hpage⟩ := hopen.commit_page hopened fun _ _ hcall _ => hcall
  have hholds : unread.2.holds 0 := by
    rw [hpage.recorded]
    exact hpair.holds
  obtain ⟨⟨span, hview, -⟩, -⟩ :=
    (hrefines unread hunread 0 hholds).unread fullPage (hpage.upcoming hpair)
  have hwrapped : (unread.1.readers 0).cursor ≥ unread.1.shared.header.commitCursor := by
    rw [hpage.readers, hpair.reader, hpage.committed]
    decide
  simp [pollZeroCopy, hwrapped] at hview

end HotPath.SharedMemory
