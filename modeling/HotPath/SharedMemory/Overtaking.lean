import HotPath.SharedMemory.Recovery

/-!
# Overtaken polls

A poll compares `producer_cursor` with its reader's cursor before it loads anything of a frame, and
not again after. `Watched` records, for one position of the stream, whether a `Reserve` has gone
past this check: it has begun to store a frame that takes the place of the position, either after
the check or before it without having moved `producer_cursor` yet.

`Clear.check` is what the comparison is good for. Everything else here says how a `Reserve` begins.
-/

namespace HotPath.SharedMemory.Access

open HotPath.Foundation

/-- What has been published, and whether the producer has overtaken a poll since its last lap
check. -/
structure Watched where
  published : Published := {}
  overtaken : Bool := false

/-- The next access is the first header store of a `Reserve` whose frame takes the place of the
given position. -/
def beginsOver (cfg : Config) (machine : Machine) (position : Nat) : Event → Bool
  | .access _ =>
      match machine.process.map Process.pc with
      | some (.storeVersion claim _) =>
          decide (position + cfg.capacity.toNat < claim.targetCursor.toNat)
      | _ => false
  | _ => false

/-- A `Reserve` that has begun to store a frame in the place of the given position has not moved
`producer_cursor`. -/
def unclaimedOver (cfg : Config) (shared : Shared) (history : Published) (position : Nat) : Bool :=
  decide (shared.header.producerCursor.toNat < history.frontier) &&
    decide (position + cfg.capacity.toNat < history.frontier)

/-- What a step of the producer adds, for a poll at the given position. -/
def Watched.produce (cfg : Config) (watched : Watched) (machine next : Machine) (event : Event)
    (position : Nat) : Watched where
  published := (publication cfg).observe machine event next watched.published
  overtaken := watched.overtaken || beginsOver cfg machine position event

/-- What the lap check of a poll at the given position adds. -/
def Watched.check (cfg : Config) (watched : Watched) (shared : Shared) (position : Nat) : Watched :=
  { watched with overtaken := unclaimedOver cfg shared watched.published position }

/-- Unless the poll has been overtaken, no `Reserve` has begun to store a frame in the place of its
position. -/
def Clear (cfg : Config) (watched : Watched) (position : Nat) : Prop :=
  watched.overtaken = false → watched.published.frontier ≤ position + cfg.capacity.toNat

section Steps

variable {cfg : Config} {watched : Watched} {machine next : Machine} {event : Event}
  {position : Nat}

/-- The frontier moves where a `Reserve` begins to store its frame. -/
theorem frontier_le_of_not_begins {history : Published}
    (hbegins : beginsOver cfg machine position event = false)
    (h : history.frontier ≤ position + cfg.capacity.toNat) :
    ((publication cfg).observe machine event next history).frontier ≤
      position + cfg.capacity.toNat := by
  simp only [publication]
  split
  · next process hprocess =>
      simp only [beginsOver, hprocess, Option.map_some] at hbegins
      unfold publishedAfter
      split
      · next claim version hat =>
          rw [hat] at hbegins
          exact Nat.max_le.mpr ⟨h, Nat.le_of_not_lt (of_decide_eq_false hbegins)⟩
      · exact h
      · exact h
      · exact h
  · exact h
  · exact h

/-- A position stays clear while the producer runs. -/
theorem Clear.produce (h : Clear cfg watched position) :
    Clear cfg (watched.produce cfg machine next event position) position := by
  intro hovertaken
  obtain ⟨hbefore, hbegins⟩ := Bool.or_eq_false_iff.mp hovertaken
  show ((publication cfg).observe machine event next watched.published).frontier ≤ _
  exact frontier_le_of_not_begins hbegins (h hbefore)

/-- A poll that passes its lap check has not been lapped by a `Reserve` that has moved
`producer_cursor`. -/
theorem Clear.check {shared : Shared} {current : UInt64}
    (hle : current.toNat ≤ shared.header.producerCursor.toNat)
    (hpasses : ¬ shared.header.producerCursor - current > cfg.capacity) :
    Clear cfg (watched.check cfg shared current.toNat) current.toNat := by
  intro hunclaimed
  have hspan : (shared.header.producerCursor - current).toNat =
      shared.header.producerCursor.toNat - current.toNat :=
    UInt64.toNat_sub_of_le _ _ (UInt64.le_iff_toNat_le.mpr hle)
  have hlap := UInt64.le_iff_toNat_le.mp (UInt64.not_lt.mp hpasses)
  show watched.published.frontier ≤ current.toNat + cfg.capacity.toNat
  rcases Bool.and_eq_false_iff.mp hunclaimed with hclaimed | hbefore
  · have hclaimed := Nat.le_of_not_lt (of_decide_eq_false hclaimed)
    omega
  · exact Nat.le_of_not_lt (of_decide_eq_false hbefore)

end Steps

/-! ## What is published only grows -/

/-- What has been published stays published, and the frontier only moves on. -/
structure Published.Grows (history later : Published) : Prop where
  frontier : history.frontier ≤ later.frontier
  frames : ∀ frame ∈ history.frames, frame ∈ later.frames
  cuts : ∀ cut ∈ history.cuts, cut ∈ later.cuts

/-- The steps of the producer only add to what is published. -/
theorem publication_grows (cfg : Config) (machine next : Machine) (event : Event)
    (history : Published) :
    history.Grows ((publication cfg).observe machine event next history) := by
  have hsame : history.Grows history := ⟨Nat.le_refl _, fun _ h => h, fun _ h => h⟩
  simp only [publication]
  split
  · next process _ =>
      unfold publishedAfter
      split
      · exact ⟨Nat.le_max_left _ _, fun _ h => h, fun _ h => h⟩
      · exact ⟨Nat.le_refl _, fun _ h => h, fun _ h => List.mem_cons_of_mem _ h⟩
      · exact ⟨Nat.le_refl _, fun _ h => List.mem_append_right _ h, fun _ h => h⟩
      · exact hsame
  · exact ⟨Nat.le_refl _, fun _ h => h, fun _ h => h⟩
  · exact hsame

/-- The commit cursor never moves back. -/
theorem step_commit_le {cfg : Config} {machine next : Machine} {history : Published} {event : Event}
    (hinv : Inv cfg (stream machine.shared) history machine.process)
    (h : step cfg machine event = some next) :
    machine.shared.header.commitCursor ≤ next.shared.header.commitCursor := by
  cases step_cases h with
  | access tsc hprocess haccess =>
      unfold Process.access at haccess
      rcases Option.or_eq_some_iff.mp haccess with hscan | ⟨-, hrest⟩
      · have hstream := congrArg Stream.commitCursor (scan_cases hscan).stream_eq
        exact UInt64.le_of_eq hstream.symm
      · rcases Option.or_eq_some_iff.mp hrest with hclaim | ⟨-, hcommit⟩
        · unfold Process.claim at hclaim
          split at hclaim <;> cases hclaim <;> exact UInt64.le_refl _
        · have hpc := hinv.alive _ hprocess
          unfold Process.commit at hcommit
          split at hcommit
          · cases hcommit
            exact UInt64.le_refl _
          · cases hcommit
            exact UInt64.le_refl _
          · next reservation hat =>
              cases hcommit
              rw [hat] at hpc
              obtain ⟨reserved, hclosing, -⟩ := hpc
              show machine.shared.header.commitCursor ≤ reservation.claimedCursor
              rw [hclosing.held.claimed]
              exact hinv.commit_le
          · cases hcommit
  | write offset bytes hprocess hwrite =>
      unfold Process.write at hwrite
      split at hwrite
      · split at hwrite
        · cases hwrite
          exact UInt64.le_refl _
        · cases hwrite
      · cases hwrite
  | _ => exact UInt64.le_refl _

/-! ## What has been loaded -/

/-- As long as no `Reserve` has begun to store in the place of its frame, what a poll has loaded is
the published frame at its cursor. -/
def Agrees (cfg : Config) (history : Published) (cursor : UInt64) (loaded : SafeMessage → Prop) :
    Prop :=
  history.frontier ≤ cursor.toNat + cfg.capacity.toNat →
    ∃ message, (cursor.toNat, message) ∈ history.frames ∧ loaded message

/-- A copy of a message has its fields and the first bytes of its payload, whose length has been
loaded. -/
structure PartCopied (copy : SafeMessage) (length : UInt32) (message : SafeMessage) : Prop where
  length : message.header.length = length
  type : copy.type = message.type
  timestamp : copy.timestamp = message.timestamp
  payload : ∃ rest, message.payload = copy.payload ++ rest

section Loads

variable {cfg : Config} {history later : Published} {before : Stream} {process : Option Process}
  {cursor : UInt64} {loaded stronger : SafeMessage → Prop}

theorem Agrees.grow (h : Agrees cfg history cursor loaded) (hgrows : history.Grows later) :
    Agrees cfg later cursor loaded := by
  intro hretained
  obtain ⟨message, hmem, hloaded⟩ := h (Nat.le_trans hgrows.frontier hretained)
  exact ⟨message, hgrows.frames _ hmem, hloaded⟩

/-- A load of a frame that has not been overtaken extends the agreement. -/
theorem Agrees.load (h : Agrees cfg history cursor loaded)
    (hinv : Inv cfg before history process)
    (hload : ∀ message, loaded message → FrameStored cfg.capacity before.data cursor.toNat message →
      Admitted cfg message → stronger message) :
    Agrees cfg history cursor stronger := by
  intro hretained
  obtain ⟨message, hmem, hloaded⟩ := h hretained
  have hframe := hinv.retained.stored cursor.toNat message hmem hretained
  exact ⟨message, hmem, hload message hloaded hframe.stored hframe.admitted⟩

/-- A frame boundary below the commit cursor has a published frame. -/
theorem Inv.agrees (hinv : Inv cfg before history process) (hboundary : cursor.toNat ∈ history.cuts)
    (hbelow : cursor < before.commitCursor) : Agrees cfg history cursor fun _ => True := by
  intro hretained
  obtain ⟨message, hmem⟩ := hinv.retained.starts _ hboundary
    (UInt64.lt_iff_toNat_lt.mp hbelow) hretained
  exact ⟨message, hmem, trivial⟩

variable {copy message : SafeMessage} {length : UInt32} {data : Nat → UInt8} {start : Nat}

/-- The next byte of the payload of a stored frame. -/
theorem PartCopied.append (h : PartCopied copy length message) (hadmitted : Admitted cfg message)
    (hstored : FrameStored cfg.capacity data start message)
    (hmore : copy.payload.length < length.toNat) :
    PartCopied { copy with payload := copy.payload ++
      [byteAt cfg.capacity.toNat data (start + kFrameHeaderSize + copy.payload.length)] } length
      message := by
  have hlength := hadmitted.length_toNat
  rw [h.length] at hlength
  obtain ⟨rest, hrest⟩ := h.payload
  have hbyte : message.payload[copy.payload.length]? =
      some (byteAt cfg.capacity.toNat data (start + kFrameHeaderSize + copy.payload.length)) := by
    rw [← hstored.payload]
    exact getElem?_loadBytes (by omega)
  refine ⟨h.length, h.type, h.timestamp, ?_⟩
  cases rest with
  | nil =>
      have hshort := congrArg List.length hrest
      rw [List.append_nil] at hshort
      omega
  | cons byte rest =>
      obtain rfl : byte =
        byteAt cfg.capacity.toNat data (start + kFrameHeaderSize + copy.payload.length) := by
        simpa [hrest] using hbyte
      exact ⟨rest, by rw [hrest, List.append_assoc]; rfl⟩

/-- A copy of all the payload is the message. -/
theorem PartCopied.complete (h : PartCopied copy length message)
    (hadmitted : Admitted cfg message) (hall : ¬ copy.payload.length < length.toNat) :
    copy = message := by
  have hlength := hadmitted.length_toNat
  rw [h.length] at hlength
  obtain ⟨rest, hrest⟩ := h.payload
  have hsum := congrArg List.length hrest
  rw [List.length_append] at hsum
  have hnil : rest = [] := List.eq_nil_of_length_eq_zero (by omega)
  have hpayload : copy.payload = message.payload := by rw [hrest, hnil, List.append_nil]
  have htype := h.type
  have htimestamp := h.timestamp
  cases copy
  cases message
  simp_all

end Loads

end HotPath.SharedMemory.Access
