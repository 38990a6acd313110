import HotPath.Foundation.ShardedSums

/-!
# The batched ID generator

`BatchedIdGenerator` with any number of `ThreadLease` objects, each used by one thread. `NextId`
works on the lease alone unless the lease is used up. Then it takes the next batch from the global
counter by one atomic `fetch_add`. The IDs are 64-bit words.

`issued_unique` says that no ID is returned twice. The invariant is that the leases hold disjoint
ranges below the counter, and that no ID already returned is in one of them.
-/

namespace HotPath.Coherency

open HotPath.Foundation

/-- The local range `[cur, batch_end)` of a thread. -/
structure ThreadLease where
  cur : UInt64 := 0
  batchEnd : UInt64 := 0
  deriving DecidableEq

/-- Where the thread of a lease is. -/
inductive NextIdPc where
  | idle
  | fetchAdd
  deriving DecidableEq

/-- The global counter, the leases and their threads. -/
structure BatchedIdGenerator (leaseCount : Nat) where
  globalId : UInt64 := 0
  leases : Fin leaseCount → ThreadLease := fun _ => {}
  threads : Fin leaseCount → NextIdPc := fun _ => .idle

/-- A call of `NextId`, up to its `fetch_add` where it has one, and the `fetch_add` with what
follows it. -/
inductive IdEvent (leaseCount : Nat) where
  | nextId (lease : Fin leaseCount)
  | fetchAdd (lease : Fin leaseCount)
  deriving DecidableEq

variable {leaseCount : Nat}

/-- The lease of an event. -/
def IdEvent.lease : IdEvent leaseCount → Fin leaseCount
  | .nextId lease | .fetchAdd lease => lease

/-- `return lease.cur++`. -/
def BatchedIdGenerator.take (state : BatchedIdGenerator leaseCount) (lease : Fin leaseCount) :
    UInt64 × BatchedIdGenerator leaseCount :=
  let range := state.leases lease
  (range.cur, { state with
    leases := Function.update state.leases lease { range with cur := range.cur + 1 } })

/-- The `fetch_add` of the counter and the two stores to the lease. -/
def BatchedIdGenerator.refill (batchSize : UInt64) (state : BatchedIdGenerator leaseCount)
    (lease : Fin leaseCount) : BatchedIdGenerator leaseCount :=
  { state with
    globalId := state.globalId + batchSize
    leases := Function.update state.leases lease
      ⟨state.globalId, state.globalId + batchSize⟩ }

/-- `GlobalWatermark`. -/
def BatchedIdGenerator.globalWatermark (state : BatchedIdGenerator leaseCount) : UInt64 :=
  state.globalId

/-- A thread goes to another place. -/
def BatchedIdGenerator.goto (state : BatchedIdGenerator leaseCount) (lease : Fin leaseCount)
    (pc : NextIdPc) : BatchedIdGenerator leaseCount :=
  { state with threads := Function.update state.threads lease pc }

/-- One step of `NextId`, with the ID that it returns where it returns. -/
def nextId (batchSize : UInt64) (state : BatchedIdGenerator leaseCount) :
    IdEvent leaseCount → Option (Option UInt64 × BatchedIdGenerator leaseCount)
  | .nextId lease =>
      match state.threads lease with
      | .idle =>
          if (state.leases lease).cur = (state.leases lease).batchEnd then
            some (none, state.goto lease .fetchAdd)
          else
            let (id, state) := state.take lease
            some (some id, state)
      | .fetchAdd => none
  | .fetchAdd lease =>
      match state.threads lease with
      | .idle => none
      | .fetchAdd =>
          let (id, state) := (state.refill batchSize lease).take lease
          some (some id, state.goto lease .idle)

/-- The generator as a transition system. -/
def idGenerator (leaseCount : Nat) (batchSize : UInt64) :
    System (BatchedIdGenerator leaseCount) (IdEvent leaseCount) where
  init state := state = {}
  step state event := (nextId batchSize state event).map Prod.snd

/-- The recorder of the returned IDs, each with its lease, in the order of the returns. -/
def issues (leaseCount : Nat) (batchSize : UInt64) :
    Recorder (BatchedIdGenerator leaseCount) (IdEvent leaseCount)
      (List (Fin leaseCount × UInt64)) where
  start _ := []
  observe state event _ issued :=
    issued ++ (((nextId batchSize state event).bind Prod.fst).map (event.lease, ·)).toList

/-- The `fetch_add` does not carry the counter past its 64 bits. -/
def NoCarry (batchSize : UInt64)
    (pair : BatchedIdGenerator leaseCount × List (Fin leaseCount × UInt64)) :
    IdEvent leaseCount → Prop
  | .nextId _ => True
  | .fetchAdd _ => pair.1.globalId.toNat + batchSize.toNat < 2 ^ 64

/-- `NoCarry` is decidable by a comparison of natural numbers. -/
instance (batchSize : UInt64)
    (pair : BatchedIdGenerator leaseCount × List (Fin leaseCount × UInt64)) :
    (event : IdEvent leaseCount) → Decidable (NoCarry batchSize pair event)
  | .nextId _ => isTrue trivial
  | .fetchAdd _ => inferInstanceAs (Decidable (_ < _))

/-! ## The invariant -/

/-- The lease may still return the ID. -/
def ThreadLease.Holds (range : ThreadLease) (id : UInt64) : Prop :=
  range.cur ≤ id ∧ id < range.batchEnd

/-- The number of IDs that the lease may still return. -/
def ThreadLease.left (range : ThreadLease) : Nat :=
  range.batchEnd.toNat - range.cur.toNat

/-- The invariant of the generator. -/
structure IdInv (batchSize : UInt64) (state : BatchedIdGenerator leaseCount)
    (issued : List (Fin leaseCount × UInt64)) : Prop where
  ordered : ∀ lease, (state.leases lease).cur ≤ (state.leases lease).batchEnd
  left_le : ∀ lease, (state.leases lease).left ≤ batchSize.toNat
  below : ∀ lease, (state.leases lease).batchEnd ≤ state.globalId
  disjoint : ∀ lease other id, (state.leases lease).Holds id → (state.leases other).Holds id →
    lease = other
  used_up : ∀ lease, state.threads lease = .fetchAdd →
    (state.leases lease).cur = (state.leases lease).batchEnd
  issued_lt : ∀ issue ∈ issued, issue.2 < state.globalId
  issued_free : ∀ issue ∈ issued, ∀ lease, ¬ (state.leases lease).Holds issue.2
  issued_own : ∀ issue ∈ issued, issue.2 < (state.leases issue.1).cur
  nodup : (issued.map Prod.snd).Nodup
  increasing : issued.Pairwise fun first second => first.1 = second.1 → first.2 < second.2
  count : state.globalId.toNat = issued.length + ∑ lease, (state.leases lease).left

section Invariant

variable {batchSize : UInt64} {state : BatchedIdGenerator leaseCount}
  {issued : List (Fin leaseCount × UInt64)} {lease : Fin leaseCount}

theorem IdInv.init (leaseCount : Nat) (batchSize : UInt64) :
    IdInv batchSize ({} : BatchedIdGenerator leaseCount) [] where
  ordered _ := UInt64.le_refl 0
  left_le _ := Nat.zero_le _
  below _ := UInt64.le_refl 0
  disjoint _ _ _ h := absurd h.2 UInt64.not_lt_zero
  used_up _ _ := rfl
  issued_lt _ h := by cases h
  issued_free _ h := by cases h
  issued_own _ h := by cases h
  nodup := List.nodup_nil
  increasing := .nil
  count := by simp [ThreadLease.left]

/-- The thread of a lease looks at it without using it. -/
theorem IdInv.goto (h : IdInv batchSize state issued) {pc : NextIdPc}
    (hused : pc = .fetchAdd → (state.leases lease).cur = (state.leases lease).batchEnd) :
    IdInv batchSize (state.goto lease pc) issued :=
  { h with
    used_up := fun other hpc => by
      by_cases heq : other = lease
      · subst heq
        exact hused (by simpa [BatchedIdGenerator.goto] using hpc)
      · exact h.used_up other (by
          simpa [BatchedIdGenerator.goto, Function.update_of_ne heq] using hpc) }

/-- An ID that a lease holds after it was refilled is new or was held before. -/
theorem holds_refill {other : Fin leaseCount} {id : UInt64}
    (h : ((state.refill batchSize lease).leases other).Holds id) :
    other = lease ∧ state.globalId ≤ id ∨ other ≠ lease ∧ (state.leases other).Holds id := by
  by_cases heq : other = lease
  · subst heq
    simp only [BatchedIdGenerator.refill, Function.update_self] at h
    exact .inl ⟨rfl, h.1⟩
  · simp only [BatchedIdGenerator.refill, Function.update_of_ne heq] at h
    exact .inr ⟨heq, h⟩

/-- A lease that is used up takes the next batch. -/
theorem IdInv.refill (h : IdInv batchSize state issued)
    (hused : (state.leases lease).cur = (state.leases lease).batchEnd)
    (hidle : state.threads lease = .idle)
    (hcarry : state.globalId.toNat + batchSize.toNat < 2 ^ 64) :
    IdInv batchSize (state.refill batchSize lease) issued := by
  have hgrown : (state.globalId + batchSize).toNat = state.globalId.toNat + batchSize.toNat := by
    rw [UInt64.toNat_add, Nat.mod_eq_of_lt hcarry]
  have hle : state.globalId ≤ state.globalId + batchSize := by
    rw [UInt64.le_iff_toNat_le, hgrown]
    exact Nat.le_add_right _ _
  have hself : (state.refill batchSize lease).leases lease =
      ⟨state.globalId, state.globalId + batchSize⟩ := by
    simp [BatchedIdGenerator.refill]
  have hother : ∀ other, other ≠ lease →
      (state.refill batchSize lease).leases other = state.leases other := by
    intro other hne
    simp [BatchedIdGenerator.refill, Function.update_of_ne hne]
  have hleft : ((state.refill batchSize lease).leases lease).left = batchSize.toNat := by
    rw [hself, ThreadLease.left, hgrown]
    exact Nat.add_sub_cancel_left ..
  refine ⟨fun other => ?_, fun other => ?_, fun other => ?_,
    fun first second id hfirst hsecond => ?_,
    fun other hpc => ?_, fun issue hmem => ?_, fun issue hmem other hholds => ?_,
    fun issue hmem => ?_, h.nodup, h.increasing, ?_⟩
  · by_cases heq : other = lease
    · subst heq
      rwa [hself]
    · rw [hother other heq]
      exact h.ordered other
  · by_cases heq : other = lease
    · subst heq
      exact hleft.le
    · rw [hother other heq]
      exact h.left_le other
  · by_cases heq : other = lease
    · subst heq
      rw [hself]
      exact UInt64.le_refl _
    · rw [hother other heq]
      exact UInt64.le_trans (h.below other) hle
  · -- What the other leases hold is below the counter, where the new batch begins.
    rcases holds_refill hfirst with ⟨hf, hnew⟩ | ⟨-, hf⟩
    · rcases holds_refill hsecond with ⟨hs, -⟩ | ⟨-, hs⟩
      · rw [hf, hs]
      · have hlt := UInt64.lt_of_lt_of_le hs.2 (h.below second)
        exact absurd hlt (UInt64.not_lt.mpr hnew)
    · rcases holds_refill hsecond with ⟨-, hnew⟩ | ⟨-, hs⟩
      · have hlt := UInt64.lt_of_lt_of_le hf.2 (h.below first)
        exact absurd hlt (UInt64.not_lt.mpr hnew)
      · exact h.disjoint first second id hf hs
  · by_cases heq : other = lease
    · subst heq
      simp [BatchedIdGenerator.refill, hidle] at hpc
    · rw [hother other heq]
      exact h.used_up other hpc
  · exact UInt64.lt_of_lt_of_le (h.issued_lt issue hmem) hle
  · rcases holds_refill hholds with ⟨-, hnew⟩ | ⟨-, hheld⟩
    · exact absurd (h.issued_lt issue hmem) (UInt64.not_lt.mpr hnew)
    · exact h.issued_free issue hmem other hheld
  · by_cases heq : issue.1 = lease
    · rw [heq, hself]
      exact h.issued_lt issue hmem
    · rw [hother _ heq]
      exact h.issued_own issue hmem
  · have hsum := sum_update_add ThreadLease.left state.leases lease
      ⟨state.globalId, state.globalId + batchSize⟩
    have hempty : (state.leases lease).left = 0 := by
      rw [ThreadLease.left, hused, Nat.sub_self]
    have hcount := h.count
    rw [← hself] at hsum
    rw [hempty, hleft] at hsum
    change (state.globalId + batchSize).toNat = _
    rw [hgrown]
    change _ = _ + ∑ other, (Function.update state.leases lease
      ⟨state.globalId, state.globalId + batchSize⟩ other).left
    rw [hself] at hsum
    omega

/-- The next ID of a lease that is not used up does not carry. -/
theorem ThreadLease.succ_cur {range : ThreadLease} (hle : range.cur ≤ range.batchEnd)
    (hne : range.cur ≠ range.batchEnd) :
    range.cur.toNat < range.batchEnd.toNat ∧ (range.cur + 1).toNat = range.cur.toNat + 1 := by
  have hlt : range.cur.toNat < range.batchEnd.toNat :=
    UInt64.lt_iff_toNat_lt.mp (UInt64.lt_of_le_of_ne hle hne)
  have hbound := range.batchEnd.toNat_lt
  refine ⟨hlt, ?_⟩
  rw [UInt64.toNat_add, UInt64.toNat_one, Nat.mod_eq_of_lt (by omega)]

/-- An ID that a lease holds after one was taken from it was held before. -/
theorem holds_take {other : Fin leaseCount} {id : UInt64}
    (hle : (state.leases lease).cur ≤ (state.leases lease).batchEnd)
    (hne : (state.leases lease).cur ≠ (state.leases lease).batchEnd)
    (h : ((state.take lease).2.leases other).Holds id) :
    (state.leases other).Holds id ∧ (other = lease → (state.leases lease).cur < id) := by
  by_cases heq : other = lease
  · subst heq
    simp only [BatchedIdGenerator.take, Function.update_self] at h
    obtain ⟨-, hnext⟩ := ThreadLease.succ_cur hle hne
    have hid := UInt64.le_iff_toNat_le.mp h.1
    refine ⟨⟨UInt64.le_iff_toNat_le.mpr ?_, h.2⟩, fun _ => UInt64.lt_iff_toNat_lt.mpr ?_⟩
    · dsimp only at hid
      omega
    · dsimp only at hid
      omega
  · simp only [BatchedIdGenerator.take, Function.update_of_ne heq] at h
    exact ⟨h, fun h => absurd h heq⟩

/-- The lease moves past the ID that it returns. -/
theorem take_leases_self : (state.take lease).2.leases lease =
    ⟨(state.leases lease).cur + 1, (state.leases lease).batchEnd⟩ := by
  simp [BatchedIdGenerator.take]

/-- The other leases stay as they are. -/
theorem take_leases_other {other : Fin leaseCount} (hne : other ≠ lease) :
    (state.take lease).2.leases other = state.leases other := by
  simp [BatchedIdGenerator.take, Function.update_of_ne hne]

/-- No batch grows. -/
theorem take_batchEnd (other : Fin leaseCount) : ((state.take lease).2.leases other).batchEnd =
    (state.leases other).batchEnd := by
  by_cases heq : other = lease
  · rw [heq, take_leases_self]
  · rw [take_leases_other heq]

/-- The lease has one ID less. -/
theorem take_left (hle : (state.leases lease).cur ≤ (state.leases lease).batchEnd)
    (hne : (state.leases lease).cur ≠ (state.leases lease).batchEnd) :
    ((state.take lease).2.leases lease).left + 1 = (state.leases lease).left := by
  obtain ⟨hlt, hnext⟩ := ThreadLease.succ_cur hle hne
  rw [take_leases_self]
  simp only [ThreadLease.left, hnext]
  omega

/-- The IDs that are left and those that were issued add up as before. -/
theorem IdInv.take_count (h : IdInv batchSize state issued)
    (hne : (state.leases lease).cur ≠ (state.leases lease).batchEnd) :
    (state.take lease).2.globalId.toNat = (issued ++ [(lease, (state.take lease).1)]).length +
      ∑ other, ((state.take lease).2.leases other).left := by
  have hsum := sum_update_add ThreadLease.left state.leases lease
    ((state.take lease).2.leases lease)
  have hcount := h.count
  have hleft := take_left (h.ordered lease) hne
  have hleases : (state.take lease).2.leases =
      Function.update state.leases lease ((state.take lease).2.leases lease) := by
    rw [take_leases_self]
    rfl
  change state.globalId.toNat = _
  rw [hleases, List.length_append, List.length_singleton]
  omega

/-- A thread returns an ID of its lease. -/
theorem IdInv.take (h : IdInv batchSize state issued)
    (hne : (state.leases lease).cur ≠ (state.leases lease).batchEnd)
    (hidle : state.threads lease = .idle) :
    IdInv batchSize (state.take lease).2 (issued ++ [(lease, (state.take lease).1)]) := by
  have hle := h.ordered lease
  have hlt := UInt64.lt_of_le_of_ne hle hne
  obtain ⟨hltNat, hnext⟩ := ThreadLease.succ_cur hle hne
  have hgrows : (state.leases lease).cur < (state.leases lease).cur + 1 := by
    rw [UInt64.lt_iff_toNat_lt, hnext]
    exact Nat.lt_succ_self _
  have hheld : (state.leases lease).Holds (state.leases lease).cur := ⟨UInt64.le_refl _, hlt⟩
  have hleft := take_left hle hne
  refine ⟨fun other => ?_, fun other => ?_, fun other => ?_,
    fun first second id hfirst hsecond => ?_,
    fun other hpc => ?_, fun issue hmem => ?_, fun issue hmem other hholds => ?_,
    fun issue hmem => ?_, ?_, ?_, h.take_count hne⟩
  · by_cases heq : other = lease
    · rw [heq, take_leases_self, UInt64.le_iff_toNat_le]
      exact hnext.trans_le hltNat
    · rw [take_leases_other heq]
      exact h.ordered other
  · by_cases heq : other = lease
    · have hbatch := h.left_le lease
      rw [heq]
      omega
    · rw [take_leases_other heq]
      exact h.left_le other
  · rw [take_batchEnd]
    exact h.below other
  · exact h.disjoint first second id (holds_take hle hne hfirst).1 (holds_take hle hne hsecond).1
  · have hpc' : state.threads other = .fetchAdd := hpc
    have heq : other ≠ lease := by
      rintro rfl
      rw [hidle] at hpc'
      cases hpc'
    rw [take_leases_other heq]
    exact h.used_up other hpc'
  · rcases List.mem_append.mp hmem with hold | hnew
    · exact h.issued_lt issue hold
    · obtain rfl := List.mem_singleton.mp hnew
      exact UInt64.lt_of_lt_of_le hlt (h.below lease)
  · obtain ⟨hholds, hself⟩ := holds_take hle hne hholds
    rcases List.mem_append.mp hmem with hold | hnew
    · exact h.issued_free issue hold other hholds
    · -- The new ID was held by its own lease alone, and that lease has moved past it.
      obtain rfl := List.mem_singleton.mp hnew
      exact UInt64.lt_irrefl _ (hself (h.disjoint other lease _ hholds hheld))
  · rcases List.mem_append.mp hmem with hold | hnew
    · by_cases heq : issue.1 = lease
      · have hown := h.issued_own issue hold
        rw [heq] at hown
        rw [heq, take_leases_self]
        exact UInt64.lt_trans hown hgrows
      · rw [take_leases_other heq]
        exact h.issued_own issue hold
    · obtain rfl := List.mem_singleton.mp hnew
      rw [take_leases_self]
      exact hgrows
  · rw [List.map_append, List.nodup_append]
    refine ⟨h.nodup, List.nodup_singleton _, ?_⟩
    rintro id hid _ hnew rfl
    obtain ⟨issue, hmem, rfl⟩ := List.mem_map.mp hid
    refine h.issued_free issue hmem lease ?_
    rw [show issue.2 = (state.leases lease).cur from List.mem_singleton.mp hnew]
    exact hheld
  · rw [List.pairwise_append]
    refine ⟨h.increasing, List.pairwise_singleton _ _, fun issue hmem new hnew hsame => ?_⟩
    obtain rfl := List.mem_singleton.mp hnew
    have hown := h.issued_own issue hmem
    rwa [show issue.1 = lease from hsame] at hown

/-- Every step keeps the invariant. -/
theorem IdInv.step {pair next : BatchedIdGenerator leaseCount × List (Fin leaseCount × UInt64)}
    {event : IdEvent leaseCount} (hbatch : 1 ≤ batchSize) (h : IdInv batchSize pair.1 pair.2)
    (hcarry : NoCarry batchSize pair event)
    (hstep : ((idGenerator leaseCount batchSize).withHistory (issues leaseCount batchSize)).step
      pair event = some next) : IdInv batchSize next.1 next.2 := by
  obtain ⟨state, issued⟩ := pair
  obtain ⟨next, issued'⟩ := next
  obtain ⟨hnext, hissued⟩ := System.withHistory_step.mp hstep
  dsimp only at hnext hissued h ⊢
  subst hissued
  obtain ⟨⟨id, next'⟩, hcall, rfl⟩ := Option.map_eq_some_iff.mp hnext
  simp only [issues, hcall, Option.bind_some]
  cases event with
  | nextId lease =>
      simp only [nextId] at hcall
      split at hcall
      · next hidle =>
          split at hcall
          · next hused =>
              obtain ⟨rfl, rfl⟩ := Prod.mk.inj (Option.some.inj hcall)
              simpa using h.goto fun _ => hused
          · next hne =>
              obtain ⟨rfl, rfl⟩ := Prod.mk.inj (Option.some.inj hcall)
              exact h.take hne hidle
      · cases hcall
  | fetchAdd lease =>
      simp only [nextId] at hcall
      split at hcall
      · cases hcall
      · next hpc =>
          obtain ⟨rfl, rfl⟩ := Prod.mk.inj (Option.some.inj hcall)
          have hgoto : IdInv batchSize (state.goto lease .idle) issued := h.goto (by simp)
          have hidle : (state.goto lease .idle).threads lease = .idle := by
            simp [BatchedIdGenerator.goto]
          have hrefill := hgoto.refill (h.used_up lease hpc) hidle hcarry
          refine hrefill.take ?_ hidle
          have hself : ((state.goto lease .idle).refill batchSize lease).leases lease =
              ⟨state.globalId, state.globalId + batchSize⟩ := by
            simp [BatchedIdGenerator.refill, BatchedIdGenerator.goto]
          have hpos := UInt64.le_iff_toNat_le.mp hbatch
          change state.globalId.toNat + batchSize.toNat < 2 ^ 64 at hcarry
          intro heq
          rw [hself] at heq
          have hnat := congrArg UInt64.toNat heq
          simp only [UInt64.toNat_add] at hnat
          rw [Nat.mod_eq_of_lt hcarry] at hnat
          rw [UInt64.toNat_one] at hpos
          omega

end Invariant

/-- No ID is issued twice. As long as the counter has not carried past its 64 bits, the returned
IDs are distinct, each lease's IDs increase, all of them are below the watermark, and the
watermark is at most one batch a lease ahead of their number. -/
theorem issued_unique {leaseCount : Nat} {batchSize : UInt64} (hbatch : 1 ≤ batchSize)
    {state : BatchedIdGenerator leaseCount} {issued : List (Fin leaseCount × UInt64)}
    (hreach : ((idGenerator leaseCount batchSize).withHistory
      (issues leaseCount batchSize)).Reachable (NoCarry batchSize) (state, issued)) :
    (issued.map Prod.snd).Nodup ∧
      (∀ lease, ((issued.filter (·.1 = lease)).map Prod.snd).Pairwise (· < ·)) ∧
      (∀ issue ∈ issued, issue.2 < state.globalWatermark) ∧
      issued.length ≤ state.globalWatermark.toNat ∧
      state.globalWatermark.toNat - issued.length ≤ leaseCount * batchSize.toNat := by
  have hinv : IdInv batchSize state issued := by
    refine hreach.invariant (fun pair => IdInv batchSize pair.1 pair.2) ?_ ?_
    · rintro ⟨start, unissued⟩ ⟨hstart, hunissued⟩
      change start = {} at hstart
      change unissued = [] at hunissued
      rw [hstart, hunissued]
      exact .init leaseCount batchSize
    · exact fun _ _ _ h hcarry hstep => h.step hbatch hcarry hstep
  refine ⟨hinv.nodup, fun lease => ?_, hinv.issued_lt, ?_, ?_⟩
  · rw [List.pairwise_map]
    refine (hinv.increasing.filter _).imp_of_mem fun hfirst hsecond hlt => hlt ?_
    have hf := of_decide_eq_true (List.mem_filter.mp hfirst).2
    have hs := of_decide_eq_true (List.mem_filter.mp hsecond).2
    exact hf.trans hs.symm
  · have hcount := hinv.count
    unfold BatchedIdGenerator.globalWatermark
    omega
  · have hcount := hinv.count
    have hsum := Finset.sum_le_card_nsmul Finset.univ (fun lease => (state.leases lease).left)
      batchSize.toNat fun lease _ => hinv.left_le lease
    rw [Finset.card_univ, Fintype.card_fin, smul_eq_mul] at hsum
    unfold BatchedIdGenerator.globalWatermark
    omega

/-- Two leases of batches of two IDs: the first lease's second batch follows the other's. -/
theorem issued_unique_two_leases :
    ([((0 : Fin 2), (0 : UInt64)), (1, 2), (0, 1), (0, 4)].map Prod.snd).Nodup := by
  obtain ⟨pair, hreach, hissued⟩ := System.exists_reachable_of_replay
    ((idGenerator 2 2).withHistory (issues 2 2)) (NoCarry 2) ({}, [])
    [.nextId 0, .nextId 1, .fetchAdd 0, .fetchAdd 1, .nextId 0, .nextId 0, .fetchAdd 0]
    (fun pair => pair.2 == [(0, 0), (1, 2), (0, 1), (0, 4)]) (.init ⟨rfl, rfl⟩) (by decide +kernel)
  obtain ⟨state, issued⟩ := pair
  rw [← eq_of_beq hissued]
  exact (issued_unique (by decide) hreach).1

end HotPath.Coherency
