import HotPath.Coherency.BatchedIds
import HotPath.Foundation.Completion

/-!
# The trial of the batched ID generator

The part of the coherency challenge in which every thread draws the same number of IDs with a lease
of its own, and its integrity check, which compares the watermark with the number of IDs.

`watermark_of_trial` says what the watermark is when all the threads have returned, whatever the
interleaving. A thread leases whole batches, so the check passes exactly if the batch size divides
the number of IDs that a thread draws.
-/

namespace HotPath.Coherency

open HotPath.Foundation

/-- The generator, and how many IDs each thread has drawn. -/
structure IdTrial (threadCount : Nat) where
  generator : BatchedIdGenerator threadCount := {}
  drawn : Fin threadCount → Nat := fun _ => 0

variable {threadCount : Nat}

/-- One step of the loop of a thread. The loop ends after `iters` calls of `NextId`. -/
def IdTrial.step (batchSize : UInt64) (iters : Nat) (trial : IdTrial threadCount)
    (event : IdEvent threadCount) : Option (IdTrial threadCount) :=
  let drawn := trial.drawn event.lease
  if drawn < iters then
    (nextId batchSize trial.generator event).map fun (id, generator) =>
      { generator := generator
        drawn :=
          if id.isSome then Function.update trial.drawn event.lease (drawn + 1) else trial.drawn }
  else none

/-- The trial as a transition system. -/
def idTrial (threadCount : Nat) (batchSize : UInt64) (iters : Nat) :
    System (IdTrial threadCount) (IdEvent threadCount) where
  init trial := trial = {}
  step := IdTrial.step batchSize iters

/-- All the threads have returned. -/
def IdTrial.finished (iters : Nat) (trial : IdTrial threadCount) : Prop :=
  ∀ thread, trial.drawn thread = iters

/-- The integrity check. -/
def IdTrial.integrity (iters : Nat) (trial : IdTrial threadCount) : Bool :=
  trial.generator.globalWatermark == UInt64.ofNat (threadCount * iters)

/-- The IDs in the batches that a thread needs for some number of IDs. -/
def leasedFor (batchSize count : Nat) : Nat :=
  (count + batchSize - 1) / batchSize * batchSize

/-- Every run of the trial completes, and when all the threads have returned the watermark is the
number of leased IDs. Unless it carries, the integrity check then passes exactly if the batch size
divides the number of IDs that a thread draws. -/
def WatermarkOfTrial (threadCount : Nat) (batchSize : UInt64) (iters : Nat) : Prop :=
  (idTrial threadCount batchSize iters).Completes (fun _ _ => True) (IdTrial.finished iters) ∧
  ∀ trial, (idTrial threadCount batchSize iters).Reachable (fun _ _ => True) trial →
    trial.finished iters →
    let leased := threadCount * leasedFor batchSize.toNat iters
    trial.generator.globalWatermark = UInt64.ofNat leased ∧
      (leased < 2 ^ 64 → 0 < threadCount →
        (trial.integrity iters = true ↔ batchSize.toNat ∣ iters))

/-! ## Leased IDs -/

section Leased

variable {batchSize count : Nat}

theorem leasedFor_zero (h : 0 < batchSize) : leasedFor batchSize 0 = 0 := by
  rw [leasedFor, Nat.zero_add, Nat.div_eq_of_lt (by omega), Nat.zero_mul]

theorem dvd_leasedFor (batchSize count : Nat) : batchSize ∣ leasedFor batchSize count :=
  Nat.dvd_mul_left ..

/-- The leased IDs are enough, and less than one batch more than that. -/
theorem leasedFor_bounds (h : 0 < batchSize) (count : Nat) :
    count ≤ leasedFor batchSize count ∧ leasedFor batchSize count < count + batchSize := by
  have hdiv := Nat.div_add_mod (count + batchSize - 1) batchSize
  have hmod := Nat.mod_lt (count + batchSize - 1) h
  rw [Nat.mul_comm] at hdiv
  rw [leasedFor]
  omega

/-- Only multiples of the batch size are drawn without remainder. -/
theorem leasedFor_eq_iff (h : 0 < batchSize) : leasedFor batchSize count = count ↔
    batchSize ∣ count := by
  constructor
  · intro heq
    rw [← heq]
    exact dvd_leasedFor batchSize count
  · intro hdvd
    have hbounds := leasedFor_bounds h count
    have hrest := Nat.dvd_sub (dvd_leasedFor batchSize count) hdvd
    have hzero := Nat.eq_zero_of_dvd_of_lt hrest (by omega)
    omega

/-- One more ID needs another batch exactly if the leased ones are used up. -/
theorem leasedFor_succ (h : 0 < batchSize) (count : Nat) :
    leasedFor batchSize (count + 1) =
      if leasedFor batchSize count = count then count + batchSize
      else leasedFor batchSize count := by
  have hbounds := leasedFor_bounds h count
  have hnext := leasedFor_bounds h (count + 1)
  -- Two multiples of the batch size that are less than a batch apart are the same.
  have hsame : ∀ first second, batchSize ∣ first → batchSize ∣ second →
      first < second + batchSize → second < first + batchSize → second = first := by
    intro first second hfirst hsecond hlt hlt'
    have hup := Nat.eq_zero_of_dvd_of_lt (Nat.dvd_sub hsecond hfirst) (by omega)
    have hdown := Nat.eq_zero_of_dvd_of_lt (Nat.dvd_sub hfirst hsecond) (by omega)
    omega
  have hdvd := dvd_leasedFor batchSize count
  have hdvd' := dvd_leasedFor batchSize (count + 1)
  split
  · next heq =>
      rw [heq] at hdvd
      have hsum := Nat.dvd_add hdvd (Nat.dvd_refl batchSize)
      exact (hsame _ _ hdvd' hsum (by omega) (by omega)).symm
  · next hne => exact hsame _ _ hdvd hdvd' (by omega) (by omega)

end Leased

/-! ## The invariant -/

/-- What the leases and the counter are after some draws. -/
structure TrialInv (batchSize : UInt64) (iters : Nat) (trial : IdTrial threadCount) : Prop where
  drawn_le : ∀ thread, trial.drawn thread ≤ iters
  left : ∀ thread, ((trial.generator.leases thread).batchEnd -
    (trial.generator.leases thread).cur).toNat + trial.drawn thread =
      leasedFor batchSize.toNat (trial.drawn thread)
  used_up : ∀ thread, trial.generator.threads thread = .fetchAdd →
    trial.drawn thread < iters ∧
      (trial.generator.leases thread).cur = (trial.generator.leases thread).batchEnd
  counter : trial.generator.globalId =
    UInt64.ofNat (∑ thread, leasedFor batchSize.toNat (trial.drawn thread))

/-- The accesses that a thread has left. -/
def IdTrial.workOf (iters : Nat) (trial : IdTrial threadCount) (thread : Fin threadCount) : Nat :=
  2 * (iters - trial.drawn thread) -
    (match trial.generator.threads thread with
    | .idle => 0
    | .fetchAdd => 1)

/-- The accesses that are left. -/
def IdTrial.work (iters : Nat) (trial : IdTrial threadCount) : Nat :=
  ∑ thread, trial.workOf iters thread

section Trial

variable {batchSize : UInt64} {iters : Nat} {trial next : IdTrial threadCount}
  {thread : Fin threadCount}

theorem TrialInv.init (hbatch : 0 < batchSize.toNat) (iters : Nat) :
    TrialInv batchSize iters ({} : IdTrial threadCount) where
  drawn_le _ := Nat.zero_le _
  left _ := by
    show ((0 : UInt64) - 0).toNat + 0 = leasedFor batchSize.toNat 0
    rw [leasedFor_zero hbatch, UInt64.sub_self, UInt64.toNat_zero]
  used_up _ h := by cases h
  counter := by simp [leasedFor_zero hbatch]

theorem toNat_sub_eq_zero {first second : UInt64} :
    (first - second).toNat = 0 ↔ second = first := by
  have hfirst := first.toNat_lt
  have hsecond := second.toNat_lt
  rw [UInt64.toNat_sub, ← UInt64.toNat_inj]
  omega

/-- The IDs that are left after one is taken. -/
theorem toNat_sub_succ {cur batchEnd : UInt64} (h : cur ≠ batchEnd) :
    (batchEnd - (cur + 1)).toNat + 1 = (batchEnd - cur).toNat := by
  have hne : cur.toNat ≠ batchEnd.toNat := fun heq => h (UInt64.toNat_inj.mp heq)
  have hcur := cur.toNat_lt
  have hend := batchEnd.toNat_lt
  rw [UInt64.toNat_sub, UInt64.toNat_sub, UInt64.toNat_add, UInt64.toNat_one]
  omega

/-- The values of one thread after its step, all else being equal. -/
theorem TrialInv.update (h : TrialInv batchSize iters trial) (thread : Fin threadCount)
    (hdrawn_le : next.drawn thread ≤ iters)
    (hleft : ((next.generator.leases thread).batchEnd -
      (next.generator.leases thread).cur).toNat + next.drawn thread =
        leasedFor batchSize.toNat (next.drawn thread))
    (hused : next.generator.threads thread = .fetchAdd → next.drawn thread < iters ∧
      (next.generator.leases thread).cur = (next.generator.leases thread).batchEnd)
    (hcounter : next.generator.globalId =
      UInt64.ofNat (∑ other, leasedFor batchSize.toNat (next.drawn other)))
    (hothers : ∀ other, other ≠ thread → next.drawn other = trial.drawn other ∧
      next.generator.leases other = trial.generator.leases other ∧
      next.generator.threads other = trial.generator.threads other) :
    TrialInv batchSize iters next := by
  refine ⟨fun other => ?_, fun other => ?_, fun other => ?_, hcounter⟩
  · by_cases heq : other = thread
    · rw [heq]
      exact hdrawn_le
    · rw [(hothers other heq).1]
      exact h.drawn_le other
  · by_cases heq : other = thread
    · rw [heq]
      exact hleft
    · obtain ⟨hdrawn, hlease, -⟩ := hothers other heq
      rw [hdrawn, hlease]
      exact h.left other
  · by_cases heq : other = thread
    · rw [heq]
      exact hused
    · obtain ⟨hdrawn, hlease, hpc⟩ := hothers other heq
      rw [hdrawn, hlease, hpc]
      exact h.used_up other

/-- A thread with IDs in its lease draws one. -/
theorem TrialInv.take (h : TrialInv batchSize iters trial) (hbatch : 0 < batchSize.toNat)
    (hmore : trial.drawn thread < iters)
    (hne : (trial.generator.leases thread).cur ≠ (trial.generator.leases thread).batchEnd)
    (hidle : trial.generator.threads thread = .idle) :
    TrialInv batchSize iters
      { generator := (trial.generator.take thread).2
        drawn := Function.update trial.drawn thread (trial.drawn thread + 1) } := by
  have hleft := h.left thread
  have hnext := toNat_sub_succ hne
  -- The batches in hand are enough for one more.
  have hsame : leasedFor batchSize.toNat (trial.drawn thread + 1) =
      leasedFor batchSize.toNat (trial.drawn thread) := by
    rw [leasedFor_succ hbatch, if_neg]
    omega
  refine h.update thread ?_ ?_ (fun hpc => ?_) ?_ fun other hother => ?_
  · show Function.update trial.drawn thread (trial.drawn thread + 1) thread ≤ iters
    rw [Function.update_self]
    exact hmore
  · simp only [BatchedIdGenerator.take, Function.update_self]
    omega
  · change trial.generator.threads thread = .fetchAdd at hpc
    rw [hidle] at hpc
    cases hpc
  · have hsum := sum_update_add (leasedFor batchSize.toNat) trial.drawn thread
      (trial.drawn thread + 1)
    rw [hsame, Nat.add_right_cancel_iff] at hsum
    show trial.generator.globalId = _
    rw [h.counter, hsum]
  · exact ⟨Function.update_of_ne hother .., Function.update_of_ne hother .., rfl⟩

/-- A thread whose lease is used up takes the next batch and draws the first ID of it. -/
theorem TrialInv.refill (h : TrialInv batchSize iters trial) (hbatch : 0 < batchSize.toNat)
    (hpc : trial.generator.threads thread = .fetchAdd) :
    TrialInv batchSize iters
      { generator := ((trial.generator.refill batchSize thread).take thread).2.goto thread .idle
        drawn := Function.update trial.drawn thread (trial.drawn thread + 1) } := by
  obtain ⟨hmore, hused⟩ := h.used_up thread hpc
  have hleft := h.left thread
  rw [toNat_sub_eq_zero.mpr hused, Nat.zero_add] at hleft
  have hgrown : leasedFor batchSize.toNat (trial.drawn thread + 1) =
      trial.drawn thread + batchSize.toNat := by
    rw [leasedFor_succ hbatch, if_pos hleft.symm]
  have hbatchLt := batchSize.toNat_lt
  refine h.update thread ?_ ?_ (fun hpc => ?_) ?_ fun other hother => ?_
  · show Function.update trial.drawn thread (trial.drawn thread + 1) thread ≤ iters
    rw [Function.update_self]
    exact hmore
  · simp only [BatchedIdGenerator.take, BatchedIdGenerator.goto, BatchedIdGenerator.refill,
      Function.update_self, hgrown]
    have hrange :
        (trial.generator.globalId + batchSize - (trial.generator.globalId + 1)).toNat + 1 =
        batchSize.toNat := by
      have hid := trial.generator.globalId.toNat_lt
      rw [UInt64.toNat_sub, UInt64.toNat_add, UInt64.toNat_add, UInt64.toNat_one]
      omega
    omega
  · simp [BatchedIdGenerator.goto] at hpc
  · have hsum := sum_update_add (leasedFor batchSize.toNat) trial.drawn thread
      (trial.drawn thread + 1)
    rw [hgrown, ← hleft] at hsum
    have hsum' : ∑ other, leasedFor batchSize.toNat
        (Function.update trial.drawn thread (trial.drawn thread + 1) other) =
        ∑ other, leasedFor batchSize.toNat (trial.drawn other) + batchSize.toNat := by
      omega
    show trial.generator.globalId + batchSize = _
    rw [hsum', UInt64.ofNat_add, ← h.counter, UInt64.ofNat_toNat]
  · simp [BatchedIdGenerator.goto, BatchedIdGenerator.take, BatchedIdGenerator.refill, hother]

/-- What a step does: a thread finds its lease used up, draws an ID, or draws the first ID of the
next batch. -/
theorem IdTrial.step_cases {event : IdEvent threadCount}
    (hstep : trial.step batchSize iters event = some next) :
    trial.drawn event.lease < iters ∧
      (trial.generator.threads event.lease = .idle ∧
          (trial.generator.leases event.lease).cur =
            (trial.generator.leases event.lease).batchEnd ∧
          next = { trial with generator := trial.generator.goto event.lease .fetchAdd } ∨
        trial.generator.threads event.lease = .idle ∧
          (trial.generator.leases event.lease).cur ≠
            (trial.generator.leases event.lease).batchEnd ∧
          next =
            { generator := (trial.generator.take event.lease).2
              drawn := Function.update trial.drawn event.lease (trial.drawn event.lease + 1) } ∨
        trial.generator.threads event.lease = .fetchAdd ∧
          next =
            { generator := ((trial.generator.refill batchSize event.lease).take event.lease).2.goto
                event.lease .idle
              drawn := Function.update trial.drawn event.lease
                (trial.drawn event.lease + 1) }) := by
  unfold IdTrial.step at hstep
  dsimp only at hstep
  split at hstep
  · next hmore =>
      refine ⟨hmore, ?_⟩
      obtain ⟨result, hcall, rfl⟩ := Option.map_eq_some_iff.mp hstep
      cases event with
      | nextId thread =>
          simp only [nextId] at hcall
          split at hcall
          · next hidle =>
              split at hcall
              · next hused =>
                  obtain rfl := Option.some.inj hcall
                  exact .inl ⟨hidle, hused, rfl⟩
              · next hne =>
                  obtain rfl := Option.some.inj hcall
                  exact .inr (.inl ⟨hidle, hne, rfl⟩)
          · cases hcall
      | fetchAdd thread =>
          simp only [nextId] at hcall
          split at hcall
          · cases hcall
          · next hpc =>
              obtain rfl := Option.some.inj hcall
              exact .inr (.inr ⟨hpc, rfl⟩)
  · cases hstep

/-- Every step keeps the invariant. -/
theorem TrialInv.step (h : TrialInv batchSize iters trial) (hbatch : 0 < batchSize.toNat)
    {event : IdEvent threadCount} (hstep : trial.step batchSize iters event = some next) :
    TrialInv batchSize iters next := by
  obtain ⟨hmore, ⟨hidle, hused, rfl⟩ | ⟨hidle, hne, rfl⟩ | ⟨hpc, rfl⟩⟩ := IdTrial.step_cases hstep
  · refine h.update event.lease (h.drawn_le _) (h.left _) (fun _ => ⟨hmore, hused⟩) h.counter
      fun other hother => ⟨rfl, rfl, Function.update_of_ne hother ..⟩
  · exact h.take hbatch hmore hne hidle
  · exact h.refill hbatch hpc

theorem trialInv_of_reachable (hbatch : 0 < batchSize.toNat)
    (h : (idTrial threadCount batchSize iters).Reachable (fun _ _ => True) trial) :
    TrialInv batchSize iters trial := by
  refine h.invariant (TrialInv batchSize iters) ?_ ?_
  · intro start hstart
    obtain rfl : start = {} := hstart
    exact .init hbatch iters
  · intro before event after hinv _ hstep
    exact hinv.step hbatch hstep

/-! ## The work that is left -/

/-- Less work of one thread is less work. -/
theorem IdTrial.work_lt (thread : Fin threadCount)
    (hless : next.workOf iters thread < trial.workOf iters thread)
    (hothers : ∀ other, other ≠ thread → next.workOf iters other = trial.workOf iters other) :
    next.work iters < trial.work iters := by
  refine Finset.sum_lt_sum (fun other _ => ?_) ⟨thread, Finset.mem_univ _, hless⟩
  by_cases heq : other = thread
  · rw [heq]
    exact Nat.le_of_lt hless
  · exact Nat.le_of_eq (hothers other heq)

/-- Every step leaves less work. -/
theorem IdTrial.step_work {event : IdEvent threadCount}
    (hstep : trial.step batchSize iters event = some next) :
    next.work iters < trial.work iters := by
  obtain ⟨hmore, ⟨hidle, -, rfl⟩ | ⟨hidle, -, rfl⟩ | ⟨hpc, rfl⟩⟩ := IdTrial.step_cases hstep
  · refine IdTrial.work_lt event.lease ?_ fun other hother => ?_
    · simp only [IdTrial.workOf, BatchedIdGenerator.goto, Function.update_self, hidle]
      omega
    · simp [IdTrial.workOf, BatchedIdGenerator.goto, hother]
  · refine IdTrial.work_lt event.lease ?_ fun other hother => ?_
    · simp only [IdTrial.workOf, BatchedIdGenerator.take, Function.update_self, hidle]
      omega
    · simp [IdTrial.workOf, BatchedIdGenerator.take, hother]
  · refine IdTrial.work_lt event.lease ?_ fun other hother => ?_
    · simp only [IdTrial.workOf, BatchedIdGenerator.goto, Function.update_self, hpc]
      omega
    · simp [IdTrial.workOf, BatchedIdGenerator.goto, BatchedIdGenerator.take,
        BatchedIdGenerator.refill, hother]

/-- A thread that has not returned has a step. -/
theorem IdTrial.exists_step (batchSize : UInt64) (hmore : trial.drawn thread < iters) :
    ∃ event next, trial.step batchSize iters event = some next := by
  have hstep : ∀ event : IdEvent threadCount, event.lease = thread →
      (∃ result, nextId batchSize trial.generator event = some result) →
      ∃ next, trial.step batchSize iters event = some next := by
    intro event hlease ⟨result, hresult⟩
    have hnext : trial.step batchSize iters event =
        (nextId batchSize trial.generator event).map _ := if_pos (hlease ▸ hmore)
    rw [hresult] at hnext
    exact ⟨_, hnext⟩
  cases hpc : trial.generator.threads thread with
  | idle =>
      refine ⟨.nextId thread, hstep _ rfl ?_⟩
      simp only [nextId, hpc]
      split
      · exact ⟨_, rfl⟩
      · exact ⟨_, rfl⟩
  | fetchAdd =>
      refine ⟨.fetchAdd thread, hstep _ rfl ?_⟩
      simp only [nextId, hpc]
      exact ⟨_, rfl⟩

end Trial

/-- The trial completes in every interleaving, and its watermark is the number of leased IDs. So
the integrity check passes exactly if the batches come out even. -/
theorem watermark_of_trial {batchSize : UInt64} (hbatch : 1 ≤ batchSize) (threadCount iters : Nat) :
    WatermarkOfTrial threadCount batchSize iters := by
  have hpos : 0 < batchSize.toNat := UInt64.le_iff_toNat_le.mp hbatch
  refine ⟨.of_work (IdTrial.work iters) ?_ ?_, fun trial hreach hfinished => ?_⟩
  · intro trial event next _ _ hstep
    exact .inr (IdTrial.step_work hstep)
  · intro trial hreach hnot
    have hinv := trialInv_of_reachable hpos hreach
    obtain ⟨thread, hthread⟩ := not_forall.mp hnot
    obtain ⟨event, next, hstep⟩ := IdTrial.exists_step batchSize
      (Nat.lt_of_le_of_ne (hinv.drawn_le thread) hthread)
    exact ⟨event, next, trivial, hstep, IdTrial.step_work hstep⟩
  · have hinv := trialInv_of_reachable hpos hreach
    have hwatermark : trial.generator.globalWatermark =
        UInt64.ofNat (threadCount * leasedFor batchSize.toNat iters) := by
      rw [BatchedIdGenerator.globalWatermark, hinv.counter]
      simp [hfinished _]
    refine ⟨hwatermark, fun hfits hthreads => ?_⟩
    have hbounds := leasedFor_bounds hpos iters
    have hle := Nat.mul_le_mul_left threadCount hbounds.1
    rw [IdTrial.integrity, beq_iff_eq, hwatermark, ← UInt64.toNat_inj, UInt64.toNat_ofNat',
      UInt64.toNat_ofNat', Nat.mod_eq_of_lt hfits, Nat.mod_eq_of_lt (by omega),
      Nat.mul_right_inj (Nat.ne_of_gt hthreads), leasedFor_eq_iff hpos]

/-- No complete run passes the integrity check. -/
def FailsIntegrity (threadCount : Nat) (batchSize : UInt64) (iters : Nat) : Prop :=
  ∀ trial, (idTrial threadCount batchSize iters).Reachable (fun _ _ => True) trial →
    trial.finished iters → trial.integrity iters = false

/-- The challenge draws 500000 IDs in each of 16 threads, in batches of 64. Its integrity check
never passes. -/
theorem watermark_of_trial_challenge : FailsIntegrity 16 64 500000 := by
  intro trial hreach hfinished
  obtain ⟨-, hwatermark⟩ := watermark_of_trial (show (1 : UInt64) ≤ 64 by decide) 16 500000
  have hiff := (hwatermark trial hreach hfinished).2 (by decide) (by decide)
  rw [← Bool.not_eq_true, hiff]
  decide

end HotPath.Coherency
