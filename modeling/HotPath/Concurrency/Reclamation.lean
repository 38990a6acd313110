import HotPath.Concurrency.EpochSteps

/-!
# Deferred nodes outlive their readers

`reclamation_safe` says that no deleted node is pinned and that no node is deleted twice, in every
run in which the 64-bit epoch does not wrap. A wrapped epoch is zero, the value that means
inactive, and then readers are not seen (`wrapped_epoch_hides_reader`).
-/

namespace HotPath.Concurrency

open HotPath.Foundation

variable {Node : Type}

/-! ## Runs -/

section Runs

variable [DecidableEq Node] {shared shared' : Shared Node} {history history' : History Node}
  {blocks : List TcbId} {node : Node}

/-- A node is unlinked while it is live. -/
theorem SharedInv.unlink (h : SharedInv shared history blocks)
    (hlive : history.stage node = .live) : SharedInv shared (history.unlink node) blocks := by
  have hset : SharedInv shared (history.setStage node .unlinked) blocks :=
    h.setStage (by simp [hlive]) (h.not_deleted (by simp [hlive])) (by simp)
  refine { hset with pins := ?_, batched := ?_ }
  · intro other thread hpins
    by_cases heq : other = node
    · subst heq
      simp only [History.unlink, Function.update_self] at hpins
      refine ⟨?_, ?_, Option.isSome_iff_ne_none.mp hpins⟩ <;>
        simp [History.unlink, History.setStage]
    · simp only [History.unlink, Function.update_of_ne heq] at hpins
      exact hset.pins other thread hpins
  · intro tcb batch hbatch other hother
    obtain ⟨hstage, hpinned⟩ := hset.batched tcb batch hbatch other hother
    refine ⟨hstage, fun thread own published hpins hann => ?_⟩
    have hne : other ≠ node := by
      rintro rfl
      simp [History.setStage] at hstage
    simp only [History.unlink, Function.update_of_ne hne] at hpins
    exact hpinned thread own published hpins hann

theorem Rely.unlink {other : ThreadId} (hlive : history.stage node = .live) :
    Rely other shared history blocks shared (history.unlink node) blocks := by
  have hset : Rely other shared history blocks shared (history.setStage node .unlinked) blocks :=
    Rely.setStage (by simp [hlive]) (by simp)
  refine { hset with pins := fun moved thread hmoved hpins => ?_ }
  have hne : moved ≠ node := by
    rintro rfl
    exact hmoved hlive
  simp only [History.unlink, Function.update_of_ne hne] at hpins
  exact ⟨hpins, rfl⟩

/-- The invariant of a run. -/
def EbrInv (pair : State Node × History Node) : Prop :=
  ∃ blocks, SharedInv pair.1.shared pair.2 blocks ∧
    ∀ tid, ThreadInv pair.1.shared pair.2 blocks tid (pair.1.threads tid)

omit [DecidableEq Node] in
/-- A step of one thread keeps the invariant of the others as well. -/
theorem Preserved.ebrInv {threads : ThreadId → Thread Node} {tid : ThreadId}
    {thread' : Thread Node} (hshared : SharedInv shared history blocks)
    (hthreads : ∀ other, ThreadInv shared history blocks other (threads other))
    (h : Preserved shared history blocks tid shared' history' thread') :
    EbrInv (⟨shared', Function.update threads tid thread'⟩, history') := by
  obtain ⟨blocks', hshared', hthread', hrely⟩ := h
  refine ⟨blocks', hshared', fun other => ?_⟩
  by_cases heq : other = tid
  · subst heq
    simpa only [Function.update_self] using hthread'
  · simp only [Function.update_of_ne heq]
    exact (hrely other heq).threadInv hshared (hthreads other)

/-- A run starts without blocks and without retired nodes. -/
theorem EbrInv.init : EbrInv (({} : State Node), remember.start ({} : State Node)) := by
  refine ⟨[], ?_, fun tid => ?_⟩
  · constructor <;> simp [remember]
  · constructor <;> simp [remember, Pc.entering, PcInv]

/-- Every step of a disciplined run keeps the invariant, unless the epoch wraps. -/
theorem EbrInv.step {pair next : State Node × History Node} {event : Event Node}
    (h : EbrInv pair) (hallow : disciplined pair event = true) (hwraps : wraps pair.1 event = false)
    (hstep : ((ebr Node).withHistory remember).step pair event = some next) : EbrInv next := by
  obtain ⟨state, history⟩ := pair
  obtain ⟨state', history'⟩ := next
  obtain ⟨hstep, hhistory⟩ := System.withHistory_step.mp hstep
  dsimp only at hhistory
  subst hhistory
  obtain ⟨blocks, hshared, hthreads⟩ := h
  change Concurrency.step state event = some state' at hstep
  cases event with
  | unlink node =>
      obtain rfl := Option.some.inj hstep
      have hlive : history.stage node = .live := by simpa [disciplined] using hallow
      exact ⟨blocks, hshared.unlink hlive, fun tid =>
        (Rely.unlink hlive).threadInv hshared (hthreads tid)⟩
  | thread tid action =>
      simp only [Concurrency.step, Option.map_eq_some_iff] at hstep
      obtain ⟨⟨shared', thread'⟩, hact, rfl⟩ := hstep
      have hthread := hthreads tid
      refine Preserved.ebrInv hshared hthreads ?_
      rcases act_cases hact with ⟨rfl, hrun⟩ | ⟨hne, hidle, hcall⟩
      · have hpreserved := run_preserved hshared hthread ?_ hrun
        · have hcount := run_tcbCount hrun
          simpa only [remember, History.allocate, if_pos hcount] using hpreserved
        · intro current currentGlobal hpc hglobal hzero
          dsimp only at hpc hglobal
          simp [wraps, hpc, hglobal, hzero] at hwraps
      · refine call_preserved hshared hthread hidle ?_ ?_ hcall
        · rintro rfl
          simpa [disciplined, isInCritical] using hallow
        · rintro node rfl
          simpa [disciplined] using hallow

/-- Reclamation is safe in every run of disciplined callers in which the epoch does not wrap. -/
theorem reclamation_safe (Node : Type) [DecidableEq Node] :
    SafeReclamation Node fun pair event =>
      disciplined pair event = true ∧ wraps pair.1 event = false := by
  intro pair hreach
  have hinv : EbrInv pair := by
    refine hreach.invariant EbrInv ?_ ?_
    · rintro ⟨state, history⟩ ⟨hstate, hhistory⟩
      obtain rfl : state = {} := hstate
      obtain rfl : history = remember.start {} := hhistory
      exact EbrInv.init
    · exact fun pair event next h hallow hstep => h.step hallow.1 hallow.2 hstep
  obtain ⟨blocks, hshared, -⟩ := hinv
  refine ⟨fun node hnode thread => ?_, hshared.once⟩
  cases hpins : pair.2.pins node thread with
  | false => rfl
  | true => exact absurd (hshared.deleted node hnode) (hshared.pins node thread hpins).2.1

end Runs

/-! ## The epoch wraps -/

/-- The engine before any thread registers, at a global epoch. -/
def quietAt (epoch : UInt64) : State Nat := { shared := { globalEpoch := epoch } }

/-- A thread that never registers calls `Gc`. -/
def loneGc : List (Event Nat) := .thread 0 .gc :: List.replicate 4 (.thread 0 .run)

/-- With no block on the list, a call of `Gc` advances the epoch and changes nothing else. -/
theorem replay_loneGc (epoch : UInt64) (history : History Nat) :
    ((ebr Nat).withHistory remember).replay (fun pair event => disciplined pair event = true)
      (quietAt epoch, history) loneGc = some (quietAt (epoch + 1), history) := by
  simp [System.replay, loneGc, System.withHistory, ebr, Concurrency.step, act, call, run,
    quietAt, disciplined, remember, History.act, History.allocate, walkTo, beginSweep]

/-- Every epoch is reached, zero included. -/
theorem reachable_quietAt (rounds : Nat) :
    ((ebr Nat).withHistory remember).Reachable (fun pair event => disciplined pair event = true)
      (quietAt (UInt64.ofNat (rounds + 1)), remember.start {}) := by
  induction rounds with
  | zero => exact .init ⟨rfl, rfl⟩
  | succ rounds ih =>
      have hreplay := replay_loneGc (UInt64.ofNat (rounds + 1)) (remember.start {})
      rw [← UInt64.ofNat_one, ← UInt64.ofNat_add] at hreplay
      exact ih.replay hreplay

/-- A thread takes several steps. -/
def runs (tid : ThreadId) (count : Nat) : List (Event Nat) :=
  List.replicate count (.thread tid .run)

/-- At epoch zero a reader publishes the value that means inactive. Another thread then retires a
node, and its second `Gc` deletes it. -/
def unseenReader : List (Event Nat) :=
  .thread 1 .enterCritical :: runs 1 6 ++ [.unlink 0, .thread 2 (.retire (some 0))] ++ runs 2 6 ++
    .thread 2 .gc :: runs 2 12 ++ .thread 2 .gc :: runs 2 11

/-- Once the epoch has wrapped around to zero, a node is deleted under a reader. -/
theorem wrapped_epoch_hides_reader :
    ¬ SafeReclamation Nat fun pair event => disciplined pair event = true := by
  intro hsafe
  have hzero := reachable_quietAt (2 ^ 64 - 1)
  rw [show UInt64.ofNat (2 ^ 64 - 1 + 1) = 0 from by decide] at hzero
  obtain ⟨pair, hreach, hpinned⟩ := System.exists_reachable_of_replay
    ((ebr Nat).withHistory remember) (fun pair event => disciplined pair event = true)
    (quietAt 0, remember.start {}) unseenReader
    (fun pair => pair.1.shared.deleted.contains 0 && pair.2.pins 0 1) hzero (by decide +kernel)
  simp only [Bool.and_eq_true, List.contains_iff_mem] at hpinned
  have hunpinned := (hsafe pair hreach).1 0 hpinned.1 1
  rw [hpinned.2] at hunpinned
  cases hunpinned

end HotPath.Concurrency
