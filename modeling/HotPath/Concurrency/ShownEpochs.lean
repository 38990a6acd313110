import HotPath.Concurrency.RetiredBound

/-!
# The epochs that blocks show

`EnterCritical` stores an epoch in the block of its thread, and `ExitCritical` takes it back. So the
blocks that show an epoch belong to threads inside critical sections (`ShownInv`), and once all of
these have ended no block shows one (`reachable_silent`), whatever the threads call.
-/

namespace HotPath.Concurrency

open HotPath.Foundation

variable {Node : Type}

section Steps

variable {state next : State Node} {shared shared' : Shared Node} {thread thread' : Thread Node}
  {tid : ThreadId} {action : Action Node} {event : Event Node}

/-- The thread is inside a critical section, or on its way out of one. -/
def Thread.showing (thread : Thread Node) : Bool :=
  isInCritical thread || match thread.pc with
    | .exitStore => true
    | _ => false

/-- The places inside `EnterCritical` at which the section is counted already. -/
def Pc.counted : Pc Node → Bool
  | .enterLoad | .enterStore _ => true
  | _ => false

/-- What a step does to the epochs that blocks show. A new one is that of the thread. -/
structure ShowStep (shared : Shared Node) (thread : Thread Node) (shared' : Shared Node)
    (thread' : Thread Node) : Prop where
  counted : thread'.pc.counted = true → isInCritical thread' = true
  shown : ∀ tcb, (shared'.tcbs tcb).localEpoch ≠ kEpochInactive →
    (thread'.tlsTcb = some tcb ∧ isInCritical thread' = true) ∨
      (shared.tcbs tcb).localEpoch ≠ kEpochInactive ∧
        (thread.tlsTcb = some tcb → thread.showing = true →
          thread'.tlsTcb = some tcb ∧ thread'.showing = true)

/-- A step that shows no epoch, and stays with the block and in the section. -/
theorem ShowStep.quiet (hepochs : ∀ tcb, (shared'.tcbs tcb).localEpoch ≠ kEpochInactive →
      (shared.tcbs tcb).localEpoch ≠ kEpochInactive)
    (hcounted : thread'.pc.counted = true → isInCritical thread' = true)
    (hpc : thread.pc ≠ .exitStore) (htls : thread'.tlsTcb = thread.tlsTcb)
    (hinside : isInCritical thread = true → thread'.showing = true) :
    ShowStep shared thread shared' thread' := by
  refine ⟨hcounted, fun tcb htcb => .inr ⟨hepochs tcb htcb, fun hown hshow => ?_⟩⟩
  refine ⟨htls.trans hown, hinside ?_⟩
  unfold Thread.showing at hshow
  split at hshow
  · next hexit => exact absurd hexit hpc
  · simpa using hshow

theorem showing_of_inside (h : isInCritical thread = true) : thread.showing = true := by
  simp [Thread.showing, h]

/-- A thread that begins `EnterCritical` is inside the section. -/
theorem beginEnter_counted (h : isInCritical thread = true ∨ thread.criticalDepth = 0) :
    isInCritical (beginEnter thread) = true := by
  have hdepth : (beginEnter thread).criticalDepth = thread.criticalDepth + 1 := rfl
  simp only [isInCritical, decide_eq_true_eq] at h ⊢
  omega

/-- `EnterCritical` is at its load only if it has just entered the section. -/
theorem beginEnter_loads (h : (beginEnter thread).pc.counted = true) :
    isInCritical (beginEnter thread) = true := by
  by_cases hzero : thread.criticalDepth = 0
  · exact beginEnter_counted (.inr hzero)
  · simp [beginEnter, hzero, Pc.counted] at h

/-- A store that shows no epoch anew. -/
theorem shown_setTcb {own : TcbId} {block : ThreadControlBlock Node}
    (hblock : block.localEpoch = (shared.tcbs own).localEpoch ∨
      block.localEpoch = kEpochInactive) (tcb : TcbId)
    (htcb : ((shared.setTcb own block).tcbs tcb).localEpoch ≠ kEpochInactive) :
    (shared.tcbs tcb).localEpoch ≠ kEpochInactive := by
  by_cases heq : tcb = own
  · subst heq
    simp only [Shared.setTcb, Function.update_self] at htcb
    rcases hblock with hsame | hnone
    · exact hsame ▸ htcb
    · exact absurd hnone htcb
  · simpa [Shared.setTcb, heq] using htcb

/-- What a step inside a function does to the epochs that blocks show. -/
theorem RunStep.shows (hrun : RunStep shared tid thread shared' thread')
    (hcounted : thread.pc.counted = true → isInCritical thread = true)
    (hunbound : thread.pc.newBlock ≠ none → thread.tlsTcb = none) :
    ShowStep shared thread shared' thread' := by
  have hmove : ∀ {shared' : Shared Node} {thread' : Thread Node},
      (∀ tcb, (shared'.tcbs tcb).localEpoch ≠ kEpochInactive →
        (shared.tcbs tcb).localEpoch ≠ kEpochInactive) →
      thread.pc ≠ .exitStore → thread'.pc.counted = false → thread'.tlsTcb = thread.tlsTcb →
      thread'.criticalDepth = thread.criticalDepth → ShowStep shared thread shared' thread' :=
    fun hepochs hpc hafter htls hdepth =>
      .quiet hepochs (fun h => by simp [hafter] at h) hpc htls fun hinside =>
        showing_of_inside (by simpa [isInCritical, hdepth] using hinside)
  cases hrun with
  | registerLock _ _ hpc | registerPublish _ _ hpc | retireLoad _ hpc | gcLoad hpc
  | gcActive _ _ hpc | gcInactive _ _ hpc | gcLocal _ _ hpc | gcGlobal _ hpc =>
      exact hmove (fun _ => id) (by simp [hpc]) rfl rfl rfl
  | registerLink _ _ hpc | unregisterActive _ hpc =>
      exact hmove (shown_setTcb (.inl rfl)) (by simp [hpc]) rfl rfl rfl
  | registerBind tcb resume hpc =>
      -- The thread had no block, so no epoch was its own.
      have hnone := hunbound (by simp [hpc, Pc.newBlock])
      refine ⟨fun hafter => ?_, fun other hother => .inr ⟨hother, fun hown => ?_⟩⟩
      · cases resume with
        | done | retire => cases hafter
        | enter => exact beginEnter_loads hafter
      · simp [hnone] at hown
  | unregisterEpoch tcb hpc htls =>
      refine ⟨fun hafter => absurd hafter Bool.false_ne_true, fun other hother =>
        .inr ⟨shown_setTcb (.inr rfl) other hother, fun hown => ?_⟩⟩
      obtain rfl : tcb = other := Option.some.inj (htls.symm.trans hown)
      simp [Shared.setTcb] at hother
  | exitStore tcb hpc htls =>
      refine ⟨fun hafter => absurd hafter Bool.false_ne_true, fun other hother =>
        .inr ⟨shown_setTcb (.inr rfl) other hother, fun hown => ?_⟩⟩
      obtain rfl : tcb = other := Option.some.inj (htls.symm.trans hown)
      simp [Shared.setTcb] at hother
  | enterLoad hpc =>
      have hinside := hcounted (by rw [hpc]; rfl)
      exact .quiet (fun _ => id) (fun _ => hinside) (by simp [hpc]) rfl fun _ =>
        showing_of_inside hinside
  | enterStore epoch tcb hpc htls =>
      have hinside := hcounted (by rw [hpc]; rfl)
      refine ⟨fun hafter => absurd hafter Bool.false_ne_true, fun other hother => ?_⟩
      by_cases heq : other = tcb
      · exact .inl ⟨heq ▸ htls, hinside⟩
      · refine .inr ⟨by simpa [Shared.setTcb, heq] using hother, fun hown => ?_⟩
        exact absurd (Option.some.inj (hown.symm.trans htls)) heq
  | retirePush _ _ _ hpc =>
      refine hmove (shown_setTcb (.inl rfl)) (by simp [hpc]) ?_ rfl rfl
      dsimp only
      split <;> rfl
  | gcHead _ hpc => cases shared.head <;> exact hmove (fun _ => id) (by simp [hpc]) rfl rfl rfl
  | gcNext _ curr hpc =>
      cases (shared.tcbs curr).next <;> exact hmove (fun _ => id) (by simp [hpc]) rfl rfl rfl
  | gcBehind _ hpc | gcCas _ _ hpc =>
      refine hmove (fun _ => id) (by simp [hpc]) ?_ (beginSweep_tlsTcb ..) ?_ <;>
        unfold beginSweep <;> split <;> rfl
  | gcSweep _ _ _ hpc _ hsweep =>
      have hafter : thread.pc.counted = false := by simp [hpc, Pc.counted]
      cases sweep_cases hsweep with
      | finish | skip => exact hmove (fun _ => id) (by simp [hpc]) rfl rfl rfl
      | delete | erase => exact hmove (shown_setTcb (.inl rfl)) (by simp [hpc]) hafter rfl rfl

/-- A thread that is registering has no block yet. -/
theorem unbound_of_listed (h : ∃ blocks, ListInv state blocks)
    (hnew : (state.threads tid).pc.newBlock ≠ none) : (state.threads tid).tlsTcb = none := by
  obtain ⟨blocks, hlist⟩ := h
  have hplace := hlist.place tid
  unfold PlaceInv at hplace
  cases hpc : (state.threads tid).pc <;> simp_all [Pc.newBlock]

/-- What a call does to the epochs that blocks show. -/
theorem CallStep.shows (hcall : CallStep shared thread action shared' thread')
    (hidle : thread.pc = .idle) : ShowStep shared thread shared' thread' := by
  have hpc : thread.pc ≠ .exitStore := by simp [hidle]
  have hquiet : ∀ {thread' : Thread Node}, thread'.pc.counted = false →
      thread'.tlsTcb = thread.tlsTcb → thread'.criticalDepth = thread.criticalDepth →
      ShowStep shared thread shared thread' := fun hafter htls hdepth =>
    .quiet (fun _ => id) (fun h => by simp [hafter] at h) hpc htls fun hinside =>
      showing_of_inside (by simpa [isInCritical, hdepth] using hinside)
  have hsame : thread.pc.counted = false := by simp [hidle, Pc.counted]
  cases hcall with
  | register | enterFirst | retireFirst =>
      exact .quiet (shown_setTcb (.inr rfl)) nofun hpc rfl fun hinside =>
        showing_of_inside hinside
  | registered | unregistered | exitUnregistered | retireNull | run => exact hquiet hsame rfl rfl
  | unregister | retire | gc => exact hquiet rfl rfl rfl
  | enter =>
      exact .quiet (fun _ => id) beginEnter_loads hpc rfl fun hinside =>
        showing_of_inside (beginEnter_counted (.inl hinside))
  | exit =>
      refine .quiet (fun _ => id) (fun hafter => ?_) hpc rfl fun hinside => ?_
      · dsimp only at hafter
        split at hafter <;> cases hafter
      · -- The last exit of the section is at its store.
        simp only [isInCritical, decide_eq_true_eq] at hinside
        by_cases hlast : thread.criticalDepth - 1 = 0
        · simp [Thread.showing, hlast]
        · have hdeeper : 1 < thread.criticalDepth := by omega
          simp [Thread.showing, hlast, isInCritical, hdeeper]

/-- The epochs that blocks show are those of threads inside critical sections. -/
structure ShownInv (state : State Node) : Prop where
  counted : ∀ tid, (state.threads tid).pc.counted = true →
    isInCritical (state.threads tid) = true
  shown : ∀ tcb, (state.shared.tcbs tcb).localEpoch ≠ kEpochInactive →
    ∃ tid, (state.threads tid).tlsTcb = some tcb ∧ (state.threads tid).showing = true

/-- Every step keeps to the threads inside critical sections. -/
theorem ShownInv.step (h : ShownInv state) (hlist : ∃ blocks, ListInv state blocks)
    (hstep : step state event = some next) : ShownInv next := by
  rcases step_thread hstep with ⟨-, rfl⟩ | ⟨tid, action, shared', thread', rfl, hact, rfl⟩
  · exact h
  · have hshows : ShowStep state.shared (state.threads tid) shared' thread' := by
      rcases act_steps hact with ⟨-, hrun⟩ | ⟨-, hidle, hcall⟩
      · exact hrun.shows (h.counted tid) (unbound_of_listed hlist)
      · exact hcall.shows hidle
    refine ⟨fun other hcounted => ?_, fun tcb htcb => ?_⟩
    · by_cases heq : other = tid
      · subst heq
        simp only [Function.update_self] at hcounted ⊢
        exact hshows.counted hcounted
      · simp only [Function.update_of_ne heq] at hcounted ⊢
        exact h.counted other hcounted
    · rcases hshows.shown tcb htcb with ⟨htls, hinside⟩ | ⟨hold, hown⟩
      · exact ⟨tid, by simpa using ⟨htls, showing_of_inside hinside⟩⟩
      · obtain ⟨other, htls, hshow⟩ := h.shown tcb hold
        by_cases heq : other = tid
        · subst heq
          exact ⟨other, by simpa using hown htls hshow⟩
        · exact ⟨other, by simpa only [Function.update_of_ne heq] using ⟨htls, hshow⟩⟩

/-- The epochs that blocks show are those of threads inside critical sections in every run. -/
theorem reachable_shown {allow : State Node → Event Node → Prop}
    (h : (ebr Node).Reachable allow state) : ShownInv state := by
  induction h with
  | init hinit =>
      obtain rfl := hinit
      exact ⟨nofun, fun _ hshows => absurd rfl hshows⟩
  | step hreach _ hstep ih => exact ih.step (reachable_listed hreach) hstep

/-- Once no thread is inside a critical section, or inside `EnterCritical` or `ExitCritical`, no
block shows an epoch. -/
theorem reachable_silent {allow : State Node → Event Node → Prop}
    (h : (ebr Node).Reachable allow state)
    (houtside : ∀ tid, isInCritical (state.threads tid) = false ∧
      (state.threads tid).pc.enters = false ∧ (state.threads tid).pc ≠ .exitStore) :
    Silent state := by
  refine ⟨fun tid => (houtside tid).2.1, fun tcb => ?_⟩
  by_contra hepoch
  obtain ⟨tid, -, hshow⟩ := (reachable_shown h).shown tcb hepoch
  obtain ⟨hleft, -, hexit⟩ := houtside tid
  unfold Thread.showing at hshow
  split at hshow
  · next hpc => exact hexit hpc
  · simp [hleft] at hshow

end Steps

end HotPath.Concurrency
