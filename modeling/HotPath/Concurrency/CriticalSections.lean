import HotPath.Concurrency.ThreadBlocks

/-!
# Critical sections and what a thread shows of them

`IsInCritical` looks at the nesting depth, and the other threads look at the thread's control
block. The two are kept in step by `EnterCritical` and `ExitCritical`, but `UnregisterThread`
inside a section takes the block away and leaves the depth: the thread is in a critical section
that nobody sees, and its matching `ExitCritical` returns early and never ends it
(`unregister_inside_unannounced`).

`announced_inside` says that nothing else goes wrong. `SectionInv` relates the depth, the block
and the number of open sections at every place inside the functions.
-/

namespace HotPath.Concurrency

open HotPath.Foundation

variable {Node : Type}

/-- The calls of `EnterCritical` of a thread that no `ExitCritical` has matched yet. -/
def openSections (tid : ThreadId) : Recorder (State Node) (Event Node) Nat where
  start _ := 0
  observe _ event _ count :=
    match event with
    | .thread caller .enterCritical => if caller = tid then count + 1 else count
    | .thread caller .exitCritical => if caller = tid then count - 1 else count
    | _ => count

/-- Every `ExitCritical` of the thread matches an earlier `EnterCritical`. -/
def Matched (tid : ThreadId) (pair : State Node × Nat) (event : Event Node) : Prop :=
  event = .thread tid .exitCritical → 0 < pair.2

/-- The largest value of `critical_depth`, which is an `int`. -/
def maxDepth : Nat := 2 ^ 31 - 1

/-- The thread does not unregister inside a section, does not nest more sections than its depth can
count, and does not enter one while the global epoch is the value that stands for no epoch, which it
takes after `2 ^ 64` advances. -/
structure KeepsAnnounced (tid : ThreadId) (pair : State Node × Nat) (event : Event Node) :
    Prop where
  outside : event = .thread tid .unregisterThread → pair.2 = 0
  nested : event = .thread tid .enterCritical → pair.2 < maxDepth
  counted : event = .thread tid .run → (pair.1.threads tid).pc = .enterLoad →
    pair.1.shared.globalEpoch ≠ kEpochInactive

/-- A block is on the global list. -/
def OnList (shared : Shared Node) (tcb : TcbId) : Prop :=
  ∃ blocks, IsChain (fun tcb => (shared.tcbs tcb).next) shared.head blocks ∧ tcb ∈ blocks

/-- The thread has an active block on the global list that shows an epoch. -/
def Announced (state : State Node) (tid : ThreadId) : Prop :=
  ∃ tcb, (state.threads tid).tlsTcb = some tcb ∧ OnList state.shared tcb ∧
    (state.shared.tcbs tcb).active = true ∧
    (state.shared.tcbs tcb).localEpoch ≠ kEpochInactive

/-- In every run whose events meet `allow`, whenever the thread is between two calls, it is
announced if `IsInCritical` holds, and `IsInCritical` does not hold if no section is open. -/
def AnnouncedInside (Node : Type) (tid : ThreadId)
    (allow : State Node × Nat → Event Node → Prop) : Prop :=
  ∀ pair, ((ebr Node).withHistory (openSections tid)).Reachable allow pair →
    (pair.1.threads tid).pc = .idle →
    (isInCritical (pair.1.threads tid) = true → Announced pair.1 tid) ∧
      (pair.2 = 0 → isInCritical (pair.1.threads tid) = false)

/-! ## The invariant -/

/-- The sections that a thread opens once it is registered. -/
def Resume.opens : Resume Node → Nat
  | .enter => 1
  | _ => 0

/-- The block of a thread shows an epoch. -/
def ShowsEpoch (shared : Shared Node) (thread : Thread Node) : Prop :=
  ∃ tcb, thread.tlsTcb = some tcb ∧ (shared.tcbs tcb).localEpoch ≠ kEpochInactive

/-- The depth, the block and the number of open sections at every place inside the functions. -/
def SectionInv (shared : Shared Node) (thread : Thread Node) (count : Nat) : Prop :=
  match thread.pc with
  | .registerLock _ resume | .registerLink _ resume | .registerPublish _ resume
  | .registerBind _ resume => thread.criticalDepth = 0 ∧ count = resume.opens
  | .unregisterActive | .unregisterEpoch | .exitStore => thread.criticalDepth = 0 ∧ count = 0
  | .enterLoad => thread.criticalDepth = 1 ∧ count = 1 ∧ thread.tlsTcb ≠ none
  | .enterStore epoch =>
      thread.criticalDepth = 1 ∧ count = 1 ∧ thread.tlsTcb ≠ none ∧ epoch ≠ kEpochInactive
  | _ => thread.criticalDepth = count ∧ (0 < count → ShowsEpoch shared thread)

/-- The places at which every open section is announced. -/
def Pc.steady : Pc Node → Bool
  | .idle | .retireLoad _ | .retirePush .. | .gcLoad | .gcHead _ | .gcActive .. | .gcLocal ..
  | .gcNext .. | .gcGlobal _ | .gcCas .. | .gcSweep .. => true
  | _ => false

section Steps

variable {shared shared' : Shared Node} {thread thread' : Thread Node} {tid : ThreadId}
  {count : Nat}

theorem sectionInv_steady (h : thread.pc.steady = true) :
    SectionInv shared thread count ↔
      thread.criticalDepth = count ∧ (0 < count → ShowsEpoch shared thread) := by
  unfold SectionInv
  split <;> simp_all [Pc.steady]

@[simp] theorem walkTo_steady (thread : Thread Node) (minEpoch : UInt64) (curr : Option TcbId) :
    (walkTo thread minEpoch curr).pc.steady = true := by
  cases curr <;> rfl

@[simp] theorem walkTo_criticalDepth (thread : Thread Node) (minEpoch : UInt64)
    (curr : Option TcbId) : (walkTo thread minEpoch curr).criticalDepth = thread.criticalDepth := by
  cases curr <;> rfl

@[simp] theorem beginSweep_steady (thread : Thread Node) (minEpoch : UInt64) :
    (beginSweep thread minEpoch).pc.steady = true := by
  unfold beginSweep
  split <;> rfl

@[simp] theorem beginSweep_criticalDepth (thread : Thread Node) (minEpoch : UInt64) :
    (beginSweep thread minEpoch).criticalDepth = thread.criticalDepth := by
  unfold beginSweep
  split <;> rfl

/-- Steps that keep the thread's own block keep what holds of its sections. -/
theorem SectionInv.frame (h : SectionInv shared thread count)
    (hown : ∀ tcb, thread.block = some tcb → shared'.tcbs tcb = shared.tcbs tcb) :
    SectionInv shared' thread count := by
  by_cases hsteady : thread.pc.steady = true
  · rw [sectionInv_steady hsteady] at h ⊢
    refine ⟨h.1, fun hpos => ?_⟩
    obtain ⟨tcb, htls, hlocal⟩ := h.2 hpos
    have hnew : thread.pc.newBlock = none := by
      cases hpc : thread.pc <;> simp_all [Pc.steady, Pc.newBlock]
    exact ⟨tcb, htls, by rwa [hown tcb ((block_eq_tls hnew).trans htls)]⟩
  · obtain ⟨tls, depth, pc⟩ := thread
    cases pc <;> simp_all [Pc.steady, SectionInv]

/-- A thread moves between two steady places. -/
theorem SectionInv.move (h : SectionInv shared thread count) (hbefore : thread.pc.steady = true)
    (hafter : thread'.pc.steady = true) (hdepth : thread'.criticalDepth = thread.criticalDepth)
    (htls : thread'.tlsTcb = thread.tlsTcb)
    (hlocal : ∀ tcb, (shared'.tcbs tcb).localEpoch = (shared.tcbs tcb).localEpoch) :
    SectionInv shared' thread' count := by
  rw [sectionInv_steady hbefore] at h
  rw [sectionInv_steady hafter]
  refine ⟨hdepth.trans h.1, fun hpos => ?_⟩
  obtain ⟨tcb, hown, hepoch⟩ := h.2 hpos
  exact ⟨tcb, htls.trans hown, by rwa [hlocal]⟩

/-- A store in a block that keeps the epoch of the block. -/
theorem setTcb_localEpoch {own : TcbId} {block : ThreadControlBlock Node}
    (h : block.localEpoch = (shared.tcbs own).localEpoch) (tcb : TcbId) :
    ((shared.setTcb own block).tcbs tcb).localEpoch = (shared.tcbs tcb).localEpoch := by
  by_cases heq : tcb = own
  · subst heq
    simpa [Shared.setTcb] using h
  · simp [Shared.setTcb, heq]

/-- A thread that is bound to a block begins `EnterCritical`. -/
theorem SectionInv.enter (hdepth : thread.criticalDepth = count) (htls : thread.tlsTcb ≠ none)
    (hshows : 0 < count → ShowsEpoch shared thread) :
    SectionInv shared (beginEnter thread) (count + 1) := by
  by_cases hzero : thread.criticalDepth = 0
  · obtain rfl : count = 0 := by omega
    simpa [SectionInv, beginEnter, hzero] using htls
  · refine (sectionInv_steady (by simp [beginEnter, hzero, Pc.steady])).mpr ⟨?_, fun _ => ?_⟩
    · simp [beginEnter, hdepth]
    · exact hshows (by omega)

/-- A step inside a function keeps what holds of the thread's sections. -/
theorem SectionInv.run (h : SectionInv shared thread count)
    (hrun : RunStep shared tid thread shared' thread')
    (hcounted : thread.pc = .enterLoad → shared.globalEpoch ≠ kEpochInactive) :
    SectionInv shared' thread' count := by
  cases hrun with
  | registerLock tcb resume hpc | registerLink tcb resume hpc | registerPublish tcb resume hpc =>
      simpa only [SectionInv, hpc] using h
  | registerBind tcb resume hpc =>
      simp only [SectionInv, hpc] at h
      obtain ⟨hdepth, rfl⟩ := h
      cases resume with
      | done | retire => simpa [SectionInv, afterRegister, Resume.opens] using hdepth
      | enter =>
          have hentered :
              SectionInv shared (beginEnter { thread with tlsTcb := some tcb }) (0 + 1) :=
            .enter hdepth (by simp) (by simp)
          exact hentered
  | unregisterActive tcb hpc =>
      simpa only [SectionInv, hpc] using h
  | unregisterEpoch tcb hpc | exitStore tcb hpc =>
      simp only [SectionInv, hpc] at h
      obtain ⟨hdepth, rfl⟩ := h
      simpa [SectionInv] using hdepth
  | enterLoad hpc =>
      simp only [SectionInv, hpc] at h
      obtain ⟨hdepth, hcount, htls⟩ := h
      exact ⟨hdepth, hcount, htls, hcounted hpc⟩
  | enterStore epoch tcb hpc htls =>
      simp only [SectionInv, hpc] at h
      obtain ⟨hdepth, rfl, -, hepoch⟩ := h
      exact ⟨hdepth, fun _ => ⟨tcb, htls, by simpa [Shared.setTcb] using hepoch⟩⟩
  | retirePush node currentEpoch tcb hpc =>
      refine h.move (by simp [hpc, Pc.steady]) ?_ rfl rfl (setTcb_localEpoch rfl)
      dsimp only
      split <;> rfl
  | gcSweep minEpoch index own hpc htls hsweep =>
      have hbefore : thread.pc.steady = true := by simp [hpc, Pc.steady]
      cases sweep_cases hsweep with
      | finish | skip => exact h.move hbefore rfl rfl rfl fun _ => rfl
      | delete | erase => exact h.move hbefore hbefore rfl rfl (setTcb_localEpoch rfl)
  | retireLoad _ hpc | gcLoad hpc | gcActive _ _ hpc | gcInactive _ _ hpc | gcLocal _ _ hpc
  | gcGlobal _ hpc =>
      exact h.move (by simp [hpc, Pc.steady]) rfl rfl rfl fun _ => rfl
  | gcHead _ hpc | gcNext _ _ hpc | gcBehind _ hpc | gcCas _ _ hpc =>
      exact h.move (by simp [hpc, Pc.steady]) (by simp) (by simp) (by simp) fun _ => rfl

/-- A call of a thread that is disciplined keeps what holds of its sections. -/
theorem SectionInv.call {action : Action Node} (h : SectionInv shared thread count)
    (hidle : thread.pc = .idle) (hcall : CallStep shared thread action shared' thread')
    (hmatched : action = .exitCritical → 0 < count)
    (houtside : action = .unregisterThread → count = 0) :
    SectionInv shared' thread' (match action with
      | .enterCritical => count + 1
      | .exitCritical => count - 1
      | _ => count) := by
  have hsteady : thread.pc.steady = true := by simp [hidle, Pc.steady]
  obtain ⟨hdepth, hshows⟩ := (sectionInv_steady hsteady).mp h
  -- A thread without a block has no section open.
  have hclosed : thread.tlsTcb = none → count = 0 := by
    intro hnone
    by_contra hne
    obtain ⟨tcb, htls, -⟩ := hshows (by omega)
    simp [hnone] at htls
  cases hcall with
  | register hnone | enterFirst hnone | retireFirst _ hnone =>
      simpa [SectionInv, beginRegister, Resume.opens, hclosed hnone] using hdepth
  | registered | retireNull | run => exact h
  | unregister tcb htls =>
      simpa [SectionInv, houtside rfl] using hdepth
  | unregistered hnone => exact h
  | enter tcb htls => exact .enter hdepth (by simp [htls]) hshows
  | exit tcb htls =>
      have hpos := hmatched rfl
      by_cases hzero : thread.criticalDepth - 1 = 0
      · obtain rfl : count = 1 := by omega
        simp [SectionInv, hzero]
      · refine (sectionInv_steady (by simp [hzero, Pc.steady])).mpr ⟨?_, fun _ => hshows hpos⟩
        dsimp only
        omega
  | exitUnregistered hnone => exact absurd (hclosed hnone) (Nat.pos_iff_ne_zero.mp (hmatched rfl))
  | retire | gc => exact h.move hsteady rfl rfl rfl fun _ => rfl

end Steps

/-! ## Runs -/

section Runs

variable {tid : ThreadId} {allow : State Node × Nat → Event Node → Prop}

/-- One step keeps what holds of the sections of one thread. -/
theorem sectionInv_step {state next : State Node} {count : Nat} {event : Event Node}
    (hlist : ∃ blocks, ListInv state blocks)
    (h : SectionInv state.shared (state.threads tid) count)
    (hmatched : Matched tid (state, count) event)
    (hkeeps : KeepsAnnounced tid (state, count) event) (hstep : step state event = some next) :
    SectionInv next.shared (next.threads tid)
      ((openSections tid).observe state event next count) := by
  obtain ⟨blocks, hlist⟩ := hlist
  rcases step_thread hstep with
    ⟨⟨node, rfl⟩, rfl⟩ | ⟨caller, action, shared', thread', rfl, hact, rfl⟩
  · exact h
  · by_cases hcaller : caller = tid
    · subst hcaller
      simp only [Function.update_self]
      rcases act_steps hact with ⟨rfl, hrun⟩ | ⟨-, hidle, hcall⟩
      · exact h.run hrun (hkeeps.counted rfl)
      · have hnext := h.call hidle hcall (fun heq => hmatched (heq ▸ rfl))
          fun heq => hkeeps.outside (heq ▸ rfl)
        cases action <;> simpa [openSections] using hnext
    · have hcount : (openSections tid).observe state (.thread caller action)
          ⟨shared', Function.update state.threads caller thread'⟩ count = count := by
        cases action <;> simp [openSections, hcaller]
      rw [hcount]
      simp only [Function.update_of_ne (Ne.symm hcaller)]
      exact h.frame fun tcb htcb =>
        hlist.toExclusive.other_block (act_blocks hact) (Ne.symm hcaller) htcb

/-- The invariant holds of every run that keeps to the rules. -/
theorem reachable_sections
    (hallow : ∀ pair event, allow pair event →
      Matched tid pair event ∧ KeepsAnnounced tid pair event)
    {pair : State Node × Nat}
    (h : ((ebr Node).withHistory (openSections tid)).Reachable allow pair) :
    (∃ blocks, ListInv pair.1 blocks) ∧
      SectionInv pair.1.shared (pair.1.threads tid) pair.2 := by
  refine h.invariant (fun pair => (∃ blocks, ListInv pair.1 blocks) ∧
    SectionInv pair.1.shared (pair.1.threads tid) pair.2) ?_ ?_
  · rintro ⟨state, count⟩ ⟨hinit, hstart⟩
    obtain rfl : state = {} := hinit
    obtain rfl : count = 0 := hstart
    exact ⟨⟨[], listInv_init⟩, rfl, nofun⟩
  · rintro ⟨state, count⟩ event ⟨next, count'⟩ ⟨hlist, hsection⟩ hevent hstep
    obtain ⟨hnext, hrecord⟩ := System.withHistory_step.mp hstep
    obtain ⟨hmatched, hkeeps⟩ := hallow _ _ hevent
    refine ⟨listed_step hlist hnext, ?_⟩
    rw [hrecord]
    exact sectionInv_step hlist hsection hmatched hkeeps hnext

/-- Sections that are nested no deeper than `critical_depth` can count are counted without
overflow. -/
theorem depth_fits
    (hallow : ∀ pair event, allow pair event →
      Matched tid pair event ∧ KeepsAnnounced tid pair event)
    {pair : State Node × Nat}
    (h : ((ebr Node).withHistory (openSections tid)).Reachable allow pair) :
    0 ≤ (pair.1.threads tid).criticalDepth ∧ (pair.1.threads tid).criticalDepth ≤ maxDepth := by
  have hcount : pair.2 ≤ maxDepth := by
    refine h.invariant (fun pair => pair.2 ≤ maxDepth) ?_ ?_
    · rintro ⟨state, count⟩ ⟨-, hstart⟩
      obtain rfl : count = 0 := hstart
      exact Nat.zero_le _
    · rintro ⟨state, count⟩ event ⟨next, count'⟩ hle hevent hstep
      obtain rfl : count' = (openSections tid).observe state event next count :=
        (System.withHistory_step.mp hstep).2
      have hnested := (hallow _ _ hevent).2.nested
      cases event with
      | unlink node => exact hle
      | thread caller action =>
          by_cases hcaller : caller = tid
          · subst hcaller
            cases action with
            | enterCritical =>
                simp only [openSections, if_true]
                exact hnested rfl
            | exitCritical => simpa [openSections] using Nat.le_succ_of_le hle
            | _ => exact hle
          · cases action <;> simpa [openSections, hcaller] using hle
  have hsection := (reachable_sections hallow h).2
  unfold SectionInv at hsection
  unfold maxDepth at hcount ⊢
  split at hsection <;> omega

end Runs

/-- A thread that unregisters outside its sections only is announced in every section, whatever
the other threads do. -/
theorem announced_inside (tid : ThreadId) :
    AnnouncedInside Node tid fun pair event =>
      Matched tid pair event ∧ KeepsAnnounced tid pair event := by
  intro pair hreach hidle
  obtain ⟨⟨blocks, hlist⟩, hsection⟩ := reachable_sections (fun _ _ h => h) hreach
  obtain ⟨hdepth, hshows⟩ := (sectionInv_steady (by simp [hidle, Pc.steady])).mp hsection
  refine ⟨fun hinside => ?_, fun hclosed => ?_⟩
  · have hpos : 0 < pair.2 := by
      simp only [isInCritical, decide_eq_true_eq] at hinside
      omega
    obtain ⟨tcb, htls, hlocal⟩ := hshows hpos
    obtain ⟨hmem, hactive⟩ := hlist.registered (by simp [hidle, Pc.settled]) htls
    exact ⟨tcb, htls, ⟨blocks, hlist.chain, hmem⟩, hactive, hlocal⟩
  · simp [isInCritical, hdepth, hclosed]

/-- A thread that unregisters inside a section keeps its depth and has no block. -/
theorem unregister_inside_unannounced {state : State Node} {tid : ThreadId} {tcb : TcbId}
    (hidle : (state.threads tid).pc = .idle) (htls : (state.threads tid).tlsTcb = some tcb) :
    ∃ final, (ebr Node).replay (fun _ _ => True) state
        [.thread tid .unregisterThread, .thread tid .run, .thread tid .run] = some final ∧
      (final.threads tid).pc = .idle ∧
      isInCritical (final.threads tid) = isInCritical (state.threads tid) ∧
      ¬ Announced final tid := by
  refine ⟨_, by simp [System.replay, ebr, step, act, call, run, hidle, htls]; rfl, ?_, ?_, ?_⟩
  · simp
  · simp [isInCritical]
  · rintro ⟨own, hown, -⟩
    simp at hown

/-- The calls of one thread on its own, with every `ExitCritical` matched. -/
def ownSequence (tid : ThreadId) (pair : State Node × Nat) : Event Node → Bool
  | .thread caller .exitCritical => caller == tid && 0 < pair.2
  | .thread caller action =>
      match action with
      | .gc => false
      | _ => caller == tid
  | .unlink _ => false

/-- A thread enters a section, unregisters, and leaves the section. -/
def unregisterInside : List (Event Unit) :=
  List.flatten [[.thread 0 .enterCritical], List.replicate 6 (.thread 0 .run),
    [.thread 0 .unregisterThread], List.replicate 2 (.thread 0 .run), [.thread 0 .exitCritical]]

/-- A thread that unregisters inside a section is in a critical section for good. -/
theorem unregistered_stays_inside :
    ¬ AnnouncedInside Unit 0 fun pair event => ownSequence 0 pair event = true := by
  intro hannounced
  obtain ⟨pair, hreach, hpair⟩ := System.exists_reachable_of_replay
    ((ebr Unit).withHistory (openSections 0)) (fun pair event => ownSequence 0 pair event = true)
    ({}, 0) unregisterInside
    (fun pair => pair.2 == 0 && isInCritical (pair.1.threads 0) && (pair.1.threads 0).pc.isIdle)
    (.init ⟨rfl, rfl⟩) (by decide +kernel)
  simp only [Bool.and_eq_true, beq_iff_eq] at hpair
  obtain ⟨⟨hclosed, hinside⟩, hpc⟩ := hpair
  simp [(hannounced pair hreach (idle_of_isIdle hpc)).2 hclosed] at hinside

end HotPath.Concurrency
