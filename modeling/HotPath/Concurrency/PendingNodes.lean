import HotPath.Concurrency.BatchCollection
import HotPath.Concurrency.ShownEpochs

/-!
# Retired nodes can still be reclaimed

A retired node that is not deleted yet is in the hands of its call of `Retire`, or in a batch of a
block that some thread is bound to (`reachable_accounted`). Once all critical sections have ended,
that thread can delete it: the calls that are under way are brought to their end, and at most two
calls of `Gc` follow, of which the first one may only advance the epoch (`SettledAt.reclaimable`).

Two things are in the way of that. A thread that unregisters leaves its batches behind
(`unregister_orphans`), and no minimum epoch is ever above the largest one, so a batch of that epoch
is never collected. `never_orphaned` says that nothing else is.
-/

namespace HotPath.Concurrency

open HotPath.Foundation

variable {Node : Type}

/-- The largest epoch, after which the counter wraps around. -/
def lastEpoch : UInt64 := 0xFFFFFFFFFFFFFFFF

/-- The event is a successful compare-and-swap that takes the global epoch to its largest value. -/
def exhausts (state : State Node) : Event Node → Bool
  | .thread tid .run =>
      match (state.threads tid).pc with
      | .gcCas _ currentGlobal =>
          state.shared.globalEpoch == currentGlobal && currentGlobal + 1 == lastEpoch
      | _ => false
  | _ => false

/-- What no event may do: a thread unregisters while its batches hold nodes, or the global epoch
comes to its largest value. -/
def KeepsReclaimable (state : State Node) (event : Event Node) : Prop :=
  leavesNodes state event = false ∧ exhausts state event = false

/-- The run goes on from one state to another. The threads take steps inside functions, and `calls`
times one of them calls `Gc`. -/
inductive Continues : Nat → State Node → State Node → Prop where
  | refl {state : State Node} : Continues 0 state state
  | goOn {calls : Nat} {state middle final : State Node} (tid : ThreadId) :
      step state (.thread tid .run) = some middle → Continues calls middle final →
      Continues calls state final
  | gc {calls : Nat} {state middle final : State Node} (tid : ThreadId) :
      step state (.thread tid .gc) = some middle → Continues calls middle final →
      Continues (calls + 1) state final

/-- The node can be deleted with at most two more calls of `Gc`. -/
def Reclaimable (state : State Node) (node : Node) : Prop :=
  ∃ calls final, Continues calls state final ∧ calls ≤ 2 ∧ node ∈ final.shared.deleted

/-- In every run whose events meet `allow`, every node passed to `Retire` is accounted for, and it
can be reclaimed once all critical sections have ended (`reachable_silent` says when that is). -/
def NeverOrphaned (Node : Type) (allow : State Node × List Node → Event Node → Prop) : Prop :=
  ∀ pair, ((ebr Node).withHistory retired).Reachable allow pair →
    ∀ node ∈ pair.2, AccountedFor pair.1 node ∧ (Silent pair.1 → Reclaimable pair.1 node)

/-! ## Going on -/

section Continuing

variable {state middle final : State Node} {tid : ThreadId} {shared shared' : Shared Node}
  {thread thread' : Thread Node} {node : Node} {calls calls' : Nat}

theorem Continues.trans (h : Continues calls state middle) (h' : Continues calls' middle final) :
    Continues (calls + calls') state final := by
  induction h with
  | refl => rwa [Nat.zero_add]
  | goOn tid hstep _ ih => exact .goOn tid hstep (ih h')
  | gc tid hstep _ ih =>
      rw [Nat.add_right_comm]
      exact .gc tid hstep (ih h')

/-- The run goes on before the node can be deleted. -/
theorem Reclaimable.after (h : Continues 0 state middle) (hnode : Reclaimable middle node) :
    Reclaimable state node := by
  obtain ⟨calls, final, hrest, hcalls, hdeleted⟩ := hnode
  exact ⟨0 + calls, final, h.trans hrest, by omega, hdeleted⟩

/-- A thread takes its next step. -/
theorem continues_run (hrun : run state.shared tid (state.threads tid) = some (shared', thread')) :
    Continues 0 state ⟨shared', Function.update state.threads tid thread'⟩ :=
  .goOn tid (by simp [step, act, hrun]) .refl

/-- The run goes on with a thread that runs alone. -/
theorem continues_of_runs {start last : Shared Node × Thread Node}
    (h : RunsAlone tid start last) {threads : ThreadId → Thread Node}
    (hstart : threads tid = start.2) :
    Continues 0 ⟨start.1, threads⟩ ⟨last.1, Function.update threads tid last.2⟩ := by
  induction h using Relation.ReflTransGen.head_induction_on generalizing threads with
  | refl =>
      rw [← hstart, Function.update_eq_self]
      exact .refl
  | @head start middle hstep _ ih =>
      have hown : run start.1 tid (threads tid) = some (middle.1, middle.2) := by
        rw [hstart]
        exact hstep
      have hrest := @ih (Function.update threads tid middle.2) (Function.update_self ..)
      rw [Function.update_idem] at hrest
      have hnext : Continues 0 ⟨start.1, threads⟩
          ⟨middle.1, Function.update threads tid middle.2⟩ := continues_run hown
      exact hnext.trans hrest

end Continuing

/-! ## Two calls of `Gc` -/

/-- A thread is idle, and a node is in a batch of its block that is below the largest epoch. No
block shows an epoch. -/
structure SettledAt (state : State Node) (tid : ThreadId) (node : Node) : Prop where
  idle : (state.threads tid).pc = .idle
  chain : ∃ blocks, IsChain (fun tcb => (state.shared.tcbs tcb).next) state.shared.head blocks
  unannounced : state.shared.Unannounced
  pending : ∃ own, (state.threads tid).tlsTcb = some own ∧
    ∃ batch ∈ (state.shared.tcbs own).retirementBatches, node ∈ batch.nodes ∧
      batch.epoch ≤ state.shared.globalEpoch ∧ batch.epoch < lastEpoch

section Collecting

variable {state : State Node} {tid : ThreadId} {shared shared' : Shared Node} {node : Node}
  {own : TcbId} {blocks : List TcbId} {batch : Batch Node} {minEpoch : UInt64}

theorem Collected.chain (h : Collected shared shared')
    (hchain : IsChain (fun tcb => (shared.tcbs tcb).next) shared.head blocks) :
    IsChain (fun tcb => (shared'.tcbs tcb).next) shared'.head blocks := by
  rw [h.head]
  exact hchain.congr fun tcb _ => (h.tcbs tcb).1

theorem Collected.unannounced (h : Collected shared shared') (hquiet : shared.Unannounced) :
    shared'.Unannounced := fun tcb => ((h.tcbs tcb).2).trans (hquiet tcb)

/-- A sweep deletes the nodes of the batches below its minimum. -/
theorem deleted_sweepOwn (hbatch : batch ∈ (shared.tcbs own).retirementBatches)
    (hnode : node ∈ batch.nodes) (hold : batch.epoch < minEpoch) :
    node ∈ (shared.sweepOwn (some own) minEpoch).deleted := by
  refine List.mem_append_right _ (List.mem_flatMap.mpr ⟨batch, ?_, hnode⟩)
  simpa [hold] using hbatch

/-- A sweep keeps the batches that are not below its minimum. -/
theorem kept_sweepOwn (hbatch : batch ∈ (shared.tcbs own).retirementBatches)
    (hyoung : ¬ batch.epoch < minEpoch) :
    batch ∈ ((shared.sweepOwn (some own) minEpoch).tcbs own).retirementBatches := by
  simpa [Shared.sweepOwn, surviving, UInt64.not_lt.mp hyoung] using hbatch

/-- An epoch below the largest one is below the next one. -/
theorem lt_next {epoch : UInt64} (h : epoch < lastEpoch) : epoch < epoch + 1 := by
  refine lt_add_one_of_ne_zero fun hzero => ?_
  have hlast : epoch = lastEpoch := by
    rw [← UInt64.add_left_inj 1, hzero]
    rfl
  exact UInt64.lt_irrefl _ (hlast ▸ h)

/-- A call of `Gc` by an idle thread that then runs alone, while no block shows an epoch. -/
theorem continues_gc (hidle : (state.threads tid).pc = .idle)
    (hchain : IsChain (fun tcb => (state.shared.tcbs tcb).next) state.shared.head blocks)
    (hquiet : state.shared.Unannounced) :
    Continues 1 state ⟨Shared.sweepOwn
      { state.shared with globalEpoch := state.shared.globalEpoch + 1 }
        (state.threads tid).tlsTcb state.shared.globalEpoch, state.threads⟩ := by
  have hcall : step state (.thread tid .gc) = some ⟨state.shared,
      Function.update state.threads tid { state.threads tid with pc := .gcLoad }⟩ := by
    simp [step, act, hidle, call]
  have hruns := continues_of_runs (runs_gc hchain hquiet)
    (Function.update_self tid { state.threads tid with pc := .gcLoad } state.threads)
  have hback : ({ state.threads tid with pc := .idle } : Thread Node) = state.threads tid := by
    rw [← hidle]
  rw [Function.update_idem, hback, Function.update_eq_self] at hruns
  exact .gc tid hcall hruns

/-- Two calls of `Gc` are enough. The first one may only advance the epoch. -/
theorem SettledAt.reclaimable (h : SettledAt state tid node) : Reclaimable state node := by
  obtain ⟨hidle, ⟨blocks, hchain⟩, hquiet, own, htls, batch, hbatch, hnode, hle, hlt⟩ := h
  have hfirst := continues_gc hidle hchain hquiet
  rw [htls] at hfirst
  by_cases hold : batch.epoch < state.shared.globalEpoch
  · exact ⟨1, _, hfirst, by decide, deleted_sweepOwn hbatch hnode hold⟩
  · have hepoch : batch.epoch = state.shared.globalEpoch :=
      UInt64.le_antisymm hle (UInt64.not_lt.mp hold)
    -- The first call advances the epoch and keeps the batch.
    generalize hmiddle : Shared.sweepOwn
      { state.shared with globalEpoch := state.shared.globalEpoch + 1 } (some own)
        state.shared.globalEpoch = middle at hfirst
    have hcollected : Collected state.shared middle :=
      hmiddle ▸ collected_sweepOwn (some own) (.inr rfl)
    have hkept : batch ∈ (middle.tcbs own).retirementBatches := by
      rw [← hmiddle]
      exact kept_sweepOwn hbatch hold
    have hnext : batch.epoch < middle.globalEpoch := by
      rw [← hmiddle, hepoch]
      exact lt_next (hepoch ▸ hlt)
    have hsecond : Continues 1 ⟨middle, state.threads⟩ _ :=
      continues_gc hidle (hcollected.chain hchain) (hcollected.unannounced hquiet)
    dsimp only at hsecond
    rw [htls] at hsecond
    exact ⟨2, _, hfirst.trans hsecond, by decide, deleted_sweepOwn hkept hnode hnext⟩

end Collecting

/-! ## What holds of every run -/

/-- The places at which a thread uses its block. -/
def Pc.needsBlock : Pc Node → Bool
  | .unregisterActive | .unregisterEpoch | .enterLoad | .enterStore _ | .exitStore | .retireLoad _
  | .retirePush .. | .gcSweep .. => true
  | _ => false

/-- The places at which a thread holds the mutex of the list. -/
def Pc.holdsMutex : Pc Node → Bool
  | .registerLink .. | .registerPublish .. | .registerBind .. => true
  | _ => false

/-- A thread that uses its block has one, the mutex is held inside `RegisterThread` only, and the
global epoch is not the largest one. -/
structure PlacesInv (state : State Node) : Prop where
  bound : ∀ tid, (state.threads tid).pc.needsBlock = true → (state.threads tid).tlsTcb ≠ none
  mutex : ∀ tid, state.shared.listMutex = some tid → (state.threads tid).pc.holdsMutex = true
  below : state.shared.globalEpoch < lastEpoch

section Steps

variable {state next : State Node} {shared shared' : Shared Node} {thread thread' : Thread Node}
  {tid : ThreadId} {action : Action Node} {event : Event Node}

/-- A step inside a function leads to a place that needs a block only if the thread has one. -/
theorem RunStep.bound (hrun : RunStep shared tid thread shared' thread')
    (hbound : thread.pc.needsBlock = true → thread.tlsTcb ≠ none)
    (hneeds : thread'.pc.needsBlock = true) : thread'.tlsTcb ≠ none := by
  cases hrun with
  | registerLock | registerLink | registerPublish | unregisterEpoch | gcLoad | gcActive
  | gcInactive | gcLocal | gcGlobal => cases hneeds
  | registerBind tcb resume => simp
  | unregisterActive tcb _ htls | enterStore _ tcb _ htls | exitStore tcb _ htls
  | retirePush _ _ tcb _ htls => simp [htls]
  | enterLoad hpc | retireLoad _ hpc => exact hbound (by rw [hpc]; rfl)
  | gcHead => cases hstart : shared.head <;> simp [hstart, walkTo, Pc.needsBlock] at hneeds
  | gcNext _ curr =>
      cases hnext : (shared.tcbs curr).next <;> simp [hnext, walkTo, Pc.needsBlock] at hneeds
  | gcBehind | gcCas =>
      rw [beginSweep_tlsTcb]
      intro hnone
      simp [beginSweep, hnone, Pc.needsBlock] at hneeds
  | gcSweep _ _ own _ htls hsweep =>
      cases sweep_cases hsweep <;> simp [htls]

/-- A call leads to a place that needs a block only if the thread has one. -/
theorem CallStep.bound (hcall : CallStep shared thread action shared' thread')
    (hidle : thread.pc = .idle) (hneeds : thread'.pc.needsBlock = true) :
    thread'.tlsTcb ≠ none := by
  cases hcall with
  | register | enterFirst | retireFirst | gc => cases hneeds
  | registered | unregistered | exitUnregistered | retireNull | run =>
      simp [hidle, Pc.needsBlock] at hneeds
  | unregister tcb htls | exit tcb htls | retire _ tcb htls => simp [htls]
  | enter tcb htls => simp [htls]

/-- Who holds the mutex after a step inside a function is inside `RegisterThread`, or held it
before. -/
theorem RunStep.mutex (hrun : RunStep shared tid thread shared' thread')
    (hmutex : shared.listMutex = some tid → thread.pc.holdsMutex = true) {holder : ThreadId}
    (hholder : shared'.listMutex = some holder) :
    (holder = tid → thread'.pc.holdsMutex = true) ∧
      (holder ≠ tid → shared.listMutex = some holder) := by
  have hsame : shared'.listMutex = shared.listMutex → thread.pc.holdsMutex = false →
      (holder = tid → thread'.pc.holdsMutex = true) ∧
        (holder ≠ tid → shared.listMutex = some holder) := by
    intro hkeep hfree
    have hold : shared.listMutex = some holder := hkeep ▸ hholder
    refine ⟨fun heq => ?_, fun _ => hold⟩
    rw [hmutex (heq ▸ hold)] at hfree
    cases hfree
  cases hrun with
  | registerLock => exact ⟨fun _ => rfl, fun hne => absurd (Option.some.inj hholder).symm hne⟩
  | registerLink | registerPublish => exact ⟨fun _ => rfl, fun _ => hholder⟩
  | registerBind => cases hholder
  | gcSweep _ _ _ hpc _ hsweep =>
      have hfree : thread.pc.holdsMutex = false := by simp [hpc, Pc.holdsMutex]
      cases sweep_cases hsweep <;> exact hsame rfl hfree
  | unregisterActive _ hpc | unregisterEpoch _ hpc | enterLoad hpc | enterStore _ _ hpc
  | exitStore _ hpc | retireLoad _ hpc | retirePush _ _ _ hpc | gcLoad hpc | gcHead _ hpc
  | gcActive _ _ hpc | gcInactive _ _ hpc | gcLocal _ _ hpc | gcNext _ _ hpc | gcGlobal _ hpc
  | gcBehind _ hpc | gcCas _ _ hpc =>
      exact hsame rfl (by simp [hpc, Pc.holdsMutex])

/-- A call leaves the mutex alone. -/
theorem CallStep.mutex (hcall : CallStep shared thread action shared' thread') :
    shared'.listMutex = shared.listMutex := by
  cases hcall <;> rfl

/-- The global epoch stays below the largest one. -/
theorem RunStep.below (hrun : RunStep shared tid thread shared' thread')
    (hlt : shared.globalEpoch < lastEpoch)
    (hcas : ∀ minEpoch, thread.pc = .gcCas minEpoch shared.globalEpoch →
      shared.globalEpoch + 1 ≠ lastEpoch) : shared'.globalEpoch < lastEpoch := by
  cases hrun with
  | gcCas minEpoch currentGlobal hpc =>
      dsimp only
      split
      · next hsame =>
          subst hsame
          have hne := hcas minEpoch hpc
          rw [ne_eq, ← UInt64.toNat_inj] at hne
          simp only [UInt64.lt_iff_toNat_lt, UInt64.toNat_add, lastEpoch,
            UInt64.reduceToNat] at hlt hne ⊢
          omega
      · exact hlt
  | gcSweep _ _ _ _ _ hsweep => cases sweep_cases hsweep <;> exact hlt
  | _ => exact hlt

/-- Every step keeps the places in order while the epoch does not come to its largest value. -/
theorem PlacesInv.step (h : PlacesInv state) (hallow : exhausts state event = false)
    (hstep : step state event = some next) : PlacesInv next := by
  rcases step_thread hstep with ⟨-, rfl⟩ | ⟨tid, action, shared', thread', rfl, hact, rfl⟩
  · exact h
  · have hown : (thread'.pc.needsBlock = true → thread'.tlsTcb ≠ none) ∧
        (∀ holder, shared'.listMutex = some holder →
          (holder = tid → thread'.pc.holdsMutex = true) ∧
            (holder ≠ tid → state.shared.listMutex = some holder)) ∧
        shared'.globalEpoch < lastEpoch := by
      rcases act_steps hact with ⟨rfl, hrun⟩ | ⟨-, hidle, hcall⟩
      · refine ⟨hrun.bound (h.bound tid), fun holder => hrun.mutex (h.mutex tid),
          hrun.below h.below fun minEpoch hpc hlast => ?_⟩
        simp [exhausts, hpc, hlast] at hallow
      · refine ⟨hcall.bound hidle, fun holder hholder => ?_, hcall.epoch_eq ▸ h.below⟩
        rw [hcall.mutex] at hholder
        refine ⟨fun heq => ?_, fun _ => hholder⟩
        -- An idle thread does not hold the mutex.
        have hinside := h.mutex tid (heq ▸ hholder)
        simp [hidle, Pc.holdsMutex] at hinside
    refine ⟨fun other hneeds => ?_, fun other hmutex => ?_, hown.2.2⟩
    · by_cases heq : other = tid
      · subst heq
        simp only [Function.update_self] at hneeds ⊢
        exact hown.1 hneeds
      · simp only [Function.update_of_ne heq] at hneeds ⊢
        exact h.bound other hneeds
    · by_cases heq : other = tid
      · subst heq
        simpa only [Function.update_self] using (hown.2.1 other hmutex).1 rfl
      · simpa only [Function.update_of_ne heq] using
          h.mutex other ((hown.2.1 other hmutex).2 heq)

/-- The places are in order in every run that meets the condition. -/
theorem reachable_places (h : (ebr Node).Reachable KeepsReclaimable state) : PlacesInv state := by
  refine h.invariant PlacesInv ?_ fun _ _ _ hinv hallow hstep => hinv.step hallow.2 hstep
  rintro _ rfl
  exact ⟨nofun, nofun, (by decide : (1 : UInt64) < lastEpoch)⟩

/-- An epoch that does not come to its largest value does not wrap around. -/
theorem reachable_unwrapped (h : (ebr Node).Reachable KeepsReclaimable state) :
    (ebr Node).Reachable (fun state event => wraps state event = false) state := by
  induction h with
  | init hinit => exact .init hinit
  | @step state next event hreach _ hstep ih =>
      refine .step ih ?_ hstep
      have hlt := (reachable_places hreach).below
      unfold wraps
      split
      · split
        · next minEpoch currentGlobal _ =>
            have hne : ¬ (state.shared.globalEpoch = currentGlobal ∧ currentGlobal + 1 = 0) := by
              rintro ⟨rfl, hzero⟩
              have hnext := lt_next hlt
              rw [hzero] at hnext
              exact absurd hnext (by simp)
            simpa using hne
        · rfl
      · rfl

end Steps

/-! ## From the last critical section to the deletion -/

/-- A state of a run that meets the condition, in which all critical sections have ended. -/
structure SectionsOver (state : State Node) : Prop where
  reachable : (ebr Node).Reachable KeepsReclaimable state
  silent : Silent state

section Ending

variable {state : State Node} {shared' : Shared Node} {thread' : Thread Node} {tid : ThreadId}
  {node : Node} {own : TcbId}

/-- All critical sections have still ended after a step that leaves the epoch alone. -/
theorem SectionsOver.run (h : SectionsOver state)
    (hrun : run state.shared tid (state.threads tid) = some (shared', thread'))
    (hcas : ∀ minEpoch currentGlobal, (state.threads tid).pc ≠ .gcCas minEpoch currentGlobal) :
    SectionsOver ⟨shared', Function.update state.threads tid thread'⟩ where
  reachable := by
    refine .step h.reachable ⟨rfl, ?_⟩
      (by simp [ebr, step, act, hrun] : (ebr Node).step state (.thread tid .run) = _)
    cases hpc : (state.threads tid).pc with
    | gcCas minEpoch currentGlobal => exact absurd hpc (hcas minEpoch currentGlobal)
    | _ => simp [exhausts, hpc]
  silent := by
    obtain ⟨houtside, hunseen⟩ := (run_cases hrun).silent (h.silent.outside tid) h.silent.unseen
    refine ⟨fun other => ?_, hunseen⟩
    by_cases heq : other = tid
    · subst heq
      simpa only [Function.update_self] using houtside
    · simpa only [Function.update_of_ne heq] using h.silent.outside other

/-- The node can be reclaimed if it can be after the step. -/
theorem reclaimable_after (h : SectionsOver state)
    (hrun : run state.shared tid (state.threads tid) = some (shared', thread'))
    (hcas : ∀ minEpoch currentGlobal, (state.threads tid).pc ≠ .gcCas minEpoch currentGlobal)
    (hnext : ∀ next : State Node, SectionsOver next → next.shared = shared' →
      next.threads tid = thread' → Reclaimable next node) : Reclaimable state node :=
  (hnext _ (h.run hrun hcas) rfl (Function.update_self ..)).after (continues_run hrun)

theorem SectionsOver.blocks (h : SectionsOver state) : BlocksInv state := by
  obtain ⟨nodes, hreach⟩ := h.reachable.record retired
  exact (reachable_accounted (hreach.mono fun _ _ hallow => hallow.1)).1

/-- The epochs of the batches do not exceed the global epoch. -/
theorem SectionsOver.upTo (h : SectionsOver state) {batch : Batch Node}
    (hbatch : batch ∈ (state.shared.tcbs own).retirementBatches) :
    batch.epoch ≤ state.shared.globalEpoch := by
  obtain ⟨history, hreach⟩ := (reachable_unwrapped h.reachable).record collections
  exact ((reachable_batches hreach).ordered own).upTo batch hbatch

/-- A thread inside `Gc`, or between two calls, that is bound to the block of the node. -/
structure AtGc (state : State Node) (tid : ThreadId) (node : Node) : Prop where
  sections : SectionsOver state
  place : (state.threads tid).pc = .idle ∨ (state.threads tid).pc.part.inGc = true
  pending : ∃ own, (state.threads tid).tlsTcb = some own ∧ node ∈ state.shared.retiredNodes own

/-- The thread finishes its call of `Gc`, and calls it again. -/
theorem AtGc.reclaimable (h : AtGc state tid node) : Reclaimable state node := by
  obtain ⟨hsections, hplace, own, htls, hnode⟩ := h
  obtain ⟨batch, hbatch, hnode⟩ := List.mem_flatMap.mp hnode
  have hle := hsections.upTo hbatch
  have hbelow := (reachable_places hsections.reachable).below
  have hlt := UInt64.lt_of_le_of_lt hle hbelow
  obtain ⟨blocks, hlist, hinside⟩ := reachable_inside hsections.reachable
  rcases hplace with hidle | hgc
  · have hsettled : SettledAt state tid node := ⟨hidle, ⟨blocks, hlist.chain⟩,
      hsections.silent.unseen, own, htls, batch, hbatch, hnode, hle, hlt⟩
    exact hsettled.reclaimable
  · obtain ⟨shared', hruns, hcollected⟩ := (hinside tid).finishes hlist.chain hgc
    have hcontinues : Continues 0 state _ := continues_of_runs hruns rfl
    rcases hcollected.batches own batch hbatch with hkept | hdeleted
    · have hle' : batch.epoch ≤ shared'.globalEpoch := by
        rcases hcollected.epoch with hsame | hnext
        · exact hsame.symm ▸ hle
        · exact hnext.symm ▸ UInt64.le_trans hle (UInt64.le_of_lt (lt_next hbelow))
      have hsettled : SettledAt ⟨shared', Function.update state.threads tid
          { state.threads tid with pc := .idle }⟩ tid node :=
        ⟨by simp, ⟨blocks, hcollected.chain hlist.chain⟩,
          hcollected.unannounced hsections.silent.unseen, own, by simpa using htls, batch, hkept,
          hnode, hle', hlt⟩
      exact hsettled.reclaimable.after hcontinues
    · exact ⟨0, _, hcontinues, Nat.zero_le _, hdeleted hnode⟩

/-- A thread that is about to push a node. -/
theorem reclaimable_pushing (h : SectionsOver state) {pushed : Node} {currentEpoch : UInt64}
    (hpc : (state.threads tid).pc = .retirePush pushed currentEpoch)
    (htls : (state.threads tid).tlsTcb = some own)
    (hnode : node ∈ state.shared.retiredNodes own ∨ node = pushed) : Reclaimable state node := by
  generalize hbatches : pushRetired (state.shared.tcbs own).retirementBatches pushed
    currentEpoch = batches
  have hrun : run state.shared tid (state.threads tid) =
      some (state.shared.setTcb own
        { state.shared.tcbs own with retirementBatches := batches }, { state.threads tid with
          pc := if lastBatchSize batches ≥ kBatchThreshold then .gcLoad else .idle }) := by
    simp only [run, hpc, htls, hbatches]
  refine reclaimable_after h hrun (by simp [hpc]) fun next hover hshared hthread => ?_
  have hplace : (next.threads tid).pc = .idle ∨ (next.threads tid).pc.part.inGc = true := by
    rw [hthread]
    dsimp only
    split
    · exact .inr rfl
    · exact .inl rfl
  have hpushed : node ∈ next.shared.retiredNodes own := by
    rw [hshared, retiredNodes_setBatches, if_pos rfl, ← hbatches, flatMap_pushRetired]
    simpa [Shared.retiredNodes] using hnode
  exact AtGc.reclaimable ⟨hover, hplace, own, by rw [hthread, htls], hpushed⟩

/-- A thread inside `Retire`, before it reads the epoch. -/
theorem reclaimable_loading (h : SectionsOver state) {pushed : Node}
    (hpc : (state.threads tid).pc = .retireLoad pushed)
    (htls : (state.threads tid).tlsTcb = some own)
    (hnode : node ∈ state.shared.retiredNodes own ∨ node = pushed) : Reclaimable state node := by
  have hrun : run state.shared tid (state.threads tid) = some (state.shared,
      { state.threads tid with pc := .retirePush pushed state.shared.globalEpoch }) := by
    simp only [run, hpc]
  refine reclaimable_after h hrun (by simp [hpc]) fun next hover hshared hthread => ?_
  exact reclaimable_pushing hover (congrArg Thread.pc hthread)
    ((congrArg Thread.tlsTcb hthread).trans htls) (hshared ▸ hnode)

/-- The node is in a batch of a block that a thread is bound to. The thread finishes what it is
doing. -/
theorem reclaimable_bound (h : SectionsOver state) (htls : (state.threads tid).tlsTcb = some own)
    (hnode : node ∈ state.shared.retiredNodes own) : Reclaimable state node := by
  have hunbound := h.blocks.unbound tid
  have houtside := h.silent.outside tid
  cases hpc : (state.threads tid).pc with
  | registerLock | registerLink | registerPublish | registerBind =>
      -- A thread that is registering has no block yet.
      rw [hunbound (by simp [hpc, Pc.newBlock])] at htls
      cases htls
  | unregisterActive | unregisterEpoch =>
      -- A thread that unregisters leaves no nodes behind.
      rw [h.blocks.leaving tid own (by rw [hpc]; rfl) htls] at hnode
      cases hnode
  | enterLoad | enterStore => simp [hpc, Pc.enters] at houtside
  | exitStore =>
      have hrun : run state.shared tid (state.threads tid) = some (state.shared.setTcb own
          { state.shared.tcbs own with localEpoch := kEpochInactive },
          { state.threads tid with pc := .idle }) := by
        simp only [run, hpc, htls]
      refine reclaimable_after h hrun (by simp [hpc]) fun next hover hshared hthread => ?_
      have hkept : node ∈ next.shared.retiredNodes own := by
        rwa [hshared, retiredNodes_setTcb (by rfl)]
      exact AtGc.reclaimable ⟨hover, .inl (congrArg Thread.pc hthread), own,
        (congrArg Thread.tlsTcb hthread).trans htls, hkept⟩
  | retireLoad pushed => exact reclaimable_loading h hpc htls (.inl hnode)
  | retirePush pushed currentEpoch => exact reclaimable_pushing h hpc htls (.inl hnode)
  | idle => exact AtGc.reclaimable ⟨h, .inl hpc, own, htls, hnode⟩
  | gcLoad | gcHead | gcActive | gcLocal | gcNext | gcGlobal | gcCas | gcSweep =>
      exact AtGc.reclaimable ⟨h, .inr (by rw [hpc]; rfl), own, htls, hnode⟩

/-- The run goes on until the mutex is free. The threads but the given one stay where they are. -/
def Unlocks (state : State Node) (holder : ThreadId) : Prop :=
  ∃ next, Continues 0 state next ∧ SectionsOver next ∧ next.shared.listMutex = none ∧
    ∀ other, other ≠ holder → next.threads other = state.threads other

/-- The mutex becomes free if it does after the step. -/
theorem unlocks_after (h : SectionsOver state)
    (hrun : run state.shared tid (state.threads tid) = some (shared', thread'))
    (hcas : ∀ minEpoch currentGlobal, (state.threads tid).pc ≠ .gcCas minEpoch currentGlobal)
    (hnext : ∀ next : State Node, SectionsOver next → next.threads tid = thread' →
      Unlocks next tid) : Unlocks state tid := by
  obtain ⟨next, hcontinues, hover, hfree, hothers⟩ :=
    hnext _ (h.run hrun hcas) (Function.update_self ..)
  exact ⟨next, (continues_run hrun).trans hcontinues, hover, hfree,
    fun other hne => (hothers other hne).trans (Function.update_of_ne hne _ _)⟩

theorem unlocks_binding (h : SectionsOver state) {tcb : TcbId} {resume : Resume Node}
    (hpc : (state.threads tid).pc = .registerBind tcb resume) : Unlocks state tid := by
  have hrun : run state.shared tid (state.threads tid) =
      some ({ state.shared with listMutex := none },
        afterRegister { state.threads tid with tlsTcb := some tcb } resume) := by
    simp only [run, hpc]
  exact ⟨_, continues_run hrun, h.run hrun (by simp [hpc]), rfl,
    fun other hne => Function.update_of_ne hne _ _⟩

theorem unlocks_publishing (h : SectionsOver state) {tcb : TcbId} {resume : Resume Node}
    (hpc : (state.threads tid).pc = .registerPublish tcb resume) : Unlocks state tid := by
  have hrun : run state.shared tid (state.threads tid) =
      some ({ state.shared with head := some tcb },
        { state.threads tid with pc := .registerBind tcb resume }) := by
    simp only [run, hpc]
  exact unlocks_after h hrun (by simp [hpc]) fun next hover hthread =>
    unlocks_binding hover (congrArg Thread.pc hthread)

/-- A thread inside `RegisterThread` that holds the mutex goes on until it gives the mutex back. -/
theorem unlocks_holding (h : SectionsOver state)
    (hholds : (state.threads tid).pc.holdsMutex = true) : Unlocks state tid := by
  cases hpc : (state.threads tid).pc with
  | registerBind tcb resume => exact unlocks_binding h hpc
  | registerPublish tcb resume => exact unlocks_publishing h hpc
  | registerLink tcb resume =>
      have hrun : run state.shared tid (state.threads tid) =
          some (state.shared.setTcb tcb { state.shared.tcbs tcb with next := state.shared.head },
            { state.threads tid with pc := .registerPublish tcb resume }) := by
        simp only [run, hpc]
      exact unlocks_after h hrun (by simp [hpc]) fun next hover hthread =>
        unlocks_publishing hover (congrArg Thread.pc hthread)
  | _ => simp [hpc, Pc.holdsMutex] at hholds

/-- A thread that registers in order to retire the node. -/
theorem reclaimable_binding (h : SectionsOver state) {tcb : TcbId}
    (hpc : (state.threads tid).pc = .registerBind tcb (.retire node)) : Reclaimable state node := by
  have hrun : run state.shared tid (state.threads tid) =
      some ({ state.shared with listMutex := none },
        { state.threads tid with tlsTcb := some tcb, pc := .retireLoad node }) := by
    simp only [run, hpc, afterRegister]
  exact reclaimable_after h hrun (by simp [hpc]) fun next hover _ hthread =>
    reclaimable_loading hover (congrArg Thread.pc hthread) (congrArg Thread.tlsTcb hthread)
      (.inr rfl)

theorem reclaimable_publishing (h : SectionsOver state) {tcb : TcbId}
    (hpc : (state.threads tid).pc = .registerPublish tcb (.retire node)) :
    Reclaimable state node := by
  have hrun : run state.shared tid (state.threads tid) =
      some ({ state.shared with head := some tcb },
        { state.threads tid with pc := .registerBind tcb (.retire node) }) := by
    simp only [run, hpc]
  exact reclaimable_after h hrun (by simp [hpc]) fun next hover _ hthread =>
    reclaimable_binding hover (congrArg Thread.pc hthread)

theorem reclaimable_linking (h : SectionsOver state) {tcb : TcbId}
    (hpc : (state.threads tid).pc = .registerLink tcb (.retire node)) :
    Reclaimable state node := by
  have hrun : run state.shared tid (state.threads tid) =
      some (state.shared.setTcb tcb { state.shared.tcbs tcb with next := state.shared.head },
        { state.threads tid with pc := .registerPublish tcb (.retire node) }) := by
    simp only [run, hpc]
  exact reclaimable_after h hrun (by simp [hpc]) fun next hover _ hthread =>
    reclaimable_publishing hover (congrArg Thread.pc hthread)

/-- A thread that waits for the mutex takes it once it is free. -/
theorem reclaimable_locking (h : SectionsOver state) {tcb : TcbId}
    (hpc : (state.threads tid).pc = .registerLock tcb (.retire node)) :
    Reclaimable state node := by
  have hfree : ∀ state : State Node, SectionsOver state → state.shared.listMutex = none →
      (state.threads tid).pc = .registerLock tcb (.retire node) → Reclaimable state node := by
    intro state h hfree hpc
    have hrun : run state.shared tid (state.threads tid) =
        some ({ state.shared with listMutex := some tid },
          { state.threads tid with pc := .registerLink tcb (.retire node) }) := by
      simp only [run, hpc, hfree, if_true]
    exact reclaimable_after h hrun (by simp [hpc]) fun next hover _ hthread =>
      reclaimable_linking hover (congrArg Thread.pc hthread)
  cases hmutex : state.shared.listMutex with
  | none => exact hfree state h hmutex hpc
  | some holder =>
      have hholds := (reachable_places h.reachable).mutex holder hmutex
      have hne : tid ≠ holder := by
        rintro rfl
        simp [hpc, Pc.holdsMutex] at hholds
      obtain ⟨next, hcontinues, hsections, hnone, hothers⟩ := unlocks_holding h hholds
      exact (hfree next hsections hnone (hothers tid hne ▸ hpc)).after hcontinues

/-- The node is in the hands of a call of `Retire`, which goes on. -/
theorem reclaimable_inHand (h : SectionsOver state)
    (hhand : (state.threads tid).pc.inHand = some node) : Reclaimable state node := by
  have hbound := (reachable_places h.reachable).bound tid
  cases hpc : (state.threads tid).pc with
  | registerLock _ resume | registerLink _ resume | registerPublish _ resume
  | registerBind _ resume =>
      rw [hpc] at hhand
      cases resume with
      | done | enter => cases hhand
      | retire held =>
          obtain rfl : held = node := Option.some.inj hhand
          first
          | exact reclaimable_locking h hpc
          | exact reclaimable_linking h hpc
          | exact reclaimable_publishing h hpc
          | exact reclaimable_binding h hpc
  | retireLoad held =>
      obtain rfl : held = node := by simpa [hpc, Pc.inHand] using hhand
      obtain ⟨own, hown⟩ := Option.ne_none_iff_exists'.mp (hbound (by rw [hpc]; rfl))
      exact reclaimable_loading h hpc hown (.inr rfl)
  | retirePush held currentEpoch =>
      obtain rfl : held = node := by simpa [hpc, Pc.inHand] using hhand
      obtain ⟨own, hown⟩ := Option.ne_none_iff_exists'.mp (hbound (by rw [hpc]; rfl))
      exact reclaimable_pushing h hpc hown (.inr rfl)
  | _ => simp [hpc, Pc.inHand] at hhand

end Ending

/-- No retired node is lost when threads unregister only while their batches hold no node and the
epoch does not come to its largest value. -/
theorem never_orphaned (Node : Type) :
    NeverOrphaned Node fun pair => KeepsReclaimable pair.1 := by
  intro pair hreach node hnode
  have haccounted := (reachable_accounted (hreach.mono fun _ _ hallow => hallow.1)).2 node hnode
  refine ⟨haccounted, fun hsilent => ?_⟩
  have hover : SectionsOver pair.1 := ⟨hreach.erase fun _ _ hallow => hallow, hsilent⟩
  rcases haccounted with hdeleted | ⟨tid, hhand⟩ | ⟨tid, own, htls, hmem⟩
  · exact ⟨0, pair.1, .refl, Nat.zero_le _, hdeleted⟩
  · exact reclaimable_inHand hover hhand
  · exact reclaimable_bound hover htls hmem

/-! ## A thread that unregisters too early -/

/-- Only one thread acts. -/
def actsAlone (tid : ThreadId) : Event Node → Bool
  | .thread other _ => other == tid
  | .unlink _ => true

/-- The threads that do not act have no block. -/
theorem others_idle {pair : State Node × List Node}
    (h : ((ebr Node).withHistory retired).Reachable (fun _ event => actsAlone tid event = true)
      pair) (other : ThreadId) (hne : other ≠ tid) : pair.1.threads other = {} := by
  refine h.invariant (fun pair => pair.1.threads other = {}) ?_ ?_
  · intro pair hinit
    rw [hinit.1]
  · intro pair event next hidle hallow hstep
    have hnext := (System.withHistory_step.mp hstep).1
    change Concurrency.step pair.1 event = some next.1 at hnext
    cases event with
    | unlink node =>
        rw [← Option.some.inj hnext]
        exact hidle
    | thread actor action =>
        obtain rfl : actor = tid := by simpa [actsAlone] using hallow
        simp only [Concurrency.step, Option.map_eq_some_iff] at hnext
        obtain ⟨result, -, hresult⟩ := hnext
        rw [← hresult]
        exact (Function.update_of_ne hne _ _).trans hidle

/-- A thread retires a node and unregisters. -/
def retireAndLeave : List (Event Nat) :=
  .unlink 0 :: .thread 1 (.retire (some 0)) :: List.replicate 6 (.thread 1 .run) ++
    .thread 1 .unregisterThread :: List.replicate 2 (.thread 1 .run)

/-- A node in the batches of a thread that unregisters is never visited again. -/
theorem unregister_orphans : ¬ NeverOrphaned Nat fun _ _ => True := by
  intro hnever
  obtain ⟨pair, hreach, hgood⟩ := System.exists_reachable_of_replay
    ((ebr Nat).withHistory retired) (fun _ event => actsAlone 1 event = true)
    ({}, retired.start {}) retireAndLeave
    (fun pair => pair.2.contains 0 && pair.1.shared.deleted.isEmpty &&
      (pair.1.threads 1).tlsTcb.isNone && (pair.1.threads 1).pc.inHand.isNone)
    (.init ⟨rfl, rfl⟩) (by decide +kernel)
  simp only [Bool.and_eq_true, List.contains_iff_mem, List.isEmpty_iff, Option.isNone_iff_eq_none]
    at hgood
  obtain ⟨⟨⟨hretired, hdeleted⟩, htls⟩, hhand⟩ := hgood
  have hidle := others_idle hreach
  rcases (hnever pair (hreach.mono fun _ _ _ => trivial) 0 hretired).1 with
      hmem | ⟨tid, hheld⟩ | ⟨tid, tcb, hbound, -⟩
  · rw [hdeleted] at hmem
    cases hmem
  · by_cases heq : tid = 1
    · rw [heq, hhand] at hheld
      cases hheld
    · rw [hidle tid heq] at hheld
      cases hheld
  · by_cases heq : tid = 1
    · rw [heq, htls] at hbound
      cases hbound
    · rw [hidle tid heq] at hbound
      cases hbound

end HotPath.Concurrency
