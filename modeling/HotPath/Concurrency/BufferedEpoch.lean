import HotPath.Concurrency.EpochSteps
import HotPath.Concurrency.MapSteps
import HotPath.Concurrency.Reclamation

/-!
# The reclamation engine behind store buffers

A step of the engine with store buffers is a step of the engine, except that the stores of
`EnterCritical` and `ExitCritical` take effect when they drain. A thread counts as having
published its epoch once that store has drained, and as having left its critical section as soon
as `ExitCritical` has put its store into the buffer.

`EbrStep` collects what the map has to know about such a step.
-/

namespace HotPath.Concurrency.MapSteps

open HotPath.Foundation

section Engine

variable {shared shared' : Shared Object} {history history' : History Object}
  {blocks : List TcbId} {tid : ThreadId} {thread thread' : Thread Object}

/-! ## Places -/

/-- The thread goes on to `EnterCritical`. -/
def resumesEntering : Resume Object → Bool
  | .enter => true
  | _ => false

/-- The thread is on its way into a critical section. -/
def entering : Concurrency.Pc Object → Bool
  | .registerLock _ resume | .registerLink _ resume | .registerPublish _ resume
  | .registerBind _ resume => resumesEntering resume
  | .enterLoad | .enterStore _ => true
  | _ => false

/-- The depth of a thread on its way into its only critical section. -/
def entryDepth : Concurrency.Pc Object → Int
  | .enterLoad | .enterStore _ => 1
  | _ => 0

/-- The thread is idle, or in `Retire` or `Gc`. -/
def serving : Concurrency.Pc Object → Bool
  | .registerLock _ resume | .registerLink _ resume | .registerPublish _ resume
  | .registerBind _ resume => !resumesEntering resume
  | .enterLoad | .enterStore _ | .exitStore | .unregisterActive | .unregisterEpoch => false
  | _ => true

theorem walkTo_serving (thread : Thread Object) (minEpoch : UInt64) (start : Option TcbId) :
    serving (walkTo thread minEpoch start).pc = true ∧
      (walkTo thread minEpoch start).criticalDepth = thread.criticalDepth := by
  cases start <;> exact ⟨rfl, rfl⟩

theorem beginSweep_serving (thread : Thread Object) (minEpoch : UInt64) :
    serving (beginSweep thread minEpoch).pc = true ∧
      (beginSweep thread minEpoch).criticalDepth = thread.criticalDepth := by
  unfold beginSweep
  split <;> exact ⟨rfl, rfl⟩

theorem sweep_serving {tcb : TcbId} {minEpoch : UInt64} {index : Nat}
    (hserving : serving thread.pc = true)
    (h : sweep shared thread tcb minEpoch index = (shared', thread')) :
    serving thread'.pc = true ∧ thread'.criticalDepth = thread.criticalDepth := by
  cases sweep_cases h with
  | finish | skip => exact ⟨rfl, rfl⟩
  | delete | erase => exact ⟨hserving, rfl⟩

/-- A thread in `Retire` or `Gc` stays there until it is idle. -/
theorem run_serving (hserving : serving thread.pc = true)
    (hrun : Concurrency.run shared tid thread = some (shared', thread')) :
    serving thread'.pc = true ∧ thread'.criticalDepth = thread.criticalDepth := by
  cases run_cases hrun with
  | registerLock tcb resume hpc | registerLink tcb resume hpc | registerPublish tcb resume hpc =>
      rw [hpc] at hserving
      exact ⟨hserving, rfl⟩
  | registerBind tcb resume hpc =>
      cases resume with
      | enter => simp [hpc, serving, resumesEntering] at hserving
      | done => exact ⟨rfl, rfl⟩
      | retire node => exact ⟨rfl, rfl⟩
  | unregisterActive tcb hpc | unregisterEpoch tcb hpc | enterLoad hpc | enterStore epoch tcb hpc
  | exitStore tcb hpc => simp [hpc, serving] at hserving
  | retirePush node epoch tcb =>
      refine ⟨?_, rfl⟩
      dsimp only
      split <;> rfl
  | gcHead minEpoch | gcNext minEpoch => exact walkTo_serving ..
  | gcBehind minEpoch | gcCas minEpoch => exact beginSweep_serving ..
  | gcSweep minEpoch index tcb hpc htls hsweep => exact sweep_serving hserving hsweep
  | retireLoad | gcLoad | gcActive | gcInactive | gcLocal | gcGlobal => exact ⟨rfl, rfl⟩

/-- A thread that enters a critical section gets to the store of its epoch. -/
theorem run_entering (hentering : entering thread.pc = true)
    (hstore : ∀ epoch, thread.pc ≠ .enterStore epoch)
    (hdepth : thread.criticalDepth = entryDepth thread.pc)
    (hrun : Concurrency.run shared tid thread = some (shared', thread')) :
    entering thread'.pc = true ∧ thread'.criticalDepth = entryDepth thread'.pc := by
  cases run_cases hrun with
  | registerLock tcb resume hpc | registerLink tcb resume hpc | registerPublish tcb resume hpc =>
      rw [hpc] at hentering hdepth
      exact ⟨hentering, hdepth⟩
  | registerBind tcb resume hpc =>
      cases resume with
      | enter =>
          have hzero : thread.criticalDepth = 0 := by simpa [hpc, entryDepth] using hdepth
          simp [afterRegister, beginEnter, hzero, entering, entryDepth]
      | done => simp [hpc, entering, resumesEntering] at hentering
      | retire node => simp [hpc, entering, resumesEntering] at hentering
  | enterLoad hpc =>
      rw [hpc] at hdepth
      exact ⟨rfl, hdepth⟩
  | enterStore epoch tcb hpc => exact absurd hpc (hstore epoch)
  | unregisterActive _ hpc | unregisterEpoch _ hpc | exitStore _ hpc | retireLoad _ hpc
  | retirePush _ _ _ hpc | gcLoad hpc | gcHead _ hpc | gcActive _ _ hpc | gcInactive _ _ hpc
  | gcLocal _ _ hpc | gcNext _ _ hpc | gcGlobal _ hpc | gcBehind _ hpc | gcCas _ _ hpc
  | gcSweep _ _ _ hpc => simp [hpc, entering] at hentering

theorem walkTo_tls (thread : Thread Object) (minEpoch : UInt64) (start : Option TcbId) :
    (walkTo thread minEpoch start).tlsTcb = thread.tlsTcb := by
  cases start <;> rfl

theorem beginSweep_tls (thread : Thread Object) (minEpoch : UInt64) :
    (beginSweep thread minEpoch).tlsTcb = thread.tlsTcb := by
  unfold beginSweep
  split <;> rfl

/-- A thread that does not unregister keeps its block. -/
theorem run_tls {tcb : TcbId} (hthread : ThreadInv shared history blocks tid thread)
    (hgone : thread.pc ≠ .unregisterEpoch) (htls : thread.tlsTcb = some tcb)
    (hrun : Concurrency.run shared tid thread = some (shared', thread')) :
    thread'.tlsTcb = some tcb := by
  have hinv := hthread.pc
  cases run_cases hrun with
  | registerBind own resume hpc =>
      -- Only a thread without a block registers.
      rw [hpc] at hinv
      cases htls.symm.trans hinv.1.1
  | unregisterEpoch own hpc => exact absurd hpc hgone
  | gcHead minEpoch | gcNext minEpoch => exact (walkTo_tls ..).trans htls
  | gcBehind minEpoch | gcCas minEpoch => exact (beginSweep_tls ..).trans htls
  | gcSweep minEpoch index own hpc hown hsweep => cases sweep_cases hsweep <;> exact htls
  | _ => exact htls

/-! ## What the map relies on -/

/-- A step of a thread that unlinks nothing: live objects stay live, and a thread keeps its pins
unless it is the one that moves and leaves its critical section. -/
structure Calm (tid : ThreadId) (history history' : History Object) : Prop where
  live : ∀ object, history.stage object = .live ↔ history'.stage object = .live
  pins : ∀ other, (∀ object, history'.pins object other = history.pins object other) ∨
    (other = tid ∧ ∀ object, history'.pins object other = false)

theorem Calm.refl : Calm tid history history := ⟨fun _ => Iff.rfl, fun _ => .inl fun _ => rfl⟩

/-- An object that is not live moves on. -/
theorem Calm.setStage {object : Object} {stage : Stage} (hold : history.stage object ≠ .live)
    (hnew : stage ≠ .live) : Calm tid history (history.setStage object stage) := by
  refine ⟨fun other => ?_, fun _ => .inl fun _ => rfl⟩
  by_cases heq : other = object
  · subst heq
    simp [History.setStage, hold, hnew]
  · simp [History.setStage, Function.update_of_ne heq]

theorem Calm.leave : Calm tid history (history.leave tid) := by
  refine ⟨fun _ => Iff.rfl, fun other => ?_⟩
  by_cases heq : other = tid
  · exact .inr ⟨heq, fun object => by simp [History.leave, heq]⟩
  · exact .inl fun object => by simp [History.leave, heq]

/-- A step that deletes objects deletes what it took from a batch. -/
theorem sweep_deleted {tcb : TcbId} {minEpoch : UInt64} {index : Nat}
    (h : sweep shared thread tcb minEpoch index = (shared', thread')) :
    ∃ fresh, shared'.deleted = shared.deleted ++ fresh ∧
      ∀ object ∈ fresh, ∃ batch ∈ (shared.tcbs tcb).retirementBatches, object ∈ batch.nodes := by
  cases sweep_cases h with
  | finish | skip => exact ⟨[], by simp, by simp⟩
  | erase => exact ⟨[], by simp [Shared.setTcb], by simp⟩
  | @delete batch object rest hbatch hold hnodes =>
      refine ⟨[object], rfl, fun other hother => ?_⟩
      obtain rfl := List.mem_singleton.mp hother
      exact ⟨batch, List.mem_of_getElem? hbatch, by simp [hnodes]⟩

/-- Deleted objects stay deleted. -/
theorem run_deleted (hrun : Concurrency.run shared tid thread = some (shared', thread')) :
    ∃ fresh, shared'.deleted = shared.deleted ++ fresh := by
  cases run_cases hrun with
  | gcSweep minEpoch index tcb hpc htls hsweep =>
      obtain ⟨fresh, hdeleted, -⟩ := sweep_deleted hsweep
      exact ⟨fresh, hdeleted⟩
  | _ => exact ⟨[], by simp [Shared.setTcb]⟩

/-- A step inside the engine unlinks nothing. -/
theorem run_calm (hshared : SharedInv shared history blocks)
    (hthread : ThreadInv shared history blocks tid thread)
    (hrun : Concurrency.run shared tid thread = some (shared', thread')) :
    Calm tid history (history.act tid thread shared'.deleted .run) ∧
      ∀ object, history.stage object = .unlinked →
        (history.act tid thread shared'.deleted .run).stage object = .unlinked := by
  have hinv := hthread.pc
  cases hpc : thread.pc with
  | enterStore epoch =>
      cases htls : thread.tlsTcb <;> simp only [History.act, hpc, htls] <;>
        exact ⟨⟨fun _ => Iff.rfl, fun _ => .inl fun _ => rfl⟩, fun _ h => h⟩
  | exitStore =>
      simp only [History.act, hpc]
      exact ⟨.leave, fun _ h => h⟩
  | retirePush object epoch =>
      rw [hpc] at hinv
      cases htls : thread.tlsTcb with
      | none => simp [Concurrency.run, hpc, htls] at hrun
      | some own =>
          simp only [History.act, hpc, htls]
          refine ⟨.setStage (by simp [hinv.1]) (by simp), fun other hother => ?_⟩
          have hne : other ≠ object := by
            rintro rfl
            simp [hinv.1] at hother
          simpa [History.setStage, Function.update_of_ne hne] using hother
  | gcSweep minEpoch index =>
      simp only [History.act, hpc]
      cases htls : thread.tlsTcb with
      | none => simp [Concurrency.run, hpc, htls] at hrun
      | some own =>
          simp only [Concurrency.run, hpc, htls, Option.some.injEq] at hrun
          obtain ⟨fresh, hdeleted, hfresh⟩ := sweep_deleted hrun
          -- What is deleted was deleted before or is in a batch.
          have hold : ∀ object ∈ shared'.deleted, history.stage object ≠ .live ∧
              history.stage object ≠ .unlinked := by
            intro object hobject
            rw [hdeleted] at hobject
            rcases List.mem_append.mp hobject with hmem | hmem
            · simp [hshared.deleted object hmem]
            · obtain ⟨batch, hbatch, hnode⟩ := hfresh object hmem
              simp [(hshared.batched own batch hbatch object hnode).1]
          refine ⟨⟨fun object => ?_, fun _ => .inl fun _ => rfl⟩, fun object hobject => ?_⟩
          · dsimp only
            split
            · next hmem => simp [(hold object hmem).1]
            · exact Iff.rfl
          · rw [if_neg fun hmem => (hold object hmem).2 hobject]
            exact hobject
  | _ =>
      simp only [History.act, hpc]
      exact ⟨.refl, fun _ h => h⟩

end Engine

/-! ## Buffered epochs -/

/-- The buffer holds only stores of `ExitCritical` to the thread's own block. -/
def Zeros (tls : Option TcbId) (buffer : List Store) : Prop :=
  ∀ store ∈ buffer, ∃ tcb, tls = some tcb ∧ store = .localEpoch tcb kEpochInactive

/-- A thread reads the epochs of the other threads from memory. -/
theorem Zeros.viewEpoch {tls : Option TcbId} {buffer : List Store} {curr : TcbId}
    (h : Zeros tls buffer) (hcurr : tls ≠ some curr) (ebr : Shared Object) :
    viewEpoch ebr buffer curr = (ebr.tcbs curr).localEpoch := by
  unfold MapSteps.viewEpoch
  induction buffer generalizing ebr with
  | nil => rfl
  | cons store rest ih =>
      obtain ⟨tcb, htls, rfl⟩ := h store (List.mem_cons_self ..)
      have hne : curr ≠ tcb := by
        rintro rfl
        exact hcurr htls
      rw [List.foldl_cons, ih fun other hother => h other (List.mem_cons_of_mem _ hother)]
      exact congrArg ThreadControlBlock.localEpoch (Function.update_of_ne hne _ _)

section Steps

variable {K V : Type} {memory memory' : Memory K V} {worker worker' : Worker K V}
  {history history' : History Object} {blocks : List TcbId} {tid : ThreadId}
  {thread thread' : Thread Object}

/-- What the map has to know about a step inside the engine. -/
structure EbrStep (memory : Memory K V) (history : History Object) (blocks : List TcbId)
    (tid : ThreadId) (memory' : Memory K V) (history' : History Object)
    (thread' : Thread Object) : Prop where
  preserved : Preserved memory.ebr history blocks tid memory'.ebr history' thread'
  calm : Calm tid history history'
  map : memory'.map = memory.map
  writeMutex : memory'.writeMutex = memory.writeMutex
  freed : ∃ fresh, memory'.ebr.deleted = memory.ebr.deleted ++ fresh ∧
    memory'.freed = memory.freed ++ fresh.flatMap (destroyed memory.map)

/-- A step that deletes nothing. -/
theorem EbrStep.keep {ebr : Shared Object}
    (hpreserved : Preserved memory.ebr history blocks tid ebr history' thread')
    (hcalm : Calm tid history history') (hdeleted : ebr.deleted = memory.ebr.deleted) :
    EbrStep memory history blocks tid { memory with ebr := ebr } history' thread' :=
  ⟨hpreserved, hcalm, rfl, rfl, [], by simpa using hdeleted, by simp⟩

/-- What a thread does inside the engine. -/
theorem runEbr_cases (h : runEbr memory tid worker = some (memory', worker')) :
    (∃ epoch tcb, worker.thread.pc = .enterStore epoch ∧ worker.thread.tlsTcb = some tcb ∧
      memory = memory' ∧ worker' = { worker with
        thread := { worker.thread with pc := .idle }
        buffer := worker.buffer ++ [.localEpoch tcb epoch] }) ∨
    (∃ tcb, worker.thread.pc = .exitStore ∧ worker.thread.tlsTcb = some tcb ∧
      memory = memory' ∧ worker' = { worker with
        thread := { worker.thread with pc := .idle }
        buffer := worker.buffer ++ [.localEpoch tcb kEpochInactive] }) ∨
    (∃ minEpoch curr, worker.thread.pc = .gcLocal minEpoch curr ∧ memory = memory' ∧
      worker' = { worker with thread := { worker.thread with
        pc := .gcNext (lowered minEpoch (viewEpoch memory.ebr worker.buffer curr)) curr } }) ∨
    ∃ ebr thread, Concurrency.run memory.ebr tid worker.thread = some (ebr, thread) ∧
      (∀ epoch, worker.thread.pc ≠ .enterStore epoch) ∧ worker.thread.pc ≠ .exitStore ∧
      memory' = memory.withEbr ebr ∧ worker' = { worker with thread := thread } := by
  unfold runEbr at h
  split at h
  · next epoch tcb hpc htls =>
      cases h
      exact .inl ⟨epoch, tcb, hpc, htls, rfl, rfl⟩
  · next tcb hpc htls =>
      cases h
      exact .inr (.inl ⟨tcb, hpc, htls, rfl, rfl⟩)
  · next _ minEpoch curr hpc =>
      cases h
      exact .inr (.inr (.inl ⟨minEpoch, curr, hpc, rfl, rfl⟩))
  · next _ _ _ henter hexit =>
      split at h
      · cases h
      · obtain ⟨⟨ebr, thread⟩, hrun, hresult⟩ := Option.map_eq_some_iff.mp h
        obtain ⟨rfl, rfl⟩ := Prod.mk.inj hresult
        refine .inr (.inr (.inr ⟨ebr, thread, hrun, fun epoch hpc => ?_, fun hpc => ?_, rfl, rfl⟩))
        · cases htls : worker.thread.tlsTcb with
          | none => simp [Concurrency.run, hpc, htls] at hrun
          | some own => exact henter epoch own hpc htls
        · cases htls : worker.thread.tlsTcb with
          | none => simp [Concurrency.run, hpc, htls] at hrun
          | some own => exact hexit own hpc htls

/-- A step inside the engine, as the map sees it. -/
theorem runEbr_step (hshared : SharedInv memory.ebr history blocks)
    (hthread : ThreadInv memory.ebr history blocks tid worker.thread)
    (hwrap : ∀ current currentGlobal, worker.thread.pc = .gcCas current currentGlobal →
      memory.ebr.globalEpoch = currentGlobal → currentGlobal + 1 ≠ 0)
    (hview : ∀ other curr published, history.announced other = some (curr, published) →
      viewEpoch memory.ebr worker.buffer curr = (memory.ebr.tcbs curr).localEpoch)
    (h : runEbr memory tid worker = some (memory', worker')) :
    ∃ history', EbrStep memory history blocks tid memory' history' worker'.thread ∧
      (∀ object, history.stage object = .unlinked → history'.stage object = .unlinked) ∧
      (worker.thread.pc ≠ .exitStore → history'.announced tid = history.announced tid) := by
  rcases runEbr_cases h with
      ⟨epoch, tcb, hpc, htls, rfl, rfl⟩ | ⟨tcb, hpc, htls, rfl, rfl⟩ |
      ⟨minEpoch, curr, hpc, rfl, rfl⟩ | ⟨ebr, thread, hrun, henter, hexit, rfl, rfl⟩
  · have hidle := hthread.goto .idle rfl rfl (fun _ => rfl) (by simp [hpc]) (by simp [hpc])
      (by simp [Pc.outside]) (by simp [Pc.entering]) trivial
    exact ⟨history, .keep (.quiet hshared hidle) .refl rfl, fun _ h => h, fun _ => rfl⟩
  · have hnone : (history.leave tid).announced tid = none := Function.update_self ..
    have hidle : ThreadInv memory.ebr (history.leave tid) blocks tid
        { worker.thread with pc := .idle } :=
      .unannounced hnone hthread.bound (fun own htls' _ => hthread.active own htls' (by simp [hpc]))
        (by simp [Pc.entering]) trivial
    refine ⟨history.leave tid, .keep ⟨blocks, hshared.leave tid, hidle, fun other hne =>
      Rely.leave hne⟩ .leave rfl, fun _ h => h, fun hne => absurd hpc hne⟩
  · have hinv := hthread.pc
    rw [hpc] at hinv
    refine ⟨history, .keep (.quiet hshared (hthread.goto (.gcNext _ curr) rfl rfl (fun _ => rfl)
      (by simp [hpc]) (by simp [hpc]) (by simp [Pc.outside]) (by simp [Pc.entering])
      (hinv.forward hshared ?_ fun other published hann => ?_))) .refl rfl, fun _ h => h,
      fun _ => rfl⟩
    · unfold lowered
      split
      · next hlow => exact UInt64.le_of_lt hlow.2
      · exact UInt64.le_refl _
    · -- The thread sees the epoch that another one has published.
      obtain ⟨-, hlocal, hne, -⟩ := hshared.published other curr published hann
      rw [hview other curr published hann, hlocal]
      unfold lowered
      split
      · exact UInt64.le_refl _
      · next hnot => exact UInt64.not_lt.mp fun hlow => hnot ⟨hne, hlow⟩
  · obtain ⟨fresh, hfresh⟩ := run_deleted hrun
    obtain ⟨hcalm, hunlinked⟩ := run_calm hshared hthread hrun
    refine ⟨_, ⟨run_preserved hshared hthread hwrap hrun, hcalm, rfl, rfl, fresh, hfresh, ?_⟩,
      hunlinked, fun _ => ?_⟩
    · simp [Memory.withEbr, hfresh]
    · cases hpc : worker.thread.pc with
      | enterStore epoch => exact absurd hpc (henter epoch)
      | exitStore => exact absurd hpc hexit
      | retirePush object epoch =>
          cases htls : worker.thread.tlsTcb <;> simp [History.act, hpc, htls, History.setStage]
      | _ => simp [History.act, hpc]

/-- A call deletes nothing. -/
theorem call_deleted {shared : Shared Object} {action : Action Object}
    {result : Shared Object × Thread Object}
    (h : Concurrency.call shared thread action = result) :
    result.1.deleted = shared.deleted := by
  subst h
  unfold Concurrency.call
  split
  all_goals first
    | rfl
    | (split <;> rfl)

/-- A call, as the map sees it. Only `Retire` moves an object on. -/
theorem call_step (action : Action Object)
    (hshared : SharedInv memory.ebr history blocks)
    (hthread : ThreadInv memory.ebr history blocks tid thread) (hidle : thread.pc = .idle)
    (hrun : action ≠ .run) (hunregister : action ≠ .unregisterThread)
    (hretire : ∀ object, action = .retire (some object) → history.stage object = .unlinked) :
    ∃ history', EbrStep memory history blocks tid
        { memory with ebr := (Concurrency.call memory.ebr thread action).1 } history'
        (Concurrency.call memory.ebr thread action).2 ∧
      history'.announced = history.announced ∧
      ((∀ object, action ≠ .retire (some object)) → history'.stage = history.stage) := by
  have hpreserved := call_preserved hshared hthread hidle (fun h => absurd h hunregister)
    hretire rfl
  have hallocate : ∀ (history : History Object) old new, Calm tid history
      (history.allocate tid old new) ∧ (history.allocate tid old new).announced =
        history.announced ∧ (history.allocate tid old new).stage = history.stage := by
    intro history old new
    unfold History.allocate
    split <;> exact ⟨⟨fun _ => Iff.rfl, fun _ => .inl fun _ => rfl⟩, rfl, rfl⟩
  refine ⟨_, .keep hpreserved ?_ (call_deleted rfl), ?_, fun hother => ?_⟩
  · cases action with
    | run => exact absurd rfl hrun
    | retire object =>
        cases object with
        | none => exact (hallocate _ _ _).1
        | some object =>
            have hstage := hretire object rfl
            have hset : Calm tid history (history.setStage object (.retiring tid)) :=
              .setStage (by simp [hstage]) (by simp)
            have hboth := (hallocate (history.setStage object (.retiring tid)) memory.ebr.tcbCount
              (Concurrency.call memory.ebr thread (.retire (some object))).1.tcbCount).1
            exact ⟨fun other => (hset.live other).trans (hboth.live other), hboth.pins⟩
    | _ => exact (hallocate _ _ _).1
  · rw [(hallocate _ _ _).2.1]
    cases action with
    | run => exact absurd rfl hrun
    | retire object => cases object <;> rfl
    | _ => rfl
  · rw [(hallocate _ _ _).2.2]
    cases action with
    | run => exact absurd rfl hrun
    | retire object =>
        cases object with
        | none => rfl
        | some object => exact absurd rfl (hother object)
    | _ => rfl

/-! ## Drained epochs -/

/-- Two memories that differ in published epochs only. -/
structure SameBut (shared shared' : Shared Object) : Prop where
  globalEpoch : shared'.globalEpoch = shared.globalEpoch
  head : shared'.head = shared.head
  listMutex : shared'.listMutex = shared.listMutex
  active : ∀ tcb, (shared'.tcbs tcb).active = (shared.tcbs tcb).active
  next : ∀ tcb, (shared'.tcbs tcb).next = (shared.tcbs tcb).next
  batches : ∀ tcb, (shared'.tcbs tcb).retirementBatches = (shared.tcbs tcb).retirementBatches

theorem SameBut.setEpoch (shared : Shared Object) (own : TcbId) (epoch : UInt64) :
    SameBut shared (shared.setTcb own { shared.tcbs own with localEpoch := epoch }) := by
  refine ⟨rfl, rfl, rfl, fun tcb => setTcb_active (by rfl) tcb, fun tcb => ?_, fun tcb => ?_⟩ <;>
    by_cases heq : tcb = own
  · subst heq
    rw [setTcb_self]
  · rw [show (shared.setTcb own _).tcbs tcb = _ from Function.update_of_ne heq _ _]
  · subst heq
    rw [setTcb_self]
  · rw [show (shared.setTcb own _).tcbs tcb = _ from Function.update_of_ne heq _ _]

variable {shared shared' : Shared Object} {tls : Option TcbId}

theorem SameBut.scanned (h : SameBut shared shared') {ahead : List TcbId} {minEpoch : UInt64}
    (hscanned : Scanned shared history tls ahead minEpoch) :
    Scanned shared' history tls ahead minEpoch := by
  intro own htls batch hbatch
  rw [h.batches] at hbatch
  exact hscanned own htls batch hbatch

theorem SameBut.scanning (h : SameBut shared shared') {start : Option TcbId} {minEpoch : UInt64}
    (hscanning : Scanning shared history blocks tls start minEpoch) :
    Scanning shared' history blocks tls start minEpoch := by
  obtain ⟨ahead, hsub, hchain, hscanned⟩ := hscanning
  exact ⟨ahead, hsub, hchain.congr fun tcb _ => h.next tcb, h.scanned hscanned⟩

theorem SameBut.registering (h : SameBut shared shared') {tcb : TcbId} {resume : Resume Object}
    (hreg : Registering shared history tid tls tcb resume) :
    Registering shared' history tid tls tcb resume := by
  obtain ⟨htls, howner, hactive, hresume⟩ := hreg
  exact ⟨htls, howner, by rwa [h.active], hresume⟩

/-- Nothing that holds of a thread depends on a published epoch. -/
theorem SameBut.threadInv (h : SameBut shared shared')
    (hthread : ThreadInv shared history blocks tid thread) :
    ThreadInv shared' history blocks tid thread := by
  refine { hthread with active := fun tcb htls hpc => ?_, pc := ?_ }
  · rw [h.active]
    exact hthread.active tcb htls hpc
  · have hpc := hthread.pc
    revert hpc
    cases thread.pc with
    | registerLock tcb resume => exact fun hinv => ⟨h.registering hinv.1, hinv.2⟩
    | registerLink tcb resume =>
        exact fun hinv => ⟨h.registering hinv.1, hinv.2.1, h.listMutex.trans hinv.2.2⟩
    | registerPublish tcb resume =>
        rintro ⟨hreg, hout, hmutex, hnext⟩
        exact ⟨h.registering hreg, hout, h.listMutex.trans hmutex, by rw [h.next, h.head, hnext]⟩
    | registerBind tcb resume =>
        exact fun hinv => ⟨h.registering hinv.1, hinv.2.1, h.listMutex.trans hinv.2.2⟩
    | enterStore epoch => exact fun hinv => ⟨hinv.1, by rw [h.globalEpoch]; exact hinv.2⟩
    | gcActive minEpoch curr => exact h.scanning
    | gcLocal minEpoch curr => exact h.scanning
    | gcNext minEpoch curr => exact fun hinv => ⟨hinv.1, by rw [h.next]; exact h.scanning hinv.2⟩
    | gcGlobal minEpoch => exact h.scanned
    | gcCas minEpoch current => exact h.scanned
    | gcSweep minEpoch index => exact h.scanned
    | _ => exact id

/-- A store to the epoch of a thread that has not published one drains. -/
theorem drainEpoch_step {own : TcbId} (epoch : UInt64)
    (hshared : SharedInv memory.ebr history blocks)
    (hthread : ThreadInv memory.ebr history blocks tid thread)
    (htls : thread.tlsTcb = some own) (hnone : history.announced tid = none) :
    EbrStep memory history blocks tid (memory.apply (.localEpoch own epoch)) history thread := by
  have hinv := (SameBut.setEpoch memory.ebr own epoch).threadInv hthread
  exact .keep (ownStore_preserved hshared (hthread.bound own htls) hnone hinv rfl rfl) .refl rfl

/-- The published epoch drains. -/
theorem drainEnter_step {own : TcbId} {epoch : UInt64}
    (hshared : SharedInv memory.ebr history blocks)
    (hthread : ThreadInv memory.ebr history blocks tid thread) (hidle : thread.pc = .idle)
    (hdepth : 0 < thread.criticalDepth) (htls : thread.tlsTcb = some own)
    (hnone : history.announced tid = none) (hepoch : epoch ≠ 0 ∧ epoch ≤ memory.ebr.globalEpoch) :
    EbrStep memory history blocks tid (memory.apply (.localEpoch own epoch))
      { history with announced := Function.update history.announced tid (some (own, epoch)) }
      thread := by
  -- The step is the one of an engine without a buffer whose thread is at the store.
  have hbefore : ThreadInv memory.ebr history blocks tid { thread with pc := .enterStore epoch } :=
    .unannounced hnone hthread.bound (fun tcb htls' _ => hthread.active tcb htls' (by simp [hidle]))
      (fun _ => hdepth) hepoch
  have hpreserved := enterStore_preserved hshared hbefore rfl htls
  rw [show ({ thread with pc := .idle } : Thread Object) = thread by rw [← hidle]] at hpreserved
  exact .keep hpreserved ⟨fun _ => Iff.rfl, fun _ => .inl fun _ => rfl⟩ rfl

end Steps

end HotPath.Concurrency.MapSteps
