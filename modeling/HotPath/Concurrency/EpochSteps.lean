import HotPath.Concurrency.EpochInvariant

/-!
# The steps of the reclamation engine keep the invariant

A step keeps what holds of the shared memory, keeps what holds of its own thread, and does
nothing that the other threads rely on not happening (`Preserved`). There is one lemma for every
kind of step; `run_preserved` and `call_preserved` put them together.
-/

namespace HotPath.Concurrency

open HotPath.Foundation

variable {Node : Type}

/-! ## Steps -/

section Steps

variable {shared shared' : Shared Node} {history history' : History Node}
  {blocks : List TcbId} {tid : ThreadId} {thread thread' : Thread Node} {minEpoch : UInt64}
  {curr : TcbId} {start : Option TcbId}

/-- A step keeps the invariant of the shared memory and of its own thread, and the other threads
can rely on it. -/
def Preserved (shared : Shared Node) (history : History Node) (blocks : List TcbId)
    (tid : ThreadId) (shared' : Shared Node) (history' : History Node) (thread' : Thread Node) :
    Prop :=
  ∃ blocks', SharedInv shared' history' blocks' ∧ ThreadInv shared' history' blocks' tid thread' ∧
    ∀ other, other ≠ tid → Rely other shared history blocks shared' history' blocks'

/-- A step that changes nothing but its own thread. -/
theorem Preserved.quiet (hshared : SharedInv shared history blocks)
    (hthread : ThreadInv shared history blocks tid thread') :
    Preserved shared history blocks tid shared history thread' :=
  ⟨blocks, hshared, hthread, fun _ _ => Rely.refl⟩

/-- A thread moves from one place to another. -/
theorem ThreadInv.goto (h : ThreadInv shared history blocks tid thread) (pc : Pc Node)
    (howner : history'.owner = history.owner) (hannounced : history'.announced = history.announced)
    (hactive : ∀ tcb, (shared'.tcbs tcb).active = (shared.tcbs tcb).active)
    (hexit : thread.pc ≠ .exitStore) (hgone : thread.pc ≠ .unregisterEpoch)
    (houtside : pc.outside = true → thread.pc.outside = true)
    (hentering : pc.entering = true → thread.pc.entering = true)
    (hpc : PcInv shared' history' blocks tid thread.tlsTcb pc) :
    ThreadInv shared' history' blocks tid { thread with pc := pc } := by
  refine ⟨fun tcb htls => ?_, fun tcb htls _ => ?_, fun tcb epoch hann => ?_,
    fun henter => h.entering (hentering henter), hpc⟩
  · rw [howner]
    exact h.bound tcb htls
  · rw [hactive]
    exact h.active tcb htls hgone
  · rw [hannounced] at hann
    obtain ⟨htls, hplace⟩ := h.inside tcb epoch hann
    rcases hplace with hpc' | ⟨hdepth, hin⟩
    · exact absurd hpc' hexit
    · refine ⟨htls, .inr ⟨hdepth, ?_⟩⟩
      cases hout : pc.outside with
      | false => rfl
      | true => simp [houtside hout] at hin

/-- A thread outside every published section moves. -/
theorem ThreadInv.unannounced (hnone : history.announced tid = none)
    (hbound : ∀ tcb, thread.tlsTcb = some tcb → history.owner tcb = some tid ∧ tcb ∈ blocks)
    (hactive : ∀ tcb, thread.tlsTcb = some tcb → thread.pc ≠ .unregisterEpoch →
      (shared.tcbs tcb).active = true)
    (hentering : thread.pc.entering = true → 0 < thread.criticalDepth)
    (hpc : PcInv shared history blocks tid thread.tlsTcb thread.pc) :
    ThreadInv shared history blocks tid thread :=
  ⟨hbound, hactive, by simp [hnone], hentering, hpc⟩

/-- A thread without a block has not published an epoch. -/
theorem ThreadInv.announced_none (h : ThreadInv shared history blocks tid thread)
    (htls : thread.tlsTcb = none) : history.announced tid = none := by
  cases hann : history.announced tid with
  | none => rfl
  | some entry =>
      have hbound := (h.inside entry.1 entry.2 hann).1
      rw [htls] at hbound
      cases hbound

/-- A thread at a place outside has not published an epoch. -/
theorem ThreadInv.announced_outside (h : ThreadInv shared history blocks tid thread)
    (hout : thread.pc.outside = true) : history.announced tid = none := by
  cases hann : history.announced tid with
  | none => rfl
  | some entry =>
      rcases (h.inside entry.1 entry.2 hann).2 with hexit | ⟨-, hin⟩
      · simp [hexit, Pc.outside] at hout
      · simp [hout] at hin

/-- A thread whose depth is not positive has not published an epoch, unless it is about to
retract it. -/
theorem ThreadInv.announced_depth (h : ThreadInv shared history blocks tid thread)
    (hexit : thread.pc ≠ .exitStore) (hdepth : ¬ 0 < thread.criticalDepth) :
    history.announced tid = none := by
  cases hann : history.announced tid with
  | none => rfl
  | some entry =>
      rcases (h.inside entry.1 entry.2 hann).2 with hpc | ⟨hpos, -⟩
      · exact absurd hpc hexit
      · exact absurd hpos hdepth

/-- A registered thread begins `EnterCritical`. -/
theorem ThreadInv.beginEnter (h : ThreadInv shared history blocks tid thread)
    (hidle : thread.pc = .idle) : ThreadInv shared history blocks tid (beginEnter thread) := by
  unfold Concurrency.beginEnter
  by_cases hzero : thread.criticalDepth = 0
  · rw [if_pos hzero]
    have hnone := h.announced_depth (by simp [hidle]) (by omega)
    exact .unannounced hnone h.bound (fun tcb htls _ => h.active tcb htls (by simp [hidle]))
      (fun _ => by simp [hzero]) trivial
  · rw [if_neg hzero]
    refine ⟨h.bound, fun tcb htls _ => h.active tcb htls (by simp [hidle]), ?_,
      by simp [Pc.entering], trivial⟩
    intro tcb epoch hann
    obtain ⟨htls, hplace⟩ := h.inside tcb epoch hann
    rcases hplace with hexit | ⟨hdepth, -⟩
    · simp [hidle] at hexit
    · exact ⟨htls, .inr ⟨by dsimp only; omega, rfl⟩⟩

/-- A registered thread begins `ExitCritical`. -/
theorem ThreadInv.beginExit (h : ThreadInv shared history blocks tid thread)
    (hidle : thread.pc = .idle) :
    ThreadInv shared history blocks tid { thread with
      criticalDepth := thread.criticalDepth - 1
      pc := if thread.criticalDepth - 1 = 0 then .exitStore else .idle } := by
  by_cases hzero : thread.criticalDepth - 1 = 0
  · rw [if_pos hzero]
    refine ⟨h.bound, fun tcb htls _ => h.active tcb htls (by simp [hidle]), ?_,
      by simp [Pc.entering], trivial⟩
    exact fun tcb epoch hann => ⟨(h.inside tcb epoch hann).1, .inl rfl⟩
  · rw [if_neg hzero]
    refine ⟨h.bound, fun tcb htls _ => h.active tcb htls (by simp [hidle]), ?_,
      by simp [Pc.entering], trivial⟩
    intro tcb epoch hann
    obtain ⟨htls, hplace⟩ := h.inside tcb epoch hann
    rcases hplace with hexit | ⟨hdepth, -⟩
    · simp [hidle] at hexit
    · exact ⟨htls, .inr ⟨by dsimp only; omega, rfl⟩⟩

/-! ### The scan -/

/-- A scan starts with all blocks ahead. -/
theorem SharedInv.scanning_head (h : SharedInv shared history blocks) (tls : Option TcbId)
    (minEpoch : UInt64) : Scanning shared history blocks tls shared.head minEpoch :=
  ⟨blocks, List.Subset.refl _, h.chain, fun _ _ _ _ _ _ thread tcb published _ hannounced =>
    .inl (h.listed thread tcb published hannounced).1⟩

/-- A scan leaves a block behind once its minimum is not above what the block publishes. -/
theorem Scanning.forward (hshared : SharedInv shared history blocks) {tls : Option TcbId}
    {minEpoch' : UInt64} (h : Scanning shared history blocks tls (some curr) minEpoch)
    (hle : minEpoch' ≤ minEpoch)
    (hcurr : ∀ thread published, history.announced thread = some (curr, published) →
      minEpoch' ≤ published) :
    curr ∈ blocks ∧ Scanning shared history blocks tls (shared.tcbs curr).next minEpoch' := by
  obtain ⟨ahead, hsub, hchain, hscanned⟩ := h
  obtain ⟨rest, rfl, hrest⟩ := hchain.of_some
  refine ⟨hsub (List.mem_cons_self ..), rest, fun _ hmem => hsub (List.mem_cons_of_mem _ hmem),
    hrest, ?_⟩
  intro own htls batch hbatch node hnode thread tcb published hpins hannounced
  rcases hscanned own htls batch hbatch node hnode thread tcb published hpins hannounced with
      hahead | hlow
  · rcases List.mem_cons.mp hahead with rfl | hmem
    · have hpinned := (hshared.batched own batch hbatch node hnode).2
      exact .inr (UInt64.le_trans (hcurr thread published hannounced)
        (hpinned thread tcb published hpins hannounced))
    · exact .inl hmem
  · exact .inr (UInt64.le_trans hle hlow)

/-- The scan arrives at the next block, or at its end. -/
theorem ThreadInv.walkTo (h : ThreadInv shared history blocks tid thread)
    (hexit : thread.pc ≠ .exitStore) (hgone : thread.pc ≠ .unregisterEpoch)
    (hscan : Scanning shared history blocks thread.tlsTcb start minEpoch) :
    ThreadInv shared history blocks tid (walkTo thread minEpoch start) := by
  cases start with
  | some curr =>
      exact h.goto (.gcActive minEpoch curr) rfl rfl (fun _ => rfl) hexit hgone
        (by simp [Pc.outside]) (by simp [Pc.entering]) hscan
  | none =>
      obtain ⟨ahead, -, hchain, hscanned⟩ := hscan
      obtain rfl := hchain.of_none
      exact h.goto (.gcGlobal minEpoch) rfl rfl (fun _ => rfl) hexit hgone
        (by simp [Pc.outside]) (by simp [Pc.entering]) hscanned

/-- The scan is over and the sweep begins. -/
theorem ThreadInv.beginSweep (h : ThreadInv shared history blocks tid thread)
    (hactive : ∀ tcb, (shared'.tcbs tcb).active = (shared.tcbs tcb).active)
    (hexit : thread.pc ≠ .exitStore) (hgone : thread.pc ≠ .unregisterEpoch)
    (hscanned : Scanned shared' history thread.tlsTcb [] minEpoch) :
    ThreadInv shared' history blocks tid (beginSweep thread minEpoch) := by
  unfold Concurrency.beginSweep
  split
  · exact h.goto (.gcSweep minEpoch 0) rfl rfl hactive hexit hgone (by simp [Pc.outside])
      (by simp [Pc.entering]) hscanned
  · exact h.goto .idle rfl rfl hactive hexit hgone (by simp [Pc.outside]) (by simp [Pc.entering])
      trivial

/-! ### The sweep -/

/-- Nodes are taken away from the thread's own batches. -/
theorem ThreadInv.sweep {index : Nat} {own : TcbId} {batches : List (Batch Node)}
    (h : ThreadInv shared history blocks tid thread) (hpc : thread.pc = .gcSweep minEpoch index)
    (htls : thread.tlsTcb = some own) (howner : history'.owner = history.owner)
    (hannounced : history'.announced = history.announced) (hpins : history'.pins = history.pins)
    (hblock : shared'.tcbs own =
      { shared.tcbs own with retirementBatches := batches })
    (hactive : ∀ tcb, (shared'.tcbs tcb).active = (shared.tcbs tcb).active)
    (hmem : ∀ batch ∈ batches, ∃ old ∈ (shared.tcbs own).retirementBatches,
      old.epoch = batch.epoch ∧ batch.nodes ⊆ old.nodes) :
    ThreadInv shared' history' blocks tid thread := by
  have hscanned := h.pc
  rw [hpc] at hscanned
  have hthread : thread = { thread with pc := .gcSweep minEpoch index } := by
    rw [← hpc]
  rw [hthread]
  refine h.goto _ howner hannounced hactive (by simp [hpc]) (by simp [hpc]) (by simp [Pc.outside])
    (by simp [Pc.entering]) ?_
  intro own' htls' batch hbatch node hnode other tcb published hpinned hann
  rw [htls] at htls'
  obtain rfl := Option.some.inj htls'
  rw [hblock] at hbatch
  obtain ⟨old, hold, hepoch, hnodes⟩ := hmem batch hbatch
  rw [hpins] at hpinned
  rw [hannounced] at hann
  rw [← hepoch]
  exact hscanned own htls old hold node (hnodes hnode) other tcb published hpinned hann

/-- A node that is about to be deleted is not pinned. -/
theorem ThreadInv.unpinned {node : Node} {index : Nat} {own : TcbId} {batch : Batch Node}
    (hshared : SharedInv shared history blocks)
    (h : ThreadInv shared history blocks tid thread) (hpc : thread.pc = .gcSweep minEpoch index)
    (htls : thread.tlsTcb = some own)
    (hbatch : batch ∈ (shared.tcbs own).retirementBatches) (hnode : node ∈ batch.nodes)
    (hold : batch.epoch < minEpoch) (other : ThreadId) : history.pins node other = false := by
  have hscanned := h.pc
  rw [hpc] at hscanned
  cases hpins : history.pins node other with
  | false => rfl
  | true =>
      cases hann : history.announced other with
      | none => exact absurd hann (hshared.pins node other hpins).2.2
      | some entry =>
          rcases hscanned own htls batch hbatch node hnode other entry.1 entry.2 hpins hann with
              hahead | hlow
          · simp at hahead
          · exact absurd hold (UInt64.not_lt.mpr hlow)

/-- The history records a deletion. -/
theorem SharedInv.delete [DecidableEq Node] {node : Node} {own : TcbId} {batch : Batch Node}
    {before after : List (Batch Node)} {nodes : List Node}
    (h : SharedInv shared history blocks)
    (hsplit : (shared.tcbs own).retirementBatches = before ++ batch :: after)
    (hnodes : batch.nodes = node :: nodes)
    (hunpinned : ∀ other, history.pins node other = false) :
    SharedInv { shared.setTcb own { shared.tcbs own with
        retirementBatches := before ++ { batch with nodes := nodes } :: after } with
      deleted := shared.deleted ++ [node] }
      { history with stage := fun other =>
        if other ∈ shared.deleted ++ [node] then .deleted else history.stage other } blocks := by
  have hbatch : batch ∈ (shared.tcbs own).retirementBatches := by simp [hsplit]
  have hstage : history.stage node = .batched own :=
    (h.batched own batch hbatch node (by simp [hnodes])).1
  have hdistinct := h.distinct own
  rw [hsplit] at hdistinct
  simp only [List.flatMap_append, List.flatMap_cons, hnodes] at hdistinct
  have hout : node ∉ before.flatMap Batch.nodes ++ (nodes ++ after.flatMap Batch.nodes) :=
    (List.nodup_cons.mp (List.nodup_middle.mp hdistinct)).1
  have hbatches : BatchesInv history own
      (before ++ { batch with nodes := nodes } :: after) := by
    refine (h.batches own).sublist ?_ ?_
    · rw [hsplit]
      simp [hnodes]
    · intro other hother
      rw [hsplit]
      rcases List.mem_append.mp hother with hmem | hmem
      · exact ⟨other, by simp [hmem], rfl, List.Subset.refl _⟩
      · rcases List.mem_cons.mp hmem with rfl | hmem
        · exact ⟨batch, by simp, rfl, by simp [hnodes]⟩
        · exact ⟨other, by simp [hmem], rfl, List.Subset.refl _⟩
  have hset : SharedInv (shared.setTcb own { shared.tcbs own with
      retirementBatches := before ++ { batch with nodes := nodes } :: after }) history blocks :=
    h.setTcb (fun _ _ _ => ⟨rfl, rfl⟩) (fun _ => rfl) hbatches
  -- Nodes in batches are neither deleted before nor deleted now.
  have hkeep : ∀ tcb, ∀ old ∈ ((shared.setTcb own { shared.tcbs own with
      retirementBatches := before ++ { batch with nodes := nodes } :: after }).tcbs
        tcb).retirementBatches, ∀ other ∈ old.nodes, other ∉ shared.deleted ++ [node] := by
    intro tcb old hold other hother hmem
    rcases List.mem_append.mp hmem with hdel | hself
    · have hstage' := (hset.batched tcb old hold other hother).1
      rw [h.deleted other hdel] at hstage'
      cases hstage'
    · obtain rfl := List.mem_singleton.mp hself
      have hstage' := (hset.batched tcb old hold other hother).1
      rw [hstage] at hstage'
      obtain rfl := Stage.batched.inj hstage'
      refine hout ?_
      have hmem : other ∈ (before ++ { batch with nodes := nodes } :: after).flatMap Batch.nodes :=
        List.mem_flatMap.mpr ⟨old, by simpa [Shared.setTcb] using hold, hother⟩
      simpa using hmem
  refine { hset with pins := ?_, batched := ?_, deleted := ?_, once := ?_ }
  · intro other thread hpinned
    obtain ⟨hlive, hdel, hann⟩ := h.pins other thread hpinned
    have hmem : other ∉ shared.deleted ++ [node] := by
      intro hmem
      rcases List.mem_append.mp hmem with hmem | hself
      · exact hdel (h.deleted other hmem)
      · obtain rfl := List.mem_singleton.mp hself
        rw [hunpinned thread] at hpinned
        cases hpinned
    simp only [if_neg hmem]
    exact ⟨hlive, hdel, hann⟩
  · intro tcb old hold other hother
    simp only [if_neg (hkeep tcb old hold other hother)]
    exact hset.batched tcb old hold other hother
  · intro other hmem
    exact if_pos hmem
  · refine List.nodup_append.mpr ⟨h.once, by simp, ?_⟩
    intro a ha b hb
    obtain rfl := List.mem_singleton.mp hb
    rintro rfl
    rw [h.deleted a ha] at hstage
    cases hstage

/-- What the sweep does keeps the invariant. -/
theorem sweep_preserved [DecidableEq Node] {index : Nat} {own : TcbId}
    (hshared : SharedInv shared history blocks)
    (hthread : ThreadInv shared history blocks tid thread)
    (hpc : thread.pc = .gcSweep minEpoch index) (htls : thread.tlsTcb = some own)
    (hsweep : sweep shared thread own minEpoch index = (shared', thread')) :
    Preserved shared history blocks tid shared'
      (history.act tid thread shared'.deleted .run) thread' := by
  obtain ⟨howner, hmem⟩ := hthread.bound own htls
  have hact : history.act tid thread shared'.deleted .run = { history with
      stage := fun node => if node ∈ shared'.deleted then .deleted else history.stage node } := by
    simp [History.act, hpc]
  rw [hact]
  -- Without a deletion the recorded stages are the old ones.
  have hsame : shared'.deleted = shared.deleted →
      (fun node => if node ∈ shared'.deleted then Stage.deleted else history.stage node) =
        history.stage := by
    intro hdeleted
    funext node
    split
    · next hnode => exact (hshared.deleted node (hdeleted ▸ hnode)).symm
    · rfl
  have hgoto : ∀ pc : Pc Node, pc.outside = false → pc.entering = false →
      PcInv shared history blocks tid thread.tlsTcb pc →
      ThreadInv shared history blocks tid { thread with pc := pc } :=
    fun pc hout henter => hthread.goto pc rfl rfl (fun _ => rfl) (by simp [hpc]) (by simp [hpc])
      (by simp [hout]) (by simp [henter])
  have hscanned := hthread.pc
  rw [hpc] at hscanned
  cases sweep_cases hsweep with
  | finish =>
      rw [hsame rfl]
      exact .quiet hshared (hgoto .idle rfl rfl trivial)
  | @erase batch hbatch hold hnodes =>
      obtain ⟨before, after, hsplit, -, herase⟩ := split_at_index hbatch
      rw [hsame rfl, herase]
      have hsub : ∀ other ∈ before ++ after, ∃ old ∈ (shared.tcbs own).retirementBatches,
          old.epoch = other.epoch ∧ other.nodes ⊆ old.nodes := by
        intro other hother
        rw [hsplit]
        refine ⟨other, ?_, rfl, List.Subset.refl _⟩
        rcases List.mem_append.mp hother with h | h <;> simp [h]
      refine ⟨blocks, ?_, ?_, fun other hne => Rely.setTcb howner hne fun _ => rfl⟩
      · refine hshared.setTcb (fun _ _ _ => ⟨rfl, rfl⟩) (fun _ => rfl) ?_
        refine (hshared.batches own).sublist ?_ hsub
        rw [hsplit]
        simp [hnodes]
      · exact hthread.sweep hpc htls rfl rfl rfl (Function.update_self ..)
          (setTcb_active rfl) hsub
  | @delete batch node nodes hbatch hold hnodes =>
      obtain ⟨before, after, hsplit, hset, -⟩ := split_at_index hbatch
      rw [hset]
      have hin : batch ∈ (shared.tcbs own).retirementBatches := by simp [hsplit]
      have hunpinned := hthread.unpinned hshared hpc htls hin
        (show node ∈ batch.nodes by simp [hnodes]) hold
      have hdelete := hshared.delete hsplit hnodes hunpinned
      refine ⟨blocks, hdelete, ?_, fun other hne => ?_⟩
      · refine hthread.sweep hpc htls rfl rfl rfl (Function.update_self ..) (setTcb_active rfl) ?_
        intro other hother
        rw [hsplit]
        rcases List.mem_append.mp hother with h | h
        · exact ⟨other, by simp [h], rfl, List.Subset.refl _⟩
        · rcases List.mem_cons.mp h with rfl | h
          · exact ⟨batch, by simp, rfl, by simp [hnodes]⟩
          · exact ⟨other, by simp [h], rfl, List.Subset.refl _⟩
      · have hstage : history.stage node = .batched own :=
          (hshared.batched own batch hin node (by simp [hnodes])).1
        have hstore : Rely other shared history blocks
            (shared.setTcb own { shared.tcbs own with
              retirementBatches := before ++ { batch with nodes := nodes } :: after })
            history blocks := Rely.setTcb howner hne fun _ => rfl
        refine { hstore with stage := ?_, gone := ?_, pins := fun _ _ _ h => ⟨h, rfl⟩ }
        · intro moved hmoved
          have hmem : moved ∉ shared.deleted ++ [node] := by
            intro hmem
            rcases List.mem_append.mp hmem with hdel | hself
            · rw [hshared.deleted moved hdel] at hmoved
              cases hmoved
            · obtain rfl := List.mem_singleton.mp hself
              rw [hstage] at hmoved
              cases hmoved
          exact (if_neg hmem).trans hmoved
        · intro moved hmoved
          dsimp only
          split
          · simp
          · exact hmoved
  | skip =>
      rw [hsame rfl]
      exact .quiet hshared (hgoto (.gcSweep minEpoch (index + 1)) rfl rfl hscanned)

/-! ### Registration -/

/-- A thread that registers moves on to another place of `RegisterThread`. -/
theorem ThreadInv.registers (htls : thread.tlsTcb = none)
    (hnone : history.announced tid = none) (pc : Pc Node) (hentering : pc.entering = false)
    (hpc : PcInv shared history blocks tid none pc) :
    ThreadInv shared history blocks tid { thread with pc := pc } :=
  .unannounced hnone (by simp [htls]) (by simp [htls]) (by simp [hentering]) (by rwa [htls])

/-- The link of a block that is not on the list yet. -/
theorem registerLink_preserved {own : TcbId} {resume : Resume Node}
    (hshared : SharedInv shared history blocks)
    (hthread : ThreadInv shared history blocks tid thread)
    (hpc : thread.pc = .registerLink own resume) :
    Preserved shared history blocks tid
      (shared.setTcb own { shared.tcbs own with next := shared.head }) history
      { thread with pc := .registerPublish own resume } := by
  have hinv := hthread.pc
  rw [hpc] at hinv
  obtain ⟨⟨htls, howner, hactive, hresume⟩, hout, hmutex⟩ := hinv
  have hnone := hthread.announced_none htls
  refine ⟨blocks, ?_, ?_, fun other hne => Rely.setTcb howner hne fun hin => absurd hin hout⟩
  · refine hshared.setTcb ?_ (fun hin => absurd hin hout) (hshared.batches own)
    exact fun other epoch hann => absurd hann (hshared.not_announced howner hnone other epoch)
  · refine .registers htls hnone _ rfl ⟨⟨rfl, howner, ?_, hresume⟩, hout, hmutex, ?_⟩
    · exact (setTcb_active (by rfl) own).trans hactive
    · exact congrArg ThreadControlBlock.next (setTcb_self own _)

/-- A block is put in front of the list. -/
theorem registerPublish_preserved {own : TcbId} {resume : Resume Node}
    (hshared : SharedInv shared history blocks)
    (hthread : ThreadInv shared history blocks tid thread)
    (hpc : thread.pc = .registerPublish own resume) :
    Preserved shared history blocks tid { shared with head := some own } history
      { thread with pc := .registerBind own resume } := by
  have hinv := hthread.pc
  rw [hpc] at hinv
  obtain ⟨⟨htls, howner, hactive, hresume⟩, hout, hmutex, hnext⟩ := hinv
  have hnone := hthread.announced_none htls
  refine ⟨own :: blocks, ?_, ?_, fun other hne => ?_⟩
  · refine { hshared with chain := ⟨rfl, ?_⟩, allocated := ?_, listed := ?_ }
    · rw [show ((fun tcb => (shared.tcbs tcb).next) own) = shared.head from hnext]
      exact hshared.chain
    · intro tcb hmem
      rcases List.mem_cons.mp hmem with rfl | hmem
      · exact hshared.owned tcb tid howner
      · exact hshared.allocated tcb hmem
    · intro other tcb epoch hann
      obtain ⟨hmem, hown⟩ := hshared.listed other tcb epoch hann
      exact ⟨List.mem_cons_of_mem _ hmem, hown⟩
  · exact .registers htls hnone _ rfl
      ⟨⟨rfl, howner, hactive, hresume⟩, List.mem_cons_self .., hmutex⟩
  · refine { Rely.refl with locked := ?_, grow := List.subset_cons_self .., own := ?_ }
    · intro hlocked
      rw [hmutex] at hlocked
      exact absurd (Option.some.inj hlocked).symm hne
    · intro tcb hown
      refine ⟨rfl, hown, fun hmem => ?_⟩
      rcases List.mem_cons.mp hmem with rfl | hmem
      · rw [howner] at hown
        exact absurd (Option.some.inj hown).symm hne
      · exact hmem

/-- The thread is bound to its block and goes on. -/
theorem registerBind_preserved {own : TcbId} {resume : Resume Node}
    (hshared : SharedInv shared history blocks)
    (hthread : ThreadInv shared history blocks tid thread)
    (hpc : thread.pc = .registerBind own resume) :
    Preserved shared history blocks tid { shared with listMutex := none } history
      (afterRegister { thread with tlsTcb := some own } resume) := by
  have hinv := hthread.pc
  rw [hpc] at hinv
  obtain ⟨⟨htls, howner, hactive, hresume⟩, hin, hmutex⟩ := hinv
  have hnone := hthread.announced_none htls
  have hbound : ∀ tcb, some own = some tcb → history.owner tcb = some tid ∧ tcb ∈ blocks := by
    rintro tcb ⟨⟩
    exact ⟨howner, hin⟩
  have hflag : ∀ (pc : Pc Node) tcb, some own = some tcb → pc ≠ .unregisterEpoch →
      (shared.tcbs tcb).active = true := by
    rintro pc tcb ⟨⟩ -
    exact hactive
  refine ⟨blocks, { hshared with }, ?_, fun other hne => { Rely.refl with locked := ?_ }⟩
  · cases resume with
    | done =>
        exact .unannounced hnone hbound (hflag _) (by simp [afterRegister, Pc.entering]) trivial
    | enter =>
        refine .unannounced hnone hbound (hflag _) ?_ ?_
        · simp only [afterRegister, beginEnter]
          split
          · next hzero => simp [hzero]
          · simp [Pc.entering]
        · simp only [afterRegister, beginEnter]
          split <;> trivial
    | retire node =>
        exact .unannounced hnone hbound (hflag _) (by simp [afterRegister, Pc.entering]) hresume
  · intro hlocked
    rw [hmutex] at hlocked
    exact absurd (Option.some.inj hlocked).symm hne

/-! ### Critical sections -/

/-- The published epoch is stored. -/
theorem enterStore_preserved {own : TcbId} {epoch : UInt64}
    (hshared : SharedInv shared history blocks)
    (hthread : ThreadInv shared history blocks tid thread)
    (hpc : thread.pc = .enterStore epoch) (htls : thread.tlsTcb = some own) :
    Preserved shared history blocks tid
      (shared.setTcb own { shared.tcbs own with localEpoch := epoch })
      { history with announced := Function.update history.announced tid (some (own, epoch)) }
      { thread with pc := .idle } := by
  obtain ⟨howner, hin⟩ := hthread.bound own htls
  have hactive := hthread.active own htls (by simp [hpc])
  have hnone := hthread.announced_outside (by simp [hpc, Pc.outside])
  have hdepth := hthread.entering (by simp [hpc, Pc.entering])
  have hinv := hthread.pc
  rw [hpc] at hinv
  have hset : SharedInv (shared.setTcb own { shared.tcbs own with localEpoch := epoch }) history
      blocks := by
    refine hshared.setTcb ?_ (fun _ => rfl) (hshared.batches own)
    exact fun other epoch hann => absurd hann (hshared.not_announced howner hnone other epoch)
  have hrely : ∀ other, other ≠ tid → Rely other shared history blocks
      (shared.setTcb own { shared.tcbs own with localEpoch := epoch }) history blocks :=
    fun other hne => Rely.setTcb howner hne fun _ => rfl
  refine ⟨blocks, hset.announce hnone howner hin ⟨?_, ?_, hinv⟩, ?_, fun other hne =>
    (hrely other hne).trans (Rely.announce hset hnone hne _)⟩
  · exact (setTcb_active (by rfl) own).trans hactive
  · exact congrArg ThreadControlBlock.localEpoch (setTcb_self own _)
  · refine ⟨fun tcb htls => hthread.bound tcb htls, fun tcb htls' _ => ?_, ?_,
      by simp [Pc.entering], trivial⟩
    · exact (setTcb_active (by rfl) tcb).trans (hthread.active tcb htls' (by simp [hpc]))
    · intro tcb published hann
      simp only [Function.update_self, Option.some.injEq, Prod.mk.injEq] at hann
      obtain ⟨rfl, -⟩ := hann
      exact ⟨htls, .inr ⟨hdepth, rfl⟩⟩

/-- A thread that has not published an epoch stores to its own block. -/
theorem ownStore_preserved {own : TcbId} {block : ThreadControlBlock Node}
    (hshared : SharedInv shared history blocks)
    (hbound : history.owner own = some tid ∧ own ∈ blocks)
    (hnone : history.announced tid = none)
    (hthread : ThreadInv (shared.setTcb own block) history blocks tid thread')
    (hnext : block.next = (shared.tcbs own).next)
    (hbatches : block.retirementBatches = (shared.tcbs own).retirementBatches) :
    Preserved shared history blocks tid (shared.setTcb own block) history thread' := by
  refine ⟨blocks, hshared.setTcb ?_ (fun _ => hnext) (hbatches ▸ hshared.batches own), hthread,
    fun other hne => Rely.setTcb hbound.1 hne fun _ => hnext⟩
  exact fun other epoch hann => absurd hann (hshared.not_announced hbound.1 hnone other epoch)

/-- The published epoch is retracted. -/
theorem exitStore_preserved {own : TcbId} (hshared : SharedInv shared history blocks)
    (hthread : ThreadInv shared history blocks tid thread)
    (hpc : thread.pc = .exitStore) (htls : thread.tlsTcb = some own) :
    Preserved shared history blocks tid
      (shared.setTcb own { shared.tcbs own with localEpoch := kEpochInactive })
      (history.leave tid) { thread with pc := .idle } := by
  have hnone : (history.leave tid).announced tid = none := Function.update_self ..
  have hinv : ThreadInv (shared.setTcb own { shared.tcbs own with localEpoch := kEpochInactive })
      (history.leave tid) blocks tid { thread with pc := .idle } := by
    refine .unannounced hnone hthread.bound (fun tcb htls' _ => ?_) (by simp [Pc.entering]) trivial
    exact (setTcb_active (by rfl) tcb).trans (hthread.active tcb htls' (by simp [hpc]))
  obtain ⟨blocks', hshared', hthread', hrely⟩ :=
    ownStore_preserved (hshared.leave tid) (hthread.bound own htls) hnone hinv rfl rfl
  exact ⟨blocks', hshared', hthread', fun other hne => (Rely.leave hne).trans (hrely other hne)⟩

/-! ### Retirement -/

/-- The node is pushed to the batches of the thread. -/
theorem retirePush_preserved [DecidableEq Node] {own : TcbId} {node : Node} {epoch : UInt64}
    (hshared : SharedInv shared history blocks)
    (hthread : ThreadInv shared history blocks tid thread)
    (hpc : thread.pc = .retirePush node epoch) (htls : thread.tlsTcb = some own) {pc : Pc Node}
    (hnew : pc = .gcLoad ∨ pc = .idle) :
    Preserved shared history blocks tid
      (shared.setTcb own { shared.tcbs own with
        retirementBatches := pushRetired (shared.tcbs own).retirementBatches node epoch })
      (history.setStage node (.batched own)) { thread with pc := pc } := by
  obtain ⟨howner, hin⟩ := hthread.bound own htls
  have hinv := hthread.pc
  rw [hpc] at hinv
  obtain ⟨hstage, hpinned⟩ := hinv
  have hmoved : SharedInv shared (history.setStage node (.batched own)) blocks :=
    hshared.setStage (by simp [hstage]) (hshared.not_deleted (by simp [hstage])) (by simp)
  refine ⟨blocks, hmoved.setTcb (fun _ _ _ => ⟨rfl, rfl⟩) (fun _ => rfl)
    ((hshared.batches own).push hstage hpinned), ?_, fun other hne => ?_⟩
  · have hpcs : pc.outside = false ∧ pc.entering = false ∧
        PcInv (shared.setTcb own { shared.tcbs own with
          retirementBatches := pushRetired (shared.tcbs own).retirementBatches node epoch })
          (history.setStage node (.batched own)) blocks tid thread.tlsTcb pc := by
      rcases hnew with rfl | rfl <;> exact ⟨rfl, rfl, trivial⟩
    exact hthread.goto pc rfl rfl (setTcb_active rfl) (by simp [hpc]) (by simp [hpc])
      (by simp [hpcs.1]) (by simp [hpcs.2.1]) hpcs.2.2
  · have hmove : Rely other shared history blocks shared (history.setStage node (.batched own))
        blocks := Rely.setStage (by simp [hstage, hne.symm]) (by simp)
    exact hmove.trans (Rely.setTcb howner hne fun _ => rfl)

/-! ### Every step -/

/-- The global epoch moves forward. -/
theorem gcCas_preserved {currentGlobal : UInt64} (hshared : SharedInv shared history blocks)
    (hthread : ThreadInv shared history blocks tid thread)
    (hpc : thread.pc = .gcCas minEpoch currentGlobal)
    (hwrap : shared.globalEpoch = currentGlobal → currentGlobal + 1 ≠ 0) :
    Preserved shared history blocks tid
      { shared with globalEpoch :=
          if shared.globalEpoch = currentGlobal then currentGlobal + 1 else shared.globalEpoch }
      history (beginSweep thread minEpoch) := by
  have hinv := hthread.pc
  rw [hpc] at hinv
  have hepoch : (if shared.globalEpoch = currentGlobal then currentGlobal + 1
        else shared.globalEpoch) ≠ 0 ∧
      shared.globalEpoch ≤ if shared.globalEpoch = currentGlobal then currentGlobal + 1
        else shared.globalEpoch := by
    split
    · next heq =>
        refine ⟨hwrap heq, heq ▸ ?_⟩
        have hne := hwrap heq
        rw [← heq] at hne
        rw [UInt64.le_iff_toNat_le, UInt64.toNat_add]
        have hlt := shared.globalEpoch.toNat_lt
        have hsum : (shared.globalEpoch + 1).toNat ≠ 0 := fun h => hne (UInt64.toNat_inj.mp h)
        rw [UInt64.toNat_add] at hsum
        have hone : (1 : UInt64).toNat = 1 := rfl
        omega
    · exact ⟨hshared.epoch, UInt64.le_refl _⟩
  refine ⟨blocks, { hshared with epoch := hepoch.1, published := ?_ }, ?_,
    fun other hne => { Rely.refl with epoch := hepoch.2 }⟩
  · intro other tcb published hann
    obtain ⟨hactive, hlocal, hne, hle⟩ := hshared.published other tcb published hann
    exact ⟨hactive, hlocal, hne, UInt64.le_trans hle hepoch.2⟩
  · exact hthread.beginSweep (fun _ => rfl) (by simp [hpc]) (by simp [hpc]) hinv

/-- The sweep does not allocate blocks. -/
theorem sweep_tcbCount {own : TcbId} {index : Nat}
    (h : sweep shared thread own minEpoch index = (shared', thread')) :
    shared'.tcbCount = shared.tcbCount := by
  cases sweep_cases h <;> rfl

/-- Only a call allocates a block. -/
theorem run_tcbCount (h : run shared tid thread = some (shared', thread')) :
    shared'.tcbCount = shared.tcbCount := by
  cases run_cases h with
  | gcSweep minEpoch index own hpc htls hsweep => exact sweep_tcbCount hsweep
  | _ => rfl

/-- `RegisterThread` takes the mutex. -/
theorem registerLock_preserved {own : TcbId} {resume : Resume Node}
    (hshared : SharedInv shared history blocks)
    (hthread : ThreadInv shared history blocks tid thread)
    (hpc : thread.pc = .registerLock own resume) (hfree : shared.listMutex = none) :
    Preserved shared history blocks tid { shared with listMutex := some tid } history
      { thread with pc := .registerLink own resume } := by
  have hinv := hthread.pc
  rw [hpc] at hinv
  obtain ⟨⟨htls, hreg⟩, hout⟩ := hinv
  refine ⟨blocks, { hshared with }, ?_, fun other hne => { Rely.refl with locked := ?_ }⟩
  · exact .registers htls (hthread.announced_none htls) _ rfl ⟨⟨rfl, hreg⟩, hout, rfl⟩
  · intro hlocked
    rw [hfree] at hlocked
    cases hlocked

/-- `Retire` loads the global epoch. Every published epoch is at most the one that it has read. -/
theorem retireLoad_preserved {node : Node} (hshared : SharedInv shared history blocks)
    (hthread : ThreadInv shared history blocks tid thread) (hpc : thread.pc = .retireLoad node) :
    Preserved shared history blocks tid shared history
      { thread with pc := .retirePush node shared.globalEpoch } := by
  have hinv := hthread.pc
  rw [hpc] at hinv
  refine .quiet hshared (hthread.goto (.retirePush node _) rfl rfl (fun _ => rfl)
    (by simp [hpc]) (by simp [hpc]) (by simp [Pc.outside]) (by simp [Pc.entering])
    ⟨hinv, fun other tcb published _ hann => ?_⟩)
  exact (hshared.published other tcb published hann).2.2.2

/-- `Gc` passes an inactive block, which publishes nothing. -/
theorem gcInactive_preserved {curr : TcbId} (hshared : SharedInv shared history blocks)
    (hthread : ThreadInv shared history blocks tid thread)
    (hpc : thread.pc = .gcActive minEpoch curr) (hinactive : (shared.tcbs curr).active ≠ true) :
    Preserved shared history blocks tid shared history
      { thread with pc := .gcNext minEpoch curr } := by
  have hinv := hthread.pc
  rw [hpc] at hinv
  have hnext := hinv.forward hshared (UInt64.le_refl _) fun other published hann =>
    absurd (hshared.published other curr published hann).1 hinactive
  exact .quiet hshared (hthread.goto (.gcNext minEpoch curr) rfl rfl (fun _ => rfl)
    (by simp [hpc]) (by simp [hpc]) (by simp [Pc.outside]) (by simp [Pc.entering]) hnext)

/-- `Gc` takes the epoch of an active block into the minimum. -/
theorem gcLocal_preserved {curr : TcbId} (hshared : SharedInv shared history blocks)
    (hthread : ThreadInv shared history blocks tid thread)
    (hpc : thread.pc = .gcLocal minEpoch curr) :
    Preserved shared history blocks tid shared history { thread with
      pc := .gcNext (if (shared.tcbs curr).localEpoch ≠ kEpochInactive ∧
        (shared.tcbs curr).localEpoch < minEpoch then (shared.tcbs curr).localEpoch
          else minEpoch) curr } := by
  have hinv := hthread.pc
  rw [hpc] at hinv
  refine .quiet hshared (hthread.goto (.gcNext _ curr) rfl rfl (fun _ => rfl)
    (by simp [hpc]) (by simp [hpc]) (by simp [Pc.outside]) (by simp [Pc.entering])
    (hinv.forward hshared ?_ fun other published hann => ?_))
  · split
    · next hlow => exact UInt64.le_of_lt hlow.2
    · exact UInt64.le_refl _
  · obtain ⟨-, hlocal, hne, -⟩ := hshared.published other curr published hann
    rw [hlocal]
    split
    · exact UInt64.le_refl _
    · next hnot => exact UInt64.not_lt.mp fun hlow => hnot ⟨hne, hlow⟩

/-- The next step of a thread keeps the invariant. -/
theorem run_preserved [DecidableEq Node] (hshared : SharedInv shared history blocks)
    (hthread : ThreadInv shared history blocks tid thread)
    (hwrap : ∀ current currentGlobal, thread.pc = .gcCas current currentGlobal →
      shared.globalEpoch = currentGlobal → currentGlobal + 1 ≠ 0)
    (hrun : run shared tid thread = some (shared', thread')) :
    Preserved shared history blocks tid shared'
      (history.act tid thread shared'.deleted .run) thread' := by
  have hinv := hthread.pc
  cases run_cases hrun with
  | registerLock own resume hpc hfree =>
      simp only [History.act, hpc]
      exact registerLock_preserved hshared hthread hpc hfree
  | registerLink own resume hpc =>
      simp only [History.act, hpc]
      exact registerLink_preserved hshared hthread hpc
  | registerPublish own resume hpc =>
      simp only [History.act, hpc]
      exact registerPublish_preserved hshared hthread hpc
  | registerBind own resume hpc =>
      simp only [History.act, hpc]
      exact registerBind_preserved hshared hthread hpc
  | unregisterActive own hpc htls =>
      simp only [History.act, hpc]
      have hnone := hthread.announced_outside (by simp [hpc, Pc.outside])
      exact ownStore_preserved hshared (hthread.bound own htls) hnone
        (.unannounced hnone hthread.bound (fun _ _ h => absurd rfl h) (by simp [Pc.entering])
          trivial) rfl rfl
  | unregisterEpoch own hpc htls =>
      simp only [History.act, hpc]
      have hnone := hthread.announced_outside (by simp [hpc, Pc.outside])
      exact ownStore_preserved hshared (hthread.bound own htls) hnone
        (.unannounced hnone (by simp) (by simp) (by simp [Pc.entering]) trivial) rfl rfl
  | enterLoad hpc =>
      simp only [History.act, hpc]
      exact .quiet hshared (hthread.goto (.enterStore _) rfl rfl (fun _ => rfl) (by simp [hpc])
        (by simp [hpc]) (by simp [hpc, Pc.outside]) (by simp [hpc, Pc.entering])
        ⟨hshared.epoch, UInt64.le_refl _⟩)
  | enterStore epoch own hpc htls =>
      simp only [History.act, hpc, htls]
      exact htls ▸ enterStore_preserved hshared hthread hpc htls
  | exitStore own hpc htls =>
      simp only [History.act, hpc]
      exact exitStore_preserved hshared hthread hpc htls
  | retireLoad node hpc =>
      simp only [History.act, hpc]
      exact retireLoad_preserved hshared hthread hpc
  | retirePush node epoch own hpc htls =>
      simp only [History.act, hpc, htls]
      refine htls ▸ retirePush_preserved hshared hthread hpc htls ?_
      split <;> simp
  | gcLoad hpc =>
      simp only [History.act, hpc]
      exact .quiet hshared (hthread.goto (.gcHead _) rfl rfl (fun _ => rfl) (by simp [hpc])
        (by simp [hpc]) (by simp [Pc.outside]) (by simp [Pc.entering]) trivial)
  | gcHead current hpc =>
      simp only [History.act, hpc]
      exact .quiet hshared (hthread.walkTo (by simp [hpc]) (by simp [hpc])
        (hshared.scanning_head _ _))
  | gcActive current curr hpc hactive =>
      rw [hpc] at hinv
      simp only [History.act, hpc]
      exact .quiet hshared (hthread.goto (.gcLocal current curr) rfl rfl (fun _ => rfl)
        (by simp [hpc]) (by simp [hpc]) (by simp [Pc.outside]) (by simp [Pc.entering]) hinv)
  | gcInactive current curr hpc hinactive =>
      simp only [History.act, hpc]
      exact gcInactive_preserved hshared hthread hpc hinactive
  | gcLocal current curr hpc =>
      simp only [History.act, hpc]
      exact gcLocal_preserved hshared hthread hpc
  | gcNext current curr hpc =>
      rw [hpc] at hinv
      simp only [History.act, hpc]
      exact .quiet hshared (hthread.walkTo (by simp [hpc]) (by simp [hpc]) hinv.2)
  | gcGlobal current hpc hglobal =>
      rw [hpc] at hinv
      simp only [History.act, hpc]
      exact .quiet hshared (hthread.goto (.gcCas current _) rfl rfl (fun _ => rfl)
        (by simp [hpc]) (by simp [hpc]) (by simp [Pc.outside]) (by simp [Pc.entering]) hinv)
  | gcBehind current hpc hbehind =>
      rw [hpc] at hinv
      simp only [History.act, hpc]
      exact .quiet hshared
        (hthread.beginSweep (fun _ => rfl) (by simp [hpc]) (by simp [hpc]) hinv)
  | gcCas current currentGlobal hpc =>
      simp only [History.act, hpc]
      exact gcCas_preserved hshared hthread hpc (hwrap current currentGlobal hpc)
  | gcSweep current index own hpc htls hsweep =>
      exact sweep_preserved hshared hthread hpc htls hsweep

/-- A thread allocates a block. -/
theorem beginRegister_preserved {resume : Resume Node} (hshared : SharedInv shared history blocks)
    (hthread : ThreadInv shared history blocks tid thread) (htls : thread.tlsTcb = none)
    (hresume : ResumeInv history tid resume) :
    Preserved shared history blocks tid (beginRegister shared thread resume).1
      (history.allocate tid shared.tcbCount (shared.tcbCount + 1))
      (beginRegister shared thread resume).2 := by
  have hout : shared.tcbCount ∉ blocks := fun hmem =>
    absurd (hshared.allocated _ hmem) (Nat.lt_irrefl _)
  have hunowned : ∀ other, history.owner shared.tcbCount ≠ some other := fun other howner =>
    absurd (hshared.owned _ other howner) (Nat.lt_irrefl _)
  have howner : ∀ tcb other, history.owner tcb = some other →
      tcb ≠ shared.tcbCount ∧
        Function.update history.owner shared.tcbCount (some tid) tcb = some other := by
    intro tcb other hown
    have hne : tcb ≠ shared.tcbCount := by
      rintro rfl
      exact hunowned other hown
    exact ⟨hne, (Function.update_of_ne hne ..).trans hown⟩
  have hset : SharedInv (shared.setTcb shared.tcbCount {}) history blocks := by
    refine hshared.setTcb ?_ (fun hmem => absurd hmem hout) ⟨by simp, by simp⟩
    exact fun other epoch hann => absurd (hshared.listed other _ epoch hann).2 (hunowned other)
  rw [History.allocate, if_neg (Nat.succ_ne_self _)]
  refine ⟨blocks, { hset with allocated := ?_, owned := ?_, listed := ?_ }, ?_, fun other hne => ?_⟩
  · exact fun tcb hmem => Nat.lt_succ_of_lt (hshared.allocated tcb hmem)
  · intro tcb other hown
    by_cases heq : tcb = shared.tcbCount
    · exact heq ▸ Nat.lt_succ_self _
    · simp only [Function.update_of_ne heq] at hown
      exact Nat.lt_succ_of_lt (hshared.owned tcb other hown)
  · intro other tcb epoch hann
    obtain ⟨hmem, hown⟩ := hshared.listed other tcb epoch hann
    exact ⟨hmem, (howner tcb other hown).2⟩
  · refine .registers htls ?_ (.registerLock shared.tcbCount resume) rfl ⟨⟨rfl, ?_, ?_, ?_⟩, hout⟩
    · exact hthread.announced_none htls
    · exact Function.update_self ..
    · exact congrArg ThreadControlBlock.active (setTcb_self shared.tcbCount {})
    · cases resume with
      | retire node => exact hresume
      | done => trivial
      | enter => trivial
  · refine { Rely.refl with own := ?_, next := ?_ }
    · intro tcb hown
      obtain ⟨hne', hown'⟩ := howner tcb other hown
      exact ⟨Function.update_of_ne hne' .., hown', id⟩
    · intro tcb hmem
      have hne' : tcb ≠ shared.tcbCount := by
        rintro rfl
        exact hout hmem
      exact congrArg ThreadControlBlock.next (Function.update_of_ne hne' ..)

/-- A call of `Retire` takes over an unlinked node. -/
theorem SharedInv.retiring [DecidableEq Node] {node : Node} (h : SharedInv shared history blocks)
    (hstage : history.stage node = .unlinked) :
    SharedInv shared (history.setStage node (.retiring tid)) blocks :=
  h.setStage (by simp [hstage]) (h.not_deleted (by simp [hstage])) (by simp)

/-- An idle thread that has taken over a node goes on. -/
theorem ThreadInv.retiring [DecidableEq Node] (h : ThreadInv shared history blocks tid thread)
    (node : Node) (pc : Pc Node) (hidle : thread.pc = .idle)
    (hout : pc.outside = false) (henter : pc.entering = false)
    (hpc : PcInv shared (history.setStage node (.retiring tid)) blocks tid thread.tlsTcb pc) :
    ThreadInv shared (history.setStage node (.retiring tid)) blocks tid
      { thread with pc := pc } :=
  h.goto pc rfl rfl (fun _ => rfl) (by simp [hidle]) (by simp [hidle]) (by simp [hout])
    (by simp [henter]) hpc

/-- The node changes hands before the thread moves. -/
theorem Preserved.retiring [DecidableEq Node] {node : Node}
    (h : Preserved shared (history.setStage node (.retiring tid)) blocks tid shared' history'
      thread') (hstage : history.stage node = .unlinked) :
    Preserved shared history blocks tid shared' history' thread' := by
  obtain ⟨blocks', hshared, hthread, hrely⟩ := h
  exact ⟨blocks', hshared, hthread, fun other hne =>
    (Rely.setStage (by simp [hstage]) (by simp)).trans (hrely other hne)⟩

/-- A call keeps the invariant, provided that the caller is disciplined. -/
theorem call_preserved [DecidableEq Node] {action : Action Node}
    (hshared : SharedInv shared history blocks)
    (hthread : ThreadInv shared history blocks tid thread) (hidle : thread.pc = .idle)
    (hunregister : action = .unregisterThread → ¬ 0 < thread.criticalDepth)
    (hretire : ∀ node, action = .retire (some node) → history.stage node = .unlinked)
    (hcall : call shared thread action = (shared', thread')) :
    Preserved shared history blocks tid shared'
      ((history.act tid thread shared'.deleted action).allocate tid shared.tcbCount
        shared'.tcbCount) thread' := by
  have hsame : history.allocate tid shared.tcbCount shared.tcbCount = history := if_pos rfl
  have hcases : CallStep shared thread action shared' thread' := by
    have hcases := call_cases shared thread action
    rwa [hcall] at hcases
  clear hcall
  cases hcases with
  | register htls | enterFirst htls =>
      exact beginRegister_preserved hshared hthread htls trivial
  | registered | unregistered | exitUnregistered | retireNull =>
      simp only [History.act, hsame]
      exact .quiet hshared hthread
  | unregister tcb htls =>
      simp only [History.act, hsame]
      have hnone := hthread.announced_depth (by simp [hidle]) (hunregister rfl)
      exact .quiet hshared (.unannounced hnone hthread.bound
        (fun tcb htls' _ => hthread.active tcb htls' (by simp [hidle]))
        (by simp [Pc.entering]) trivial)
  | enter tcb htls =>
      simp only [History.act, hsame]
      exact .quiet hshared (hthread.beginEnter hidle)
  | exit tcb htls =>
      simp only [History.act, hsame]
      exact .quiet hshared (hthread.beginExit hidle)
  | retireFirst node htls =>
      have hstage := hretire node rfl
      have hmoved : ResumeInv (history.setStage node (.retiring tid)) tid (.retire node) :=
        Function.update_self ..
      have hbegun := beginRegister_preserved (hshared.retiring hstage)
        (hthread.retiring node .idle hidle rfl rfl trivial) htls hmoved
      exact hbegun.retiring hstage
  | retire node tcb htls =>
      have hstage := hretire node rfl
      have hallocate : (history.setStage node (.retiring tid)).allocate tid shared.tcbCount
          shared.tcbCount = history.setStage node (.retiring tid) := if_pos rfl
      have hmoved := hthread.retiring node (.retireLoad node) hidle rfl rfl
        (Function.update_self ..)
      simp only [History.act, hallocate]
      exact Preserved.retiring (.quiet (hshared.retiring hstage) hmoved) hstage
  | gc =>
      simp only [History.act, hsame]
      exact .quiet hshared (hthread.goto .gcLoad rfl rfl (fun _ => rfl) (by simp [hidle])
        (by simp [hidle]) (by simp [Pc.outside]) (by simp [Pc.entering]) trivial)
  | run =>
      simp only [History.act, hidle, hsame]
      exact .quiet hshared hthread

end Steps

end HotPath.Concurrency
