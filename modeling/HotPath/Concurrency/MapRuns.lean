import HotPath.Concurrency.MapPreserved

/-!
# Runs of the map

Every step of a run keeps the invariant (`Inv.step`), provided that three things happen in order:
the epoch that a reader publishes drains before the reader loads `table_`, a new table is in
memory before the old one is retired, and the global epoch does not wrap around (`inOrder`).
-/

namespace HotPath.Concurrency.MapSteps

open HotPath.Foundation

variable {K V : Type} {cfg : MapConfig K} {memory memory' : Memory K V}
  {workers : ThreadId → Worker K V} {worker worker' : Worker K V}
  {history history' : History Object} {blocks : List TcbId} {chains : Chains}
  {contents : K → Option V} {tid : ThreadId}

/-! ## Inside the engine -/

/-- A resting thread has published nothing. -/
theorem Resting.announced_none (h : Resting worker)
    (hthread : ThreadInv memory.ebr history blocks tid worker.thread) :
    history.announced tid = none := by
  refine hthread.announced_depth (fun hexit => ?_) (by rw [h.depth]; omega)
  have hserving := h.serving
  rw [hexit] at hserving
  cases hserving

/-- A thread on its way into a critical section has published nothing. -/
theorem announced_none_of_entering {thread : Thread Object}
    (hthread : ThreadInv memory.ebr history blocks tid thread)
    (hentering : entering thread.pc = true) : history.announced tid = none := by
  have hinv := hthread.pc
  cases hpc : thread.pc with
  | registerLock own resume =>
      rw [hpc] at hinv
      exact hthread.announced_none hinv.1.1
  | registerLink own resume =>
      rw [hpc] at hinv
      exact hthread.announced_none hinv.1.1
  | registerPublish own resume =>
      rw [hpc] at hinv
      exact hthread.announced_none hinv.1.1
  | registerBind own resume =>
      rw [hpc] at hinv
      exact hthread.announced_none hinv.1.1
  | enterLoad => exact hthread.announced_outside (by simp [hpc, Pc.outside])
  | enterStore epoch => exact hthread.announced_outside (by simp [hpc, Pc.outside])
  | _ => simp [hpc, entering] at hentering

theorem Zeros.nil (tls : Option TcbId) : Zeros tls [] := by simp [Zeros]

/-- The buffer of a thread that keeps its block. -/
theorem Zeros.mono {tls tls' : Option TcbId} {buffer : List Store} (h : Zeros tls buffer)
    (hkeep : ∀ tcb, tls = some tcb → tls' = some tcb) : Zeros tls' buffer := by
  intro store hmem
  obtain ⟨tcb, htls, rfl⟩ := h store hmem
  exact ⟨tcb, hkeep tcb htls, rfl⟩

/-- A thread sees the epochs that others have published. -/
theorem Inv.view_eq (h : Inv cfg memory workers history blocks chains contents)
    (hzeros : Zeros (workers tid).thread.tlsTcb (workers tid).buffer)
    (hown : history.announced tid = none ∨ (workers tid).buffer = []) :
    ∀ other curr published, history.announced other = some (curr, published) →
      viewEpoch memory.ebr (workers tid).buffer curr = (memory.ebr.tcbs curr).localEpoch := by
  intro other curr published hannounced
  rcases hown with hnone | hempty
  · refine hzeros.viewEpoch (fun htls => ?_) memory.ebr
    have howner := (h.shared.listed other curr published hannounced).2
    rw [((h.threads tid).bound curr htls).1] at howner
    obtain rfl := Option.some.inj howner
    rw [hnone] at hannounced
    cases hannounced
  · rw [hempty]
    rfl

/-- A resting thread stays at its place while the engine runs. -/
theorem Resting.runEbr (h : Resting worker)
    (hthread : ThreadInv memory.ebr history blocks tid worker.thread)
    (hrun : runEbr memory tid worker = some (memory', worker')) :
    Resting worker' ∧ worker'.buffer = worker.buffer ∧ worker'.pc = worker.pc ∧
      ∀ tcb, worker.thread.tlsTcb = some tcb → worker'.thread.tlsTcb = some tcb := by
  have hserving := h.serving
  rcases runEbr_cases hrun with
      ⟨epoch, tcb, hpc, -⟩ | ⟨tcb, hpc, -⟩ | ⟨minEpoch, curr, hpc, rfl, rfl⟩ |
      ⟨ebr, thread, hstep, -, -, rfl, rfl⟩
  · simp [hpc, MapSteps.serving] at hserving
  · simp [hpc, MapSteps.serving] at hserving
  · exact ⟨⟨rfl, h.depth⟩, rfl, rfl, fun _ htls => htls⟩
  · obtain ⟨hserving', hdepth⟩ := run_serving hserving hstep
    refine ⟨⟨hserving', hdepth.trans h.depth⟩, rfl, rfl, fun tcb htls => ?_⟩
    refine run_tls hthread (fun hpc => ?_) htls hstep
    simp [hpc, MapSteps.serving] at hserving

/-- A step inside the engine keeps the invariant, if the thread keeps its place in the map. -/
theorem Inv.runEbr_of_place (h : Inv cfg memory workers history blocks chains contents)
    (hwrap : ∀ current currentGlobal, (workers tid).thread.pc = .gcCas current currentGlobal →
      memory.ebr.globalEpoch = currentGlobal → currentGlobal + 1 ≠ 0)
    (hrun : runEbr memory tid (workers tid) = some (memory', worker'))
    (hzeros : Zeros (workers tid).thread.tlsTcb (workers tid).buffer)
    (hown : history.announced tid = none ∨ (workers tid).buffer = [])
    (hnext : ∀ history', EbrStep memory history blocks tid memory' history' worker'.thread →
      ((workers tid).thread.pc ≠ .exitStore → history'.announced tid = history.announced tid) →
      PlaceInv cfg memory' history' chains contents tid worker') :
    ∃ history' blocks', Inv cfg memory' (Function.update workers tid worker') history' blocks'
      chains contents := by
  obtain ⟨history', hstep, hunlinked, hannounced⟩ :=
    runEbr_step h.shared (h.threads tid) hwrap (h.view_eq hzeros hown) hrun
  obtain ⟨blocks', hinv⟩ := h.ebrStep worker' hstep (.inr hunlinked)
    (hnext history' hstep hannounced)
  exact ⟨history', blocks', hinv⟩

/-- A resting thread keeps its place while the engine runs. -/
theorem Inv.runEbr_of_resting (h : Inv cfg memory workers history blocks chains contents)
    (hwrap : ∀ current currentGlobal, (workers tid).thread.pc = .gcCas current currentGlobal →
      memory.ebr.globalEpoch = currentGlobal → currentGlobal + 1 ≠ 0)
    (hrun : runEbr memory tid (workers tid) = some (memory', worker'))
    (hresting : Resting (workers tid))
    (hzeros : Zeros (workers tid).thread.tlsTcb (workers tid).buffer)
    (hnext : ∀ history', EbrStep memory history blocks tid memory' history' worker'.thread →
      Resting worker' → worker'.buffer = (workers tid).buffer → worker'.pc = (workers tid).pc →
      Zeros worker'.thread.tlsTcb worker'.buffer →
      PlaceInv cfg memory' history' chains contents tid worker') :
    ∃ history' blocks', Inv cfg memory' (Function.update workers tid worker') history' blocks'
      chains contents := by
  have hthread := h.threads tid
  obtain ⟨hresting', hbuffer, hpc, htls⟩ := hresting.runEbr hthread hrun
  refine h.runEbr_of_place hwrap hrun hzeros (.inl (hresting.announced_none hthread))
    fun history' hstep _ => hnext history' hstep hresting' hbuffer hpc ?_
  rw [hbuffer]
  exact hzeros.mono htls

/-- After `Get` the engine has one store left, which goes to the buffer. -/
theorem Inv.runEbr_returned (h : Inv cfg memory workers history blocks chains contents)
    {key : K} {result : Option V} (hpc : (workers tid).pc = .returned key result)
    (hidle : (workers tid).thread.pc ≠ .idle)
    (hwrap : ∀ current currentGlobal, (workers tid).thread.pc = .gcCas current currentGlobal →
      memory.ebr.globalEpoch = currentGlobal → currentGlobal + 1 ≠ 0)
    (hrun : runEbr memory tid (workers tid) = some (memory', worker')) :
    ∃ history' blocks', Inv cfg memory' (Function.update workers tid worker') history' blocks'
      chains contents := by
  have hplace := h.places tid
  simp only [PlaceInv, hpc] at hplace
  obtain ⟨hdepth, ⟨hexit, hbuffer⟩ | ⟨hidle', -⟩⟩ := hplace
  · refine h.runEbr_of_place hwrap hrun (hbuffer ▸ Zeros.nil _) (.inr hbuffer)
      fun history' _ _ => ?_
    rcases runEbr_cases hrun with
        ⟨epoch, tcb, henter, -⟩ | ⟨tcb, -, htls, rfl, rfl⟩ | ⟨minEpoch, curr, hlocal, -⟩ |
        ⟨ebr, thread, -, -, hnot, -⟩
    · rw [hexit] at henter
      cases henter
    · unfold PlaceInv
      simp only [hpc, hbuffer, List.nil_append]
      refine ⟨hdepth, .inr ⟨trivial, fun store hstore => ?_⟩⟩
      obtain rfl := List.mem_singleton.mp hstore
      exact ⟨tcb, htls, rfl⟩
    · rw [hexit] at hlocal
      cases hlocal
    · exact absurd hexit hnot
  · exact absurd hidle' hidle

/-- Before `Get` reads `table_` the engine takes the thread into its critical section. -/
theorem Inv.runEbr_getTable (h : Inv cfg memory workers history blocks chains contents)
    {key : K} (hpc : (workers tid).pc = .getTable key) (hidle : (workers tid).thread.pc ≠ .idle)
    (hwrap : ∀ current currentGlobal, (workers tid).thread.pc = .gcCas current currentGlobal →
      memory.ebr.globalEpoch = currentGlobal → currentGlobal + 1 ≠ 0)
    (hrun : runEbr memory tid (workers tid) = some (memory', worker')) :
    ∃ history' blocks', Inv cfg memory' (Function.update workers tid worker') history' blocks'
      chains contents := by
  have hthread := h.threads tid
  have hplace := h.places tid
  simp only [PlaceInv, hpc] at hplace
  rcases hplace with ⟨hentering, hdepth, hzeros⟩ | hreading | ⟨-, hidle', -⟩
  · have hnone := announced_none_of_entering hthread hentering
    refine h.runEbr_of_place hwrap hrun hzeros (.inl hnone) fun history' _ hannounced => ?_
    rcases runEbr_cases hrun with
        ⟨epoch, tcb, henter, htls, rfl, rfl⟩ | ⟨tcb, hexit, -⟩ | ⟨minEpoch, curr, hlocal, -⟩ |
        ⟨ebr, thread, hstep, hnot, -, rfl, rfl⟩
    · -- The epoch of the reader goes to its buffer.
      have hinv := hthread.pc
      rw [henter] at hinv
      unfold PlaceInv
      simp only [hpc]
      refine .inr (.inr ⟨(hannounced (by simp [henter])).trans hnone, rfl, ?_, tcb, _, epoch,
        htls, htls ▸ hzeros, rfl, hinv.1, hinv.2⟩)
      rw [henter] at hdepth
      exact hdepth
    · rw [hexit] at hentering
      cases hentering
    · rw [hlocal] at hentering
      cases hentering
    · obtain ⟨hentering', hdepth'⟩ := run_entering hentering hnot hdepth hstep
      unfold PlaceInv
      simp only [hpc]
      refine .inl ⟨hentering', hdepth', hzeros.mono fun own htls => ?_⟩
      refine run_tls hthread (fun hgone => ?_) htls hstep
      rw [hgone] at hentering
      cases hentering
  · exact absurd hreading.idle hidle
  · exact absurd hidle' hidle

/-- A step inside the engine keeps the invariant. -/
theorem Inv.runEbr (h : Inv cfg memory workers history blocks chains contents) (tid : ThreadId)
    (hidle : (workers tid).thread.pc ≠ .idle)
    (hwrap : ∀ current currentGlobal, (workers tid).thread.pc = .gcCas current currentGlobal →
      memory.ebr.globalEpoch = currentGlobal → currentGlobal + 1 ≠ 0)
    (hrun : runEbr memory tid (workers tid) = some (memory', worker')) :
    ∃ history' blocks', Inv cfg memory' (Function.update workers tid worker') history' blocks'
      chains contents := by
  have hplace := h.places tid
  unfold PlaceInv at hplace
  cases hpc : (workers tid).pc with
  | idle =>
      simp only [hpc] at hplace
      refine h.runEbr_of_resting hwrap hrun hplace.1 hplace.2
        fun history' _ hresting' _ hpc' hzeros => ?_
      unfold PlaceInv
      rw [hpc', hpc]
      exact ⟨hresting', hzeros⟩
  | putLink | unlock =>
      simp only [hpc] at hplace
      refine h.runEbr_of_resting hwrap hrun hplace.1.toResting (hplace.2 ▸ Zeros.nil _)
        fun history' hstep hresting' hbuffer hpc' _ => ?_
      unfold PlaceInv
      rw [hpc', hpc]
      exact ⟨⟨hresting', hstep.writeMutex ▸ hplace.1.locked⟩, hbuffer.trans hplace.2⟩
  | returned => exact h.runEbr_returned hpc hidle hwrap hrun
  | getTable => exact h.runEbr_getTable hpc hidle hwrap hrun
  | _ =>
      -- At all other places the thread is not inside the engine.
      simp only [hpc] at hplace
      refine absurd (?_ : (workers tid).thread.pc = .idle) hidle
      first | exact hplace.2.1 | exact hplace.1.idle | exact hplace.idle

/-! ## Drained stores -/

theorem Writing.alone (h : Writing memory tid worker) (other : ThreadId) (hne : other ≠ tid) :
    memory.writeMutex ≠ some other := by
  rw [h.locked]
  exact fun heq => hne (Option.some.inj heq).symm

/-- A store of `ExitCritical` drains. -/
theorem Inv.drainZero (h : Inv cfg memory workers history blocks chains contents)
    {own : TcbId} (epoch : UInt64) (rest : List Store)
    (htls : (workers tid).thread.tlsTcb = some own)
    (hnone : history.announced tid = none)
    (hplace : PlaceInv cfg (memory.apply (.localEpoch own epoch)) history chains contents tid
      { workers tid with buffer := rest }) :
    ∃ history' blocks', Inv cfg (memory.apply (.localEpoch own epoch))
      (Function.update workers tid { workers tid with buffer := rest }) history' blocks' chains
      contents := by
  have hstep := drainEpoch_step epoch h.shared (h.threads tid) htls hnone
  obtain ⟨blocks', hinv⟩ := h.ebrStep { workers tid with buffer := rest } hstep
    (.inr fun _ hstage => hstage) hplace
  exact ⟨history, blocks', hinv⟩

/-- A store of `ExitCritical` is in front of the buffer. -/
theorem Zeros.cons {tls : Option TcbId} {store : Store} {rest : List Store}
    (h : Zeros tls (store :: rest)) : (∃ own, tls = some own ∧
      store = .localEpoch own kEpochInactive) ∧ Zeros tls rest :=
  ⟨h store (List.mem_cons_self ..), fun other hmem => h other (List.mem_cons_of_mem _ hmem)⟩

/-- The store of a link drains. -/
theorem Inv.drainLink (h : Inv cfg memory workers history blocks chains contents)
    {unlinked : Option NodeId} {store : Store} {rest : List Store}
    (hbuffer : (workers tid).buffer = store :: rest) (hwriting : Writing memory tid (workers tid))
    (hlinking : Linking cfg memory.map history chains (workers tid).buffer unlinked)
    (hplace : ∀ memory' history' chains' contents', memory'.writeMutex = some tid →
      Linking cfg memory'.map history' chains' [] unlinked →
      PlaceInv cfg memory' history' chains' contents' tid { workers tid with buffer := [] }) :
    ∃ history' chains' contents', Inv cfg (memory.apply store)
      (Function.update workers tid { workers tid with buffer := rest }) history' blocks chains'
      contents' := by
  rcases hlinking with ⟨hempty, -⟩ | ⟨i, before, fresh, after, contents', hstore, hsplice, hfresh⟩
  · rw [hempty] at hbuffer
    cases hbuffer
  · obtain ⟨rfl, rfl⟩ := List.cons.inj (hbuffer.symm.trans hstore)
    have hmemory : memory.apply (linkStore memory.map i before.getLast? (fresh ++ after).head?) =
        { memory with map := memory.map.storeLink i before.getLast? (fresh ++ after).head? } := by
      simp only [Memory.apply, linkStore_onMap, linkStore_onEbr]
    rw [hmemory]
    cases unlinked with
    | none =>
        exact ⟨history, _, contents', h.splice hwriting.alone hsplice hfresh .none rfl rfl
          (hplace _ _ _ _ hwriting.locked (.inl ⟨rfl, by simp⟩))⟩
    | some node =>
        have hunlinks := Unlinks.unlink history (.node node)
        refine ⟨history.unlink (.node node), _, contents',
          h.splice hwriting.alone hsplice hfresh hunlinks rfl rfl
            (hplace _ _ _ _ hwriting.locked (.inl ⟨rfl, fun other heq => ?_⟩))⟩
        obtain rfl := Option.some.inj heq
        exact (hunlinks.unlinked _ rfl).1

/-- A store of `ExitCritical` drains, and the thread keeps its place. -/
theorem Inv.drainExit (h : Inv cfg memory workers history blocks chains contents) {store : Store}
    {rest : List Store} (hbuffer : (workers tid).buffer = store :: rest)
    (hzeros : Zeros (workers tid).thread.tlsTcb (workers tid).buffer)
    (hnone : history.announced tid = none)
    (hnext : ∀ memory', Zeros (workers tid).thread.tlsTcb rest →
      PlaceInv cfg memory' history chains contents tid { workers tid with buffer := rest }) :
    ∃ history' blocks' chains' contents', Inv cfg (memory.apply store)
      (Function.update workers tid { workers tid with buffer := rest }) history' blocks' chains'
      contents' := by
  rw [hbuffer] at hzeros
  obtain ⟨⟨own, htls, rfl⟩, hrest⟩ := hzeros.cons
  obtain ⟨history', blocks', hinv⟩ := h.drainZero _ rest htls hnone (hnext _ hrest)
  exact ⟨history', blocks', chains, contents, hinv⟩

/-- The store of a link drains, and the writer keeps its place. -/
theorem Inv.drainWriting (h : Inv cfg memory workers history blocks chains contents)
    {unlinked : Option NodeId} {store : Store} {rest : List Store}
    (hbuffer : (workers tid).buffer = store :: rest) (hwriting : Writing memory tid (workers tid))
    (hlinking : Linking cfg memory.map history chains (workers tid).buffer unlinked)
    (hnext : ∀ memory' history' chains' contents',
      Writing memory' tid { workers tid with buffer := [] } →
      Linking cfg memory'.map history' chains' [] unlinked →
      PlaceInv cfg memory' history' chains' contents' tid { workers tid with buffer := [] }) :
    ∃ history' blocks' chains' contents', Inv cfg (memory.apply store)
      (Function.update workers tid { workers tid with buffer := rest }) history' blocks' chains'
      contents' := by
  obtain ⟨history', chains', contents', hinv⟩ := h.drainLink hbuffer hwriting hlinking
    fun memory' history' chains' contents' hlocked hdone =>
      hnext memory' history' chains' contents' ⟨hwriting.toResting.of_thread rfl, hlocked⟩ hdone
  exact ⟨history', blocks, chains', contents', hinv⟩

/-- A store of a reader drains before it reads `table_`. -/
theorem Inv.drain_getTable (h : Inv cfg memory workers history blocks chains contents)
    {store : Store} {rest : List Store} (hbuffer : (workers tid).buffer = store :: rest) {key : K}
    (hpc : (workers tid).pc = .getTable key) :
    ∃ history' blocks' chains' contents', Inv cfg (memory.apply store)
      (Function.update workers tid { workers tid with buffer := rest }) history' blocks' chains'
      contents' := by
  have hthread := h.threads tid
  have hplace := h.places tid
  simp only [PlaceInv, hpc] at hplace
  rcases hplace with
      ⟨hentering, hdepth, hzeros⟩ | hreading |
      ⟨hnone, hidle, hdepth, own, zeros, epoch, htls, hzeros, hpending, hne, hle⟩
  · refine h.drainExit hbuffer hzeros (announced_none_of_entering hthread hentering)
      fun memory' hrest => ?_
    simp only [PlaceInv, hpc]
    exact .inl ⟨hentering, hdepth, hrest⟩
  · exact absurd hreading.buffer (by simp [hbuffer])
  · cases zeros with
    | nil =>
        -- The epoch of the reader becomes visible.
        obtain ⟨rfl, rfl⟩ := List.cons.inj (hbuffer.symm.trans hpending)
        have hstep := drainEnter_step h.shared hthread hidle (by omega) htls hnone ⟨hne, hle⟩
        obtain ⟨blocks', hinv⟩ := h.ebrStep { workers tid with buffer := [] } hstep
          (.inr fun _ hstage => hstage) (by
            simp only [PlaceInv, hpc]
            exact .inr (.inl ⟨by simp, hidle, hdepth, rfl⟩))
        exact ⟨_, blocks', chains, contents, hinv⟩
    | cons zero zeros =>
        obtain ⟨rfl, rfl⟩ := List.cons.inj (hbuffer.symm.trans hpending)
        obtain ⟨⟨own', heq, rfl⟩, hrest⟩ := hzeros.cons
        obtain rfl := Option.some.inj heq
        obtain ⟨history', blocks', hinv⟩ := h.drainZero kEpochInactive
          (zeros ++ [.localEpoch own epoch]) htls hnone (by
            simp only [PlaceInv, hpc]
            exact .inr (.inr ⟨hnone, hidle, hdepth, own, zeros, epoch, htls, hrest, rfl, hne,
              hle⟩))
        exact ⟨history', blocks', chains, contents, hinv⟩

/-- The new table is published before the old one is retired. -/
theorem Inv.drain_putRetireTable (h : Inv cfg memory workers history blocks chains contents)
    {store : Store} {rest : List Store} (hbuffer : (workers tid).buffer = store :: rest) {key : K}
    {value : V} {oldTable : TableId} (hpc : (workers tid).pc = .putRetireTable key value oldTable) :
    ∃ history' blocks' chains' contents', Inv cfg (memory.apply store)
      (Function.update workers tid { workers tid with buffer := rest }) history' blocks' chains'
      contents' := by
  have hplace := h.places tid
  simp only [PlaceInv, hpc] at hplace
  obtain ⟨hwriting, hidle, ⟨hnil, -⟩ | ⟨newTable, hpending, rfl, hne, hlive, hnew⟩⟩ := hplace
  · exact absurd hnil (by simp [hbuffer])
  · obtain ⟨rfl, rfl⟩ := List.cons.inj (hbuffer.symm.trans hpending)
    refine ⟨_, blocks, chains, contents, h.publish hwriting.alone hne hlive hnew rfl ?_⟩
    simp only [PlaceInv, hpc]
    refine ⟨hwriting.moved rfl rfl, hidle, .inl ⟨rfl, ?_⟩⟩
    exact ((Unlinks.unlink history _).unlinked _ rfl).1

/-- A store drains. -/
theorem Inv.drain (h : Inv cfg memory workers history blocks chains contents) {store : Store}
    {rest : List Store} (hbuffer : (workers tid).buffer = store :: rest) :
    ∃ history' blocks' chains' contents', Inv cfg (memory.apply store)
      (Function.update workers tid { workers tid with buffer := rest }) history' blocks' chains'
      contents' := by
  have hthread := h.threads tid
  have hplace := h.places tid
  have hempty : (workers tid).buffer ≠ [] := by simp [hbuffer]
  unfold PlaceInv at hplace
  cases hpc : (workers tid).pc with
  | idle =>
      simp only [hpc] at hplace
      refine h.drainExit hbuffer hplace.2 (hplace.1.announced_none hthread) fun memory' hrest => ?_
      simp only [PlaceInv, hpc]
      exact ⟨hplace.1.of_thread rfl, hrest⟩
  | putLock | removeLock =>
      simp only [hpc] at hplace
      refine h.drainExit hbuffer hplace.2.2 (hplace.1.announced_none hthread)
        fun memory' hrest => ?_
      simp only [PlaceInv, hpc]
      exact ⟨hplace.1.of_thread rfl, hplace.2.1, hrest⟩
  | returned key result =>
      simp only [hpc] at hplace
      obtain ⟨hdepth, ⟨-, hnil⟩ | ⟨hidle, hzeros⟩⟩ := hplace
      · exact absurd hnil hempty
      · have hresting : Resting (workers tid) := ⟨by rw [hidle]; rfl, hdepth⟩
        refine h.drainExit hbuffer hzeros (hresting.announced_none hthread) fun memory' hrest => ?_
        simp only [PlaceInv, hpc]
        exact ⟨hdepth, .inr ⟨hidle, hrest⟩⟩
  | getTable => exact h.drain_getTable hbuffer hpc
  | putRetireTable => exact h.drain_putRetireTable hbuffer hpc
  | putCount | removeCount | generation =>
      simp only [hpc] at hplace
      refine h.drainWriting hbuffer hplace.1 hplace.2.2 fun memory' _ _ _ hwriting hdone => ?_
      simp only [PlaceInv, hpc]
      exact ⟨hwriting.moved rfl rfl, hplace.2.1, hdone⟩
  | _ =>
      -- At all other places the buffer is empty.
      simp only [hpc] at hplace
      refine absurd (?_ : (workers tid).buffer = []) hempty
      first | exact hplace.1.buffer | exact hplace.buffer | exact hplace.2.2 | exact hplace.2

/-! ## Inside the map -/

/-- A counter changes, or the mutex is taken or released. -/
theorem Inv.counters {mutex : Option ThreadId} {count : Nat} {generation : UInt64}
    (h : Inv cfg memory workers history blocks chains contents)
    (hmutex : ∀ other, other ≠ tid → memory.writeMutex ≠ some other)
    (hthread : worker'.thread = (workers tid).thread)
    (hplace : PlaceInv cfg { memory with
      map := { memory.map with count := count, generation := generation }, writeMutex := mutex }
      history chains contents tid worker') :
    Inv cfg { memory with
      map := { memory.map with count := count, generation := generation }, writeMutex := mutex }
      (Function.update workers tid worker') history blocks chains contents := by
  obtain ⟨hext, hheap⟩ := h.heap.counters count generation
  exact h.extend hmutex hext hheap (fun _ _ => rfl) (fun _ _ _ hmem => .inl hmem) hthread hplace

/-- What a drained link has unlinked. -/
theorem Linking.drained {map : RcuHashMap K V} {buffer : List Store} {unlinked : Option NodeId}
    (h : Linking cfg map history chains buffer unlinked) (hbuffer : buffer = []) :
    ∀ node, unlinked = some node → history.stage (.node node) = .unlinked := by
  rcases h with ⟨-, hunlinked⟩ | ⟨i, before, fresh, after, contents', hstore, -⟩
  · exact hunlinked
  · rw [hbuffer] at hstore
    cases hstore

/-- A thread that writes calls `Retire`. -/
theorem Inv.beginRetire (h : Inv cfg memory workers history blocks chains contents)
    (worker : Worker K V) {object : Object} (hworker : worker.thread = (workers tid).thread)
    (hidle : worker.thread.pc = .idle) (hwriting : Writing memory tid worker)
    (hobject : history.stage object = .unlinked)
    (hplace : ∀ memory' history' worker', Writing memory' tid worker' →
      worker'.pc = worker.pc → worker'.buffer = worker.buffer →
      PlaceInv cfg memory' history' chains contents tid worker') :
    ∃ history' blocks', Inv cfg (beginRetire memory worker object).1
      (Function.update workers tid (beginRetire memory worker object).2) history' blocks' chains
      contents := by
  have hthread := h.threads tid
  rw [← hworker] at hthread
  obtain ⟨history', hstep, -, -⟩ := call_step (.retire (some object)) h.shared hthread hidle
    (by simp) (by simp) fun other heq => by cases heq; exact hobject
  have hwriting' : Writing (MapSteps.beginRetire memory worker object).1 tid
      (MapSteps.beginRetire memory worker object).2 := by
    refine ⟨?_, hwriting.locked⟩
    -- `Retire` begins with the load of the epoch or with `RegisterThread`.
    simp only [MapSteps.beginRetire, Concurrency.call]
    cases htls : worker.thread.tlsTcb with
    | some own => exact ⟨rfl, hwriting.depth⟩
    | none => exact ⟨rfl, hwriting.depth⟩
  obtain ⟨blocks', hinv⟩ := h.ebrStep (MapSteps.beginRetire memory worker object).2
    hstep (.inl hwriting.locked) (hplace _ _ _ hwriting' rfl rfl)
  exact ⟨history', blocks', hinv⟩

section Map

variable [DecidableEq K]

/-- The thread is in `Get`, and not on its way out. -/
def Pc.inGet : Pc K V → Bool
  | .getTable _ | .getBucket _ _ | .getKey _ _ | .getSeqBefore _ _ | .getValue _ _ _
  | .getSeqAfter _ _ _ _ | .getNext _ _ | .getExit _ _ => true
  | _ => false

omit [DecidableEq K] in
/-- A reader calls `ExitCritical` at the end of `Get`. -/
theorem Inv.exitGet (h : Inv cfg memory workers history blocks chains contents)
    (hidle : (workers tid).thread.pc = .idle) {key : K} {result : Option V}
    (hpc : (workers tid).pc = .getExit key result) :
    ∃ history' blocks', Inv cfg
      { memory with ebr := (Concurrency.call memory.ebr (workers tid).thread .exitCritical).1 }
      (Function.update workers tid { workers tid with
        thread := (Concurrency.call memory.ebr (workers tid).thread .exitCritical).2
        pc := .returned key result }) history' blocks' chains contents := by
  have hplace := h.places tid
  simp only [PlaceInv, hpc] at hplace
  obtain ⟨history', hstep, hannounced, hstage⟩ := call_step .exitCritical h.shared
    (h.threads tid) hidle (by simp) (by simp) (by simp)
  obtain ⟨entry, hentry⟩ := Option.ne_none_iff_exists'.mp hplace.announced
  have htls := ((h.threads tid).inside entry.1 entry.2 hentry).1
  obtain ⟨blocks', hinv⟩ := h.ebrStep { workers tid with
      thread := (Concurrency.call memory.ebr (workers tid).thread .exitCritical).2
      pc := .returned key result } hstep
    (.inr fun object hobject => by rw [hstage (by simp), hobject]) (by
      simp only [PlaceInv, Concurrency.call, htls, hplace.depth]
      exact ⟨rfl, .inl ⟨rfl, hplace.buffer⟩⟩)
  exact ⟨history', blocks', hinv⟩

/-- A reader moves on in `Get`. -/
theorem Inv.runGet (h : Inv cfg memory workers history blocks chains contents)
    (hidle : (workers tid).thread.pc = .idle)
    (hload : ∀ key, (workers tid).pc = .getTable key → (workers tid).buffer = [])
    (hget : (workers tid).pc.inGet = true)
    (hrun : runMap cfg memory tid (workers tid) = some (memory', worker')) :
    ∃ history' blocks', Inv cfg memory' (Function.update workers tid worker') history' blocks'
      chains contents := by
  have hplace := h.places tid
  have hgoto : ∀ pc : Pc K V, (Reading history tid ((workers tid).goto pc) →
      PlaceInv cfg memory history chains contents tid ((workers tid).goto pc)) →
      Reading history tid (workers tid) →
      ∃ history' blocks', Inv cfg memory (Function.update workers tid ((workers tid).goto pc))
        history' blocks' chains contents :=
    fun pc hnext hreading => ⟨history, blocks, h.goto rfl (hnext
      ⟨hreading.announced, hreading.idle, hreading.depth, hreading.buffer⟩)⟩
  unfold PlaceInv at hplace
  cases runMap_cases hrun with
  | getTable key hpc =>
      simp only [hpc] at hplace
      have hbuffer := hload key hpc
      have hreading : Reading history tid (workers tid) := by
        rcases hplace with
            ⟨hentering, -⟩ | hreading | ⟨-, -, -, own, zeros, epoch, -, -, hpending, -⟩
        · rw [hidle] at hentering
          cases hentering
        · exact hreading
        · rw [hbuffer] at hpending
          simp at hpending
      exact hgoto _ (fun hreading => ⟨hreading, .inl h.life.current, h.heap.represents.table_lt⟩)
        hreading
  | getHead key table current hpc hhead =>
      simp only [hpc] at hplace
      obtain ⟨hreading, hsafe, htable⟩ := hplace
      have hi := Nat.mod_lt (cfg.hash key).toNat (h.heap.size_pos table htable)
      exact hgoto _ (fun hreading => ⟨hreading, hsafe.head h.heap htable hi hhead⟩) hreading
  | getEmpty _ _ hpc | getSame _ _ _ _ hpc | getEnd _ _ hpc =>
      simp only [hpc] at hplace
      exact hgoto _ id hplace.1
  | getFound _ _ hpc | getPassed _ _ hpc | getEven _ _ hpc | getValue _ _ _ hpc
  | getChanged _ _ _ _ hpc =>
      simp only [hpc] at hplace
      obtain ⟨hreading, hsafe⟩ := hplace
      exact hgoto _ (fun hreading => ⟨hreading, hsafe⟩) hreading
  | getOdd key current hpc =>
      simp only [hpc] at hplace
      -- The reader spins: it stays where it is.
      refine ⟨history, blocks, h.goto rfl ?_⟩
      simp only [PlaceInv, hpc]
      exact hplace
  | getNext key current successor hpc hnext =>
      simp only [hpc] at hplace
      obtain ⟨hreading, hsafe⟩ := hplace
      exact hgoto _ (fun hreading => ⟨hreading, hsafe.next h.heap h.life hnext⟩) hreading
  | getExit key result hpc => exact h.exitGet hidle hpc
  | putLock _ _ hpc | putGrow _ _ _ hpc | putFits _ _ hpc | putRetireTable _ _ _ _ hpc
  | putRegister _ _ _ hpc | putLink _ _ _ _ _ hpc | putCount hpc | removeLock _ hpc
  | removeLink _ _ _ hpc | removeAbsent _ hpc | removeCount _ hpc | generation hpc
  | generationRetire _ hpc | unlock hpc => simp [hpc, Pc.inGet] at hget

/-- `Put` grows the table: the new table is built, and its publication goes to the buffer. -/
theorem Inv.build (h : Inv cfg memory workers history blocks chains contents)
    {key : K} {value : V} {built : RcuHashMap K V} (hidle : (workers tid).thread.pc = .idle)
    (hwriting : Writing memory tid (workers tid)) (hbuffer : (workers tid).buffer = [])
    (hbuilt : RcuHashMap.buildTable cfg memory.map (memory.map.tableSize * 2) = some built) :
    ∃ chains', Inv cfg { memory with map := built }
      (Function.update workers tid (((workers tid).goto
        (.putRetireTable key value memory.map.table)).issue (.table memory.map.tableCount)))
      history blocks chains' contents := by
  have hsize : 0 < memory.map.tableSize * 2 := Nat.mul_pos h.heap.represents.size_pos (by decide)
  obtain ⟨copy, newChains, hcopy, hext, -, hfresh, hheap, hnew⟩ := h.heap.build hsize
  obtain rfl := Option.some.inj (hbuilt.symm.trans hcopy)
  have hne : memory.map.tableCount ≠ memory.map.table := Nat.ne_of_gt h.heap.represents.table_lt
  have hold : ∀ table < memory.map.tableCount,
      Function.update chains memory.map.tableCount newChains table = chains table :=
    fun table hlt => Function.update_of_ne (Nat.ne_of_lt hlt) ..
  refine ⟨_, h.extend hwriting.alone hext hheap hold (fun table i node hmem => ?_) rfl ?_⟩
  · exact hfresh table i node hmem
  · simp only [PlaceInv, Worker.goto, Worker.issue, hbuffer, List.nil_append]
    refine ⟨hwriting.moved rfl rfl, hidle, .inr
      ⟨memory.map.tableCount, rfl, hext.table.symm, ?_, ?_, ?_⟩⟩
    · rwa [hext.table]
    · by_contra hstage
      exact absurd (h.life.retired _ hstage) (Nat.lt_irrefl _)
    · rwa [Function.update_self]

omit [DecidableEq K] in
/-- The table that was replaced is handed to `Retire` once its successor has drained. -/
theorem Inv.retireTable (h : Inv cfg memory workers history blocks chains contents) {key : K}
    {value : V} {oldTable : TableId} (hidle : (workers tid).thread.pc = .idle)
    (hbuffer : (workers tid).buffer = [])
    (hpc : (workers tid).pc = .putRetireTable key value oldTable) :
    ∃ history' blocks', Inv cfg
      (MapSteps.beginRetire memory ((workers tid).goto (.putLink key value)) (.table oldTable)).1
      (Function.update workers tid (MapSteps.beginRetire memory
        ((workers tid).goto (.putLink key value)) (.table oldTable)).2)
      history' blocks' chains contents := by
  have hplace := h.places tid
  unfold PlaceInv at hplace
  simp only [hpc] at hplace
  obtain ⟨hwriting, -, hpublishing⟩ := hplace
  have hstage : history.stage (.table oldTable) = .unlinked := by
    rcases hpublishing with ⟨-, hstage⟩ | ⟨newTable, hpending, -⟩
    · exact hstage
    · rw [hbuffer] at hpending
      cases hpending
  exact h.beginRetire ((workers tid).goto (.putLink key value)) rfl hidle
    (hwriting.moved rfl rfl) hstage fun memory' history' worker' hwriting' hpc' hbuffer' => by
      simp only [PlaceInv, hpc', Worker.goto]
      exact ⟨hwriting', hbuffer'.trans hbuffer⟩

/-- `Put` builds a node, and the store that links it goes to the buffer. -/
theorem Inv.linkNode (h : Inv cfg memory workers history blocks chains contents) {key : K}
    {value : V} {node : MapNode K V} {store : Store} {replaced : Option NodeId} {next : Pc K V}
    (hidle : (workers tid).thread.pc = .idle) (hwriting : Writing memory tid (workers tid))
    (hbuffer : (workers tid).buffer = [])
    (hlink : preparePut cfg memory.map key value = some (node, store, replaced))
    (hnext : (∃ current, replaced = some current ∧ next = .generation (some current)) ∨
      replaced = none ∧ next = .putCount) :
    Inv cfg { memory with map := memory.map.newNode node }
      (Function.update workers tid (((workers tid).goto next).issue store)) history blocks chains
      contents := by
  obtain ⟨node', replaced', i, before, after, hprepare, hsplice⟩ :=
    preparePut_spec h.heap key value
  rw [hprepare] at hlink
  cases hlink
  -- The new node has never been unlinked, since it was not allocated.
  have hlive : ∀ fresh ∈ [memory.map.nodeCount], history.stage (.node fresh) = .live := by
    intro fresh hmem
    obtain rfl := List.mem_singleton.mp hmem
    by_contra hstage
    exact absurd (h.life.retired _ hstage) (Nat.lt_irrefl _)
  have hlinking : Linking cfg (memory.map.newNode node) history chains
      [linkStore (memory.map.newNode node) i before.getLast?
        ([memory.map.nodeCount] ++ after).head?] replaced :=
    .inr ⟨i, before, [memory.map.nodeCount], after, _, rfl, hsplice, hlive⟩
  have hext := Extends.newNode memory.map node
  refine h.extend hwriting.alone hext (h.heap.extend hext rfl) (fun _ _ => rfl)
    (fun _ _ _ hmem => .inl hmem) rfl ?_
  rcases hnext with ⟨current, rfl, rfl⟩ | ⟨rfl, rfl⟩
  · simp only [PlaceInv, Worker.goto, Worker.issue, hbuffer, List.nil_append]
    exact ⟨hwriting.moved rfl rfl, hidle, hlinking⟩
  · simp only [PlaceInv, Worker.goto, Worker.issue, hbuffer, List.nil_append]
    exact ⟨hwriting.moved rfl rfl, hidle, hlinking⟩

/-- `Remove` finds the node, and the store that unlinks it goes to the buffer. -/
theorem Inv.unlinkNode (h : Inv cfg memory workers history blocks chains contents) {key : K}
    {store : Store} {current : NodeId} (hidle : (workers tid).thread.pc = .idle)
    (hwriting : Writing memory tid (workers tid)) (hbuffer : (workers tid).buffer = [])
    (hlink : prepareRemove cfg memory.map key = some (some (store, current))) :
    Inv cfg memory
      (Function.update workers tid (((workers tid).goto (.removeCount current)).issue store))
      history blocks chains contents := by
  rcases prepareRemove_spec h.heap key with
      ⟨-, hprepare⟩ | ⟨i, before, removed, after, hprepare, hsplice⟩
  · cases hprepare.symm.trans hlink
  · cases hprepare.symm.trans hlink
    refine h.goto rfl ?_
    simp only [PlaceInv, Worker.goto, Worker.issue, hbuffer, List.nil_append]
    exact ⟨hwriting.moved rfl rfl, hidle, .inr ⟨i, before, [], after, _, rfl, hsplice, by simp⟩⟩

omit [DecidableEq K] in
/-- A node that has been unlinked is handed to `Retire`, after the generation counter changes. -/
theorem Inv.retireNode (h : Inv cfg memory workers history blocks chains contents)
    {current : NodeId} (hidle : (workers tid).thread.pc = .idle)
    (hwriting : Writing memory tid (workers tid)) (hbuffer : (workers tid).buffer = [])
    (hstage : history.stage (.node current) = .unlinked) :
    ∃ history' blocks', Inv cfg
      (MapSteps.beginRetire { memory with map := memory.map.nextGeneration }
        ((workers tid).goto .unlock) (.node current)).1
      (Function.update workers tid
        (MapSteps.beginRetire { memory with map := memory.map.nextGeneration }
          ((workers tid).goto .unlock) (.node current)).2) history' blocks' chains contents := by
  -- The counter changes, and then the thread calls `Retire`.
  have hcount : Inv cfg { memory with map := memory.map.nextGeneration }
      (Function.update workers tid ((workers tid).goto .unlock)) history blocks chains contents :=
    h.counters hwriting.alone rfl ⟨hwriting.moved rfl rfl, hbuffer⟩
  obtain ⟨history', blocks', hinv⟩ := hcount.beginRetire ((workers tid).goto .unlock)
    (by rw [Function.update_self]) hidle (hwriting.moved rfl rfl) hstage
    fun memory' history' worker' hwriting' hpc' hbuffer' => by
      simp only [PlaceInv, hpc', Worker.goto]
      exact ⟨hwriting', hbuffer'.trans hbuffer⟩
  rw [Function.update_idem] at hinv
  exact ⟨history', blocks', hinv⟩

omit [DecidableEq K] in
/-- `Put` calls `Retire` for the old table, and the load of the global epoch follows at once. -/
theorem Inv.retireTable_load (h : Inv cfg memory workers history blocks chains contents)
    (hidle : (workers tid).thread.pc = .idle) (hbuffer : (workers tid).buffer = []) {key : K}
    {value : V} {oldTable : TableId} (hpc : (workers tid).pc = .putRetireTable key value oldTable)
    {own : TcbId} (htls : (workers tid).thread.tlsTcb = some own)
    (hload : MapSteps.runEbr (MapSteps.beginRetire memory ((workers tid).goto (.putLink key value))
        (.table oldTable)).1 tid
      (MapSteps.beginRetire memory ((workers tid).goto (.putLink key value))
        (.table oldTable)).2 = some (memory', worker')) :
    ∃ history' blocks', Inv cfg memory' (Function.update workers tid worker') history' blocks'
      chains contents := by
  obtain ⟨history', blocks', hinv⟩ := h.retireTable hidle hbuffer hpc
  have hnext : (MapSteps.beginRetire memory ((workers tid).goto (.putLink key value))
      (.table oldTable)).2.thread.pc = .retireLoad (.table oldTable) := by
    simp [MapSteps.beginRetire, Concurrency.call, Worker.goto, htls]
  have hself := Function.update_self tid (MapSteps.beginRetire memory
    ((workers tid).goto (.putLink key value)) (.table oldTable)).2 workers
  obtain ⟨history'', blocks'', hinv'⟩ := hinv.runEbr tid
    (by rw [hself, hnext]; simp) (by rw [hself, hnext]; simp) (hself.symm ▸ hload)
  rw [Function.update_idem] at hinv'
  exact ⟨history'', blocks'', hinv'⟩

/-- A writer moves on in `Put` or `Remove`. -/
theorem Inv.runWrite (h : Inv cfg memory workers history blocks chains contents)
    (hidle : (workers tid).thread.pc = .idle)
    (hretire : ∀ key value oldTable, (workers tid).pc = .putRetireTable key value oldTable →
      (workers tid).buffer = [])
    (hwrite : (workers tid).pc.inGet = false)
    (hrun : runMap cfg memory tid (workers tid) = some (memory', worker')) :
    ∃ history' blocks' chains', Inv cfg memory' (Function.update workers tid worker') history'
      blocks' chains' contents := by
  have hplace := h.places tid
  -- A thread that writes and has an empty buffer moves on.
  have hgoto : ∀ pc : Pc K V, PlaceInv cfg memory history chains contents tid
      ((workers tid).goto pc) → ∃ history' blocks' chains', Inv cfg memory
        (Function.update workers tid ((workers tid).goto pc)) history' blocks' chains' contents :=
    fun pc hnext => ⟨history, blocks, chains, h.goto rfl hnext⟩
  unfold PlaceInv at hplace
  cases runMap_cases hrun with
  | putLock _ _ hpc hfree hbuffer | removeLock _ hpc hfree hbuffer =>
      simp only [hpc] at hplace
      refine ⟨history, blocks, chains, h.counters (fun other _ => by simp [hfree]) rfl ?_⟩
      exact ⟨⟨hplace.1.of_thread rfl, rfl⟩, hidle, hbuffer⟩
  | putGrow key value built hpc hfull hbuilt =>
      simp only [hpc] at hplace
      obtain ⟨hwriting, -, hbuffer⟩ := hplace
      obtain ⟨chains', hinv⟩ := h.build hidle hwriting hbuffer hbuilt
      exact ⟨history, blocks, chains', hinv⟩
  | putFits key value hpc =>
      simp only [hpc] at hplace
      obtain ⟨hwriting, -, hbuffer⟩ := hplace
      exact hgoto _ ⟨hwriting.moved rfl rfl, hbuffer⟩
  | putRetireTable key value oldTable own hpc htls hload =>
      obtain ⟨history', blocks', hinv⟩ :=
        h.retireTable_load hidle (hretire key value oldTable hpc) hpc htls hload
      exact ⟨history', blocks', chains, hinv⟩
  | putRegister key value oldTable hpc htls hbuffer =>
      obtain ⟨history', blocks', hinv⟩ := h.retireTable hidle hbuffer hpc
      exact ⟨history', blocks', chains, hinv⟩
  | putLink key value node store replaced hpc hlink =>
      simp only [hpc] at hplace
      obtain ⟨hwriting, hbuffer⟩ := hplace
      rw [hbuffer] at hlink
      refine ⟨history, blocks, chains, h.linkNode hidle hwriting hbuffer hlink ?_⟩
      cases replaced with
      | some current => exact .inl ⟨current, rfl, rfl⟩
      | none => exact .inr ⟨rfl, rfl⟩
  | putCount hpc hbuffer =>
      simp only [hpc] at hplace
      refine ⟨history, blocks, chains, h.counters hplace.1.alone rfl ?_⟩
      exact ⟨hplace.1.moved rfl rfl, hidle, .inl ⟨hbuffer, by simp⟩⟩
  | removeLink key store current hpc hlink =>
      simp only [hpc] at hplace
      obtain ⟨hwriting, -, hbuffer⟩ := hplace
      rw [hbuffer] at hlink
      exact ⟨history, blocks, chains, h.unlinkNode hidle hwriting hbuffer hlink⟩
  | removeAbsent key hpc =>
      simp only [hpc] at hplace
      obtain ⟨hwriting, -, hbuffer⟩ := hplace
      exact hgoto _ ⟨hwriting.moved rfl rfl, hbuffer⟩
  | removeCount current hpc hbuffer =>
      simp only [hpc] at hplace
      refine ⟨history, blocks, chains, h.counters hplace.1.alone rfl ?_⟩
      exact ⟨hplace.1.moved rfl rfl, hidle, .inl ⟨hbuffer, hplace.2.2.drained hbuffer⟩⟩
  | generation hpc hbuffer =>
      simp only [hpc] at hplace
      obtain ⟨hwriting, -⟩ := hplace
      refine ⟨history, blocks, chains, h.counters hwriting.alone rfl ?_⟩
      exact ⟨hwriting.moved rfl rfl, hbuffer⟩
  | generationRetire current hpc hbuffer =>
      simp only [hpc] at hplace
      obtain ⟨hwriting, -, hlinking⟩ := hplace
      obtain ⟨history', blocks', hinv⟩ :=
        h.retireNode hidle hwriting hbuffer (hlinking.drained hbuffer current rfl)
      exact ⟨history', blocks', chains, hinv⟩
  | unlock hpc hbuffer =>
      simp only [hpc] at hplace
      refine ⟨history, blocks, chains, h.counters hplace.1.alone rfl ?_⟩
      exact ⟨hplace.1.toResting.of_thread rfl, hplace.2 ▸ Zeros.nil _⟩
  | getTable _ hpc | getHead _ _ _ hpc | getEmpty _ _ hpc | getFound _ _ hpc | getPassed _ _ hpc
  | getOdd _ _ hpc | getEven _ _ hpc | getValue _ _ _ hpc | getSame _ _ _ _ hpc
  | getChanged _ _ _ _ hpc | getNext _ _ _ hpc | getEnd _ _ hpc | getExit _ _ hpc =>
      simp [hpc, Pc.inGet] at hwrite

/-! ## Calls -/

omit [DecidableEq K] in
/-- A thread that is in no function rests. -/
theorem Inv.resting_of_ready (h : Inv cfg memory workers history blocks chains contents)
    (hready : (workers tid).ready = true) : (workers tid).thread.pc = .idle ∧
      Resting (workers tid) ∧ Zeros (workers tid).thread.tlsTcb (workers tid).buffer := by
  have hplace := h.places tid
  unfold PlaceInv at hplace
  unfold Worker.ready at hready
  cases hpc : (workers tid).pc with
  | idle =>
      cases hthread : (workers tid).thread.pc with
      | idle =>
          simp only [hpc] at hplace
          exact ⟨rfl, hplace⟩
      | _ => simp [hpc, hthread] at hready
  | returned key result =>
      cases hthread : (workers tid).thread.pc with
      | idle =>
          simp only [hpc, hthread] at hplace
          obtain ⟨hdepth, ⟨hexit, -⟩ | ⟨-, hzeros⟩⟩ := hplace
          · cases hexit
          · exact ⟨rfl, ⟨by rw [hthread]; rfl, hdepth⟩, hzeros⟩
      | _ => simp [hpc, hthread] at hready
  | _ => simp [hpc] at hready

omit [DecidableEq K] in
/-- A call keeps the invariant. -/
theorem Inv.call (h : Inv cfg memory workers history blocks chains contents)
    (hready : (workers tid).ready = true) (op : Op K V) :
    ∃ history' blocks', Inv cfg (MapSteps.call memory (workers tid) op).1
      (Function.update workers tid (MapSteps.call memory (workers tid) op).2) history' blocks'
        chains
      contents := by
  obtain ⟨hidle, hresting, hzeros⟩ := h.resting_of_ready hready
  cases op with
  | put key value =>
      exact ⟨history, blocks, h.goto rfl ⟨hresting.of_thread rfl, hidle, hzeros⟩⟩
  | remove key =>
      exact ⟨history, blocks, h.goto rfl ⟨hresting.of_thread rfl, hidle, hzeros⟩⟩
  | get key =>
      obtain ⟨history', hstep, -, hstage⟩ := call_step .enterCritical h.shared (h.threads tid) hidle
        (by simp) (by simp) (by simp)
      obtain ⟨blocks', hinv⟩ := h.ebrStep (MapSteps.call memory (workers tid) (.get key)).2 hstep
        (.inr fun object hobject => by rw [hstage (by simp), hobject]) (by
          -- The thread begins `EnterCritical`, if need be with `RegisterThread`.
          simp only [PlaceInv, MapSteps.call, Worker.goto, Concurrency.call]
          refine .inl ?_
          cases htls : (workers tid).thread.tlsTcb with
          | some own =>
              simp only [beginEnter, hresting.depth, if_true]
              exact ⟨rfl, rfl, htls ▸ hzeros⟩
          | none =>
              simp only [beginRegister]
              exact ⟨rfl, hresting.depth, htls ▸ hzeros⟩)
      exact ⟨history', blocks', hinv⟩
  | gc =>
      obtain ⟨history', hstep, -, hstage⟩ := call_step .gc h.shared (h.threads tid) hidle
        (by simp) (by simp) (by simp)
      obtain ⟨blocks', hinv⟩ := h.ebrStep (MapSteps.call memory (workers tid) .gc).2 hstep
        (.inr fun object hobject => by rw [hstage (by simp), hobject])
        ⟨⟨rfl, hresting.depth⟩, hzeros⟩
      exact ⟨history', blocks', hinv⟩

/-! ## Every step -/

/-- A reader loads `table_` while its epoch is still in its buffer. -/
def loadsUnannounced (state : State K V) : Event K V → Bool
  | .run tid =>
      match (state.workers tid).pc, (state.workers tid).thread.pc with
      | .getTable _, .idle => !(state.workers tid).buffer.isEmpty
      | _, _ => false
  | _ => false

/-- `Resize` retires the old table while the store of the new one is still in the buffer. -/
def retiresUnpublished (state : State K V) : Event K V → Bool
  | .run tid =>
      match (state.workers tid).pc, (state.workers tid).thread.pc with
      | .putRetireTable _ _ _, .idle => !(state.workers tid).buffer.isEmpty
      | _, _ => false
  | _ => false

/-- A compare-and-swap takes the global epoch from its largest value to zero. -/
def wraps (state : State K V) : Event K V → Bool
  | .run tid =>
      match (state.workers tid).thread.pc with
      | .gcCas _ currentGlobal =>
          state.memory.ebr.globalEpoch == currentGlobal && currentGlobal + 1 == 0
      | _ => false
  | _ => false

/-- None of these three things happens. -/
def inOrder (state : State K V) (event : Event K V) : Bool :=
  !loadsUnannounced state event && !retiresUnpublished state event && !wraps state event

/-- The invariant of a run. -/
def Sound (cfg : MapConfig K) (state : State K V) : Prop :=
  ∃ history blocks chains contents,
    Inv cfg state.memory state.workers history blocks chains contents

omit [DecidableEq K] in
/-- A run starts with an empty map and without control blocks. -/
theorem Sound.init (cfg : MapConfig K) (memory : NodeId → MapNode K V) :
    Sound cfg { memory := { map := RcuHashMap.create cfg memory } } := by
  refine ⟨⟨fun _ => .live, fun _ => none, fun _ _ => false, fun _ => none⟩, [], fun _ _ => [],
    fun _ => none, ?_, fun tid => ?_, HeapInv.create cfg memory, ?_, rfl, fun tid => ?_⟩
  · constructor <;> simp
  · constructor <;> simp [Concurrency.Pc.entering, Concurrency.PcInv]
  · constructor <;> simp
  · exact ⟨⟨rfl, rfl⟩, Zeros.nil _⟩

/-- Every step that is in order keeps the invariant. -/
theorem Sound.step {state next : State K V} {event : Event K V} (h : Sound cfg state)
    (hallow : inOrder state event = true) (hstep : MapSteps.step cfg state event = some next) :
    Sound cfg next := by
  obtain ⟨history, blocks, chains, contents, hinv⟩ := h
  simp only [inOrder, Bool.and_eq_true, Bool.not_eq_true'] at hallow
  obtain ⟨⟨hload, hretire⟩, hwraps⟩ := hallow
  simp only [MapSteps.step, Option.map_eq_some_iff] at hstep
  obtain ⟨⟨memory', worker'⟩, hact, rfl⟩ := hstep
  cases event with
  | call tid op =>
      simp only [act] at hact
      split at hact
      · next hready =>
          obtain ⟨history', blocks', hinv'⟩ := hinv.call hready op
          rw [Option.some.inj hact] at hinv'
          exact ⟨history', blocks', chains, contents, hinv'⟩
      · cases hact
  | drain tid =>
      simp only [act] at hact
      split at hact
      · next store rest hbuffer =>
          obtain ⟨rfl, rfl⟩ := Prod.mk.inj (Option.some.inj hact)
          exact hinv.drain hbuffer
      · cases hact
  | run tid =>
      simp only [act, MapSteps.run, Event.thread] at hact
      split at hact
      · next hidle =>
          cases hget : (state.workers tid).pc.inGet with
          | true =>
              have hdrained : ∀ key, (state.workers tid).pc = .getTable key →
                  (state.workers tid).buffer = [] := by
                intro key hpc
                simpa [loadsUnannounced, hpc, hidle] using hload
              obtain ⟨history', blocks', hinv'⟩ := hinv.runGet hidle hdrained hget hact
              exact ⟨history', blocks', chains, contents, hinv'⟩
          | false =>
              have hdrained : ∀ key value oldTable,
                  (state.workers tid).pc = .putRetireTable key value oldTable →
                  (state.workers tid).buffer = [] := by
                intro key value oldTable hpc
                simpa [retiresUnpublished, hpc, hidle] using hretire
              obtain ⟨history', blocks', chains', hinv'⟩ :=
                hinv.runWrite hidle hdrained hget hact
              exact ⟨history', blocks', chains', contents, hinv'⟩
      · next hidle =>
          have hwrap : ∀ current currentGlobal,
              (state.workers tid).thread.pc = .gcCas current currentGlobal →
              state.memory.ebr.globalEpoch = currentGlobal → currentGlobal + 1 ≠ 0 := by
            intro current currentGlobal hpc hglobal hzero
            simp [wraps, hpc, hglobal, hzero] at hwraps
          obtain ⟨history', blocks', hinv'⟩ := hinv.runEbr tid (fun hpc => hidle hpc) hwrap hact
          exact ⟨history', blocks', chains, contents, hinv'⟩

end Map

end HotPath.Concurrency.MapSteps
