import HotPath.Concurrency.MapRuns
import HotPath.Concurrency.EpochCycles

/-!
# Readers are announced, and nothing they hold is deleted

`readers_announced` says that a reader which has loaded `table_` has its epoch in memory, where
every scan of `Gc` finds it, and that nothing it holds has been deleted, in every run whose events
are in order. `EnterCritical` only puts the epoch into the store buffer, and the load of `table_`
can overtake it (`reader_overtakes_epoch`).
-/

namespace HotPath.Concurrency.MapSteps

open HotPath.Foundation

variable {K V : Type}

/-! ## Readers -/

/-- `Get` has loaded `table_`, and has not left its critical section. -/
def Pc.loaded : Pc K V → Bool
  | .getBucket _ _ | .getKey _ _ | .getSeqBefore _ _ | .getValue _ _ _ | .getSeqAfter _ _ _ _
  | .getNext _ _ | .getExit _ _ => true
  | _ => false

/-- What `Get` is about to dereference. -/
def Pc.held : Pc K V → Option Object
  | .getBucket _ table => some (.table table)
  | .getKey _ current | .getSeqBefore _ current | .getValue _ current _
  | .getSeqAfter _ current _ _ | .getNext _ current => some (.node current)
  | _ => none

/-- The thread has a block on the list, and the block shows an epoch in memory. -/
def Announced (state : State K V) (tid : ThreadId) : Prop :=
  ∃ own blocks, (state.workers tid).thread.tlsTcb = some own ∧
    IsChain (fun tcb => (state.memory.ebr.tcbs tcb).next) state.memory.ebr.head blocks ∧
    own ∈ blocks ∧ (state.memory.ebr.tcbs own).active = true ∧
    (state.memory.ebr.tcbs own).localEpoch ≠ kEpochInactive

/-- In every run whose events meet `allow`, a reader that has loaded `table_` is announced, and
what it holds has not been deleted. -/
def AnnouncedReaders [DecidableEq K] (cfg : MapConfig K) (V : Type)
    (allow : State K V → Event K V → Prop) : Prop :=
  ∀ state, (machine cfg).Reachable allow state → ∀ tid,
    ((state.workers tid).pc.loaded = true → Announced state tid) ∧
      ∀ object, (state.workers tid).pc.held = some object → object ∉ state.memory.freed

section Readers

variable {cfg : MapConfig K} {state : State K V} {tid : ThreadId}

/-- A thread that has published an epoch is announced. -/
theorem Inv.announced {history : History Object} {blocks : List TcbId} {chains : Chains}
    {contents : K → Option V}
    (h : Inv cfg state.memory state.workers history blocks chains contents)
    (hannounced : history.announced tid ≠ none) : Announced state tid := by
  obtain ⟨⟨own, epoch⟩, hentry⟩ := Option.ne_none_iff_exists'.mp hannounced
  obtain ⟨htls, -⟩ := (h.threads tid).inside own epoch hentry
  obtain ⟨hmem, -⟩ := h.shared.listed tid own epoch hentry
  obtain ⟨hactive, hlocal, hne, -⟩ := h.shared.published tid own epoch hentry
  exact ⟨own, blocks, htls, h.shared.chain, hmem, hactive, hlocal ▸ hne⟩

/-- A reader that has loaded `table_` is announced. -/
theorem Sound.announced (h : Sound cfg state) (hloaded : (state.workers tid).pc.loaded = true) :
    Announced state tid := by
  obtain ⟨history, blocks, chains, contents, hinv⟩ := h
  have hplace := hinv.places tid
  refine hinv.announced ?_
  unfold PlaceInv at hplace
  cases hpc : (state.workers tid).pc with
  | getExit key result =>
      simp only [hpc] at hplace
      exact hplace.announced
  | getBucket key table | getKey key current | getSeqBefore key current | getValue key current seq
  | getSeqAfter key current seq value | getNext key current =>
      simp only [hpc] at hplace
      exact hplace.1.announced
  | _ => simp [hpc, Pc.loaded] at hloaded

/-- What a reader holds has not been deleted. -/
theorem Sound.held_not_freed (h : Sound cfg state) {object : Object}
    (hheld : (state.workers tid).pc.held = some object) : object ∉ state.memory.freed := by
  obtain ⟨history, blocks, chains, contents, hinv⟩ := h
  have hplace := hinv.places tid
  have hnode : ∀ node, SafeNode history chains tid node → Object.node node ∉ state.memory.freed :=
    fun node hsafe => hsafe.not_freed hinv.shared hinv.heap hinv.life hinv.freed
  unfold PlaceInv at hplace
  cases hpc : (state.workers tid).pc with
  | getBucket key table =>
      simp only [hpc] at hplace
      obtain rfl : Object.table table = object := by simpa [hpc, Pc.held] using hheld
      exact hplace.2.1.not_freed hinv.shared hinv.freed
  | getKey key current | getSeqBefore key current | getValue key current seq
  | getSeqAfter key current seq value | getNext key current =>
      simp only [hpc] at hplace
      obtain rfl : Object.node current = object := by simpa [hpc, Pc.held] using hheld
      exact hnode current hplace.2
  | _ => simp [hpc, Pc.held] at hheld

end Readers

/-- Readers are announced in every run whose events are in order. -/
theorem readers_announced [DecidableEq K] (cfg : MapConfig K) (V : Type) :
    AnnouncedReaders cfg V fun state event => inOrder state event = true := by
  intro state hreach tid
  have hsound : Sound cfg state := by
    refine hreach.invariant (Sound cfg) ?_ ?_
    · rintro state ⟨memory, rfl⟩
      exact Sound.init cfg memory
    · exact fun state event next h hallow hstep => h.step hallow hstep
  exact ⟨hsound.announced, fun object hheld => hsound.held_not_freed hheld⟩

/-! ## An epoch that stays in its buffer -/

/-- A map with two buckets and the identity as its hash function. -/
def smallMap : MapConfig Nat := ⟨UInt64.ofNat, 2, by decide⟩

/-- Nothing has happened yet. -/
def emptyMap : State Nat Nat :=
  { memory := { map := RcuHashMap.create smallMap fun _ => ⟨0, 0, 0, none⟩ } }

/-- A thread takes several steps. -/
def steps (tid : ThreadId) (count : Nat) : List (Event Nat Nat) := List.replicate count (.run tid)

/-- Thread 1 loads `table_` and the first node while its epoch is still in its buffer. Thread 0
replaces the node, and its second `Gc` deletes it. -/
def overtakenEpoch : List (Event Nat Nat) :=
  .call 0 (.put 0 10) :: steps 0 3 ++ .drain 0 :: steps 0 3 ++ .call 1 (.get 0) :: steps 1 8 ++
    .call 0 (.put 0 11) :: steps 0 3 ++ .drain 0 :: steps 0 8 ++
    .call 0 .gc :: steps 0 12 ++ .call 0 .gc :: steps 0 13

/-- A node is deleted under a reader whose epoch has not reached memory. -/
theorem reader_overtakes_epoch : ¬ AnnouncedReaders smallMap Nat fun _ _ => True := by
  intro hannounced
  obtain ⟨state, hreach, hheld⟩ := System.exists_reachable_of_replay (machine smallMap)
    (fun _ _ => True) emptyMap overtakenEpoch
    (fun state => (state.workers 1).pc.held.any fun object => state.memory.freed.contains object)
    (.init ⟨_, rfl⟩) (by decide +kernel)
  cases hobject : (state.workers 1).pc.held with
  | none => simp [hobject] at hheld
  | some object =>
      exact (hannounced state hreach 1).2 object hobject (by simpa [hobject] using hheld)

/-! ## Sequential consistency -/

/-- In every run whose events meet `allow`, nothing that a `Get` is about to dereference has been
deleted, and nothing is deleted twice, also if the destructor of the map runs next. -/
def LifetimesSound [DecidableEq K] (cfg : MapConfig K) (V : Type)
    (allow : State K V → Event K V → Prop) : Prop :=
  ∀ state, (sequential cfg).Reachable allow state →
    (∀ tid object, (state.workers tid).pc.held = some object → object ∉ state.memory.freed) ∧
      (state.memory.freed ++
        destroyed state.memory.map (.table state.memory.map.table)).Nodup

section Sequential

variable {cfg : MapConfig K} {state next : State K V} {tid : ThreadId}

/-- Buffered stores drain one after the other. -/
theorem Sound.settle (h : Sound cfg state) (tid : ThreadId) :
    Sound cfg (MapSteps.settle state tid) := by
  obtain ⟨memory, workers⟩ := state
  generalize hbuffer : (workers tid).buffer = buffer
  induction buffer generalizing memory workers with
  | nil =>
      have hsame : { workers tid with buffer := [] } = workers tid := by rw [← hbuffer]
      simp only [MapSteps.settle, hbuffer, List.foldl_nil, hsame, Function.update_eq_self]
      exact h
  | cons store rest ih =>
      obtain ⟨history, blocks, chains, contents, hinv⟩ := h
      have hdrained : Sound cfg ⟨memory.apply store,
          Function.update workers tid { workers tid with buffer := rest }⟩ := hinv.drain hbuffer
      have hrest := ih _ _ hdrained (by rw [Function.update_self])
      simpa only [MapSteps.settle, hbuffer, List.foldl_cons, Function.update_self,
        Function.update_idem] using hrest

/-- With empty buffers only the epoch can get out of order. -/
theorem Settled.inOrder {event : Event K V} (h : Settled state)
    (hwraps : wraps state event = false) : inOrder state event = true := by
  have hload : loadsUnannounced state event = false := by
    unfold loadsUnannounced
    cases event with
    | run tid => simp only [h tid, List.isEmpty_nil, Bool.not_true]; split <;> rfl
    | _ => rfl
  have hretire : retiresUnpublished state event = false := by
    unfold retiresUnpublished
    cases event with
    | run tid => simp only [h tid, List.isEmpty_nil, Bool.not_true]; split <;> rfl
    | _ => rfl
  simp [MapSteps.inOrder, hload, hretire, hwraps]

/-- The invariant holds in every sequentially consistent run, unless the epoch wraps. -/
theorem Sound.reachable [DecidableEq K]
    (hreach : (sequential cfg).Reachable (fun state event => wraps state event = false) state) :
    Sound cfg state ∧ Settled state := by
  refine hreach.invariant (fun state => Sound cfg state ∧ Settled state) ?_ ?_
  · rintro state ⟨memory, rfl⟩
    exact ⟨Sound.init cfg memory, fun _ => rfl⟩
  · intro state event next hinv hwraps hstep
    refine ⟨?_, hinv.2.step hstep⟩
    obtain ⟨middle, hmiddle, rfl⟩ := Option.map_eq_some_iff.mp hstep
    exact (hinv.1.step (hinv.2.inOrder hwraps) hmiddle).settle event.thread

/-- A table owns each of its nodes once. -/
theorem owned_nodup {map : RcuHashMap K V} {chains : Chains} {contents : K → Option V}
    (h : HeapInv cfg map chains contents) {object : Object} (halloc : Allocated map object) :
    (owned map chains object).Nodup := by
  cases object with
  | node node => exact List.nodup_singleton _
  | table table =>
      refine List.nodup_cons.mpr ⟨by simp, List.nodup_flatMap.mpr ⟨fun i hi => ?_, ?_⟩⟩
      · have hchain := (h.chain table halloc i (List.mem_range.mp hi)).nodup
        exact hchain.map fun _ _ heq => Object.node.inj heq
      · refine List.nodup_range.imp_of_mem fun {i j} _ _ hne => ?_
        intro object hi hj
        obtain ⟨node, hnode, rfl⟩ := List.mem_map.mp hi
        obtain ⟨other, hother, heq⟩ := List.mem_map.mp hj
        obtain rfl := Object.node.inj heq
        exact hne (h.unique table i table j other hnode hother).2

/-- What two objects own is disjoint, unless one of them is a node in a chain of the other. -/
theorem owned_disjoint {map : RcuHashMap K V} {chains : Chains} {contents : K → Option V}
    (h : HeapInv cfg map chains contents) {object other : Object} (hne : object ≠ other)
    (hobject : ∀ node, object = .node node → ∀ table i, node ∉ chains table i)
    (hother : ∀ node, other = .node node → ∀ table i, node ∉ chains table i) :
    List.Disjoint (owned map chains object) (owned map chains other) := by
  have hmem : ∀ owner freed, freed ∈ owned map chains owner → freed = owner ∨
      ∃ node table i, freed = .node node ∧ owner = .table table ∧ node ∈ chains table i := by
    intro owner freed hfreed
    cases owner with
    | node node => exact .inl (List.mem_singleton.mp hfreed)
    | table table =>
        rcases List.mem_cons.mp hfreed with rfl | hfreed
        · exact .inl rfl
        · obtain ⟨i, -, hfreed⟩ := List.mem_flatMap.mp hfreed
          obtain ⟨node, hnode, rfl⟩ := List.mem_map.mp hfreed
          exact .inr ⟨node, table, i, rfl, rfl, hnode⟩
  intro freed hleft hright
  rcases hmem object freed hleft with rfl | ⟨node, table, i, rfl, rfl, hnode⟩
  · rcases hmem other freed hright with rfl | ⟨node, table, i, rfl, -, hnode⟩
    · exact hne rfl
    · exact hobject node rfl table i hnode
  · rcases hmem other _ hright with heq | ⟨node', table', j, heq, rfl, hnode'⟩
    · exact hother node heq.symm table i hnode
    · obtain rfl := Object.node.inj heq
      obtain ⟨rfl, -⟩ := h.unique table i table' j node hnode hnode'
      exact hne rfl

/-- Nothing is deleted twice, also if the destructor of the map runs next. -/
theorem Sound.freed_nodup (h : Sound cfg state) :
    (state.memory.freed ++ destroyed state.memory.map (.table state.memory.map.table)).Nodup := by
  obtain ⟨history, blocks, chains, contents, hinv⟩ := h
  have hcurrent : Allocated state.memory.map (.table state.memory.map.table) :=
    hinv.heap.represents.table_lt
  have hstage : ∀ object ∈ state.memory.ebr.deleted, history.stage object ≠ .live :=
    fun object hmem => by simp [hinv.shared.deleted object hmem]
  have hall : state.memory.freed ++ destroyed state.memory.map (.table state.memory.map.table) =
      (state.memory.ebr.deleted ++ [Object.table state.memory.map.table]).flatMap
        (owned state.memory.map chains) := by
    rw [destroyed_eq hinv.heap hcurrent, List.flatMap_append, hinv.freed]
    simp
  -- A node that has been deleted itself is in no chain.
  have hnode : ∀ object ∈ state.memory.ebr.deleted ++ [Object.table state.memory.map.table],
      ∀ node, object = .node node → ∀ table i, node ∉ chains table i := by
    rintro object hmem node rfl table i hin
    have hdeleted : Object.node node ∈ state.memory.ebr.deleted := by simpa using hmem
    exact hstage _ hdeleted (hinv.life.live table i node hin)
  have hdistinct : (state.memory.ebr.deleted ++ [Object.table state.memory.map.table]).Nodup := by
    refine List.nodup_append.mpr ⟨hinv.shared.once, List.nodup_singleton _, ?_⟩
    intro object hobject other hother
    obtain rfl := List.mem_singleton.mp hother
    rintro rfl
    exact hstage _ hobject hinv.life.current
  rw [hall]
  refine List.nodup_flatMap.mpr ⟨fun object hmem => owned_nodup hinv.heap ?_, ?_⟩
  · rcases List.mem_append.mp hmem with hdeleted | hself
    · exact hinv.life.retired object (hstage object hdeleted)
    · obtain rfl := List.mem_singleton.mp hself
      exact hcurrent
  · exact hdistinct.imp_of_mem fun hobject hother hne =>
      owned_disjoint hinv.heap hne (hnode _ hobject) (hnode _ hother)

end Sequential

/-- Lifetimes are sound in every sequentially consistent run, unless the epoch wraps. -/
theorem lifetimes_sound [DecidableEq K] (cfg : MapConfig K) (V : Type) :
    LifetimesSound cfg V fun state event => wraps state event = false := by
  intro state hreach
  obtain ⟨hsound, -⟩ := Sound.reachable hreach
  exact ⟨fun tid object hheld => hsound.held_not_freed hheld, hsound.freed_nodup⟩

/-! ## The epoch wraps -/

/-- Threads 0 and 1 call `Get`, which registers them, and thread 0 puts a first node. -/
def registered : List (Event Nat Nat) :=
  .call 0 (.get 0) :: steps 0 10 ++ .call 1 (.get 0) :: steps 1 10 ++
    .call 0 (.put 0 10) :: steps 0 6

/-- Both threads are registered and between two calls, and the node of key 0 is in its bucket. -/
def isRegistered (state : State Nat Nat) : Bool :=
  (match state.workers 0 with | ⟨⟨some 0, 0, .idle⟩, .idle, []⟩ => true | _ => false) &&
  (match state.workers 1 with | ⟨⟨some 1, 0, .idle⟩, .returned _ _, []⟩ => true | _ => false) &&
  state.memory.writeMutex == none && state.memory.map.isFull == false &&
  (state.memory.map.tables state.memory.map.table).buckets
    (state.memory.map.bucketIndex smallMap state.memory.map.table 0) == some 0 &&
  (state.memory.map.nodes 0).key == 0 && state.memory.ebr.globalEpoch == 1 &&
  state.memory.ebr.head == some 1 && (state.memory.ebr.tcbs 1).next == some 0 &&
  (state.memory.ebr.tcbs 0).next == none && (state.memory.ebr.tcbs 1).localEpoch == 0 &&
  (state.memory.ebr.tcbs 0).localEpoch == 0 &&
  (state.memory.ebr.tcbs 0).retirementBatches.isEmpty

/-- Such a state is a start for rounds of `Put`. -/
theorem quiet_of_isRegistered {state : State Nat Nat} (h : isRegistered state = true) :
    state.workers 0 = resting 0 ∧
      (∃ key result, state.workers 1 = (resting 1).goto (.returned key result)) ∧
      Quiet smallMap 0 0 state.memory ∧ state.memory.ebr.globalEpoch = 1 ∧
      (state.memory.ebr.tcbs 0).retirementBatches = [] := by
  simp only [isRegistered, Bool.and_eq_true, beq_iff_eq, List.isEmpty_iff] at h
  obtain ⟨⟨⟨⟨⟨⟨⟨⟨⟨⟨⟨⟨hwriter, hreader⟩, hmutex⟩, hroom⟩, hbucket⟩, hkey⟩, hepoch⟩, hhead⟩, hfirst⟩,
    hsecond⟩, hone⟩, hzero⟩, hbatches⟩ := h
  refine ⟨?_, ?_, ⟨hmutex, ⟨hbucket, hkey, hroom⟩, [1, 0], ?_, ?_⟩, hepoch, hbatches⟩
  · split at hwriter
    · next hworker => exact hworker
    · cases hwriter
  · split at hreader
    · next key result hworker => exact ⟨key, result, hworker⟩
    · cases hreader
  · simp [hhead, hfirst, hsecond]
  · simp [hone, hzero, kEpochInactive]

/-- At epoch zero a reader publishes the value that means inactive. Two more batches of `Put` then
delete the node that it has come to. -/
theorem wrapped_epoch_frees_held :
    ¬ LifetimesSound smallMap Nat fun _ event => callsGc event = false := by
  intro hsound
  obtain ⟨start, hstart, hregistered⟩ := System.exists_reachable_of_replay (sequential smallMap)
    (fun _ event => callsGc event = false) emptyMap registered isRegistered
    (.init ⟨_, rfl⟩) (by decide +kernel)
  obtain ⟨hwriter, ⟨key, result, hreader⟩, hquiet, hepoch, hbatches⟩ :=
    quiet_of_isRegistered hregistered
  have hfirst : Reached smallMap ⟨start.memory, Function.update start.workers 0 (resting 0)⟩ := by
    rw [← hwriter, Function.update_eq_self]
    exact hstart
  obtain ⟨wrapped, node, hwrapped, hquiet, hzero, hlast⟩ :=
    hquiet.rounds 11 (2 ^ 64 - 1) (by simp [hbatches]) hfirst
  have hzero : wrapped.ebr.globalEpoch = 0 := by
    rw [hzero, hepoch]
    decide
  -- The reader comes to the node.
  have hready : Reached smallMap ⟨wrapped, Function.update
      (Function.update start.workers 0 (resting 0)) 1
        ((resting 1).goto (.returned key result))⟩ := by
    rw [← hreader, Function.update_comm (by decide), Function.update_eq_self]
    exact hwrapped
  obtain ⟨held, reading, hheld, hpc, hquiet, hstill, hsame⟩ := hquiet.hold hzero rfl hready
  have hreading : Reached smallMap ⟨held, Function.update
      (Function.update start.workers 1 reading) 0 (resting 0)⟩ := by
    rwa [Function.update_comm (by decide)] at hheld
  -- The first batch retires it, and the second deletes it.
  obtain ⟨retired, next, nodes, hretired, hquiet, hone, hleft, hmem, -⟩ :=
    hquiet.advance 11 (by rwa [hsame, hstill, ← hzero]) hreading
  rw [hstill] at hone hleft
  obtain ⟨final, -, -, hfinal, -, -, -, -, hfreed⟩ :=
    hquiet.advance 11 (by simp [hleft, hone]) hretired
  have hold : (0 : UInt64) < retired.ebr.globalEpoch := by
    rw [hone]
    decide
  refine (hsound _ hfinal).1 1 (.node node) ?_ ?_
  · simp [hpc, Pc.held]
  · exact hfreed ⟨0, nodes⟩ (by simp [hleft]) hold _ hmem

end HotPath.Concurrency.MapSteps
