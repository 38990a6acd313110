import HotPath.Concurrency.GcTermination
import HotPath.Concurrency.RetiredBound

/-!
# Retirement batches are in order, and `Gc` collects a prefix

`Retire` compares the epoch that it has read with that of the newest batch only, and other threads
may advance the epoch before it pushes the node. `Gc` erases batches of the list over which it
walks. `BatchesExact` says what holds nevertheless: the epochs of a block's batches increase, every
retired node is in one batch until it is deleted, and a call of `Gc` takes away exactly the batches
that are older than its minimum, which are the first ones.

What is remembered of a run are the nodes passed to `Retire`, pushed to a batch and deleted, and
for every call of `Gc` the batches before and after it. `BatchStep` is everything that a step can
do to the batches, and `Sweeping` is the invariant of the loop that erases them.
-/

namespace HotPath.Concurrency

open HotPath.Foundation

variable {Node : Type}

/-! ## What is remembered of a run -/

/-- The values that a log has under a key. -/
def entries {Key Value : Type} [DecidableEq Key] (log : List (Key × Value)) (key : Key) :
    List Value :=
  (log.filter fun entry => entry.1 = key).map Prod.snd

/-- The value of `min_epoch` inside `Gc`. -/
def Part.minEpoch : Part Node → Option UInt64
  | .scanning minEpoch => minEpoch
  | .sweeping minEpoch _ => some minEpoch
  | _ => none

/-- The batches of the block that `tls_tcb` names. -/
def ownBatches (shared : Shared Node) (tlsTcb : Option TcbId) : List (Batch Node) :=
  match tlsTcb with
  | some tcb => (shared.tcbs tcb).retirementBatches
  | none => []

/-- The nodes that a step deletes. -/
def newlyDeleted (shared shared' : Shared Node) : List Node :=
  shared'.deleted.drop shared.deleted.length

/-- How far a step moves the global epoch. -/
def epochMoves (shared shared' : Shared Node) : Nat :=
  (shared'.globalEpoch - shared.globalEpoch).toNat

/-- A call of `Gc`: the batches of its thread when it began, and the nodes that it has deleted and
the epochs that it has moved since. -/
structure GcCall (Node : Type) where
  before : List (Batch Node)
  deleted : List Node := []
  moved : Nat := 0

/-- A step inside the call. -/
def GcCall.step (call : GcCall Node) (shared shared' : Shared Node) : GcCall Node :=
  { call with
    deleted := call.deleted ++ newlyDeleted shared shared'
    moved := call.moved + epochMoves shared shared' }

/-- A call of `Gc` that has returned, with its minimum and the batches that it left. -/
structure GcReport (Node : Type) extends GcCall Node where
  minEpoch : UInt64
  after : List (Batch Node)

/-- What is remembered of a run: the nodes passed to `Retire` with their threads, the nodes pushed
to a batch with thread and block, the deleted nodes with the block of the thread that deleted them,
the calls of `Gc` that have begun and those that have returned, and how far calls of `Gc` have moved
the global epoch. -/
structure RetireHistory (Node : Type) where
  passed : List (ThreadId × Node) := []
  pushed : List (ThreadId × Option TcbId × Node) := []
  freed : List (Option TcbId × Node) := []
  calls : ThreadId → Option (GcCall Node) := fun _ => none
  reports : List (GcReport Node) := []
  moved : Nat := 0

/-- The nodes that an action passes to `Retire`. -/
def Action.passed : Action Node → List Node
  | .retire node => node.toList
  | _ => []

/-- The nodes that the next step pushes to a batch. -/
def Part.pushed : Part Node → List Node
  | .pushing node _ => [node]
  | _ => []

/-- The open call of `Gc` after a step: it begins, goes on or is over. -/
def nextCall (call : Option (GcCall Node)) (shared shared' : Shared Node)
    (thread' : Thread Node) : Option (GcCall Node) :=
  match thread'.pc.part with
  | .scanning none => some { before := ownBatches shared' thread'.tlsTcb }
  | .scanning (some _) | .sweeping _ _ => call.map fun call => call.step shared shared'
  | _ => none

/-- The report of a call of `Gc` that returns with a step. -/
def nextReport (call : Option (GcCall Node)) (shared : Shared Node) (thread : Thread Node)
    (shared' : Shared Node) (thread' : Thread Node) : List (GcReport Node) :=
  match thread'.pc.part, call, thread.pc.part.minEpoch with
  | .elsewhere, some call, some minEpoch =>
      [{ call.step shared shared' with minEpoch, after := ownBatches shared' thread'.tlsTcb }]
  | _, _, _ => []

/-- What an action of a thread adds to the history. -/
def RetireHistory.act (history : RetireHistory Node) (tid : ThreadId) (action : Action Node)
    (shared : Shared Node) (thread : Thread Node) (shared' : Shared Node)
    (thread' : Thread Node) : RetireHistory Node where
  passed := history.passed ++ action.passed.map fun node => (tid, node)
  pushed := history.pushed ++ thread.pc.part.pushed.map fun node => (tid, thread.tlsTcb, node)
  freed := history.freed ++ (newlyDeleted shared shared').map fun node => (thread.tlsTcb, node)
  calls := Function.update history.calls tid (nextCall (history.calls tid) shared shared' thread')
  reports := history.reports ++ nextReport (history.calls tid) shared thread shared' thread'
  moved := history.moved + if (history.calls tid).isSome then epochMoves shared shared' else 0

/-- The history of a run. -/
def collections : Recorder (State Node) (Event Node) (RetireHistory Node) where
  start _ := {}
  observe state event next history :=
    match event with
    | .thread tid action =>
        history.act tid action state.shared (state.threads tid) next.shared (next.threads tid)
    | .unlink _ => history

/-! ## What holds of it -/

/-- The nodes that have been pushed to the batches of a block. -/
def RetireHistory.pushedTo (history : RetireHistory Node) (tcb : TcbId) : List Node :=
  entries (history.pushed.map Prod.snd) (some tcb)

/-- The nodes that have been deleted from the batches of a block. -/
def RetireHistory.freedFrom (history : RetireHistory Node) (tcb : TcbId) : List Node :=
  entries history.freed (some tcb)

/-- The nodes that a thread has passed to `Retire`. -/
def RetireHistory.passedBy (history : RetireHistory Node) (tid : ThreadId) : List Node :=
  entries history.passed tid

/-- The nodes that a thread has pushed to a batch. -/
def RetireHistory.pushedBy (history : RetireHistory Node) (tid : ThreadId) : List Node :=
  (entries history.pushed tid).map Prod.snd

/-- The node is in the batch at an index of a block. -/
def InBatch (shared : Shared Node) (node : Node) (tcb : TcbId) (index : Nat) : Prop :=
  ∃ batch, (shared.tcbs tcb).retirementBatches[index]? = some batch ∧ node ∈ batch.nodes

/-- A call of `Gc` removed the batches below its minimum, which were the first ones, and deleted
their nodes. It left the others as they were, and moved the global epoch by at most one. -/
structure GcReport.Exact (report : GcReport Node) : Prop where
  removed : ∃ removed, report.before = removed ++ report.after ∧
    (∀ batch ∈ removed, batch.epoch < report.minEpoch) ∧
    report.deleted = removed.flatMap Batch.nodes
  kept : ∀ batch ∈ report.after, ¬ batch.epoch < report.minEpoch
  moved : report.moved ≤ 1

/-- The batches of every block are in order and hold what has been pushed to them and is not
deleted yet, in the order in which it was pushed. Every call of `Gc` has been exact, every thread
inside one returns if it runs alone, and only calls of `Gc` have moved the global epoch. -/
structure CollectedExactly (state : State Node) (history : RetireHistory Node) : Prop where
  increasing : ∀ tcb, (state.shared.tcbs tcb).retirementBatches.Pairwise
    fun older newer => older.epoch < newer.epoch
  upToGlobal : ∀ tcb, ∀ batch ∈ (state.shared.tcbs tcb).retirementBatches,
    batch.epoch ≤ state.shared.globalEpoch
  passed : ∀ tid,
    history.passedBy tid = history.pushedBy tid ++ (state.threads tid).pc.inHand.toList
  pending : ∀ tcb,
    history.pushedTo tcb = history.freedFrom tcb ++ state.shared.retiredNodes tcb
  freed : history.freed.map Prod.snd = state.shared.deleted
  oneBatch : (history.passed.map Prod.snd).Nodup →
    ∀ tid, ∀ node ∈ history.passedBy tid, node ∉ state.shared.deleted →
      (state.threads tid).pc.inHand ≠ some node →
      ∃ tcb index, (tid, some tcb, node) ∈ history.pushed ∧
        ∀ other place, InBatch state.shared node other place ↔ other = tcb ∧ place = index
  ongoing : ∀ tid, (state.threads tid).pc.part.inGc = true →
    ∃ call, history.calls tid = some call ∧ call.moved ≤ 1
  reports : ∀ report ∈ history.reports, report.Exact
  returns : ∀ tid, (state.threads tid).pc.part.inGc = true →
    ReturnsAlone tid state.shared (state.threads tid)
  moved : state.shared.globalEpoch.toNat = 1 + history.moved

/-- In every run whose events meet `allow`, retirement batches are ordered and collected
exactly. -/
def BatchesExact (Node : Type) (allow : State Node → Event Node → Prop) : Prop :=
  ∀ pair, ((ebr Node).withHistory collections).Reachable (fun pair => allow pair.1) pair →
    CollectedExactly pair.1 pair.2

/-! ## Logs -/

section Logs

variable {Key Value : Type} [DecidableEq Key] {log : List (Key × Value)} {key : Key}

@[simp] theorem entries_nil : entries ([] : List (Key × Value)) key = [] := rfl

@[simp] theorem entries_append (more : List (Key × Value)) :
    entries (log ++ more) key = entries log key ++ entries more key := by
  simp [entries]

/-- What is logged under one key. -/
theorem entries_map {Item : Type} (other : Key) (items : List Item) (value : Item → Value) :
    entries (items.map fun item => (other, value item)) key =
      if other = key then items.map value else [] := by
  by_cases heq : other = key
  · simp [entries, heq, List.filter_map, Function.comp_def]
  · simp [entries, heq, List.filter_map, Function.comp_def]

theorem entries_values (other : Key) (values : List Value) :
    entries (values.map fun value => (other, value)) key = if other = key then values else [] := by
  have hentries : entries (values.map fun value => (other, id value)) key = _ :=
    entries_map other values id
  rwa [List.map_id] at hentries

/-- A log whose values are replaced. -/
theorem entries_map_snd {Other : Type} (value : Value → Other) :
    entries (log.map fun entry => (entry.1, value entry.2)) key = (entries log key).map value := by
  simp [entries, List.filter_map, Function.comp_def]

theorem mem_entries {value : Value} : value ∈ entries log key ↔ (key, value) ∈ log := by
  simp [entries]

/-- A log without repeated values has no value twice under a key, and no value under two keys. -/
theorem nodup_iff_entries :
    (log.map Prod.snd).Nodup ↔ (∀ key, (entries log key).Nodup) ∧
      ∀ key other value, value ∈ entries log key → value ∈ entries log other → key = other := by
  simp only [mem_entries]
  -- The induction is on the log. Its first entry adds one value under one key.
  induction log with
  | nil => simp
  | cons entry log ih =>
      obtain ⟨first, value⟩ := entry
      have hfirst : ∀ key, entries ((first, value) :: log) key =
          (if first = key then [value] else []) ++ entries log key := fun key => by
        rw [← entries_values, ← entries_append]
        rfl
      rw [List.map_cons, List.nodup_cons, ih]
      constructor
      · rintro ⟨hnew, hkeys, hdistinct⟩
        have hout : ∀ key, (key, value) ∉ log := fun key hmem =>
          hnew (List.mem_map.mpr ⟨_, hmem, rfl⟩)
        refine ⟨fun key => ?_, fun key other shared hkey hother => ?_⟩
        · rw [hfirst]
          split
          · refine List.nodup_cons.mpr ⟨fun hmem => ?_, hkeys key⟩
            exact hout key (mem_entries.mp hmem)
          · exact hkeys key
        · rcases List.mem_cons.mp hkey with heq | hkey <;>
            rcases List.mem_cons.mp hother with heq' | hother
          · rw [(Prod.mk.inj heq).1, (Prod.mk.inj heq').1]
          · exact absurd ((Prod.mk.inj heq).2 ▸ hother) (hout other)
          · exact absurd ((Prod.mk.inj heq').2 ▸ hkey) (hout key)
          · exact hdistinct key other shared hkey hother
      · rintro ⟨hkeys, hdistinct⟩
        refine ⟨fun hmem => ?_, fun key => ?_, fun key other shared hkey hother =>
          hdistinct key other shared (List.mem_cons_of_mem _ hkey) (List.mem_cons_of_mem _ hother)⟩
        · obtain ⟨⟨key, _⟩, hin, rfl⟩ := List.mem_map.mp hmem
          obtain rfl := hdistinct first key _ List.mem_cons_self (List.mem_cons_of_mem _ hin)
          have hnodup := hkeys first
          rw [hfirst, if_pos rfl] at hnodup
          exact (List.nodup_cons.mp hnodup).1 (mem_entries.mpr hin)
        · have hnodup := hkeys key
          rw [hfirst] at hnodup
          exact (List.nodup_append.mp hnodup).2.1

end Logs

/-! ## The sweep -/

/-- Give the first batch some nodes back. -/
def refill (gone : List Node) : List (Batch Node) → List (Batch Node)
  | [] => []
  | first :: rest => { first with nodes := gone ++ first.nodes } :: rest

/-- A sweep that has come to an index: it has removed the first batches, deleted some nodes of the
first one that is left, and gone past batches that it keeps. -/
structure Sweeping (call : GcCall Node) (minEpoch : UInt64) (batches : List (Batch Node))
    (index : Nat) : Prop where
  progress : ∃ removed gone, call.before = removed ++ refill gone batches ∧
    (∀ batch ∈ removed, batch.epoch < minEpoch) ∧
    call.deleted = removed.flatMap Batch.nodes ++ gone ∧
    (gone = [] ∨ ∃ first rest, batches = first :: rest ∧ first.epoch < minEpoch)
  kept : ∀ batch ∈ batches.take index, ¬ batch.epoch < minEpoch

section Sweep

variable {call : GcCall Node} {minEpoch epoch : UInt64} {batches rest : List (Batch Node)}
  {batch : Batch Node} {index : Nat}

@[simp] theorem refill_nil (batches : List (Batch Node)) : refill [] batches = batches := by
  cases batches <;> rfl

/-- An old batch comes before all that are kept. -/
theorem Ordered.first_old (h : Ordered batches epoch)
    (hkept : ∀ batch ∈ batches.take index, ¬ batch.epoch < minEpoch)
    (hbatch : batches[index]? = some batch) (hold : batch.epoch < minEpoch) :
    index = 0 ∧ ∃ rest, batches = batch :: rest := by
  cases batches with
  | nil => simp at hbatch
  | cons first rest =>
      cases index with
      | zero => exact ⟨rfl, rest, by simpa using hbatch⟩
      | succ index =>
          -- The first batch is older than this one, and it was kept nevertheless.
          have hmem : batch ∈ rest := List.mem_of_getElem? (by simpa using hbatch)
          have hlt := (List.pairwise_cons.mp h.sorted).1 batch hmem
          exact absurd (UInt64.lt_trans hlt hold) (hkept first (by simp))

/-- A sweep begins at the first batch. -/
theorem Sweeping.start (hbefore : call.before = batches) (hdeleted : call.deleted = []) :
    Sweeping call minEpoch batches 0 :=
  ⟨⟨[], [], by simp [hbefore], by simp, by simp [hdeleted], .inl rfl⟩, by simp⟩

/-- A sweep that keeps its place and deletes the next node of the first batch. -/
theorem Sweeping.delete {node : Node} {nodes : List Node}
    (h : Sweeping call minEpoch (batch :: rest) 0) (hold : batch.epoch < minEpoch)
    (hnodes : batch.nodes = node :: nodes) :
    Sweeping { call with deleted := call.deleted ++ [node] } minEpoch
      ({ batch with nodes } :: rest) 0 := by
  obtain ⟨removed, gone, hbefore, hremoved, hdeleted, -⟩ := h.progress
  -- The node moves from the first batch to the nodes that are gone from it.
  refine ⟨⟨removed, gone ++ [node], ?_, hremoved, ?_, .inr ⟨_, rest, rfl, hold⟩⟩, by simp⟩
  · simpa [refill, hnodes] using hbefore
  · simp [hdeleted]

/-- A sweep that erases the first batch, all of whose nodes are deleted. -/
theorem Sweeping.erase (h : Sweeping call minEpoch (batch :: rest) 0)
    (hold : batch.epoch < minEpoch) (hnodes : batch.nodes = []) :
    Sweeping call minEpoch rest 0 := by
  obtain ⟨removed, gone, hbefore, hremoved, hdeleted, -⟩ := h.progress
  -- With the nodes that are gone from it, the batch is one of those that are removed.
  refine ⟨⟨removed ++ [{ batch with nodes := gone }], [], ?_, fun other hother => ?_, ?_,
    .inl rfl⟩, by simp⟩
  · have hfirst : refill gone (batch :: rest) = { batch with nodes := gone } :: rest := by
      simp [refill, hnodes]
    simp [hbefore, hfirst]
  · rcases List.mem_append.mp hother with hin | hlast
    · exact hremoved other hin
    · obtain rfl := List.mem_singleton.mp hlast
      exact hold
  · simpa using hdeleted

/-- A sweep that goes past a batch. -/
theorem Sweeping.skip (h : Sweeping call minEpoch batches index)
    (hbatch : batches[index]? = some batch) (hyoung : ¬ batch.epoch < minEpoch) :
    Sweeping call minEpoch batches (index + 1) :=
  ⟨h.progress, forall_take_succ h.kept hbatch hyoung⟩

/-- At the end of a sweep the batches below the minimum are gone, and only they. -/
theorem Sweeping.finish (h : Sweeping call minEpoch batches index)
    (hend : batches[index]? = none) (hmoved : call.moved ≤ 1) :
    GcReport.Exact { call with minEpoch, after := batches } := by
  have hkept := h.kept
  rw [List.take_of_length_le (List.getElem?_eq_none_iff.mp hend)] at hkept
  obtain ⟨removed, gone, hbefore, hremoved, hdeleted, hgone⟩ := h.progress
  -- Otherwise the first batch would be an old one, and the sweep has gone past it.
  have hempty : gone = [] := by
    refine hgone.resolve_right ?_
    rintro ⟨first, rest, rfl, hold⟩
    exact hkept first List.mem_cons_self hold
  subst hempty
  exact ⟨⟨removed, by simpa using hbefore, hremoved, by simpa using hdeleted⟩, hkept, hmoved⟩

end Sweep

/-! ## What a step does to the batches -/

/-- A step that leaves the batches and the deleted nodes as they are. -/
structure SameBatches (shared shared' : Shared Node) : Prop where
  batches : ∀ tcb, (shared'.tcbs tcb).retirementBatches = (shared.tcbs tcb).retirementBatches
  deleted : shared'.deleted = shared.deleted

/-- Everything that a step can do to the batches, unless the global epoch wraps around. -/
inductive BatchStep (shared : Shared Node) (thread : Thread Node) :
    Shared Node → Thread Node → Prop where
  | elsewhere {shared' : Shared Node} {thread' : Thread Node} : SameBatches shared shared' →
      shared'.globalEpoch = shared.globalEpoch → thread.pc.part = .elsewhere →
      thread'.pc.part = .elsewhere → BatchStep shared thread shared' thread'
  | load (node : Node) : thread.pc.part = .elsewhere →
      BatchStep shared thread shared { thread with pc := .retirePush node shared.globalEpoch }
  | push (node : Node) (currentEpoch : UInt64) (tcb : TcbId) (pc : Pc Node) :
      thread.pc = .retirePush node currentEpoch → thread.tlsTcb = some tcb →
      (pc = .idle ∨ pc = .gcLoad) →
      BatchStep shared thread
        (shared.setTcb tcb { shared.tcbs tcb with
          retirementBatches := pushRetired (shared.tcbs tcb).retirementBatches node currentEpoch })
        { thread with pc }
  | begin : thread.pc = .idle → BatchStep shared thread shared { thread with pc := .gcLoad }
  | scan (minEpoch : Option UInt64) (minEpoch' : UInt64) (pc : Pc Node) :
      thread.pc.part = .scanning minEpoch → pc.part = .scanning (some minEpoch') →
      BatchStep shared thread shared { thread with pc }
  | leave (minEpoch epoch : UInt64) : thread.pc.part = .scanning (some minEpoch) →
      (epoch = shared.globalEpoch ∨
        epoch = shared.globalEpoch + 1 ∧ shared.globalEpoch + 1 ≠ 0) →
      BatchStep shared thread { shared with globalEpoch := epoch } (beginSweep thread minEpoch)
  | sweep (minEpoch : UInt64) (index : Nat) (tcb : TcbId) {shared' : Shared Node}
      {thread' : Thread Node} : thread.pc = .gcSweep minEpoch index → thread.tlsTcb = some tcb →
      SweepStep shared thread tcb minEpoch index shared' thread' →
      BatchStep shared thread shared' thread'

section Steps

variable {shared shared' : Shared Node} {thread thread' : Thread Node} {tid : ThreadId}
  {action : Action Node}

/-- Replacing a block by one with the same batches. -/
theorem SameBatches.setTcb {tcb : TcbId} {block : ThreadControlBlock Node}
    (h : block.retirementBatches = (shared.tcbs tcb).retirementBatches) :
    SameBatches shared (shared.setTcb tcb block) := by
  refine ⟨fun other => ?_, rfl⟩
  by_cases heq : other = tcb
  · subst heq
    simpa [Shared.setTcb] using h
  · simp [Shared.setTcb, heq]

/-- A walk that goes on is still part of the scan. -/
theorem BatchStep.walk {minEpoch : Option UInt64} (minEpoch' : UInt64) (curr : Option TcbId)
    (hpart : thread.pc.part = .scanning minEpoch) :
    BatchStep shared thread shared (walkTo thread minEpoch' curr) := by
  cases curr <;> exact .scan minEpoch minEpoch' _ hpart rfl

/-- What the steps inside the functions do to the batches. -/
theorem RunStep.batches (hrun : RunStep shared tid thread shared' thread')
    (hwrap : ∀ minEpoch, thread.pc = .gcCas minEpoch shared.globalEpoch →
      shared.globalEpoch + 1 ≠ 0) : BatchStep shared thread shared' thread' := by
  cases hrun with
  | registerLock _ _ hpc | registerPublish _ _ hpc =>
      exact .elsewhere ⟨fun _ => rfl, rfl⟩ rfl (by rw [hpc]; rfl) rfl
  | registerLink _ _ hpc | unregisterActive _ hpc | unregisterEpoch _ hpc | enterStore _ _ hpc
  | exitStore _ hpc =>
      exact .elsewhere (.setTcb rfl) rfl (by rw [hpc]; rfl) rfl
  | registerBind tcb resume hpc =>
      exact .elsewhere ⟨fun _ => rfl, rfl⟩ rfl (by rw [hpc]; rfl) (afterRegister_part _ resume)
  | enterLoad hpc => exact .elsewhere ⟨fun _ => rfl, rfl⟩ rfl (by rw [hpc]; rfl) rfl
  | retireLoad node hpc => exact .load node (by rw [hpc]; rfl)
  | retirePush node currentEpoch tcb hpc htls =>
      refine .push node currentEpoch tcb _ hpc htls ?_
      split
      · exact .inr rfl
      · exact .inl rfl
  | gcLoad hpc => exact .scan none _ _ (by rw [hpc]; rfl) rfl
  | gcHead minEpoch hpc | gcNext minEpoch _ hpc =>
      exact .walk minEpoch _ (by rw [hpc]; rfl)
  | gcActive minEpoch _ hpc | gcInactive minEpoch _ hpc | gcLocal minEpoch _ hpc
  | gcGlobal minEpoch hpc =>
      exact .scan (some minEpoch) _ _ (by rw [hpc]; rfl) rfl
  | gcBehind minEpoch hpc =>
      exact .leave minEpoch shared.globalEpoch (by rw [hpc]; rfl) (.inl rfl)
  | gcCas minEpoch currentGlobal hpc =>
      -- The compare-and-swap fails if another thread has moved the epoch since the load.
      refine .leave minEpoch _ (by rw [hpc]; rfl) ?_
      split
      · next hsame =>
          subst hsame
          exact .inr ⟨rfl, hwrap minEpoch hpc⟩
      · exact .inl rfl
  | gcSweep minEpoch index tcb hpc htls hsweep =>
      exact .sweep minEpoch index tcb hpc htls (sweep_cases hsweep)

/-- What the calls do to the batches. A block that has not been allocated has none. -/
theorem CallStep.batches (hcall : CallStep shared thread action shared' thread')
    (hidle : thread.pc = .idle) (hfresh : (shared.tcbs shared.tcbCount).retirementBatches = []) :
    BatchStep shared thread shared' thread' := by
  have hpart : thread.pc.part = .elsewhere := by rw [hidle]; rfl
  have hsame : SameBatches shared shared := ⟨fun _ => rfl, rfl⟩
  cases hcall with
  | register | enterFirst | retireFirst =>
      -- The new block takes a place that had no batches before either.
      have hset : SameBatches shared (shared.setTcb shared.tcbCount {}) := .setTcb hfresh.symm
      exact .elsewhere ⟨hset.batches, rfl⟩ rfl hpart rfl
  | registered | unregistered | exitUnregistered | retireNull | run =>
      exact .elsewhere hsame rfl hpart hpart
  | unregister | retire => exact .elsewhere hsame rfl hpart rfl
  | enter => exact .elsewhere hsame rfl hpart (beginEnter_part thread)
  | exit =>
      refine .elsewhere hsame rfl hpart ?_
      dsimp only
      split <;> rfl
  | gc => exact .begin hidle

/-- What the actions of a thread do to the batches. -/
theorem act_batches (hact : act shared tid thread action = some (shared', thread'))
    (hfresh : (shared.tcbs shared.tcbCount).retirementBatches = [])
    (hwrap : action = .run → ∀ minEpoch, thread.pc = .gcCas minEpoch shared.globalEpoch →
      shared.globalEpoch + 1 ≠ 0) : BatchStep shared thread shared' thread' := by
  rcases act_steps hact with ⟨hrun, hstep⟩ | ⟨-, hidle, hstep⟩
  · exact hstep.batches (hwrap hrun)
  · exact hstep.batches hidle hfresh

theorem beginEnter_inHand (thread : Thread Node) : (beginEnter thread).pc.inHand = none := by
  unfold beginEnter
  dsimp only
  split <;> rfl

/-- A node in the hands of a call of `Retire` stays there until it is pushed. -/
theorem RunStep.inHand (hrun : RunStep shared tid thread shared' thread') :
    thread.pc.inHand.toList = thread.pc.part.pushed ++ thread'.pc.inHand.toList := by
  cases hrun with
  | registerLock _ resume hpc | registerLink _ resume hpc | registerPublish _ resume hpc =>
      rw [hpc]
      cases resume <;> rfl
  | registerBind tcb resume hpc =>
      rw [hpc]
      cases resume with
      | done | retire => rfl
      | enter => exact congrArg Option.toList (beginEnter_inHand _).symm
  | retirePush _ _ _ hpc =>
      rw [hpc]
      dsimp only
      split <;> rfl
  | gcHead _ hpc =>
      rw [hpc]
      cases shared.head <;> rfl
  | gcNext _ curr hpc =>
      rw [hpc]
      cases (shared.tcbs curr).next <;> rfl
  | gcBehind _ hpc | gcCas _ _ hpc =>
      rw [hpc]
      unfold beginSweep
      split <;> rfl
  | gcSweep _ _ _ hpc _ hsweep =>
      cases sweep_cases hsweep <;> simp [hpc, Pc.inHand, Pc.part, Part.pushed]
  | unregisterActive _ hpc | unregisterEpoch _ hpc | enterLoad hpc | enterStore _ _ hpc
  | exitStore _ hpc | retireLoad _ hpc | gcLoad hpc | gcActive _ _ hpc | gcInactive _ _ hpc
  | gcLocal _ _ hpc | gcGlobal _ hpc =>
      rw [hpc]
      rfl

/-- A call of `Retire` takes the node that it is passed. -/
theorem CallStep.inHand (hcall : CallStep shared thread action shared' thread')
    (hidle : thread.pc = .idle) : action.passed = thread'.pc.inHand.toList := by
  cases hcall with
  | register | enterFirst | retireFirst | unregister | retire | gc => rfl
  | registered | unregistered | exitUnregistered | retireNull | run => rw [hidle]; rfl
  | enter => exact congrArg Option.toList (beginEnter_inHand thread).symm
  | exit =>
      dsimp only
      split <;> rfl

/-- A node that is passed to `Retire` is in the hands of the call or pushed. -/
theorem act_inHand (hact : act shared tid thread action = some (shared', thread')) :
    thread.pc.inHand.toList ++ action.passed =
      thread.pc.part.pushed ++ thread'.pc.inHand.toList := by
  rcases act_steps hact with ⟨rfl, hrun⟩ | ⟨-, hidle, hcall⟩
  · simpa [Action.passed] using hrun.inHand
  · rw [hcall.inHand hidle, hidle]
    rfl

end Steps

end HotPath.Concurrency
