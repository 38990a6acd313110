import HotPath.Concurrency.ThreadBlocks

/-!
# Every call of `Gc` can run to its end

`Gc` follows the list of blocks, which is finite and only grows at its head, and then sweeps its
thread's batches, one after the other. `InsideGc.finishes` says how a thread inside `Gc` that runs
alone finishes the call, and `runs_gc` what a whole call does while no block shows an epoch. So a
thread inside `Gc` that runs alone returns, from every state of every run (`gc_returns`).
-/

namespace HotPath.Concurrency

open HotPath.Foundation

variable {Node : Type}

/-- The part of `Retire` or `Gc` that a thread is in. `Gc` scans until it has its minimum and has
tried to advance the epoch, and then sweeps. -/
inductive Part (Node : Type) where
  | elsewhere
  | pushing (node : Node) (currentEpoch : UInt64)
  | scanning (minEpoch : Option UInt64)
  | sweeping (minEpoch : UInt64) (index : Nat)

/-- The part of the function that a place belongs to. -/
def Pc.part : Pc Node → Part Node
  | .retirePush node currentEpoch => .pushing node currentEpoch
  | .gcLoad => .scanning none
  | .gcHead minEpoch | .gcActive minEpoch _ | .gcLocal minEpoch _ | .gcNext minEpoch _
  | .gcGlobal minEpoch | .gcCas minEpoch _ => .scanning (some minEpoch)
  | .gcSweep minEpoch index => .sweeping minEpoch index
  | _ => .elsewhere

/-- The parts that belong to `Gc`. -/
def Part.inGc : Part Node → Bool
  | .scanning _ | .sweeping _ _ => true
  | _ => false

/-- A thread that runs alone is idle after finitely many steps. -/
inductive ReturnsAlone (tid : ThreadId) : Shared Node → Thread Node → Prop where
  | idle {shared : Shared Node} {thread : Thread Node} : thread.pc = .idle →
      ReturnsAlone tid shared thread
  | step {shared shared' : Shared Node} {thread thread' : Thread Node} :
      run shared tid thread = some (shared', thread') → ReturnsAlone tid shared' thread' →
      ReturnsAlone tid shared thread

/-- The block that a scan visits. -/
def Pc.visited : Pc Node → Option TcbId
  | .gcActive _ curr | .gcLocal _ curr | .gcNext _ curr => some curr
  | _ => none

/-- What holds of a thread inside `Gc`: it visits a block of the list, and sweeps the batches of a
block of its own. -/
structure InsideGc (blocks : List TcbId) (thread : Thread Node) : Prop where
  visited : ∀ curr, thread.pc.visited = some curr → curr ∈ blocks
  bound : ∀ minEpoch index, thread.pc = .gcSweep minEpoch index → thread.tlsTcb ≠ none

/-! ## Running alone -/

/-- A thread takes its next step. -/
def OwnStep (tid : ThreadId) (before after : Shared Node × Thread Node) : Prop :=
  run before.1 tid before.2 = some after

/-- A thread that runs alone comes from one place to another. -/
abbrev RunsAlone (tid : ThreadId) :
    Shared Node × Thread Node → Shared Node × Thread Node → Prop :=
  Relation.ReflTransGen (OwnStep tid)

/-- The batches that a sweep leaves. -/
def surviving (minEpoch : UInt64) (batches : List (Batch Node)) : List (Batch Node) :=
  batches.filter fun batch => ¬ batch.epoch < minEpoch

/-- The nodes that a sweep deletes. -/
def expired (minEpoch : UInt64) (batches : List (Batch Node)) : List Node :=
  (batches.filter fun batch => batch.epoch < minEpoch).flatMap Batch.nodes

/-- Replace the batches of a block, and delete some nodes. -/
def Shared.collect (shared : Shared Node) (tcb : TcbId) (batches : List (Batch Node))
    (gone : List Node) : Shared Node :=
  { shared.setTcb tcb { shared.tcbs tcb with retirementBatches := batches } with
    deleted := shared.deleted ++ gone }

/-- A whole sweep of a thread with the given `tls_tcb`. -/
def Shared.sweepOwn (shared : Shared Node) (tlsTcb : Option TcbId) (minEpoch : UInt64) :
    Shared Node :=
  match tlsTcb with
  | some own => shared.collect own (surviving minEpoch (shared.tcbs own).retirementBatches)
      (expired minEpoch (shared.tcbs own).retirementBatches)
  | none => shared

/-- No block shows an epoch. -/
def Shared.Unannounced (shared : Shared Node) : Prop :=
  ∀ tcb, (shared.tcbs tcb).localEpoch = kEpochInactive

section Alone

variable {shared : Shared Node} {tid : ThreadId} {thread : Thread Node} {tcb : TcbId}
  {minEpoch : UInt64} {index : Nat}

/-- A thread that becomes idle returns. -/
theorem returns_of_runs {start final : Shared Node × Thread Node}
    (h : RunsAlone tid start final) (hidle : final.2.pc = .idle) :
    ReturnsAlone tid start.1 start.2 := by
  induction h using Relation.ReflTransGen.head_induction_on with
  | refl => exact .idle hidle
  | head hstep _ ih => exact .step hstep ih

theorem collect_collect (batches batches' : List (Batch Node)) (gone gone' : List Node) :
    (shared.collect tcb batches gone).collect tcb batches' gone' =
      shared.collect tcb batches' (gone ++ gone') := by
  simp [Shared.collect, Shared.setTcb]

@[simp] theorem collect_batches (batches : List (Batch Node)) (gone : List Node) :
    ((shared.collect tcb batches gone).tcbs tcb).retirementBatches = batches := by
  simp [Shared.collect, Shared.setTcb]

theorem collect_self (shared : Shared Node) (tcb : TcbId) :
    shared.collect tcb (shared.tcbs tcb).retirementBatches [] = shared := by
  simp [Shared.collect, Shared.setTcb]

/-- The sweep deletes the nodes of an old batch, and erases it. -/
theorem runs_sweepBatch {epoch : UInt64} {nodes : List Node} {kept rest : List (Batch Node)}
    (htls : thread.tlsTcb = some tcb) (hpc : thread.pc = .gcSweep minEpoch kept.length)
    (hold : epoch < minEpoch)
    (hbatches : (shared.tcbs tcb).retirementBatches = kept ++ ⟨epoch, nodes⟩ :: rest) :
    RunsAlone tid (shared, thread) (shared.collect tcb (kept ++ rest) nodes, thread) := by
  induction nodes generalizing shared with
  | nil =>
      refine .single ?_
      simp [OwnStep, run, hpc, htls, sweep, hbatches, hold, List.eraseIdx_append_of_length_le,
        Shared.collect, Shared.setTcb]
  | cons node nodes ih =>
      have hstep : OwnStep tid (shared, thread)
          (shared.collect tcb (kept ++ ⟨epoch, nodes⟩ :: rest) [node], thread) := by
        simp [OwnStep, run, hpc, htls, sweep, hbatches, hold, Shared.collect]
      refine .head hstep ?_
      have hrest := @ih (shared.collect tcb (kept ++ ⟨epoch, nodes⟩ :: rest) [node])
        (collect_batches _ _)
      rwa [collect_collect] at hrest

/-- The sweep deletes what the old batches hold, and leaves the others. -/
theorem runs_sweep {kept rest : List (Batch Node)} (htls : thread.tlsTcb = some tcb)
    (hbatches : (shared.tcbs tcb).retirementBatches = kept ++ rest) :
    RunsAlone tid (shared, { thread with pc := .gcSweep minEpoch kept.length })
      (shared.collect tcb (kept ++ surviving minEpoch rest) (expired minEpoch rest),
        { thread with pc := .idle }) := by
  induction rest generalizing shared kept with
  | nil =>
      refine .single ?_
      have hsame : shared.collect tcb kept [] = shared := by
        simpa [hbatches] using collect_self shared tcb
      simp [OwnStep, run, htls, sweep, hbatches, surviving, expired, hsame]
  | cons batch rest ih =>
      by_cases hold : batch.epoch < minEpoch
      · have hbatch : RunsAlone tid (shared, { thread with pc := .gcSweep minEpoch kept.length })
            (shared.collect tcb (kept ++ rest) batch.nodes,
              { thread with pc := .gcSweep minEpoch kept.length }) :=
          runs_sweepBatch htls rfl hold hbatches
        have hrest := @ih (shared.collect tcb (kept ++ rest) batch.nodes) kept
          (collect_batches _ _)
        rw [collect_collect] at hrest
        simpa [surviving, expired, hold] using hbatch.trans hrest
      · have hskip : OwnStep tid (shared, { thread with pc := .gcSweep minEpoch kept.length })
            (shared, { thread with pc := .gcSweep minEpoch (kept ++ [batch]).length }) := by
          simp [OwnStep, run, htls, sweep, hbatches, hold]
        have hrest := ih (hbatches.trans (List.append_cons ..))
        simpa [surviving, expired, hold, UInt64.not_lt.mp hold] using
          Relation.ReflTransGen.head hskip hrest

/-- The sweep over the batches of a thread's own block, if it has one. -/
theorem runs_beginSweep : RunsAlone tid (shared, beginSweep thread minEpoch)
    (shared.sweepOwn thread.tlsTcb minEpoch, { thread with pc := .idle }) := by
  cases htls : thread.tlsTcb with
  | none =>
      simp only [beginSweep, Shared.sweepOwn, htls]
      exact .refl
  | some own =>
      have hsweep : RunsAlone tid (shared, { thread with pc := .gcSweep minEpoch 0 })
          (shared.sweepOwn (some own) minEpoch, { thread with pc := .idle }) :=
        runs_sweep htls (List.nil_append _).symm
      rw [htls] at hsweep
      simpa only [beginSweep, htls] using hsweep

/-- After the walk `Gc` tries to advance the epoch if its minimum is the global epoch. -/
theorem runs_global : RunsAlone tid (shared, { thread with pc := .gcGlobal minEpoch })
    ({ shared with globalEpoch :=
        if minEpoch = shared.globalEpoch then shared.globalEpoch + 1 else shared.globalEpoch },
      beginSweep thread minEpoch) := by
  by_cases hglobal : minEpoch = shared.globalEpoch
  · have hload : OwnStep tid (shared, { thread with pc := .gcGlobal minEpoch })
        (shared, { thread with pc := .gcCas minEpoch shared.globalEpoch }) := by
      simp [OwnStep, run, hglobal]
    have hcas : OwnStep tid (shared, { thread with pc := .gcCas minEpoch shared.globalEpoch })
        ({ shared with globalEpoch := shared.globalEpoch + 1 }, beginSweep thread minEpoch) := by
      simp [OwnStep, run, beginSweep]
    rw [if_pos hglobal]
    exact .head hload (.single hcas)
  · rw [if_neg hglobal]
    refine .single ?_
    simp [OwnStep, run, hglobal, beginSweep]

/-- A visit to a block takes the minimum to the next one. It is the same if no block shows an
epoch. -/
theorem runs_visit {curr : TcbId} (hvisited : thread.pc.visited = some curr) :
    ∃ minEpoch, RunsAlone tid (shared, thread)
        (shared, walkTo thread minEpoch (shared.tcbs curr).next) ∧
      (shared.Unannounced → thread.pc.part = .scanning (some minEpoch)) := by
  have hnext : ∀ minEpoch, OwnStep tid (shared, { thread with pc := .gcNext minEpoch curr })
      (shared, walkTo thread minEpoch (shared.tcbs curr).next) := by
    intro minEpoch
    cases hnext : (shared.tcbs curr).next <;> simp [OwnStep, run, walkTo, hnext]
  have hlocal : ∀ minEpoch, ∃ minEpoch', RunsAlone tid
      (shared, { thread with pc := .gcLocal minEpoch curr })
      (shared, walkTo thread minEpoch' (shared.tcbs curr).next) ∧
      (shared.Unannounced → minEpoch' = minEpoch) := by
    intro minEpoch
    obtain ⟨minEpoch', hload, hsame⟩ : ∃ minEpoch', OwnStep tid
        (shared, { thread with pc := .gcLocal minEpoch curr })
        (shared, { thread with pc := .gcNext minEpoch' curr }) ∧
        (shared.Unannounced → minEpoch' = minEpoch) :=
      ⟨_, rfl, fun hquiet => if_neg fun hshown => hshown.1 (hquiet curr)⟩
    exact ⟨minEpoch', .head hload (.single (hnext minEpoch')), hsame⟩
  obtain ⟨tls, depth, pc⟩ := thread
  cases pc with
  | gcNext minEpoch other =>
      obtain rfl : other = curr := Option.some.inj hvisited
      exact ⟨minEpoch, .single (hnext minEpoch), fun _ => rfl⟩
  | gcLocal minEpoch other =>
      obtain rfl : other = curr := Option.some.inj hvisited
      obtain ⟨minEpoch', hruns, hsame⟩ := hlocal minEpoch
      exact ⟨minEpoch', hruns, fun hquiet => by rw [hsame hquiet]; rfl⟩
  | gcActive minEpoch other =>
      obtain rfl : other = curr := Option.some.inj hvisited
      by_cases hactive : (shared.tcbs other).active = true
      · obtain ⟨minEpoch', hruns, hsame⟩ := hlocal minEpoch
        refine ⟨minEpoch', .head ?_ hruns, fun hquiet => by rw [hsame hquiet]; rfl⟩
        simp [OwnStep, run, hactive]
      · refine ⟨minEpoch, .head ?_ (.single (hnext minEpoch)), fun _ => rfl⟩
        simp [OwnStep, run, hactive]
  | _ => cases hvisited

/-- A walk along a chain of blocks ends. -/
theorem runs_walk {start : Option TcbId} {ahead : List TcbId}
    (hchain : IsChain (fun tcb => (shared.tcbs tcb).next) start ahead) :
    ∃ minEpoch', RunsAlone tid (shared, walkTo thread minEpoch start)
        (shared, { thread with pc := .gcGlobal minEpoch' }) ∧
      (shared.Unannounced → minEpoch' = minEpoch) := by
  -- The induction is on the blocks ahead. The walk stores nothing, so they stay ahead.
  induction ahead generalizing start minEpoch with
  | nil =>
      obtain rfl : start = none := hchain
      exact ⟨minEpoch, .refl, fun _ => rfl⟩
  | cons curr rest ih =>
      obtain ⟨rfl, hrest⟩ := hchain
      obtain ⟨middle, hvisit, hsame⟩ : ∃ middle, RunsAlone tid
          (shared, walkTo thread minEpoch (some curr))
          (shared, walkTo (walkTo thread minEpoch (some curr)) middle (shared.tcbs curr).next) ∧
          (shared.Unannounced →
            (walkTo thread minEpoch (some curr)).pc.part = .scanning (some middle)) :=
        runs_visit rfl
      obtain ⟨final, hwalk, hsame'⟩ := @ih middle _ hrest
      refine ⟨final, hvisit.trans ?_, fun hquiet => ?_⟩
      · cases hnext : (shared.tcbs curr).next <;> simpa [walkTo, hnext] using hwalk
      · have hkept := hsame hquiet
        simp only [walkTo, Pc.part, Part.scanning.injEq, Option.some.injEq] at hkept
        rw [hsame' hquiet, hkept]

/-- A call of `Gc` from its walk on. Its minimum does not decrease if no block shows an epoch. -/
theorem runs_fromWalk {start : Option TcbId} {ahead : List TcbId}
    (hchain : IsChain (fun tcb => (shared.tcbs tcb).next) start ahead) :
    ∃ minEpoch', RunsAlone tid (shared, walkTo thread minEpoch start)
        (Shared.sweepOwn { shared with globalEpoch := if minEpoch' = shared.globalEpoch then
            shared.globalEpoch + 1 else shared.globalEpoch } thread.tlsTcb minEpoch',
          { thread with pc := .idle }) ∧
      (shared.Unannounced → minEpoch' = minEpoch) := by
  obtain ⟨minEpoch', hwalk, hsame⟩ := runs_walk hchain
  exact ⟨minEpoch', (hwalk.trans runs_global).trans runs_beginSweep, hsame⟩

/-- A call of `Gc` that runs alone while no block shows an epoch advances the global epoch and
collects every batch of an older one. -/
theorem runs_gc {blocks : List TcbId}
    (hchain : IsChain (fun tcb => (shared.tcbs tcb).next) shared.head blocks)
    (hquiet : shared.Unannounced) :
    RunsAlone tid (shared, { thread with pc := .gcLoad })
      (Shared.sweepOwn { shared with globalEpoch := shared.globalEpoch + 1 } thread.tlsTcb
        shared.globalEpoch, { thread with pc := .idle }) := by
  have hload : OwnStep tid (shared, { thread with pc := .gcLoad })
      (shared, { thread with pc := .gcHead shared.globalEpoch }) := by
    simp [OwnStep, run]
  have hhead : OwnStep tid (shared, { thread with pc := .gcHead shared.globalEpoch })
      (shared, walkTo thread shared.globalEpoch shared.head) := by
    cases hstart : shared.head <;> simp [OwnStep, run, walkTo, hstart]
  obtain ⟨minEpoch, hwalk, hsame⟩ := runs_fromWalk hchain
  rw [hsame hquiet, if_pos rfl] at hwalk
  exact .head hload (.head hhead hwalk)

/-- What the rest of a call of `Gc` does to the batches and to the epochs. -/
structure Collected (shared shared' : Shared Node) : Prop where
  batches : ∀ tcb, ∀ batch ∈ (shared.tcbs tcb).retirementBatches,
    batch ∈ (shared'.tcbs tcb).retirementBatches ∨ batch.nodes ⊆ shared'.deleted
  deleted : shared.deleted ⊆ shared'.deleted
  head : shared'.head = shared.head
  tcbs : ∀ tcb, (shared'.tcbs tcb).next = (shared.tcbs tcb).next ∧
    (shared'.tcbs tcb).localEpoch = (shared.tcbs tcb).localEpoch
  epoch : shared'.globalEpoch = shared.globalEpoch ∨
    shared'.globalEpoch = shared.globalEpoch + 1

theorem Collected.collect {kept rest : List (Batch Node)} {epoch : UInt64}
    (hbatches : (shared.tcbs tcb).retirementBatches = kept ++ rest)
    (hepoch : epoch = shared.globalEpoch ∨ epoch = shared.globalEpoch + 1) :
    Collected shared (Shared.collect { shared with globalEpoch := epoch } tcb
      (kept ++ surviving minEpoch rest) (expired minEpoch rest)) where
  batches := fun other batch hbatch => by
    by_cases heq : other = tcb
    · subst heq
      rw [hbatches] at hbatch
      rcases List.mem_append.mp hbatch with hkept | hrest
      · exact .inl (by simpa using .inl hkept)
      · by_cases hold : batch.epoch < minEpoch
        · refine .inr fun node hnode => List.mem_append_right _ ?_
          exact List.mem_flatMap.mpr ⟨batch, by simpa [hold] using hrest, hnode⟩
        · exact .inl (by simpa [surviving, UInt64.not_lt.mp hold] using .inr hrest)
    · exact .inl (by simpa [Shared.collect, Shared.setTcb, heq] using hbatch)
  deleted := List.subset_append_left _ _
  head := rfl
  tcbs := fun other => by
    by_cases heq : other = tcb
    · subst heq
      simp [Shared.collect, Shared.setTcb]
    · simp [Shared.collect, Shared.setTcb, heq]
  epoch := hepoch

/-- A thread that has nothing to sweep collects. -/
theorem Collected.quiet {epoch : UInt64}
    (hepoch : epoch = shared.globalEpoch ∨ epoch = shared.globalEpoch + 1) :
    Collected shared { shared with globalEpoch := epoch } :=
  ⟨fun _ _ => .inl, List.Subset.refl _, rfl, fun _ => ⟨rfl, rfl⟩, hepoch⟩

/-- A whole sweep collects. -/
theorem collected_sweepOwn {epoch : UInt64} (tlsTcb : Option TcbId)
    (hepoch : epoch = shared.globalEpoch ∨ epoch = shared.globalEpoch + 1) :
    Collected shared (Shared.sweepOwn { shared with globalEpoch := epoch } tlsTcb minEpoch) := by
  cases tlsTcb with
  | none => exact .quiet hepoch
  | some own => exact .collect (List.nil_append _).symm hepoch

/-- A sweep that has come to an index collects. -/
theorem finishes_sweep (thread : Thread Node) (htls : thread.tlsTcb = some tcb) :
    ∃ shared', RunsAlone tid (shared, { thread with pc := .gcSweep minEpoch index })
        (shared', { thread with pc := .idle }) ∧ Collected shared shared' := by
  by_cases hindex : index ≤ (shared.tcbs tcb).retirementBatches.length
  · have hsplit := (List.take_append_drop index (shared.tcbs tcb).retirementBatches).symm
    have hlength := List.length_take_of_le hindex
    have hruns : RunsAlone tid
        (shared, { thread with pc := .gcSweep minEpoch (List.length (List.take index _)) }) _ :=
      runs_sweep htls hsplit
    rw [hlength] at hruns
    exact ⟨_, hruns, .collect hsplit (.inl rfl)⟩
  · have hnone := List.getElem?_eq_none (Nat.le_of_not_le hindex)
    refine ⟨shared, .single ?_, .quiet (.inl rfl)⟩
    simp [OwnStep, run, htls, sweep, hnone]

/-- A call of `Gc` that goes on at a block, or is over with the walk, collects. -/
theorem finishes_walk {start : Option TcbId} {ahead : List TcbId} (thread : Thread Node)
    (minEpoch : UInt64) (hchain : IsChain (fun tcb => (shared.tcbs tcb).next) start ahead) :
    ∃ shared', RunsAlone tid (shared, walkTo thread minEpoch start)
        (shared', { thread with pc := .idle }) ∧ Collected shared shared' := by
  obtain ⟨minEpoch', hruns, -⟩ := runs_fromWalk hchain
  exact ⟨_, hruns, collected_sweepOwn _ (by split <;> simp)⟩

/-- A call of `Gc` that has finished its walk collects. -/
theorem finishes_cas (thread : Thread Node) (minEpoch currentGlobal : UInt64) :
    ∃ shared', RunsAlone tid (shared, { thread with pc := .gcCas minEpoch currentGlobal })
        (shared', { thread with pc := .idle }) ∧ Collected shared shared' := by
  have hcas : OwnStep tid (shared, { thread with pc := .gcCas minEpoch currentGlobal })
      ({ shared with globalEpoch :=
          if shared.globalEpoch = currentGlobal then currentGlobal + 1 else shared.globalEpoch },
        beginSweep thread minEpoch) := by
    simp [OwnStep, run, beginSweep]
  refine ⟨_, .head hcas runs_beginSweep, collected_sweepOwn _ ?_⟩
  split
  · next hsame => exact .inr (by rw [hsame])
  · exact .inl rfl

/-- A thread inside `Gc` that runs alone finishes the call. -/
theorem InsideGc.finishes {blocks : List TcbId} (h : InsideGc blocks thread)
    (hchain : IsChain (fun tcb => (shared.tcbs tcb).next) shared.head blocks)
    (hinside : thread.pc.part.inGc = true) :
    ∃ shared', RunsAlone tid (shared, thread) (shared', { thread with pc := .idle }) ∧
      Collected shared shared' := by
  have hvisit : ∀ curr, thread.pc.visited = some curr →
      ∃ shared', RunsAlone tid (shared, thread) (shared', { thread with pc := .idle }) ∧
        Collected shared shared' := by
    intro curr hcurr
    -- From the visited block on, the list is a chain as well.
    obtain ⟨before, after, hsplit⟩ := List.append_of_mem (h.visited curr hcurr)
    rw [hsplit] at hchain
    obtain ⟨minEpoch, hruns, -⟩ := runs_visit hcurr
    obtain ⟨shared', hrest, hcollected⟩ := finishes_walk thread minEpoch hchain.suffix.2
    exact ⟨shared', hruns.trans hrest, hcollected⟩
  obtain ⟨tls, depth, pc⟩ := thread
  cases pc with
  | gcLoad =>
      obtain ⟨shared', hrest, hcollected⟩ :=
        finishes_walk ⟨tls, depth, .gcHead shared.globalEpoch⟩ shared.globalEpoch hchain
      exact ⟨shared', .head rfl (.head rfl hrest), hcollected⟩
  | gcHead minEpoch =>
      obtain ⟨shared', hrest, hcollected⟩ :=
        finishes_walk ⟨tls, depth, .gcHead minEpoch⟩ minEpoch hchain
      exact ⟨shared', .head rfl hrest, hcollected⟩
  | gcActive _ curr | gcLocal _ curr | gcNext _ curr => exact hvisit curr rfl
  | gcGlobal minEpoch =>
      have hend : IsChain (fun tcb => (shared.tcbs tcb).next) none [] := rfl
      exact finishes_walk ⟨tls, depth, .idle⟩ minEpoch hend
  | gcCas minEpoch currentGlobal => exact finishes_cas ⟨tls, depth, .idle⟩ minEpoch currentGlobal
  | gcSweep minEpoch index =>
      obtain ⟨own, rfl⟩ := Option.ne_none_iff_exists'.mp (h.bound minEpoch index rfl)
      exact finishes_sweep ⟨some own, depth, .idle⟩ rfl
  | _ => cases hinside

/-- A thread inside `Gc` returns if it runs alone. -/
theorem InsideGc.returns {blocks : List TcbId} (h : InsideGc blocks thread)
    (hchain : IsChain (fun tcb => (shared.tcbs tcb).next) shared.head blocks)
    (hinside : thread.pc.part.inGc = true) : ReturnsAlone tid shared thread := by
  obtain ⟨shared', hruns, -⟩ := h.finishes hchain hinside
  exact returns_of_runs hruns rfl

end Alone

/-! ## Runs -/

section Steps

variable {shared shared' : Shared Node} {tid : ThreadId} {thread thread' : Thread Node}
  {blocks blocks' : List TcbId} {action : Action Node}

@[simp] theorem beginEnter_part (thread : Thread Node) :
    (beginEnter thread).pc.part = .elsewhere := by
  unfold beginEnter
  dsimp only
  split <;> rfl

@[simp] theorem afterRegister_part (thread : Thread Node) (resume : Resume Node) :
    (afterRegister thread resume).pc.part = .elsewhere := by
  cases resume with
  | done => rfl
  | enter => exact beginEnter_part thread
  | retire node => rfl

/-- The list has grown. -/
theorem InsideGc.mono (h : InsideGc blocks thread) (hsub : blocks ⊆ blocks') :
    InsideGc blocks' thread :=
  ⟨fun curr hcurr => hsub (h.visited curr hcurr), h.bound⟩

/-- A thread outside `Gc`. -/
theorem insideGc_of_outside (h : thread.pc.part.inGc = false) : InsideGc blocks thread := by
  constructor
  · intro curr hcurr
    cases hpc : thread.pc <;> simp_all [Pc.visited, Pc.part, Part.inGc]
  · intro minEpoch index hpc
    simp [hpc, Pc.part, Part.inGc] at h

/-- A thread that goes on at a block of the list, if at any. -/
theorem insideGc_scanning {pc : Pc Node} (hcurr : ∀ curr, pc.visited = some curr → curr ∈ blocks)
    {minEpoch : Option UInt64} (hpart : pc.part = .scanning minEpoch) :
    InsideGc blocks { thread with pc } := by
  refine ⟨hcurr, fun minEpoch index hpc => ?_⟩
  obtain rfl : pc = _ := hpc
  cases hpart

theorem insideGc_walkTo {minEpoch : UInt64} {start : Option TcbId}
    (hstart : ∀ curr, start = some curr → curr ∈ blocks) :
    InsideGc blocks (walkTo thread minEpoch start) := by
  cases start with
  | none => exact insideGc_scanning (by simp [Pc.visited]) rfl
  | some curr => exact insideGc_scanning (by simpa [Pc.visited] using hstart) rfl

theorem insideGc_beginSweep {minEpoch : UInt64} :
    InsideGc blocks (beginSweep thread minEpoch) := by
  unfold beginSweep
  split
  · next htls => exact ⟨by simp [Pc.visited], by simp [htls]⟩
  · exact insideGc_of_outside rfl

/-- A step inside a function stays on the list. -/
theorem RunStep.inside (hrun : RunStep shared tid thread shared' thread')
    (h : InsideGc blocks thread)
    (hchain : IsChain (fun tcb => (shared.tcbs tcb).next) shared.head blocks) :
    InsideGc blocks thread' := by
  cases hrun with
  | registerLock | registerLink | registerPublish | unregisterActive | unregisterEpoch | enterLoad
  | enterStore | exitStore | retireLoad =>
      exact insideGc_of_outside rfl
  | registerBind => exact insideGc_of_outside (congrArg Part.inGc (afterRegister_part ..))
  | retirePush =>
      split
      · exact insideGc_scanning (by simp [Pc.visited]) rfl
      · exact insideGc_of_outside rfl
  | gcLoad | gcGlobal => exact insideGc_scanning (by simp [Pc.visited]) rfl
  | gcHead minEpoch =>
      refine insideGc_walkTo fun curr hcurr => ?_
      rw [hcurr] at hchain
      obtain ⟨rest, rfl, -⟩ := hchain.of_some
      exact List.mem_cons_self
  | gcActive _ curr hpc | gcInactive _ curr hpc | gcLocal _ curr hpc =>
      have hmem : curr ∈ blocks := h.visited curr (by rw [hpc]; rfl)
      exact insideGc_scanning (by simpa [Pc.visited] using hmem) rfl
  | gcNext minEpoch curr hpc =>
      have hmem : curr ∈ blocks := h.visited curr (by rw [hpc]; rfl)
      exact insideGc_walkTo fun next hnext => hchain.next_mem hmem hnext
  | gcBehind | gcCas => exact insideGc_beginSweep
  | gcSweep minEpoch index own hpc htls hsweep =>
      cases sweep_cases hsweep with
      | finish => exact insideGc_of_outside rfl
      | delete | erase => exact h
      | skip => exact ⟨by simp [Pc.visited], by simp [htls]⟩

/-- A call visits no block yet. -/
theorem CallStep.inside (hcall : CallStep shared thread action shared' thread')
    (h : InsideGc blocks thread) : InsideGc blocks thread' := by
  cases hcall with
  | register | enterFirst | retireFirst | unregister | retire => exact insideGc_of_outside rfl
  | registered | unregistered | exitUnregistered | retireNull | run => exact h
  | enter => exact insideGc_of_outside (congrArg Part.inGc (beginEnter_part thread))
  | exit =>
      refine insideGc_of_outside ?_
      dsimp only
      split <;> rfl
  | gc => exact insideGc_scanning (by simp [Pc.visited]) rfl

end Steps

/-- Every thread inside `Gc` visits a block of the list. -/
theorem reachable_inside {allow : State Node → Event Node → Prop} {state : State Node}
    (h : (ebr Node).Reachable allow state) :
    ∃ blocks, ListInv state blocks ∧ ∀ tid, InsideGc blocks (state.threads tid) := by
  refine h.invariant
    (fun state => ∃ blocks, ListInv state blocks ∧ ∀ tid, InsideGc blocks (state.threads tid)) ?_ ?_
  · rintro _ rfl
    exact ⟨[], listInv_init, fun _ => insideGc_of_outside rfl⟩
  · intro state event next hinv _ hstep
    rcases step_thread hstep with ⟨-, rfl⟩ | ⟨tid, action, shared', thread', -, hact, rfl⟩
    · exact hinv
    · obtain ⟨blocks, hlist, hinside⟩ := hinv
      obtain ⟨blocks', hsub, hlist'⟩ := hlist.act hact
      have hown : InsideGc blocks thread' := by
        rcases act_steps hact with ⟨-, hrun⟩ | ⟨-, -, hcall⟩
        · exact hrun.inside (hinside tid) hlist.chain
        · exact hcall.inside (hinside tid)
      -- The list may have grown at its head. The blocks that others visit are still on it.
      refine ⟨blocks', hlist', fun other => ?_⟩
      by_cases heq : other = tid
      · subst heq
        simpa only [Function.update_self] using hown.mono hsub
      · simpa only [Function.update_of_ne heq] using (hinside other).mono hsub

/-- In every run, a thread inside `Gc` that runs alone returns. -/
theorem gc_returns {allow : State Node → Event Node → Prop} {state : State Node}
    (h : (ebr Node).Reachable allow state) {tid : ThreadId}
    (hinside : (state.threads tid).pc.part.inGc = true) :
    ReturnsAlone tid state.shared (state.threads tid) := by
  obtain ⟨blocks, hlist, hgc⟩ := reachable_inside h
  exact (hgc tid).returns hlist.chain hinside

end HotPath.Concurrency
